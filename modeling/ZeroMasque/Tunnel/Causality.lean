import ZeroMasque.Tunnel.Model

/-! No datagram overtakes the creation of its flow. The client sends on a flow
only after a response that accepts it, and the server inserts the flow before it
sends that response. -/
namespace ZeroMasque.Tunnel
open Foundation Server

/-- Whether a mark says that the server holds a flow, or that it does not. -/
def held (f : UInt64) : Mark → Option Bool
  | .inserted flow => if flow = f then some true else none
  | .removed flow => if flow = f then some false else none
  | _ => none

/-- A datagram is sent, and handled by the server, after its flow was inserted;
one without a flow comes after the flow was removed again. -/
def Ordered (pre : List Mark) : Mark → Prop
  | .session (.sendDatagram _ f _) => .inserted f ∈ pre
  | .reached f _ _ => .inserted f ∈ pre
  | .missed f => ∃ a b, pre = a ++ .inserted f :: b ∧ .removed f ∈ b
  | _ => True

private theorem Ordered.append {pre : List Mark} (ms : List Mark) {m : Mark} (h : Ordered pre m) :
    Ordered (pre ++ ms) m := by
  unfold Ordered at h ⊢
  split
  · exact List.mem_append_left _ h
  · exact List.mem_append_left _ h
  · obtain ⟨a, b, rfl, hb⟩ := h
    exact ⟨a, b ++ ms, by simp, List.mem_append_left _ hb⟩
  · trivial

/-- What holds between the two ends of the tunnel and the network. -/
structure Caused (tr : List Mark) (t : Tunnel) : Prop where
  responses : ∀ stream list, (stream, list) ∈ t.responses → Session.accepts list = true →
    .inserted (stream / 4) ∈ tr
  established : ∀ src st f, t.session.byAddr.lookup src = some st → st.established = true →
    st.flowId = some f → .inserted f ∈ tr
  up : ∀ bytes ∈ t.up, ∃ f p, bytes = Dgram.encode f p ∧ f.toNat < 2 ^ 62 ∧ .inserted f ∈ tr
  table : ∀ c, t.link = .live c → ∃ client, t.host.server.clients.lookup c = some client ∧
    ∀ f, (client.flows.lookup f).isSome = (latest (held f) tr).getD false
  unconnected : t.link = .unconnected → ∀ f, latest (held f) tr = none
  ordered : Throughout Ordered tr

private theorem Caused.init (rules : RuleTable) (start : Instant) : Caused [] (new rules start) where
  responses := by simp [new]
  established := by simp [new, Session.new]
  up := by simp [new]
  table := by simp [new]
  unconnected := by simp
  ordered := .nil _

/-- Taking something off the network leaves the rest justified. -/
private theorem Caused.taken {tr : List Mark} {t t' : Tunnel} {i : HostAct} (h : Caused tr t) (hin : Taken t i t') :
    Caused tr t' := by
  cases hin with
  | request c stream list answers hl hm => exact ⟨h.1, h.2, h.3, h.4, h.5, h.6⟩
  | datagram c bytes full hl hm =>
    exact ⟨h.1, h.2, fun bytes hb => h.up bytes (List.mem_of_mem_erase hb), h.4, h.5, h.6⟩
  | nothing i hd => exact h

private theorem Caused.fetched {tr : List Mark} {t t' : Tunnel} {a : SessionAct} (h : Caused tr t)
    (hin : Fetched t a t') : Caused tr t' := by
  cases hin with
  | response stream list hm =>
    exact ⟨fun stream list hr => h.responses stream list (List.mem_of_mem_erase hr), h.2, h.3, h.4, h.5, h.6⟩
  | datagram bytes hm => exact ⟨h.1, h.2, h.3, h.4, h.5, h.6⟩
  | nothing a hh hd => exact h

/-- Sending happens on established flows, or on one the session learns to be accepted. -/
private theorem inserted_of_sent {tr : List Mark} {t : Tunnel} (h : Caused tr t) (d : Dialed)
    {a : SessionAct} (hc : Session.Coherent t.session)
    (hread : ∀ stream list, a = .poll (.headers stream list) → Session.accepts list = true →
      .inserted (stream / 4) ∈ tr)
    {src : SocketAddr} {f : UInt64} {p : Bytes}
    (hmem : .sendDatagram src f p ∈ (t.session.act d a).2) : .inserted f ∈ tr := by
  have hemitted := Session.act_emitted hc d a
  generalize (t.session.act d a).2 = es at hemitted hmem
  cases hemitted with
  | forwarded src' data st f' hst hest hid =>
    simp only [List.mem_cons, reduceCtorEq, List.not_mem_nil, or_false, false_or] at hmem
    cases hmem
    exact h.established src st f hst hest hid
  | released stream list src' st haccept hf hst =>
    obtain ⟨payload, -, heq⟩ := List.mem_map.mp hmem
    cases heq
    exact hread stream list rfl haccept
  | requested outcome _ he => simpa using he _ hmem
  | _ => simp at hmem

private theorem Caused.session {tr : List Mark} {t : Tunnel} (h : Caused tr t) (d : Dialed) {a : SessionAct}
    (hc : Session.Coherent t.session)
    (hread : ∀ stream list, a = .poll (.headers stream list) → Session.accepts list = true →
      .inserted (stream / 4) ∈ tr)
    (hsmall : ∀ src f p, .sendDatagram src f p ∈ (t.session.act d a).2 → f.toNat < 2 ^ 62) :
    Caused (tr ++ (t.session.act d a).2.map .session) (t.afterSession d a) := by
  have hsent (src : SocketAddr) (f : UInt64) (p : Bytes)
      (he : .sendDatagram src f p ∈ (t.session.act d a).2) : .inserted f ∈ tr :=
    inserted_of_sent h d hc hread he
  have hquiet (f : UInt64) :
      latest (held f) (tr ++ (t.session.act d a).2.map .session) = latest (held f) tr := by
    rw [latest_append, (latest_eq_none_iff ..).mpr, Option.none_or]
    intro m hm
    obtain ⟨e, -, rfl⟩ := List.mem_map.mp hm
    rfl
  refine ⟨?_, ?_, ?_, ?_, ?_, ?_⟩
  · intro stream list hm haccept
    exact List.mem_append_left _ (h.responses stream list hm haccept)
  · intro src st f hst hest hid
    refine List.mem_append_left _ ?_
    rcases Session.act_established hc d a hst hest hid with
      ⟨st', hst', hest', hid'⟩ | ⟨stream, list, ha, haccept, rfl⟩
    · exact h.established src st' f hst' hest' hid'
    · exact hread stream list ha haccept
  · intro bytes hm
    rcases List.mem_append.mp hm with hm | hm
    · obtain ⟨f, p, heq, hlt, hins⟩ := h.up bytes hm
      exact ⟨f, p, heq, hlt, List.mem_append_left _ hins⟩
    · obtain ⟨e, he, hframed⟩ := List.mem_filterMap.mp hm
      cases e with
      | sendDatagram src f p =>
        cases hframed
        exact ⟨f, p, rfl, hsmall src f p he, List.mem_append_left _ (hsent src f p he)⟩
      | _ => cases hframed
  · intro c hl
    obtain ⟨client, hclient, hflows⟩ := h.table c hl
    exact ⟨client, hclient, fun f => (hflows f).trans (by rw [hquiet])⟩
  · intro hl f
    rw [hquiet]
    exact h.unconnected hl f
  · refine h.ordered.append (fun _ ms _ => Ordered.append ms) ?_
    intro m hm
    obtain ⟨e, he, rfl⟩ := List.mem_map.mp hm
    cases e with
    | sendDatagram src f p => exact hsent src f p he
    | _ => trivial

private theorem refusal_not_accepted : ∀ status ∈ [405, 501, 400, 404, 502],
    Session.accepts (statusHeaders status) = false := by decide

private theorem mark_held {t : Tunnel} {c : Scid} (hl : t.link = .live c) (f : UInt64) (e : Effect) :
    (t.mark (.server e)).bind (held f) = presence c f e := by
  cases e with
  | opened c' f' stream now | closed c' f' =>
    simp only [mark, presence, hl, Link.live.injEq]
    by_cases hc : c = c'
    · simp [hc, held]
    · simp [hc, Ne.symm hc]
  | _ =>
    simp only [mark, presence]
    try split
    all_goals rfl

/-- On a live link the marks tell the same about a flow as the server's effects. -/
private theorem latest_held {t : Tunnel} {c : Scid} (hl : t.link = .live c) (f : UInt64) (es : List Effect) :
    latest (held f) ((es.map HostEffect.server).filterMap t.mark) = latest (presence c f) es := by
  rw [List.filterMap_map, latest_filterMap]
  congr 1
  funext e
  exact mark_held hl f e

private theorem mark_held_none {t : Tunnel} {e : HostEffect} (f : UInt64)
    (h : ∀ c e', e = .server e' → t.link ≠ .live c) : (t.mark e).bind (held f) = none := by
  cases e with
  | server e' =>
    have hl (c : Scid) : t.link ≠ .live c := h c e' rfl
    cases e' <;> simp [mark, hl]
  | written channel payload sent | replied channel payload full =>
    simp only [mark]
    split
    · cases t.host.tasks[channel]? <;> rfl
    · rfl
  | ended channel => rfl

/-- Without the session's connection no mark speaks of its flows. -/
private theorem latest_held_none {t : Tunnel} {es : List HostEffect} (f : UInt64)
    (h : ∀ c e', .server e' ∈ es → t.link ≠ .live c) : latest (held f) (es.filterMap t.mark) = none := by
  rw [latest_filterMap, latest_eq_none_iff]
  intro e he
  exact mark_held_none f fun c e' heq => h c e' (heq ▸ he)

/-- A flow that was inserted and is not there has been removed since. -/
private theorem removed_since {tr : List Mark} {f : UInt64} (hins : .inserted f ∈ tr)
    (hnot : (latest (held f) tr).getD false = false) :
    ∃ a b, tr = a ++ .inserted f :: b ∧ .removed f ∈ b := by
  obtain ⟨a, b, rfl⟩ := List.append_of_mem hins
  refine ⟨a, b, rfl, ?_⟩
  rw [latest_append, latest_cons] at hnot
  cases hb : latest (held f) b with
  | none => simp [hb, held] at hnot
  | some x =>
    obtain rfl : x = false := by simpa [hb] using hnot
    obtain ⟨m, hm, hheld⟩ := exists_of_latest hb
    cases m with
    | removed f' =>
      simp only [held, Option.ite_none_right_eq_some] at hheld
      exact hheld.1 ▸ hm
    | inserted f' => simp [held] at hheld
    | _ => cases hheld

/-- A mark of the server's side is justified by the datagram it was read from. -/
private theorem Caused.mark {tr : List Mark} {t : Tunnel} {a : Action} (h : Caused tr t)
    (hread : ∀ c bytes full, a = .datagram c bytes full → t.link = .live c →
      ∃ f p, bytes = Dgram.encode f p ∧ f.toNat < 2 ^ 62 ∧ .inserted f ∈ tr)
    {e : Effect} (he : e ∈ (t.host.server.act a).2) {m : Mark} (hm : t.mark (.server e) = some m) :
    Ordered tr m := by
  have hemission := act_emission t.host.server a
  have hinserted {c : Scid} {bytes : Bytes} {full : Bool} {parsed : Dgram.Parsed} (hl : t.link = .live c)
      (ha : a = .datagram c bytes full) (hd : Dgram.decode bytes = some parsed) :
      .inserted parsed.flowId ∈ tr := by
    obtain ⟨f, p, rfl, hlt, hins⟩ := hread c bytes full ha hl
    rw [Dgram.decode_encode f hlt p] at hd
    cases hd
    exact hins
  cases e with
  | toTarget c f channel payload full now =>
    simp only [Tunnel.mark, Option.ite_none_right_eq_some, Option.some.injEq] at hm
    obtain ⟨hl, rfl⟩ := hm
    obtain ⟨bytes, parsed, flow, ha, hd, rfl, -⟩ := hemission.toTarget he
    exact hinserted hl ha hd
  | noFlow c f =>
    simp only [Tunnel.mark, Option.ite_none_right_eq_some, Option.some.injEq] at hm
    obtain ⟨hl, rfl⟩ := hm
    obtain ⟨bytes, full, parsed, ha, hd, rfl, hnone⟩ := hemission.noFlow he
    obtain ⟨client, hclient, hflows⟩ := h.table c hl
    rw [flowAt, hclient, Option.bind_some] at hnone
    refine removed_since (hinserted hl ha hd) ?_
    rw [← hflows, hnone]
    rfl
  | opened c f stream now | closed c f =>
    simp only [Tunnel.mark, Option.ite_none_right_eq_some, Option.some.injEq] at hm
    obtain ⟨-, rfl⟩ := hm
    trivial
  | _ => cases hm

/-- A new response that accepts its request comes with the insertion of the flow. -/
private theorem inserted_of_response {t : Tunnel} {a : Action} {stream : UInt64} {list : List Header}
    (hm : (stream, list) ∈ ((t.host.server.act a).2.map HostEffect.server).filterMap t.response)
    (haccept : Session.accepts list = true) :
    .inserted (stream / 4) ∈ ((t.host.server.act a).2.map HostEffect.server).filterMap t.mark := by
  rw [List.filterMap_map, List.mem_filterMap] at hm ⊢
  obtain ⟨e, he, hresponse⟩ := hm
  cases e with
  | respond c stream' headers fin sent =>
    simp only [Function.comp_apply, response, Option.ite_none_right_eq_some, Option.some.injEq,
      Prod.mk.injEq] at hresponse
    obtain ⟨⟨hl, -⟩, rfl, rfl⟩ := hresponse
    rcases (act_emission t.host.server a).respond he with ⟨status, hs, rfl⟩ | ⟨-, now, hopened⟩
    · rw [refusal_not_accepted status hs] at haccept
      cases haccept
    · exact ⟨_, hopened, by simp [Tunnel.mark, hl]⟩
  | _ => cases hresponse

/-- The session's connection stays in the table, with the flows the marks tell. -/
private theorem Caused.table_act {tr : List Mark} {t : Tunnel} (h : Caused tr t) (a : Action) {c : Scid}
    (hl : t.link = .live c)
    (hcut : ∀ e ∈ (t.host.server.act a).2.map HostEffect.server, t.cut e = false) :
    ∃ client, (t.host.server.act a).1.clients.lookup c = some client ∧
      ∀ f, (client.flows.lookup f).isSome = (latest (held f)
        (tr ++ ((t.host.server.act a).2.map HostEffect.server).filterMap t.mark)).getD false := by
  obtain ⟨client, hclient, hflows⟩ := h.table c hl
  have hkeep (e : Effect) (he : e ∈ (t.host.server.act a).2) : e.replaced ≠ some c := by
    intro hreplaced
    have hno := hcut (.server e) (List.mem_map_of_mem he)
    rw [(cut_live hl e).mpr hreplaced] at hno
    cases hno
  obtain ⟨client', hclient', hflows'⟩ := act_recorded t.host.server a hkeep client hclient
  refine ⟨client', hclient', fun f => ?_⟩
  rw [hflows', hflows, latest_append, latest_held hl]
  cases latest (presence c f) (t.host.server.act a).2 <;> rfl

/-- What the host does next may be marked in the order of causes. -/
private theorem Caused.hostMarks {tr : List Mark} {t : Tunnel} {i : HostAct} {host : Host} {es : List HostEffect}
    (h : Caused tr t) (htrans : Host.Transition t.host i host es)
    (hread : ∀ c bytes full, i = .server (.datagram c bytes full) → t.link = .live c →
      ∃ f p, bytes = Dgram.encode f p ∧ f.toNat < 2 ^ 62 ∧ .inserted f ∈ tr) :
    ∀ m ∈ es.filterMap t.mark, Ordered tr m := by
  intro m hm
  obtain ⟨e, he, hmark⟩ := List.mem_filterMap.mp hm
  cases e with
  | server e =>
    rcases htrans.server with ⟨a, -, rfl, hi⟩ | ⟨-, hnone⟩
    · refine h.mark ?_ (by simpa using he) hmark
      rintro c bytes full rfl hl
      rcases hi with rfl | ⟨tc, heq⟩
      · exact hread c bytes full rfl hl
      · cases heq
    · exact absurd he (hnone e)
  | written channel payload sent | replied channel payload full =>
    simp only [Tunnel.mark, Option.ite_none_right_eq_some, Option.map_eq_some_iff] at hmark
    obtain ⟨-, task, -, rfl⟩ := hmark
    trivial
  | ended channel => cases hmark

private theorem Caused.host {tr : List Mark} {t : Tunnel} {i : HostAct} {host : Host} {es : List HostEffect}
    (h : Caused tr t) (htrans : Host.Transition t.host i host es)
    (hread : ∀ c bytes full, i = .server (.datagram c bytes full) → t.link = .live c →
      ∃ f p, bytes = Dgram.encode f p ∧ f.toNat < 2 ^ 62 ∧ .inserted f ∈ tr) :
    Caused (tr ++ es.filterMap t.mark) (t.observe host es) := by
  have hserver := htrans.server
  refine ⟨?_, ?_, ?_, ?_, ?_, ?_⟩
  · intro stream list hm haccept
    rcases List.mem_append.mp hm with hm | hm
    · exact List.mem_append_left _ (h.responses stream list hm haccept)
    refine List.mem_append_right _ ?_
    rcases hserver with ⟨a, -, rfl, -⟩ | ⟨-, hnone⟩
    · exact inserted_of_response hm haccept
    · obtain ⟨e, he, hresponse⟩ := List.mem_filterMap.mp hm
      cases e with
      | server e => exact absurd he (hnone e)
      | _ => cases hresponse
  · intro src st f hst hest hid
    exact List.mem_append_left _ (h.established src st f hst hest hid)
  · intro bytes hm
    obtain ⟨f, p, heq, hlt, hins⟩ := h.up bytes hm
    exact ⟨f, p, heq, hlt, List.mem_append_left _ hins⟩
  · intro c hlive
    obtain ⟨hl, hcut⟩ := observe_live hlive
    rcases hserver with ⟨a, hact, rfl, -⟩ | ⟨hsame, hnone⟩
    · obtain ⟨client, hclient, hflows⟩ := h.table_act a hl hcut
      exact ⟨client, (congrArg (·.clients.lookup c) hact).trans hclient, hflows⟩
    · obtain ⟨client, hclient, hflows⟩ := h.table c hl
      refine ⟨client, (congrArg (·.clients.lookup c) hsame).trans hclient, fun f => ?_⟩
      rw [hflows, latest_append, latest_held_none f fun _ e he => absurd he (hnone e), Option.none_or]
  · intro hun f
    have hl := observe_unconnected hun
    rw [latest_append, h.unconnected hl f, latest_held_none f fun c _ _ => by simp [hl]]
    rfl
  · exact h.ordered.append (fun _ ms _ => Ordered.append ms) (h.hostMarks htrans hread)

private theorem Caused.attach {tr : List Mark} {t : Tunnel} (h : Caused tr t) (scid : Scid) (dcid : Bytes)
    (peer : SocketAddr) (state : Conn) (hl : t.link = .unconnected) :
    Caused tr { t with host := (t.host.serve (.accept scid dcid peer state)).1, link := .live scid } := by
  refine ⟨h.responses, h.established, h.up, ?_, by simp, h.ordered⟩
  rintro c ⟨⟩
  refine ⟨⟨state, false, ∅, peer⟩, by simp [Host.serve, act, accept], fun f => ?_⟩
  rw [h.unconnected hl f]
  rfl

private theorem TunnelRun.caused {fresh : Tunnel → Scid → Prop} {d : Dialed} {rules : RuleTable} {start : Instant}
    {tr : List Mark} {t : Tunnel} (h : TunnelRun fresh d rules start tr t) : Caused tr t := by
  refine Run.invariant (P := Caused) (.init rules start) ?_ h
  intro tr t i t' ms hr ih hok hs
  have hrun := TunnelRun.session hr
  have hnext := TunnelRun.session (.next i hr hok hs)
  cases step_turn hs with
  | host i t0 host es hin htrans =>
    refine (ih.taken hin).host htrans fun c bytes full heq hl => ?_
    subst heq
    obtain ⟨requests, up, heq⟩ := hin.frame
    exact ih.up bytes (hin.datagram_mem (by simpa [heq] using hl)).1
  | attach scid dcid peer state hl =>
    rw [List.append_nil]
    exact ih.attach scid dcid peer state hl
  | session a t0 hin =>
    rw [seen_append, seen_session] at hnext
    refine (ih.fetched hin).session d (hin.session_eq ▸ hrun.sound.1) ?_ ?_
    · rintro stream list rfl haccept
      exact ih.responses stream list hin.response_mem haccept
    · intro src f p hmem
      exact (hnext.sources.sent src f p (List.mem_append_right _ hmem)).small

/-- In every run, whatever the network loses, delays or reorders, a datagram of
the session meets its flow or the flow has been removed since its insertion. -/
theorem datagrams_follow_insertion {d : Dialed} {rules : RuleTable} {start : Instant} {tr : List Mark}
    {t : Tunnel} (h : TunnelRun (fun _ _ => True) d rules start tr t) : Throughout Ordered tr :=
  (TunnelRun.caused h).ordered

/-- Of two datagrams on one flow the second arrives after the stream was finished. -/
theorem datagrams_follow_insertion_late :
    ∃ tr t, TunnelRun (fun _ _ => True) home shadowedRules 100 tr t ∧ Throughout Ordered tr ∧
      .reached 0 0 [1] ∈ tr ∧ .missed 0 ∈ tr := by
  have hdialed : TunnelRun (fun _ _ => True) home shadowedRules 100 _ _ :=
    .next (.attach ours [1] (.v4 0x01010101 4000) ⟨true, false, none⟩) .init ⟨by simp, by simp⟩ rfl
  have hasked := (TunnelRun.extend hdialed [.session (.localDatagram app [1])] (by decide) (by decide)).open
    app (by decide)
  have hlate := TunnelRun.extend hasked
    [serveFirst (connectHeaders home), .session (.poll (.headers 0 acceptHeaders)),
      .session (.localDatagram app [2]),
      .host (.server (.datagram ours (Dgram.encode 0 [1]) false)),
      .host (.server (.poll ours (.finished 0))),
      .host (.server (.datagram ours (Dgram.encode 0 [2]) false))]
    (by decide) (by decide)
  exact ⟨_, _, hlate, datagrams_follow_insertion hlate, by decide, by decide⟩

end ZeroMasque.Tunnel
