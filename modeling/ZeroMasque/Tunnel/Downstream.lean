import ZeroMasque.Tunnel.Attachment

/-! The way back from a target socket to a local source: the client delivers no
more than the session's tasks received. -/
namespace ZeroMasque.Tunnel
open Foundation Server

/-- Payloads received by the session's tasks from their target sockets. -/
def repliedOn : Mark → Option (UInt64 × Bytes)
  | .replied _ flow payload => some (flow, payload)
  | _ => none

/-- Replies in the queue for a connection. -/
def addressed (c : Scid) (tc : ToClient) : Option (UInt64 × Bytes) :=
  if tc.connId = c then some (tc.flowId, tc.payload) else none

/-- Replies in the queue for the session, wherever it is connected. -/
def waiting (f : UInt64) (t : Tunnel) : Multiset Bytes :=
  match t.link with
  | .live c => bag (keyed (addressed c) f) t.host.toClient
  | _ => 0

/-- Replies on their way to the session. -/
def inbound (f : UInt64) (t : Tunnel) : Multiset Bytes := bag (keyed carried f) t.down + waiting f t

/-- The queue of replies counts for less once the link is cut. -/
private theorem waiting_observe (f : UInt64) (t : Tunnel) {host : Host} (hq : host.toClient = t.host.toClient)
    (es : List HostEffect) : waiting f (t.observe host es) ≤ waiting f t := by
  simp only [waiting, observe]
  split
  · rename_i c hl
    split at hl
    · cases hl
    · rw [hl, hq]
  · exact Multiset.zero_le _

theorem datagram_served {t : Tunnel} {a : Action} (ha : ∀ tc, a ≠ .payload tc) :
    ((t.host.server.act a).2.map HostEffect.server).filterMap t.datagram = [] := by
  rw [List.filterMap_eq_nil_iff]
  intro e he
  obtain ⟨e, hmem, rfl⟩ := List.mem_map.mp he
  cases e with
  | dgramSend c bytes =>
    obtain ⟨tc, rfl⟩ := (act_emission t.host.server a).dgramSend hmem
    exact absurd rfl (ha tc)
  | _ => rfl

/-- A reply taken from the queue goes out as a datagram, or is dropped. -/
private theorem returned_inbound {t : Tunnel} {tc : ToClient} {rest : List ToClient} {host : Host}
    (hq : t.host.toClient = tc :: rest) (hrest : host.toClient = rest)
    (hsmall : tc.flowId.toNat < 2 ^ 62) {es : List Effect} {n : Nat}
    (hes : Emission t.host.server (.payload tc) es n) (f : UInt64) :
    inbound f (t.observe host (es.map .server)) ≤ inbound f t := by
  have hcarried : keyed carried f (Dgram.encode tc.flowId tc.payload) =
      keyed (addressed tc.connId) f tc := by
    simp [keyed, carried_encode hsmall, addressed]
  cases hes with
  | silent =>
    simp only [inbound, observe, waiting, List.map_nil, List.any_nil, List.filterMap_nil, List.append_nil,
      Bool.false_eq_true, if_false, hrest, hq]
    gcongr
    split
    · rw [bag_cons]
      exact Multiset.le_add_left _ _
    · exact le_refl _
  | returned =>
    simp only [inbound, observe, waiting, hrest, hq]
    cases hl : t.link with
    | live c =>
      by_cases hconn : tc.connId = c
      · subst hconn
        simp [cut, Effect.replaced, List.filterMap_cons, datagram, hl, hcarried, add_assoc]
      · simp [cut, Effect.replaced, List.filterMap_cons, datagram, hl, Ne.symm hconn, keyed, addressed, hconn]
    | _ => simp [cut, Effect.replaced, List.filterMap_cons, datagram, hl]

private theorem received_inbound {t : Tunnel} (h : Attached t) {channel : Nat} {task : Task}
    (ht : t.host.running channel = some task) (done : List (Bytes × Bool)) (f : UInt64) (c : Scid)
    (hl : t.link = .live c) :
    bag (keyed (addressed c) f) ((done.filter (!·.2)).map fun r => ⟨task.conn, task.flow, r.1⟩) ≤
      bag (keyed repliedOn f) ((done.map fun r => HostEffect.replied channel r.1 r.2).filterMap t.mark) := by
  obtain ⟨hget, hrun⟩ := Host.running_eq_some ht
  rw [bag_of_map, bag_filterMap, bag_of_map]
  refine (bag_filter_le _ _ _).trans (bag_le_bag fun r _ p hp => ?_)
  rw [keyed_eq_some, addressed, Option.ite_none_right_eq_some] at hp
  obtain ⟨hconn, hp⟩ := hp
  cases hp
  have hmine := h.running c channel task hl hget hrun hconn
  simp [mark, hmine, hget, keyed, repliedOn]

private theorem host_inbound {t : Tunnel} (h : Attached t) {i : HostAct} {host : Host}
    {es : List HostEffect} (htrans : Host.Transition t.host i host es) (f : UInt64) :
    inbound f (t.observe host es) ≤ inbound f t + bag (keyed repliedOn f) (es.filterMap t.mark) := by
  cases htrans with
  | served a ha =>
    refine le_trans (add_le_add (le_of_eq ?_) (waiting_observe f t rfl _)) (Multiset.le_add_right _ _)
    exact congrArg (bag (keyed carried f)) (by simp [observe, Host.serve, datagram_served ha])
  | returned tc rest hq =>
    refine le_trans ?_ (Multiset.le_add_right _ _)
    exact returned_inbound hq rfl (h.replies tc (by simp [hq])) (act_emission t.host.server (.payload tc)) f
  | forwarded channel sent task payload queue ht hq =>
    rw [observe_task t _ (by simp)]
    exact Multiset.le_add_right _ _
  | ended i channel task ht hwhy =>
    rw [observe_task t _ (by simp)]
    exact Multiset.le_add_right _ _
  | received channel results task ht =>
    rw [observe_task t _ (by intro e; split <;> simp)]
    simp only [inbound, waiting, add_assoc]
    gcongr
    cases hl : t.link with
    | live c =>
      dsimp only
      rw [bag_append, List.filterMap_append, bag_append]
      gcongr
      exact (received_inbound h ht _ f c hl).trans (Multiset.le_add_right _ _)
    | _ => exact Multiset.zero_le _

/-- What the session delivers it read from a datagram. -/
private theorem read_of_delivered {d : Dialed} {s : Session} (hc : Session.Coherent s) {a : SessionAct}
    {e : SessionEffect} (he : e ∈ (s.act d a).2) {x : UInt64 × Bytes}
    (hx : Session.deliveredOn e = some x) :
    ∃ bytes, a = .route bytes ∧ carried bytes = some x ∧ (s.act d a).2 = [e] := by
  have hemitted := Session.act_emitted hc d a
  generalize (s.act d a).2 = es at he hemitted
  cases hemitted with
  | delivered bytes parsed src hd hf =>
    cases List.mem_singleton.mp he
    cases hx
    exact ⟨bytes, rfl, by simp [carried, hd], rfl⟩
  | requested outcome _ hrequests =>
    obtain ⟨src, stream, rfl, -⟩ := hrequests e he
    cases hx
  | released stream list src st haccept hf hst =>
    obtain ⟨payload, -, rfl⟩ := List.mem_map.mp he
    cases hx
  | forwarded src data st f hst hest hid =>
    simp only [List.mem_cons, List.not_mem_nil, or_false] at he
    rcases he with rfl | rfl <;> cases hx
  | buffered src data =>
    cases List.mem_singleton.mp he
    cases hx
  | _ => cases he

/-- On a flow, an action of the session delivers at most the one datagram it reads. -/
theorem delivered_read {d : Dialed} {s : Session} (hc : Session.Coherent s) (a : SessionAct) (f : UInt64) :
    (s.act d a).2.filterMap (keyed Session.deliveredOn f) = [] ∨
      ∃ bytes, a = .route bytes ∧
        (s.act d a).2.filterMap (keyed Session.deliveredOn f) = (keyed carried f bytes).toList := by
  by_cases hex : ∃ e ∈ (s.act d a).2, ∃ x, Session.deliveredOn e = some x
  · obtain ⟨e, he, ⟨g, p⟩, hx⟩ := hex
    obtain ⟨bytes, rfl, hcarried, hes⟩ := read_of_delivered hc he hx
    refine .inr ⟨bytes, rfl, ?_⟩
    rw [hes]
    by_cases hg : g = f <;> simp [keyed, hx, hcarried, hg]
  · refine .inl (List.filterMap_eq_nil_iff.mpr fun e he => Option.eq_none_iff_forall_ne_some.mpr fun p hp => ?_)
    exact hex ⟨e, he, (f, p), keyed_eq_some.mp hp⟩

private theorem session_inbound {t t' : Tunnel} {d : Dialed} {a : SessionAct}
    (hc : Session.Coherent t.session) (hin : Fetched t a t') (f : UInt64) :
    bag (keyed (ofSession Session.deliveredOn) f) ((t'.session.act d a).2.map .session) +
      inbound f (t'.afterSession d a) ≤ inbound f t := by
  rw [hin.session_eq, bag_of_map]
  change bag (keyed Session.deliveredOn f) (t.session.act d a).2 + _ ≤ _
  rcases delivered_read (d := d) hc a f with hnone | ⟨bytes, rfl, hone⟩
  · rw [bag, hnone, Multiset.coe_nil, zero_add]
    cases hin with
    | datagram bytes hmem =>
      rw [inbound, inbound, ← bag_erase (keyed carried f) hmem, add_assoc]
      exact Multiset.le_add_left _ _
    | _ => exact le_refl _
  · obtain ⟨hmem, rfl⟩ := hin.datagram_mem
    have hread : (t.session.act d (.route bytes)).2.filterMap (keyed Session.deliveredOn f) =
        [bytes].filterMap (keyed carried f) := by
      rw [hone]
      cases hkey : keyed carried f bytes <;> simp [hkey]
    rw [inbound, inbound, ← bag_erase (keyed carried f) hmem, bag, hread, add_assoc]
    exact le_refl _

/-- What the client delivers was received by the session's tasks, and is delivered once. -/
theorem TunnelRun.delivered {d : Dialed} {rules : RuleTable} {start : Instant} {tr : List Mark} {t : Tunnel}
    (h : TunnelRun Unused d rules start tr t) :
    bag (ofSession Session.deliveredOn) tr ≤ bag repliedOn tr := by
  refine bag_le_of_keyed fun f => ?_
  have hbalance : bag (keyed (ofSession Session.deliveredOn) f) tr + inbound f t ≤
      bag (keyed repliedOn f) tr := by
    refine Run.balanced (inbound f) (by simp [inbound, waiting, new]) ?_ h
    intro tr t i t' ms hr hok hs
    have hattached := TunnelRun.attached hr
    cases step_turn hs with
    | host i t0 host es hin htrans =>
      have hbefore := hattached.taken hin
      obtain ⟨requests, up, rfl⟩ := hin.frame
      rw [bag_host_none, zero_add]
      exact host_inbound hbefore htrans f
    | attach scid dcid peer state hl =>
      have hnone : bag (keyed (addressed scid) f) t.host.toClient = 0 := by
        refine bag_eq_zero fun tc htc => ?_
        simp [keyed, addressed, (hok.drawn scid rfl).reply tc htc]
      simp [inbound, waiting, Host.serve, hnone, hl]
    | session a t0 hin =>
      rw [bag_session_none (g := repliedOn) fun _ => rfl, add_zero]
      exact session_inbound (TunnelRun.session hr).sound.1 hin f
  exact (Multiset.le_add_right _ _).trans hbalance

end ZeroMasque.Tunnel
