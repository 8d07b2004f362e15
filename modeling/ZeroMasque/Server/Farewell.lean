import ZeroMasque.Server.Emission
import ZeroMasque.Server.IdleSweep

/-! Which steps tell the client that its flow is gone. The idle sweep does; an
ended request stream and a 200 response that cannot be sent take the flow out of
the table and leave the server's half of the stream open. -/
namespace ZeroMasque.Server
open Foundation

private theorem ActionLog.turn {rules : RuleTable} {start : Instant} {log : List Step} {s : Server} {t : Step}
    (h : ActionLog rules start log s) (ht : t ∈ log) :
    (∃ pre, ActionLog rules start pre t.before) ∧ t.after = (t.before.act t.input).1 ∧
      t.emitted = (t.before.act t.input).2 := by
  obtain ⟨pre, post, heq⟩ := List.append_of_mem ht
  obtain ⟨hpre, -, hstep⟩ := Run.turn h heq
  have hact : t.before.act t.input = (t.after, t.emitted) := Option.some.inj hstep
  exact ⟨⟨_, hpre⟩, by rw [hact], by rw [hact]⟩

/-- The connection is open before the step, and the step does not replace it. -/
def StaysOpen (t : Step) (c : Scid) : Prop :=
  (∃ client, t.before.clients.lookup c = some client ∧ client.conn.closed = false) ∧
    ∀ e ∈ t.emitted, e.replaced ≠ some c

/-- A step takes a flow out of the table of a connection: the flow was there and
is no longer, or the step put it in and took it out again. -/
def Removes (t : Step) (c : Scid) (f : UInt64) : Prop :=
  ((t.before.flowAt c f).isSome ∧ t.after.flowAt c f = none) ∨ .closed c f ∈ t.emitted

/-- The server's half of the stream behind a flow is shut down or finished. -/
def Told (c : Scid) (f : UInt64) (es : List Effect) : Prop :=
  ∃ stream : UInt64, stream.toNat = f.toNat * 4 ∧
    ((∃ code, .shutdown c stream .write code ∈ es) ∨ ∃ headers, .respond c stream headers true true ∈ es)

/-- A step drops no flow of an open connection silently. -/
def Farewell (t : Step) : Prop := ∀ c f, StaysOpen t c → Removes t c f → Told c f t.emitted

/-- On an open connection no open flow's stream ends or is reset, and every
request that opens a flow has its 200 response sent. -/
def OnlyIdle (s : Server) : Action → Prop
  | .poll c (.finished stream) | .poll c (.reset stream _) =>
    ∀ client, s.clients.lookup c = some client → client.conn.closed = false →
      client.flows.lookup (stream / 4) = none
  | .poll c (.headers _ list answers) =>
    ∀ client, s.clients.lookup c = some client → client.conn.closed = false →
      Opens s.rules client.peer list answers.os → answers.sent = true
  | _ => True

private theorem closed_of_removes {t : Step} {c : Scid} {f : UInt64}
    (hafter : t.after = (t.before.act t.input).1) (hes : t.emitted = (t.before.act t.input).2)
    (hopen : StaysOpen t c) (h : Removes t c f) : .closed c f ∈ (t.before.act t.input).2 := by
  rcases h with ⟨hbefore, hgone⟩ | hmem
  · rw [hafter] at hgone
    refine closed_of_gone ?_ hbefore hgone
    rw [← hes]
    exact hopen.2
  · rwa [hes] at hmem

private theorem close_emits {s : Server} {c : Scid} {client : Client} (hc : s.clients.lookup c = some client)
    (g : UInt64) : (s.atDesk c fun _ desk => desk.close c g).2 =
      if (client.flows.lookup g).isSome then [.closed c g] else [] := by
  simp only [atDesk, hc, Desk.close]

private theorem handleConnectRequest_closed {rules : RuleTable} {peer : SocketAddr} {list : List Header}
    {answers : Answers} {c k : Scid} {stream f : UInt64} {desk : Desk}
    (h : .closed k f ∈ (handleConnectRequest rules peer c stream list answers desk).2) :
    Opens rules peer list answers.os ∧ answers.sent = false := by
  by_cases hopens : Opens rules peer list answers.os
  · obtain ⟨idleTimeout, socket, heq⟩ := handleConnectRequest_opens hopens c stream desk
    rw [heq, openFlow_effects] at h
    refine ⟨hopens, ?_⟩
    cases hsent : answers.sent with
    | false => rfl
    | true => simp [hsent] at h
  · obtain ⟨status, heq⟩ := handleConnectRequest_refuses hopens c stream desk
    simp [heq, respondStatus] at h

private theorem Emission.closed_cases {s : Server} {a : Action} {es : List Effect} {n : Nat}
    (h : Emission s a es n) {c : Scid} {f : UInt64} (hm : .closed c f ∈ es) :
    (∃ elapsed, a = .sweep elapsed) ∨ ∃ event, a = .poll c event := by
  cases h with
  | swept elapsed => exact .inl ⟨elapsed, rfl⟩
  | closed k event g hr =>
    cases List.mem_singleton.mp hm
    exact .inr ⟨event, rfl⟩
  | opened k stream list answers socket =>
    cases hsent : answers.sent with
    | true => simp [hsent] at hm
    | false =>
      have hm : c = k ∧ f = stream / 4 := by simpa [hsent] using hm
      obtain ⟨rfl, -⟩ := hm
      exact .inr ⟨_, rfl⟩
  | reaped => cases reap_effects hm
  | _ => simp at hm

/-- With the condition only the sweep closes flows, and it shuts their streams down. -/
private theorem told_of_onlyIdle {log : List Step} {s : Server} (htracked : Tracked log s) {a : Action}
    (ha : OnlyIdle s a) {c : Scid} {client : Client} (hc : s.clients.lookup c = some client)
    (hopen : client.conn.closed = false) {f : UInt64} (hm : .closed c f ∈ (s.act a).2) :
    Told c f (s.act a).2 := by
  have hclose (stream : UInt64) (hnone : client.flows.lookup (stream / 4) = none) :
      .closed c f ∉ (s.atDesk c fun _ desk => desk.close c (stream / 4)).2 := by
    rw [close_emits hc, hnone]
    simp
  rcases (act_emission s a).closed_cases hm with ⟨elapsed, rfl⟩ | ⟨event, rfl⟩
  · obtain ⟨flow, hflow, hgone⟩ := (closed_mem_sweep ..).mp hm
    obtain ⟨stream, hopening, hid, h4⟩ := htracked.streamed c f flow hflow
    refine ⟨stream, (stream_of_flow hid h4).2.1.symm, .inl ⟨0x100, ?_⟩⟩
    exact (htracked.shutdown_mem_sweep ..).mpr ⟨rfl, f, flow, hflow, hgone, hopening⟩
  · cases event with
    | headers stream list answers =>
      simp only [act, poll, atDesk, hc] at hm
      obtain ⟨hopens, hsent⟩ := handleConnectRequest_closed hm
      rw [ha client hc hopen hopens] at hsent
      cases hsent
    | finished stream => exact absurd hm (hclose stream (ha client hc hopen))
    | reset stream code => exact absurd hm (hclose stream (ha client hc hopen))
    | data stream => cases hm
    | other stream => cases hm

/-- A flow closed with nothing but its table entry is not told of. -/
private theorem not_told_close (c : Scid) (f : UInt64) : ¬ Told c f [.closed c f] := by
  rintro ⟨stream, -, ⟨code, hm⟩ | ⟨headers, hm⟩⟩ <;> simp at hm

/-- Without the condition a flow is dropped silently. -/
private theorem onlyIdle_of_farewell {s : Server} {a : Action}
    (h : Farewell ⟨s, a, (s.act a).1, (s.act a).2⟩) : OnlyIdle s a := by
  have hclose {c : Scid} {client : Client} (hc : s.clients.lookup c = some client)
      (hopen : client.conn.closed = false) (g : UInt64)
      (hact : s.act a = s.atDesk c fun _ desk => desk.close c g) : client.flows.lookup g = none := by
    by_contra hsome
    have hes : (s.act a).2 = [.closed c g] := by
      rw [hact, close_emits hc, if_pos (Option.isSome_iff_ne_none.mpr hsome)]
    refine not_told_close c g (hes ▸ h c g ⟨⟨client, hc, hopen⟩, ?_⟩ (.inr ?_))
    · simp [hes, Effect.replaced]
    · simp [hes]
  cases a with
  | poll c event =>
    cases event with
    | finished stream => exact fun client hc hopen => hclose hc hopen _ rfl
    | reset stream code => exact fun client hc hopen => hclose hc hopen _ rfl
    | headers stream list answers =>
      intro client hc hopen hopens
      obtain ⟨idleTimeout, socket, heq⟩ :=
        handleConnectRequest_opens hopens c stream ⟨client.flows, s.clock, s.channels⟩
      by_contra hsent
      have hes : (s.act (.poll c (.headers stream list answers))).2 =
          [.spawn c (stream / 4) s.channels socket,
            .opened c (stream / 4) stream (s.clock + answers.elapsed),
            .respond c stream acceptHeaders false answers.sent, .closed c (stream / 4)] := by
        simp only [act, poll, atDesk, hc, heq, openFlow_effects, if_neg hsent]
        rfl
      obtain ⟨stream', -, ⟨code, hm⟩ | ⟨headers, hm⟩⟩ := h c (stream / 4) ⟨⟨client, hc, hopen⟩, by
        simp [hes, Effect.replaced]⟩ (.inr (by simp [hes])) <;> simp [hes] at hm
    | data stream => trivial
    | other stream => trivial
  | _ => trivial

/-- In every run, no step drops a flow silently exactly if every step meets the condition. -/
theorem flows_dropped_aloud {rules : RuleTable} {start : Instant} {log : List Step} {s : Server}
    (h : ActionLog rules start log s) :
    (∀ t ∈ log, Farewell t) ↔ ∀ t ∈ log, OnlyIdle t.before t.input := by
  refine forall₂_congr fun t ht => ?_
  obtain ⟨⟨pre, hpre⟩, hafter, hes⟩ := h.turn ht
  constructor
  · intro hfarewell
    refine onlyIdle_of_farewell ?_
    rwa [← hafter, ← hes]
  · intro hidle c f hopen hremoves
    obtain ⟨client, hc, hclosed⟩ := hopen.1
    have hmem := closed_of_removes hafter hes hopen hremoves
    rw [hes]
    exact told_of_onlyIdle (ActionLog.tracked hpre) hidle hc hclosed hmem

/-- The sweep closes the idle flow and shuts its stream down. -/
theorem flows_dropped_aloud_idle :
    ∃ log s, ActionLog shadowedRules 100 log s ∧ (∀ t ∈ log, Farewell t) ∧
      ∃ t ∈ log, StaysOpen t forgotten ∧ Removes t forgotten 2 := by
  have hquiet : ∀ a ∈ oneFlow forgotten, OnRequestStream a ∧ ∀ s, OnlyIdle s a := by
    intro a ha
    refine ⟨onRequestStream_oneFlow forgotten a ha, fun s => ?_⟩
    simp only [oneFlow, List.mem_cons, List.not_mem_nil, or_false] at ha
    rcases ha with rfl | rfl | rfl
    · trivial
    · trivial
    · exact fun _ _ _ _ => rfl
  have hopened : Run (logged fun s a => some (act s a))
      (fun _ _ a => OnRequestStream a ∧ ∀ s, OnlyIdle s a) (new shadowedRules 100) _ _ :=
    Run.extend .init (oneFlow forgotten) (fun a ha _ _ => hquiet a ha) (by decide)
  have hsweep : OnRequestStream (.sweep (secs 30)) ∧ ∀ s, OnlyIdle s (.sweep (secs 30)) :=
    ⟨.of_none rfl, fun _ => trivial⟩
  have hswept := Run.next (.sweep (secs 30)) hopened hsweep rfl
  have hlog : ActionLog shadowedRules 100 _ _ := hswept.mono fun _ _ _ h => h.1
  refine ⟨_, _, hlog, (flows_dropped_aloud hlog).mpr fun t ht => ?_, _,
    List.mem_append_right _ List.mem_cons_self, ⟨⟨_, rfl, rfl⟩, by decide⟩, .inr (by decide)⟩
  obtain ⟨pre, post, heq⟩ := List.append_of_mem ht
  exact (Run.turn hswept heq).2.1.2 t.before

/-- The client ends its request stream; the server forgets the flow and says nothing. -/
theorem finished_flow_dropped_silently :
    ∃ log s, ActionLog shadowedRules 100 log s ∧ ∃ t ∈ log, StaysOpen t forgotten ∧
      Removes t forgotten 2 ∧ ¬ Told forgotten 2 t.emitted := by
  have hopened : ActionLog shadowedRules 100 _ _ :=
    Run.extend .init (oneFlow forgotten) (fun a ha _ _ => onRequestStream_oneFlow forgotten a ha) (by decide)
  have hfinished := Run.next (.poll forgotten (.finished 8)) hopened (.of_none rfl) rfl
  exact ⟨_, _, hfinished, _, List.mem_append_right _ List.mem_cons_self, ⟨⟨_, rfl, rfl⟩, by decide⟩,
    .inr (by decide), not_told_close forgotten 2⟩

end ZeroMasque.Server
