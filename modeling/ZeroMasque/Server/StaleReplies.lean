import ZeroMasque.Foundation.Logs
import ZeroMasque.Server.Staffing

/-! Replies from targets wait in one queue while their flows come and go. The
server sends each to the client without looking whether its flow is still open,
so none is sent on a closed flow as long as no flow closes with replies waiting
and no task of a closed flow goes on queueing. -/
namespace ZeroMasque.Host
open Foundation Server

/-- Runs of the host, every step on record. -/
abbrev HostLog (ok : Host → HostAct → Prop) (rules : RuleTable) (start : Instant) :
    List (Turn Host HostAct HostEffect) → Host → Prop :=
  Run (logged step) (fun _ h i => ok h i) (new rules start)

/-- Every datagram a step sends to a client carries the id of a flow that the
connection has open at that moment. -/
def RepliesOnOpenFlows (t : Turn Host HostAct HostEffect) : Prop :=
  ∀ c bytes, .server (.dgramSend c bytes) ∈ t.emitted →
    ∃ parsed, Dgram.decode bytes = some parsed ∧ (t.before.server.flowAt c parsed.flowId).isSome

/-- No flow closes while replies for it wait, a task queues a payload only while
its flow is open or its connection is gone, and no new connection gets the id
that a waiting reply bears. -/
structure Orderly (h : Host) (i : HostAct) : Prop where
  closings : ∀ h' es, h.step i = some (h', es) → ∀ tc ∈ h.toClient,
    .server (.closed tc.connId tc.flowId) ∉ es
  receipts : ∀ channel results t payload, i = .receive channel results → h.running channel = some t →
    (payload, false) ∈ (readLoop (results.take recvBatchLen)).1 → (h.server.clients.lookup t.conn).isSome →
    (h.server.flowAt t.conn t.flow).isSome
  ids : ∀ scid dcid peer state, i = .server (.accept scid dcid peer state) →
    ∀ tc ∈ h.toClient, tc.connId ≠ scid

/-- Every waiting reply is for an open flow or for a connection that is gone. -/
structure Current (h : Host) : Prop where
  numbered : Numbered h
  tasks : ∀ t ∈ h.tasks, t.flow.toNat < 2 ^ 62
  ids : ∀ tc ∈ h.toClient, tc.flowId.toNat < 2 ^ 62
  flows : ∀ tc ∈ h.toClient, (h.server.clients.lookup tc.connId).isSome →
    (h.server.flowAt tc.connId tc.flowId).isSome

private theorem Current.tasks_serve {h : Host} (hc : Current h) (a : Action) :
    ∀ t ∈ (h.serve a).1.tasks, t.flow.toNat < 2 ^ 62 := by
  intro t ht
  obtain ⟨channel, hget⟩ := List.mem_iff_getElem?.mp ht
  rcases serve_task hc.numbered hget with ⟨t', ht', queue, rfl⟩ | ⟨-, ⟨stream, hflow⟩, -⟩
  · exact hc.tasks t' (List.mem_of_getElem? ht')
  · rw [hflow]
    exact Dgram.quarter_lt stream

/-- An action that closes no flow with replies waiting leaves the rest of the
queue current. -/
private theorem Current.serve {h : Host} (hc : Current h) (a : Action) (queue : List ToClient)
    (hq : queue ⊆ h.toClient)
    (hclosings : ∀ tc ∈ queue, .closed tc.connId tc.flowId ∉ (h.server.act a).2)
    (hids : ∀ scid dcid peer state, a = .accept scid dcid peer state → ∀ tc ∈ queue, tc.connId ≠ scid) :
    Current { (h.serve a).1 with toClient := queue } := by
  refine ⟨hc.numbered.serve a, hc.tasks_serve a, fun tc htc => hc.ids tc (hq htc), ?_⟩
  intro tc htc hconn
  rcases connection_origin hconn with ⟨dcid, peer, state, rfl⟩ | ⟨hbefore, hkeep⟩
  · exact absurd rfl (hids _ dcid peer state rfl tc htc)
  · refine Option.isSome_iff_ne_none.mpr fun hgone => hclosings tc htc ?_
    exact closed_of_gone hkeep (hc.flows tc (hq htc) hbefore) hgone

/-- A step of a task that queues nothing changes nothing here. -/
private theorem Current.task {h : Host} (hc : Current h) {channel : Nat} {t u : Task}
    (ht : h.running channel = some t) (hflow : u.flow = t.flow) (replies : List ToClient)
    (hids : ∀ tc ∈ replies, tc.connId = t.conn ∧ tc.flowId = t.flow)
    (hflows : replies ≠ [] → (h.server.clients.lookup t.conn).isSome →
      (h.server.flowAt t.conn t.flow).isSome) :
    Current { h with tasks := h.tasks.set channel u, toClient := h.toClient ++ replies } := by
  have hsmall := hc.tasks t (List.mem_of_getElem? (running_eq_some ht).1)
  refine ⟨?_, ?_, ?_, ?_⟩
  · rw [Numbered, List.length_set]
    exact hc.numbered
  · intro v hv
    rcases List.mem_or_eq_of_mem_set hv with hold | rfl
    · exact hc.tasks v hold
    · rwa [hflow]
  · intro tc htc
    rcases List.mem_append.mp htc with hold | hnew
    · exact hc.ids tc hold
    · rwa [(hids tc hnew).2]
  · intro tc htc hconn
    rcases List.mem_append.mp htc with hold | hnew
    · exact hc.flows tc hold hconn
    · rw [(hids tc hnew).1, (hids tc hnew).2]
      rw [(hids tc hnew).1] at hconn
      exact hflows (List.ne_nil_of_mem hnew) hconn

/-- A reply taken from the queue closes no flow. -/
private theorem payload_closes_nothing (s : Server) (tc : ToClient) (c : Scid) (f : UInt64) :
    .closed c f ∉ (s.act (.payload tc)).2 := by
  have hemission := act_emission s (.payload tc)
  generalize (s.act (.payload tc)).2 = es at hemission
  generalize (s.act (.payload tc)).1.channels = n at hemission
  cases hemission <;> simp

private theorem Current.step {h h' : Host} {i : HostAct} {es : List HostEffect} (hc : Current h)
    (hi : Orderly h i) (hs : h.step i = some (h', es)) : Current h' := by
  have hclosings := hi.closings h' es hs
  cases step_transition hs with
  | served a ha =>
    refine hc.serve a h.toClient (List.Subset.refl _) ?_ ?_
    · intro tc htc hmem
      exact hclosings tc htc (List.mem_map.mpr ⟨_, hmem, rfl⟩)
    · rintro scid dcid peer state rfl
      exact hi.ids scid dcid peer state rfl
  | returned tc rest hq =>
    refine hc.serve (.payload tc) rest (by simp [hq]) ?_ nofun
    intro tc' _
    exact payload_closes_nothing h.server tc _ _
  | forwarded channel sent t payload queue ht hq =>
    have hnext := hc.task (u := { t with queue := queue }) ht rfl [] (by simp) (by simp)
    rwa [List.append_nil] at hnext
  | ended i channel t ht hwhy =>
    have hnext := hc.task (u := { t with running := false }) ht rfl [] (by simp) (by simp)
    rwa [List.append_nil] at hnext
  | received channel results t ht =>
    refine hc.task (u := { t with running := (readLoop (results.take recvBatchLen)).2 }) ht rfl _ ?_ ?_
    · intro tc htc
      obtain ⟨r, -, rfl⟩ := List.mem_map.mp htc
      exact ⟨rfl, rfl⟩
    · intro hne
      obtain ⟨tc, htc⟩ := List.exists_mem_of_ne_nil _ hne
      obtain ⟨⟨payload, full⟩, hread, -⟩ := List.mem_map.mp htc
      obtain ⟨hread, hqueued⟩ := List.mem_filter.mp hread
      obtain rfl : full = false := by simpa using hqueued
      exact hi.receipts channel results t payload rfl ht hread

/-- From a current state only open flows are replied on. -/
private theorem Current.replies {h h' : Host} {i : HostAct} {es : List HostEffect} (hc : Current h)
    (hs : h.step i = some (h', es)) : RepliesOnOpenFlows ⟨h, i, h', es⟩ := by
  intro c bytes hmem
  cases step_transition hs with
  | served a ha =>
    obtain ⟨e, he, heq⟩ := List.mem_map.mp hmem
    cases heq
    obtain ⟨tc, rfl⟩ := (act_emission h.server a).dgramSend he
    exact absurd rfl (ha tc)
  | returned tc rest hq =>
    obtain ⟨e, he, heq⟩ := List.mem_map.mp hmem
    cases heq
    have htc : tc ∈ h.toClient := by simp [hq]
    cases hconn : h.server.clients.lookup tc.connId with
    | none => simp [act, onTargetPayload, atDesk, hconn] at he
    | some client =>
      simp only [act, onTargetPayload, atDesk, hconn, List.mem_cons, reduceCtorEq, List.not_mem_nil,
        or_false] at he
      cases he
      refine ⟨_, Dgram.decode_encode tc.flowId (hc.ids tc htc) tc.payload, ?_⟩
      exact hc.flows tc htc (by simp [hconn])
  | forwarded channel sent t payload queue ht hq => simp at hmem
  | ended i channel t ht hwhy => simp at hmem
  | received channel results t ht =>
    rcases List.mem_append.mp hmem with hread | hended
    · obtain ⟨r, -, heq⟩ := List.mem_map.mp hread
      cases heq
    · split at hended <;> simp at hended

/-- In every orderly run every reply goes out on a flow that is open. -/
theorem replies_on_open_flows {rules : RuleTable} {start : Instant}
    {log : List (Turn Host HostAct HostEffect)} {h : Host} (hr : HostLog Orderly rules start log h) :
    ∀ t ∈ log, RepliesOnOpenFlows t := by
  have hcurrent {log : List (Turn Host HostAct HostEffect)} {h : Host}
      (hr : HostLog Orderly rules start log h) : Current h := by
    refine Run.invariant (P := fun _ h => Current h) ⟨?_, ?_, ?_, ?_⟩ ?_ hr
    · exact rfl
    · simp [new]
    · simp [new]
    · simp [new]
    · intro log h i h' ts _ ih hi hs
      obtain ⟨es, hstep, rfl⟩ := logged_eq_some hs
      exact ih.step hi hstep
  intro t ht
  obtain ⟨pre, post, heq⟩ := List.append_of_mem ht
  obtain ⟨hpre, -, hstep⟩ := Run.turn hr heq
  exact (hcurrent hpre).replies hstep

/-- A client that leaves before its answer is there. -/
def hasty : Scid := ⟨List.replicate 16 6, rfl⟩

private theorem Orderly.reply (h : Host) : Orderly h .reply := by
  refine ⟨?_, nofun, nofun⟩
  intro h' es hs tc _ hmem
  cases step_transition hs with
  | returned tc' rest hq =>
    obtain ⟨e, he, heq⟩ := List.mem_map.mp hmem
    cases heq
    exact payload_closes_nothing h.server tc' _ _ he
  | ended _ channel t ht hwhy => simp at hmem

private theorem Orderly.server {h : Host} (hq : h.toClient = []) (a : Action) : Orderly h (.server a) := by
  refine ⟨?_, nofun, ?_⟩ <;> simp [hq]

private theorem Orderly.receive {h : Host} (hq : h.toClient = []) {channel : Nat} {t : Task}
    (ht : h.running channel = some t) (hopen : (h.server.flowAt t.conn t.flow).isSome)
    (results : List RecvResult) : Orderly h (.receive channel results) := by
  refine ⟨by simp [hq], ?_, nofun⟩
  rintro _ _ t' _ ⟨⟩ ht' - -
  obtain rfl : t = t' := Option.some.inj (ht.symm.trans ht')
  exact hopen

theorem replies_on_open_flows_prompt :
    ∃ log h, HostLog Orderly shadowedRules 100 log h ∧ (∀ t ∈ log, RepliesOnOpenFlows t) ∧
      ∃ t ∈ log, .server (.dgramSend hasty (Dgram.encode 2 [1])) ∈ t.emitted := by
  have haccepted : HostLog Orderly shadowedRules 100 _ _ :=
    .next (.server (.accept hasty [1] (.v4 0x01010101 4000) ⟨true, false, none⟩)) .init (.server rfl _) rfl
  have hopened := Run.next (.server (.poll hasty (.headers 8 plainRequest ⟨⟨true, fun _ => .opened⟩, true, 5⟩)))
    haccepted (.server rfl _) rfl
  have hread := Run.next (.receive 0 [.ok [1] false]) hopened (.receive rfl rfl (by decide) _) rfl
  have hsent := Run.next .reply hread (.reply _) rfl
  exact ⟨_, _, hsent, replies_on_open_flows hsent, _, List.mem_append_right _ List.mem_cons_self,
    List.mem_cons_self⟩

/-- The client ends its request while a reply waits; the server sends it on the
flow it has just closed. -/
theorem reply_on_closed_flow :
    ∃ log h, HostLog (fun _ _ => True) shadowedRules 100 log h ∧ ∃ t ∈ log,
      .server (.dgramSend hasty (Dgram.encode 2 [1])) ∈ t.emitted ∧
      (t.before.server.clients.lookup hasty).isSome ∧ t.before.server.flowAt hasty 2 = none ∧
      ¬ RepliesOnOpenFlows t := by
  have hclosed : HostLog (fun _ _ => True) shadowedRules 100 _ _ :=
    Run.extend .init ((oneFlow hasty).map .server ++
      [.receive 0 [.ok [1] false], .server (.poll hasty (.finished 8))]) (fun _ _ _ _ => trivial) (by decide)
  have hsent := Run.next .reply hclosed trivial rfl
  refine ⟨_, _, hsent, _, List.mem_append_right _ List.mem_cons_self, List.mem_cons_self, by decide,
    by decide, ?_⟩
  intro hopen
  obtain ⟨parsed, hd, hsome⟩ := hopen hasty (Dgram.encode 2 [1]) List.mem_cons_self
  cases hd
  revert hsome
  decide

end ZeroMasque.Host
