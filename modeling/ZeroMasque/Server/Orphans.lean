import ZeroMasque.Server.Order

/-! What becomes of a task whose flow has left the table. Nothing is put into its
channel any more; it writes what is still there and ends. -/
namespace ZeroMasque.Host
open Foundation Server

/-- Every open flow feeds a task of its own, running or not. -/
structure Assigned (h : Host) : Prop where
  numbered : Numbered h
  flows : ∀ c f flow, h.server.flowAt c f = some flow →
    ∃ t, h.tasks[flow.toTarget]? = some t ∧ t.conn = c ∧ t.flow = f

theorem Assigned.init (rules : RuleTable) (start : Instant) : Assigned (new rules start) where
  numbered := rfl
  flows := by simp [new, Server.new, flowAt]

private theorem Assigned.serve {h : Host} (ha : Assigned h) (a : Action) : Assigned (h.serve a).1 := by
  refine ⟨ha.numbered.serve a, fun c f flow hf => ?_⟩
  have hkept (flow : Flow) (hb : h.server.flowAt c f = some flow) :
      ∃ t, (h.serve a).1.tasks[flow.toTarget]? = some t ∧ t.conn = c ∧ t.flow = f := by
    obtain ⟨t, ht, hconn, hflow⟩ := ha.flows c f flow hb
    obtain ⟨queue, hq⟩ := serve_getElem a ht
    exact ⟨_, hq, hconn, hflow⟩
  cases act_origin h.server a hf with
  | kept hb ht ho => exact hkept flow hb
  | touched old hb hflow ht ho =>
    rw [hflow]
    exact hkept old hb
  | opened stream socket hr hid hc hl hspawn ht ho =>
    obtain ⟨queue, hq⟩ := serve_spawned ha.numbered hspawn
    rw [hc]
    exact ⟨_, hq, rfl, rfl⟩

theorem Assigned.step {h h' : Host} {i : HostAct} {es : List HostEffect} (ha : Assigned h)
    (ht : Transition h i h' es) : Assigned h' := by
  have htask (hserver : h'.server = h.server) (hlen : h'.tasks.length = h.tasks.length) : Assigned h' := by
    refine ⟨by rw [Numbered, hserver, hlen]; exact ha.numbered, fun c f flow hf => ?_⟩
    obtain ⟨t, hget, hconn, hflow⟩ := ha.flows c f flow (hserver ▸ hf)
    obtain ⟨t', hget', hconn', hflow'⟩ := ht.task hget
    exact ⟨t', hget', hconn'.trans hconn, hflow'.trans hflow⟩
  cases ht with
  | served a _ => exact ha.serve a
  | returned tc rest hq =>
    have hsame : Assigned { h with toClient := rest } := ⟨ha.numbered, ha.flows⟩
    exact hsame.serve (.payload tc)
  | forwarded | ended | received => exact htask rfl List.length_set

/-- A channel is fed as long as the flow of its task is the one it was made for. -/
theorem senderAlive_iff {h : Host} {channel : Nat} {t : Task} (ht : h.tasks[channel]? = some t) :
    h.senderAlive channel = true ↔ ∃ flow, h.server.flowAt t.conn t.flow = some flow ∧ flow.toTarget = channel := by
  simp [senderAlive, ht, Option.any_eq_true]

/-- Nobody gets hold of a sender again, and nothing is put into the channel. -/
private theorem Assigned.orphan {h h' : Host} {i : HostAct} {es : List HostEffect} (ha : Assigned h)
    (ht : Transition h i h' es) {channel : Nat} {t : Task} (hget : h.tasks[channel]? = some t)
    (hgone : h.senderAlive channel = false) :
    h'.senderAlive channel = false ∧ es.filterMap (takenAt h.tasks channel) = [] := by
  have hnone (flow : Flow) (hf : h.server.flowAt t.conn t.flow = some flow) : flow.toTarget ≠ channel := by
    intro hch
    rw [(senderAlive_iff hget).mpr ⟨flow, hf, hch⟩] at hgone
    cases hgone
  constructor
  · obtain ⟨t', hget', hconn, hflow⟩ := ht.task hget
    refine Bool.eq_false_iff.mpr fun halive => ?_
    obtain ⟨flow, hf, hch⟩ := (senderAlive_iff hget').mp halive
    rw [hconn, hflow] at hf
    rcases ht.server with ⟨a, hserver, -, -⟩ | ⟨hserver, -⟩
    · rw [hserver] at hf
      cases act_origin h.server a hf with
      | kept hb _ _ => exact hnone flow hb hch
      | touched old hb hold _ _ =>
        rw [hold] at hch
        exact hnone old hb hch
      | opened stream socket _ _ hnew _ _ _ _ =>
        -- the new flow has the next number, which no task had before
        have hlt := (List.getElem?_eq_some_iff.mp hget).1
        rw [← hch, hnew, show h.server.channels = h.tasks.length from ha.numbered] at hlt
        exact Nat.lt_irrefl _ hlt
    · exact hnone flow (hserver ▸ hf) hch
  · rw [List.filterMap_eq_nil_iff]
    intro e he
    cases e with
    | server e =>
      cases e with
      | toTarget c f number payload full now =>
        rcases ht.server with ⟨a, -, hes, -⟩ | ⟨-, hquiet⟩
        · rw [hes] at he
          obtain ⟨-, -, flow, -, -, -, -, hf, hnumber, -⟩ :=
            (act_emission h.server a).toTarget (by simpa using he)
          refine if_neg fun htaken => ?_
          obtain ⟨t', hget', rfl, rfl⟩ := ha.flows c f flow hf
          rw [hnumber, htaken.1] at hget'
          cases hget.symm.trans hget'
          exact hnone flow hf (hnumber.trans htaken.1)
        · exact absurd he (hquiet _)
      | _ => rfl
    | _ => rfl

/-- What remains of an orphaned channel along any further run. -/
private theorem orphan_run {h h' : Host} {tr : List HostEffect} (ha : Assigned h) {channel : Nat} {t : Task}
    (hget : h.tasks[channel]? = some t) (hgone : h.senderAlive channel = false)
    (hr : Run step (fun _ _ _ => True) h tr h') :
    Assigned h' ∧ (∃ t', h'.tasks[channel]? = some t') ∧ h'.senderAlive channel = false ∧
      tr.filterMap (writtenAt channel) ++ queueOf h'.tasks channel = t.queue := by
  refine Run.invariant (P := fun tr h' => Assigned h' ∧ (∃ t', h'.tasks[channel]? = some t') ∧
    h'.senderAlive channel = false ∧ tr.filterMap (writtenAt channel) ++ queueOf h'.tasks channel = t.queue)
    ⟨ha, ⟨t, hget⟩, hgone, by simp [queueOf, hget]⟩ ?_ hr
  rintro tr s i s' es - ⟨has, ⟨t', hget'⟩, hgone', hqueue⟩ - hs
  have ht := step_transition hs
  obtain ⟨hgone'', hnothing⟩ := has.orphan ht hget' hgone'
  obtain ⟨t'', hget'', -⟩ := ht.task hget'
  have hchannel := ht.channel channel
  rw [hnothing, List.append_nil] at hchannel
  refine ⟨has.step ht, ⟨t'', hget''⟩, hgone'', ?_⟩
  rw [List.filterMap_append, List.append_assoc, hchannel, hqueue]

private theorem running_set {h : Host} {channel : Nat} {t t' : Task} (ht : h.running channel = some t)
    (hrun : t'.running = true) : { h with tasks := h.tasks.set channel t' }.running channel = some t' := by
  have hlt := (List.getElem?_eq_some_iff.mp (running_eq_some ht).1).1
  simp [running, hlt, hrun]

private theorem senderAlive_set {h : Host} {channel : Nat} {t : Task} (ht : h.running channel = some t)
    (queue : List Bytes) :
    { h with tasks := h.tasks.set channel { t with queue := queue } }.senderAlive channel =
      h.senderAlive channel := by
  obtain ⟨hlt, hget⟩ := List.getElem?_eq_some_iff.mp (running_eq_some ht).1
  simp [senderAlive, hlt, hget]

/-- The task writes out its channel, whatever the single writes come to, and ends. -/
theorem drain {h : Host} {channel : Nat} {t : Task} (ht : h.running channel = some t)
    (hgone : h.senderAlive channel = false) {sents : List Bool} (hlen : sents.length = t.queue.length) :
    ∃ es, attempt step h (sents.map (.forward channel) ++ [.drained channel]) =
        some ({ h with tasks := h.tasks.set channel { t with queue := [], running := false } }, es) ∧
      ∀ number, es.filterMap (writtenAt number) = if number = channel then t.queue else [] := by
  induction hq : t.queue generalizing h t sents with
  | nil =>
    rw [hq] at hlen
    obtain rfl := List.eq_nil_of_length_eq_zero hlen
    refine ⟨[.ended channel], ?_, fun number => (ite_self _).symm⟩
    simp [attempt, step, ht, hq, hgone]
  | cons payload queue ih =>
    rw [hq] at hlen
    obtain ⟨sent, sents, rfl⟩ := List.exists_cons_of_length_eq_add_one hlen
    have hnext : h.step (.forward channel sent) =
        some ({ h with tasks := h.tasks.set channel { t with queue := queue } },
          [.written channel payload sent]) := by
      obtain ⟨conn, flow, socket, rest, running⟩ := t
      cases hq
      obtain rfl : running = true := (running_eq_some ht).2
      simp [step, ht]
    obtain ⟨es, hes, hwritten⟩ := ih (t := { t with queue := queue })
      (running_set ht (running_eq_some ht).2) ((senderAlive_set ht queue).trans hgone) (Nat.succ.inj hlen) rfl
    refine ⟨.written channel payload sent :: es, ?_, fun number => ?_⟩
    · simp only [List.map_cons, List.cons_append, attempt, hnext, hes, Option.map_some, List.set_set]
      rfl
    · by_cases hn : number = channel
      · simp [writtenAt, hwritten, hn]
      · simp [writtenAt, hwritten, hn, Ne.symm hn]

/-- From any reachable state on, a task whose flow is gone gets nothing more to
write: along every further run its sender stays gone, and what it writes and what is
left in its channel is what the channel held. It can always write that and end. -/
theorem orphan_winds_down {rules : RuleTable} {start : Instant} {tr : List HostEffect} {h : Host}
    (hr : HostRun (fun _ _ => True) rules start tr h) {channel : Nat} {t : Task}
    (ht : h.running channel = some t) (hgone : h.senderAlive channel = false) :
    (∀ tr' h', Run step (fun _ _ _ => True) h tr' h' → h'.senderAlive channel = false ∧
      tr'.filterMap (writtenAt channel) ++ queueOf h'.tasks channel = t.queue) ∧
    ∀ sents : List Bool, sents.length = t.queue.length →
      ∃ es, attempt step h (sents.map (.forward channel) ++ [.drained channel]) =
          some ({ h with tasks := h.tasks.set channel { t with queue := [], running := false } }, es) ∧
        es.filterMap (writtenAt channel) = t.queue := by
  have ha : Assigned h := Run.invariant (P := fun _ h => Assigned h) (.init rules start)
    (fun _ _ _ _ _ _ ih _ hs => ih.step (step_transition hs)) hr
  refine ⟨fun tr' h' hr' => ?_, fun sents hlen => ?_⟩
  · obtain ⟨-, -, hgone', hqueue⟩ := orphan_run ha (running_eq_some ht).1 hgone hr'
    exact ⟨hgone', hqueue⟩
  · obtain ⟨es, hes, hwritten⟩ := drain ht hgone hlen
    exact ⟨es, hes, (hwritten channel).trans (if_pos rfl)⟩

/-- The client ends its request with two payloads still on their way; both are written. -/
theorem orphan_winds_down_closed :
    ∃ tr h t, HostRun (fun _ _ => True) shadowedRules 100 tr h ∧ h.running 0 = some t ∧ t.queue = [[1], [2]] ∧
      h.senderAlive 0 = false ∧
      ∃ es, attempt step h [.forward 0 true, .forward 0 false, .drained 0] =
          some ({ h with tasks := h.tasks.set 0 { t with queue := [], running := false } }, es) ∧
        es.filterMap (writtenAt 0) = [[1], [2]] := by
  have hrun : HostRun (fun _ _ => True) shadowedRules 100 _ _ :=
    Run.extend .init ((oneFlow hasty).map .server ++
      [.server (.datagram hasty (Dgram.encode 2 [1]) false), .server (.datagram hasty (Dgram.encode 2 [2]) false),
        .server (.poll hasty (.finished 8))]) (fun _ _ _ _ => trivial) (by decide)
  exact ⟨_, _, _, hrun, rfl, rfl, by decide, (orphan_winds_down hrun rfl (by decide)).2 [true, false] rfl⟩

end ZeroMasque.Host
