import ZeroMasque.Server.Orphans
import ZeroMasque.Server.Routing
import ZeroMasque.Server.TimedLoop

/-! What a closed connection leaves behind. It does not outlive the iteration of the
loop that finds it closed. Its tasks then find their senders gone, write out what is
still queued and end, so that no more tasks run than flows are open. -/
namespace ZeroMasque
open Foundation

namespace Server

/-- From a state in which every route leads to a connection, no input makes the server panic. -/
private theorem step_isSome {s : Server} (h : Live s) (i : Input) : (s.step i).isSome := by
  cases i with
  | packet p => exact onPacket_isSome h p
  | _ => rfl

private theorem attempt_isSome {s : Server} (h : Live s) (is : List Input) : (attempt step s is).isSome := by
  induction is generalizing s with
  | nil => rfl
  | cons i is ih =>
    obtain ⟨⟨s', es⟩, hs⟩ := Option.isSome_iff_exists.mp (step_isSome h i)
    simpa [attempt, hs] using ih (h.step hs)

/-- Nothing in the tables is left over from a closed connection. -/
structure Clean (s : Server) : Prop where
  live : Live s
  opened : ∀ c client, s.clients.lookup c = some client → client.conn.closed = false

private theorem Clean.init (rules : RuleTable) (start : Instant) : Clean (new rules start) where
  live d c hd := by cases hd
  opened c client hc := by cases hc

private theorem Clean.iterate {s s' : Server} {it : Iteration} {laps : List Lap} (h : Clean s)
    (hs : s.iterate it = some (s', laps)) : Clean s' := by
  obtain ⟨done, hdone, heq⟩ := Option.map_eq_some_iff.mp hs
  cases heq
  have hlive : Live done.1 := attempt_keeps (P := fun _ s => Live s) (t := []) it.inputs
    (fun _ _ _ _ _ _ hl hi => hl.step hi) h.live hdone
  -- the last input of every iteration is the reaping
  have hinputs : it.inputs = (.wait it.after :: it.wake.inputs ++
      [.connections it.flushed, .wait it.flushing]) ++ [.reap] := by
    simp [Iteration.inputs]
  rw [hinputs] at hdone
  obtain ⟨before, -, rest, -, hreap, -⟩ := attempt_append_eq_some hdone
  obtain ⟨after, es, rest', hlast, hnone, -⟩ := attempt_cons_eq_some hreap
  cases hlast
  have hend : (before.reapClosed.1, []) = (done.1, rest') := Option.some.inj hnone
  refine ⟨hlive, fun c client hc => ?_⟩
  rw [← (Prod.mk.inj hend).1, lookup_clients_reap] at hc
  simpa using (Option.filter_eq_some_iff.mp hc).2

/-- Whenever an iteration of the loop begins, no connection in the table is closed and
every route leads to one in the table; and the iteration does not panic, whichever arm
fires and whatever it processes. -/
theorem loop_clean {rules : RuleTable} {start : Instant} {laps : List Lap} {s : Server}
    (hr : LoopRun rules start laps s) : Clean s ∧ ∀ it, (s.iterate it).isSome := by
  have hclean : Clean s := Run.invariant (P := fun _ s => Clean s) (.init rules start)
    (fun _ _ _ _ _ _ ih _ hs => ih.iterate hs) hr
  refine ⟨hclean, fun it => ?_⟩
  rw [Server.iterate, Option.isSome_map]
  exact attempt_isSome hclean.live it.inputs

/-- The connection of the first iteration is closed when the second flushes it. -/
theorem loop_clean_closed :
    ∃ laps s c, LoopRun shadowedRules 0 laps s ∧ .accepted c (List.replicate 16 1) ∈ emitted laps ∧
      .reaped c ∈ emitted laps ∧
      Clean s ∧ (s.iterate quietIteration).isSome := by
  have hrun : LoopRun shadowedRules 0 _ _ :=
    Run.of_permitted [openingIteration, { quietIteration with flushed := fun _ => ⟨true, true, none⟩ }]
      (by decide) (by decide)
  obtain ⟨hclean, hgoes⟩ := loop_clean hrun
  exact ⟨_, _, ⟨List.replicate 16 7, rfl⟩, hrun, by decide, by decide, hclean, hgoes quietIteration⟩

end Server

/-- The open flows of all connections. -/
def Server.openFlows (s : Server) : List (Scid × UInt64) :=
  s.clients.entries.flatMap fun e => e.2.flows.entries.map fun f => (e.1, f.1)

private theorem Server.mem_openFlows {s : Server} {c : Scid} {f : UInt64} :
    (c, f) ∈ s.openFlows ↔ (s.flowAt c f).isSome := by
  simp only [openFlows, List.mem_flatMap, List.mem_map, Prod.mk.injEq, flowAt, Option.isSome_iff_exists,
    Option.bind_eq_some_iff, ← Table.mem_entries_iff]
  constructor
  · rintro ⟨⟨c, client⟩, hclient, ⟨f, flow⟩, hflow, rfl, rfl⟩
    exact ⟨flow, client, hclient, hflow⟩
  · rintro ⟨flow, client, hclient, hflow⟩
    exact ⟨⟨c, client⟩, hclient, ⟨f, flow⟩, hflow, rfl, rfl⟩

private theorem Server.nodup_openFlows (s : Server) : s.openFlows.Nodup := by
  refine List.nodup_flatMap.mpr ⟨fun e _ => ?_, ?_⟩
  · have hkeys : (e.2.flows.entries.map Sigma.fst).Nodup := e.2.flows.nodupKeys
    have hpairs := hkeys.map (f := fun f => (e.1, f)) fun _ _ h => (Prod.mk.inj h).2
    rwa [List.map_map] at hpairs
  · have hkeys : s.clients.entries.Pairwise fun e e' => e.1 ≠ e'.1 := List.pairwise_map.mp s.clients.nodupKeys
    refine hkeys.imp fun {e e'} hne p hp hp' => ?_
    obtain ⟨f, -, rfl⟩ := List.mem_map.mp hp
    obtain ⟨f', -, heq⟩ := List.mem_map.mp hp'
    exact hne (Prod.mk.inj heq).1.symm

namespace Host
open Server

/-- The task of a channel that nobody feeds any more, while it runs. -/
def orphaned (h : Host) (channel : Nat) : Option Task :=
  (h.running channel).filter fun _ => !h.senderAlive channel

/-- What an orphaned task still has to write. -/
def abandoned (h : Host) (channel : Nat) : List Bytes := ((h.orphaned channel).map Task.queue).getD []

/-- The steps that are left to an orphaned task; `sent` says what its writes come to. -/
def lastSteps (h : Host) (sent : Nat → Nat → Bool) (channel : Nat) : List HostAct :=
  match h.orphaned channel with
  | none => []
  | some t => ((List.range t.queue.length).map (sent channel)).map (.forward channel) ++ [.drained channel]

/-- The orphaned task of a channel is done. -/
def release (h : Host) (channel : Nat) : Host :=
  match h.orphaned channel with
  | none => h
  | some t => { h with tasks := h.tasks.set channel { t with queue := [], running := false } }

/-- Every orphaned task is done. -/
def windDown (h : Host) : Host := (List.range h.tasks.length).foldl release h

def windDownSteps (h : Host) (sent : Nat → Nat → Bool) : List HostAct :=
  (List.range h.tasks.length).flatMap (h.lastSteps sent)

private theorem orphaned_eq_some {h : Host} {channel : Nat} {t : Task} :
    h.orphaned channel = some t ↔ h.running channel = some t ∧ h.senderAlive channel = false := by
  simp [orphaned, Option.filter_eq_some_iff]

section Release
variable (h : Host) (channel : Nat)

private theorem release_server : (h.release channel).server = h.server := by
  unfold release
  split <;> rfl

private theorem release_toClient : (h.release channel).toClient = h.toClient := by
  unfold release
  split <;> rfl

variable {channel} {number : Nat}

private theorem release_getElem_ne (hne : number ≠ channel) :
    (h.release channel).tasks[number]? = h.tasks[number]? := by
  unfold release
  split
  · rfl
  · exact List.getElem?_set_ne hne.symm

private theorem running_release_ne (hne : number ≠ channel) :
    (h.release channel).running number = h.running number := by
  rw [running, running, release_getElem_ne h hne]

private theorem senderAlive_release_ne (hne : number ≠ channel) :
    (h.release channel).senderAlive number = h.senderAlive number := by
  rw [senderAlive, senderAlive, release_getElem_ne h hne, release_server]

private theorem orphaned_release_ne (hne : number ≠ channel) :
    (h.release channel).orphaned number = h.orphaned number := by
  rw [orphaned, orphaned, running_release_ne h hne, senderAlive_release_ne h hne]

private theorem running_release :
    (h.release channel).running channel = (h.running channel).filter fun _ => h.senderAlive channel := by
  unfold release
  cases ho : h.orphaned channel with
  | some t =>
    obtain ⟨ht, hgone⟩ := orphaned_eq_some.mp ho
    have hlt := (List.getElem?_eq_some_iff.mp (running_eq_some ht).1).1
    simp [running, hlt, hgone]
  | none =>
    have halive (t : Task) (ht : h.running channel = some t) : h.senderAlive channel = true := by
      by_contra hgone
      rw [orphaned_eq_some.mpr ⟨ht, Bool.eq_false_iff.mpr hgone⟩] at ho
      cases ho
    ext t
    simp only [Option.filter_eq_some_iff]
    exact ⟨fun ht => ⟨ht, halive t ht⟩, And.left⟩

/-- An orphaned task takes its last steps. -/
private theorem attempt_lastSteps (sent : Nat → Nat → Bool) (channel : Nat) :
    ∃ es, attempt step h (h.lastSteps sent channel) = some (h.release channel, es) ∧
      ∀ number, es.filterMap (writtenAt number) = if number = channel then h.abandoned channel else [] := by
  unfold lastSteps release abandoned
  cases ho : h.orphaned channel with
  | none => exact ⟨[], rfl, fun number => (ite_self _).symm⟩
  | some t =>
    obtain ⟨ht, hgone⟩ := orphaned_eq_some.mp ho
    exact drain ht hgone (by simp)

/-- The orphaned tasks of some channels finish one after the other; none of them is in
the way of the next. -/
private theorem attempt_windDown (sent : Nat → Nat → Bool) {channels : List Nat} (hnodup : channels.Nodup) :
    ∃ es, attempt step h (channels.flatMap (h.lastSteps sent)) = some (channels.foldl release h, es) ∧
      ∀ number, es.filterMap (writtenAt number) = if number ∈ channels then h.abandoned number else [] := by
  induction channels generalizing h with
  | nil => exact ⟨[], rfl, fun number => rfl⟩
  | cons channel channels ih =>
    obtain ⟨hnew, hnodup⟩ := List.nodup_cons.mp hnodup
    have hother {number : Nat} (hm : number ∈ channels) :
        (h.release channel).orphaned number = h.orphaned number :=
      orphaned_release_ne h fun heq => hnew (heq ▸ hm)
    have hsteps : channels.flatMap ((h.release channel).lastSteps sent) = channels.flatMap (h.lastSteps sent) :=
      List.flatMap_congr fun number hm => by rw [lastSteps, lastSteps, hother hm]
    obtain ⟨es, hes, hwritten⟩ := h.attempt_lastSteps sent channel
    obtain ⟨es', hes', hwritten'⟩ := ih (h.release channel) hnodup
    rw [hsteps] at hes'
    refine ⟨es ++ es', attempt_append hes hes', fun number => ?_⟩
    rw [List.filterMap_append, hwritten, hwritten']
    by_cases hn : number = channel
    · simp [hn, hnew]
    · by_cases hm : number ∈ channels
      · simp [hn, hm, abandoned, hother hm]
      · simp [hn, hm]

private theorem foldl_release_server (channels : List Nat) : (channels.foldl release h).server = h.server := by
  induction channels generalizing h with
  | nil => rfl
  | cons channel channels ih => rw [List.foldl_cons, ih, release_server]

private theorem foldl_release_toClient (channels : List Nat) : (channels.foldl release h).toClient = h.toClient := by
  induction channels generalizing h with
  | nil => rfl
  | cons channel channels ih => rw [List.foldl_cons, ih, release_toClient]

/-- The tasks that are left are those whose flow is in the table. -/
private theorem running_foldl_release {channels : List Nat} (hnodup : channels.Nodup) (number : Nat) :
    (channels.foldl release h).running number =
      if number ∈ channels then (h.running number).filter fun _ => h.senderAlive number
      else h.running number := by
  induction channels generalizing h with
  | nil => rfl
  | cons channel channels ih =>
    obtain ⟨hnew, hnodup⟩ := List.nodup_cons.mp hnodup
    rw [List.foldl_cons, ih (h.release channel) hnodup]
    by_cases hn : number = channel
    · simp [hn, hnew, running_release]
    · simp [hn, running_release_ne h hn, senderAlive_release_ne h hn]

private theorem running_windDown (number : Nat) :
    h.windDown.running number = (h.running number).filter fun _ => h.senderAlive number := by
  rw [windDown, running_foldl_release h List.nodup_range]
  split_ifs with hn
  · rfl
  · have hnone : h.running number = none := by
      rw [running, List.getElem?_eq_none (Nat.le_of_not_lt fun hlt => hn (List.mem_range.mpr hlt))]
      rfl
    rw [hnone]
    rfl

end Release

/-- Connection and flow of every running task. -/
def served (h : Host) : List (Scid × UInt64) := (h.tasks.filter Task.running).map fun t => (t.conn, t.flow)

/-- Every running task serves an open flow. -/
def Fed (h : Host) : Prop :=
  ∀ channel t, h.running channel = some t →
    ∃ flow, h.server.flowAt t.conn t.flow = some flow ∧ flow.toTarget = channel

private theorem windDown_fed (h : Host) : Fed h.windDown := by
  intro channel t ht
  rw [running_windDown, Option.filter_eq_some_iff] at ht
  rw [windDown, foldl_release_server]
  exact (senderAlive_iff (running_eq_some ht.1).1).mp ht.2

section Fed
variable {h : Host} (hf : Fed h)
include hf

private theorem Fed.getElem {i : Nat} (hi : i < h.tasks.length) (hrun : h.tasks[i].running = true) :
    ∃ flow, h.server.flowAt h.tasks[i].conn h.tasks[i].flow = some flow ∧ flow.toTarget = i :=
  hf i _ (Option.filter_eq_some_iff.mpr ⟨List.getElem?_eq_getElem hi, hrun⟩)

/-- Tasks that serve open flows serve different ones. -/
private theorem Fed.nodup : h.served.Nodup := by
  refine List.pairwise_map.mpr (List.pairwise_filter.mpr (List.pairwise_iff_getElem.mpr ?_))
  intro i j hi hj hlt hrun hrun' heq
  obtain ⟨flow, hflow, hnumber⟩ := hf.getElem hi hrun
  obtain ⟨flow', hflow', hnumber'⟩ := hf.getElem hj hrun'
  obtain ⟨hconn, hid⟩ := Prod.mk.inj heq
  rw [hconn, hid, hflow'] at hflow
  cases hflow
  exact Nat.ne_of_lt hlt (hnumber.symm.trans hnumber')

private theorem Fed.subperm : h.served.Subperm h.server.openFlows := by
  refine hf.nodup.subperm fun p hp => ?_
  obtain ⟨t, ht, rfl⟩ := List.mem_map.mp hp
  obtain ⟨hmem, hrun⟩ := List.mem_filter.mp ht
  obtain ⟨i, hi, rfl⟩ := List.mem_iff_getElem.mp hmem
  obtain ⟨flow, hflow, -⟩ := hf.getElem hi hrun
  rw [mem_openFlows, hflow]
  rfl

end Fed

/-- The host after closed connections were dropped. -/
def reaped (h : Host) : Host := (h.serve .reap).1

private theorem reaped_tasks (h : Host) : h.reaped.tasks = h.tasks := by
  have hquiet (es : List Effect) (hes : ∀ e ∈ es, ∃ c, e = .reaped c) : es.foldl perform h.tasks = h.tasks := by
    induction es with
    | nil => rfl
    | cons e es ih =>
      obtain ⟨c, rfl⟩ := hes e List.mem_cons_self
      exact ih fun e' he' => hes e' (List.mem_cons_of_mem _ he')
  refine hquiet h.server.reapClosed.2 fun e he => ?_
  obtain ⟨c, -, -, -, rfl⟩ := mem_reap he
  exact ⟨c, rfl⟩

/-- After reaping, a channel is fed if its flow is open on a connection that is. -/
private theorem senderAlive_reaped {h : Host} {channel : Nat} {t : Task} (ht : h.tasks[channel]? = some t) :
    h.reaped.senderAlive channel = true ↔
      ∃ client flow, h.server.clients.lookup t.conn = some client ∧ client.conn.closed = false ∧
        client.flows.lookup t.flow = some flow ∧ flow.toTarget = channel := by
  have ht' : h.reaped.tasks[channel]? = some t := by rwa [reaped_tasks]
  have hserver : h.reaped.server = h.server.reapClosed.1 := rfl
  rw [senderAlive_iff ht', hserver, flowAt_reap]
  simp only [Option.bind_eq_some_iff, Option.filter_eq_some_iff, Bool.not_eq_true']
  constructor
  · rintro ⟨flow, ⟨client, ⟨hclient, hopen⟩, hflow⟩, hnumber⟩
    exact ⟨client, flow, hclient, hopen, hflow, hnumber⟩
  · rintro ⟨client, flow, hclient, hopen, hflow, hnumber⟩
    exact ⟨flow, ⟨client, ⟨hclient, hopen⟩, hflow⟩, hnumber⟩

/-- Nothing is left of the closed connections of `h`, and nothing else is touched. -/
structure Released (h h' : Host) (es : List HostEffect) : Prop where
  server : h'.server = h.server.reapClosed.1
  toClient : h'.toClient = h.toClient
  kept : ∀ channel t, h'.running channel = some t ↔ h.running channel = some t ∧
    ∃ client flow, h.server.clients.lookup t.conn = some client ∧ client.conn.closed = false ∧
      client.flows.lookup t.flow = some flow ∧ flow.toTarget = channel
  written : ∀ channel t, h.running channel = some t → h'.running channel = none →
    es.filterMap (writtenAt channel) = t.queue
  distinct : h'.served.Subperm h'.server.openFlows

/-- From any state, the server reaps and the tasks without a flow write what is queued
for them and end, whatever the writes come to. The tasks that still run are those of
open flows on open connections, at most one for each. -/
theorem connections_released (h : Host) (sent : Nat → Nat → Bool) :
    ∃ es, attempt step h (.server .reap :: h.reaped.windDownSteps sent) = some (h.reaped.windDown, es) ∧
      Released h h.reaped.windDown es := by
  obtain ⟨es, hes, hwritten⟩ := h.reaped.attempt_windDown sent List.nodup_range
  have hreap : attempt step h [.server .reap] = some (h.reaped, (h.serve .reap).2) := by
    simp [attempt, step, reaped]
  have hrunning (channel : Nat) : h.reaped.running channel = h.running channel := by
    rw [running, running, reaped_tasks]
  have hquiet (channel : Nat) : (h.serve .reap).2.filterMap (writtenAt channel) = [] := by
    simp [serve, List.filterMap_map, writtenAt, Function.comp_def]
  refine ⟨_, attempt_append hreap hes, foldl_release_server .., foldl_release_toClient .., fun channel t => ?_,
    fun channel t ht hgone => ?_, (windDown_fed _).subperm⟩
  · rw [running_windDown, Option.filter_eq_some_iff, hrunning]
    exact and_congr_right fun ht => senderAlive_reaped (running_eq_some ht).1
  · rw [← hrunning] at ht
    have horphan : h.reaped.orphaned channel = some t := by
      rw [orphaned_eq_some]
      rw [running_windDown, ht] at hgone
      exact ⟨ht, by simpa [Option.filter] using hgone⟩
    have hlt := (List.getElem?_eq_some_iff.mp (running_eq_some ht).1).1
    rw [List.filterMap_append, hquiet, hwritten, if_pos (List.mem_range.mpr hlt), abandoned, horphan]
    rfl

private theorem Staffed.subperm {h : Host} (hs : Staffed h) : h.server.openFlows.Subperm h.windDown.served := by
  refine h.server.nodup_openFlows.subperm ?_
  rintro ⟨c, f⟩ hmem
  obtain ⟨flow, hflow⟩ := Option.isSome_iff_exists.mp (mem_openFlows.mp hmem)
  obtain ⟨t, hget, hrun, rfl, rfl⟩ := hs.flows c f flow hflow
  have ht : h.windDown.running flow.toTarget = some t := by
    rw [running_windDown, Option.filter_eq_some_iff, hs.senderAlive hflow]
    exact ⟨Option.filter_eq_some_iff.mpr ⟨hget, hrun⟩, rfl⟩
  have hlast := (running_eq_some ht).1
  exact List.mem_map.mpr ⟨t, List.mem_filter.mpr ⟨List.mem_of_getElem? hlast, hrun⟩, rfl⟩

/-- As long as no socket error ends the task of an open flow: whenever the tasks
without a flow have finished, tasks and open flows correspond one to one. -/
theorem one_task_per_flow {rules : RuleTable} {start : Instant} {tr : List HostEffect} {h : Host}
    (hr : HostRun SparesOpenFlows rules start tr h) (sent : Nat → Nat → Bool) :
    ∃ es, attempt step h (h.windDownSteps sent) = some (h.windDown, es) ∧
      h.windDown.served.Perm h.server.openFlows := by
  obtain ⟨es, hes, -⟩ := h.attempt_windDown sent List.nodup_range
  have hfed := h.windDown_fed.subperm
  rw [windDown, foldl_release_server] at hfed
  exact ⟨es, hes, hfed.antisymm hr.staffed.subperm⟩

/-- Two flows of one connection; the client ends the first with a payload on its way. -/
theorem one_task_per_flow_ended :
    ∃ tr h, HostRun SparesOpenFlows shadowedRules 100 tr h ∧ h.abandoned 0 = [[1]] ∧
      h.server.openFlows = [(hasty, 3)] ∧ h.windDown.served.Perm h.server.openFlows := by
  have hrun : HostRun SparesOpenFlows shadowedRules 100 _ _ :=
    Run.of_permitted ((oneFlow hasty).map .server ++
        [.server (.poll hasty (.headers 12 plainRequest ⟨⟨true, fun _ => .opened⟩, true, 5⟩)),
          .server (.datagram hasty (Dgram.encode 2 [1]) false), .server (.poll hasty (.finished 8))])
      (by decide) (by decide)
  obtain ⟨-, -, hperm⟩ := one_task_per_flow hrun fun _ _ => true
  exact ⟨_, _, hrun, by decide, by decide, hperm⟩

end Host
end ZeroMasque
