import ZeroMasque.Server.TargetTasks

/-! Does an open flow still have its target task? It does as long as no socket
error ends the task of an open flow; after such an error client traffic keeps
refreshing a flow whose payloads nobody takes. -/
namespace ZeroMasque.Host
open Foundation Server

/-- Every open flow has a running task of its own. -/
structure Staffed (h : Host) : Prop where
  numbered : Numbered h
  flows : ∀ c f flow, h.server.flowAt c f = some flow →
    ∃ t, h.tasks[flow.toTarget]? = some t ∧ t.running = true ∧ t.conn = c ∧ t.flow = f

private theorem Staffed.serve {h : Host} (hs : Staffed h) (a : Action) : Staffed (h.serve a).1 := by
  refine ⟨hs.numbered.serve a, fun c f flow hf => ?_⟩
  have hkept (flow : Flow) (hb : h.server.flowAt c f = some flow) :
      ∃ t, (h.serve a).1.tasks[flow.toTarget]? = some t ∧ t.running = true ∧ t.conn = c ∧ t.flow = f := by
    obtain ⟨t, ht, hrun, hconn, hflow⟩ := hs.flows c f flow hb
    obtain ⟨queue, hq⟩ := serve_getElem a ht
    exact ⟨_, hq, hrun, hconn, hflow⟩
  cases act_origin h.server a hf with
  | kept hb ht ho => exact hkept flow hb
  | touched old hb hflow ht ho =>
    rw [hflow]
    exact hkept old hb
  | opened stream socket hr hid hc hl hspawn ht ho =>
    obtain ⟨queue, hq⟩ := serve_spawned hs.numbered hspawn
    rw [hc]
    exact ⟨_, hq, rfl, rfl, rfl⟩

/-- A flow's sender lives in the table, where its task looks for it. -/
theorem Staffed.senderAlive {h : Host} (hs : Staffed h) {c : Scid} {f : UInt64} {flow : Flow}
    (hf : h.server.flowAt c f = some flow) : h.senderAlive flow.toTarget = true := by
  obtain ⟨t, ht, -, rfl, rfl⟩ := hs.flows c f flow hf
  simp [Host.senderAlive, ht, hf]

/-- No unrecoverable socket error hits the task of an open flow. -/
def SparesOpenFlows (h : Host) (i : HostAct) : Prop :=
  ∀ channel ∈ i.fatal, h.senderAlive channel = false

instance (h : Host) (i : HostAct) : Decidable (SparesOpenFlows h i) :=
  inferInstanceAs (Decidable (∀ channel ∈ i.fatal, h.senderAlive channel = false))

private theorem Staffed.taskStep {h h' : Host} {i : HostAct} (hs : Staffed h) (hi : SparesOpenFlows h i)
    (hserver : h'.server = h.server) (hstep : TaskStep h i h') : Staffed h' := by
  cases hstep with
  | goesOn channel t t' ht htasks hconn hflow hrun =>
    obtain ⟨hget, -⟩ := running_eq_some ht
    refine ⟨?_, fun c f flow hf => ?_⟩
    · rw [Numbered, hserver, htasks, List.length_set]
      exact hs.numbered
    · rw [hserver] at hf
      obtain ⟨u, hu, hurun, huconn, huflow⟩ := hs.flows c f flow hf
      rw [htasks, List.getElem?_set]
      split_ifs with hch hlt
      · subst hch
        obtain rfl : t = u := Option.some.inj (hget.symm.trans hu)
        exact ⟨t', rfl, hrun, hconn.trans huconn, hflow.trans huflow⟩
      · exact absurd (List.getElem?_eq_some_iff.mp hget).1 hlt
      · exact ⟨u, hu, hurun, huconn, huflow⟩
  | ends channel t ht htasks hwhy =>
    have hdead : h.senderAlive channel = false := by
      rcases hwhy with hdead | hfatal
      · exact hdead
      · exact hi channel hfatal
    refine ⟨?_, fun c f flow hf => ?_⟩
    · rw [Numbered, hserver, htasks, List.length_set]
      exact hs.numbered
    · rw [hserver] at hf
      have hne : channel ≠ flow.toTarget := by
        rintro rfl
        rw [hs.senderAlive hf] at hdead
        cases hdead
      rw [htasks, List.getElem?_set_ne hne]
      exact hs.flows c f flow hf

/-- Runs of the host with arbitrary inputs, or with a guard on them. -/
abbrev HostRun (ok : Host → HostAct → Prop) (rules : RuleTable) (start : Instant) :
    List HostEffect → Host → Prop :=
  Run step (fun _ h i => ok h i) (new rules start)

theorem HostRun.staffed {rules : RuleTable} {start : Instant} {tr : List HostEffect} {h : Host}
    (hr : HostRun SparesOpenFlows rules start tr h) : Staffed h := by
  refine Run.invariant (P := fun _ h => Staffed h) ⟨?_, ?_⟩ ?_ hr
  · exact rfl
  · intro c f flow hf
    cases hf
  · intro tr h i h' es _ ih hi hs
    rcases step_cases hs with ⟨a, -, heq⟩ | ⟨tc, rest, -, -, heq⟩ | ⟨hserver, hstep⟩
    · have hnext := ih.serve a
      rwa [← heq] at hnext
    · have hsame : Staffed { h with toClient := rest } := ⟨ih.numbered, ih.flows⟩
      have hnext := hsame.serve (.payload tc)
      rwa [← heq] at hnext
    · exact ih.taskStep hi hserver hstep

/-- A flow that a client datagram leaves open, and thereby refreshed, has a
running task, and the payload was offered to that task. -/
def NoZombie (h : Host) : Prop :=
  ∀ conn bytes full parsed flow, Dgram.decode bytes = some parsed →
    parsed.contextId = Dgram.contextIdUdp →
    (h.serve (.datagram conn bytes full)).1.server.flowAt conn parsed.flowId = some flow →
    flow.lastActivity = h.server.clock ∧
    ∃ t, h.tasks[flow.toTarget]? = some t ∧ t.running = true ∧ t.conn = conn ∧ t.flow = parsed.flowId ∧
      (h.serve (.datagram conn bytes full)).1.tasks[flow.toTarget]? =
        some { t with queue := if full then t.queue else t.queue ++ [parsed.payload] }

/-- While socket errors spare the tasks of open flows, no flow is a zombie. -/
theorem noZombie_of_spared {rules : RuleTable} {start : Instant} {tr : List HostEffect} {h : Host}
    (hr : HostRun SparesOpenFlows rules start tr h) : NoZombie h := by
  have hstaffed := hr.staffed
  intro conn bytes full parsed flow hd hctx hf
  obtain ⟨old, hold⟩ : ∃ old, h.server.flowAt conn parsed.flowId = some old := by
    cases act_origin h.server (.datagram conn bytes full) hf with
    | kept hb ht ho => exact ⟨flow, hb⟩
    | touched old hb hflow ht ho => exact ⟨old, hb⟩
    | opened stream socket hreq hid hc hl hs ht ho => cases hreq
  obtain ⟨hes, hflow⟩ := act_datagram hd hctx hold full
  obtain rfl : { old with lastActivity := h.server.clock } = flow :=
    Option.some.inj (hflow.symm.trans hf)
  obtain ⟨t, ht, hrun, hconn, hid⟩ := hstaffed.flows conn parsed.flowId old hold
  refine ⟨rfl, t, ht, hrun, hconn, hid, ?_⟩
  have htasks : (h.serve (.datagram conn bytes full)).1.tasks =
      h.tasks.modify old.toTarget (Task.offer parsed.payload full) := by
    rw [serve, hes]
    rfl
  rw [htasks, List.getElem?_modify_eq, ht]
  cases t
  cases full <;> simp_all [Task.offer]

theorem noZombie_of_spared_open :
    ∃ tr h c flow, HostRun SparesOpenFlows shadowedRules 100 tr h ∧ NoZombie h ∧
      h.server.flowAt c 2 = some flow := by
  have hrun : HostRun SparesOpenFlows shadowedRules 100 _ _ :=
    Run.of_permitted ((oneFlow ⟨List.replicate 16 7, rfl⟩).map .server)
      (by decide) (by decide)
  exact ⟨_, _, ⟨List.replicate 16 7, rfl⟩, ⟨0, 105, some (secs 30)⟩, hrun, noZombie_of_spared hrun,
    by decide⟩

/-- A refused connection at the target ends the task; the client's next datagram
refreshes the flow all the same. -/
theorem zombie_after_receive_error :
    ∃ tr h c flow t, HostRun (fun _ _ => True) shadowedRules 100 tr h ∧
      (h.serve (.datagram c (Dgram.encode 2 [1]) false)).1.server.flowAt c 2 = some flow ∧
      flow.lastActivity = (h.serve (.datagram c (Dgram.encode 2 [1]) false)).1.server.clock ∧
      (h.serve (.datagram c (Dgram.encode 2 [1]) false)).1.tasks[flow.toTarget]? = some t ∧
      t.running = false ∧ t.queue = [] := by
  have hrun : HostRun (fun _ _ => True) shadowedRules 100 _ _ :=
    Run.of_permitted ((oneFlow ⟨List.replicate 16 7, rfl⟩).map .server ++
        [.receive 0 [.failed], .server (.readClock (secs 10))])
      (by decide) (by decide)
  exact ⟨_, _, ⟨List.replicate 16 7, rfl⟩, ⟨0, secs 10 + 105, some (secs 30)⟩, _, hrun, by decide,
    by decide, rfl, rfl, rfl⟩

end ZeroMasque.Host
