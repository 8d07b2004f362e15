import ZeroMasque.Server.IdleSweep
import ZeroMasque.Server.Packets

/-! The server loop in time. Every iteration creates its timers anew and waits
for the first of four arms, so the sweep runs only in an iteration in which
nothing else happens for a whole sweep interval. -/
namespace ZeroMasque.Server
open Foundation

def minTimeout (s : Server) : Option Duration :=
  (s.clients.entries.filterMap fun e => e.2.conn.timeout).min?

/-- The arm that fires, with what it processes. -/
inductive Wake where
  | packets (first : Packet) (rest : List Packet)
  | payloads (elapsed : Duration) (first : ToClient) (rest : List ToClient)
  | timer (state : Scid → Conn)
  | sweep (elapsed : Duration)

/-- One iteration: when packets and payloads become ready after its start, the
arm that fires and how long that took, and what flushing leaves behind. -/
structure Iteration where
  packetAfter : Option Duration
  payloadAfter : Option Duration
  after : Duration
  wake : Wake
  flushed : Scid → Conn
  flushing : Duration

/-- When the chosen arm is ready. -/
def Iteration.ready (it : Iteration) (s : Server) : Option Duration :=
  match it.wake with
  | .packets .. => it.packetAfter
  | .payloads .. => it.payloadAfter
  | .timer _ => s.minTimeout
  | .sweep _ => some flowSweepInterval

/-- The chosen arm fires, and none of the four is ready before it. -/
def Iteration.Fires (it : Iteration) (s : Server) : Prop :=
  it.ready s = some it.after ∧
    ∀ arm ∈ [it.packetAfter, it.payloadAfter, s.minTimeout, some flowSweepInterval],
      arm.all (it.after ≤ ·)

instance (it : Iteration) (s : Server) : Decidable (it.Fires s) := inferInstanceAs (Decidable (_ ∧ _))

def Wake.inputs : Wake → List Input
  | .packets first rest => (first :: rest).map .packet
  | .payloads elapsed first rest => [.payloads elapsed (first :: rest)]
  | .timer state => [.connections state]
  | .sweep elapsed => [.sweep elapsed]

/-- Wait, handle the arm that fired, flush every connection, reap. -/
def Iteration.inputs (it : Iteration) : List Input :=
  .wait it.after :: it.wake.inputs ++ [.connections it.flushed, .wait it.flushing, .reap]

/-- No packet, payload or connection timer is due within a sweep interval. -/
def Iteration.quiet (it : Iteration) (s : Server) : Bool :=
  [it.packetAfter, it.payloadAfter, s.minTimeout].all fun arm => arm.all (flowSweepInterval < ·)

/-- The record of an iteration. -/
structure Lap where
  start : Instant
  quiet : Bool
  effects : List Effect

def iterate (s : Server) (it : Iteration) : Option (Server × List Lap) :=
  (attempt step s it.inputs).map fun done => (done.1, [⟨s.clock, it.quiet s, done.2⟩])

/-- Runs of the loop under arbitrary arrivals. -/
abbrev LoopRun (rules : RuleTable) (start : Instant) : List Lap → Server → Prop :=
  Run iterate (fun _ s it => it.Fires s) (new rules start)

/-- Everything the laps of a run emitted. -/
def emitted (laps : List Lap) : List Effect := laps.flatMap Lap.effects

/-- How long an open flow has been without traffic, by the trace. -/
def idleFor (laps : List Lap) (s : Server) (c : Scid) (f : UInt64) : Option Duration :=
  (lastTouch (emitted laps) c f).map fun t => s.clock - t

/-- Every flow with a timeout would still be open for a sweep at `w`. -/
structure SweptAt (w : Instant) (s : Server) : Prop where
  past : w ≤ s.clock
  flows : ∀ c f flow d, s.flowAt c f = some flow → flow.idleTimeout = some d → w ≤ flow.lastActivity + d

private theorem SweptAt.act {w : Instant} {s : Server} (h : SweptAt w s) (a : Action) :
    SweptAt w (s.act a).1 := by
  have hclock := clock_act s a
  refine ⟨Nat.le_trans h.past hclock, fun c f flow d hf hd => ?_⟩
  have hpast := h.past
  cases act_origin s a hf with
  | kept hb ht ho => exact h.flows c f flow d hb hd
  | touched old hb hflow ht ho =>
    rw [hflow]
    exact Nat.le_trans (Nat.le_trans hpast hclock) (Nat.le_add_right ..)
  | opened stream socket hr hid hc hl hs ht ho =>
    rw [hl]
    exact Nat.le_trans (Nat.le_trans hpast hclock) (Nat.le_add_right ..)

/-- What every action keeps, every step of the server keeps. -/
private theorem step_keeps {P : List Effect → Server → Prop}
    (hact : ∀ tr s a, P tr s → P (tr ++ (s.act a).2) (s.act a).1) {t es : List Effect} {s s' : Server}
    {i : Input} (h : P t s) (hs : s.step i = some (s', es)) : P (t ++ es) s' := by
  obtain ⟨acts, hacts⟩ := step_burst hs
  have hnext := drive_keeps (f := act) acts (fun tr s a _ hp => hact tr s a hp) h
  rwa [hacts] at hnext

private theorem SweptAt.step {w : Instant} {s s' : Server} {i : Input} {es : List Effect} (h : SweptAt w s)
    (hs : s.step i = some (s', es)) : SweptAt w s' :=
  step_keeps (P := fun _ s => SweptAt w s) (fun _ _ a hp => hp.act a) (t := []) h hs

private theorem iterate_keeps {P : List Effect → Server → Prop}
    (hact : ∀ tr s a, P tr s → P (tr ++ (s.act a).2) (s.act a).1) {t : List Effect} {s s' : Server}
    {it : Iteration} {laps : List Lap} (h : P t s) (hs : s.iterate it = some (s', laps)) :
    P (t ++ emitted laps) s' := by
  obtain ⟨done, hdone, heq⟩ := Option.map_eq_some_iff.mp hs
  cases heq
  have hnext := attempt_keeps it.inputs (fun tr s s' es i _ hp hi => step_keeps hact hp hi) h hdone
  simpa [emitted] using hnext

/-- In a quiet iteration it is the sweep that fires. -/
private theorem Iteration.sweeps_of_quiet {it : Iteration} {s : Server} (hq : it.quiet s) (hf : it.Fires s) :
    it.after = flowSweepInterval ∧ ∃ elapsed, it.wake = .sweep elapsed := by
  obtain ⟨hready, hfirst⟩ := hf
  have hafter : it.after ≤ flowSweepInterval := by simpa using hfirst (some flowSweepInterval) (by simp)
  simp only [Iteration.quiet, List.all_cons, List.all_nil, Bool.and_true, Bool.and_eq_true] at hq
  obtain ⟨hpacket, hpayload, htimer⟩ := hq
  have hlate {arm : Option Duration} (ha : arm.all (flowSweepInterval < ·))
      (hr : arm = some it.after) : False := by
    rw [hr] at ha
    have hlt : flowSweepInterval < it.after := by simpa using ha
    exact Nat.lt_irrefl _ (Nat.lt_of_lt_of_le hlt hafter)
  cases hwake : it.wake with
  | packets first rest => exact (hlate hpacket (by simpa [Iteration.ready, hwake] using hready)).elim
  | payloads elapsed first rest =>
    exact (hlate hpayload (by simpa [Iteration.ready, hwake] using hready)).elim
  | timer state => exact (hlate htimer (by simpa [Iteration.ready, hwake] using hready)).elim
  | sweep elapsed =>
    refine ⟨?_, elapsed, rfl⟩
    simp only [Iteration.ready, hwake, Option.some.injEq] at hready
    exact hready.symm

private theorem sweptAt_sweep (s : Server) (elapsed : Duration) :
    SweptAt s.clock (s.sweepIdleFlows elapsed).1 := by
  refine ⟨Nat.le_add_right .., fun c f flow d hf hd => ?_⟩
  rw [flowAt_sweep, Option.filter_eq_some_iff, hd] at hf
  have hyoung : s.clock + elapsed - flow.lastActivity < d := by simpa using hf.2
  exact Nat.le_trans (Nat.le_add_right ..) (Nat.sub_le_iff_le_add'.mp (Nat.le_of_lt hyoung))

private theorem sweptAt_iterate {s s' : Server} {it : Iteration} {laps : List Lap}
    (hq : it.quiet s) (hf : it.Fires s) (hs : s.iterate it = some (s', laps)) :
    SweptAt (s.clock + flowSweepInterval) s' := by
  obtain ⟨hafter, elapsed, hwake⟩ := it.sweeps_of_quiet hq hf
  obtain ⟨done, hdone, heq⟩ := Option.map_eq_some_iff.mp hs
  cases heq
  rw [Iteration.inputs, hwake, hafter] at hdone
  obtain ⟨s1, es1, rest1, h1, hdone1, -⟩ := attempt_cons_eq_some hdone
  cases h1
  obtain ⟨s2, es2, rest2, h2, hdone2, -⟩ := attempt_cons_eq_some hdone1
  cases h2
  have hswept := sweptAt_sweep (s.act (.readClock flowSweepInterval)).1 elapsed
  have hend := attempt_keeps (P := fun _ s' => SweptAt (s.clock + flowSweepInterval) s') _
    (fun _ _ _ _ _ _ hp hi => hp.step hi) (t := []) hswept hdone2
  exact hend

/-- The sweeps of a run: its start, and the timers of its quiet iterations. -/
structure Paced (start : Instant) (laps : List Lap) (s : Server) : Prop where
  timely : Timely (emitted laps) s
  begun : SweptAt start s
  swept : ∀ lap ∈ laps, lap.quiet → SweptAt (lap.start + flowSweepInterval) s

private theorem LoopRun.paced {rules : RuleTable} {start : Instant} {laps : List Lap} {s : Server}
    (h : LoopRun rules start laps s) : Paced start laps s := by
  refine Run.invariant (P := Paced start) ⟨?_, ⟨Nat.le_refl _, ?_⟩, ?_⟩ ?_ h
  · intro c f flow hf
    cases hf
  · intro c f flow d hf
    cases hf
  · intro lap hlap
    cases hlap
  · intro laps s it s' es _ ih hfires hs
    have hkeep {w : Instant} (hw : SweptAt w s) : SweptAt w s' :=
      iterate_keeps (P := fun _ s => SweptAt w s) (fun _ _ a hp => hp.act a) (t := []) hw hs
    refine ⟨?_, hkeep ih.begun, fun lap hlap hquiet => ?_⟩
    · rw [emitted, List.flatMap_append]
      exact iterate_keeps (fun _ _ a hp => hp.act a) ih.timely hs
    · rcases List.mem_append.mp hlap with hold | hnew
      · exact hkeep (ih.swept lap hold hquiet)
      · obtain ⟨done, hdone, heq⟩ := Option.map_eq_some_iff.mp hs
        cases heq
        obtain rfl := List.mem_singleton.mp hnew
        exact sweptAt_iterate hquiet hfires hs

/-- The run is young, or the timer of a quiet iteration expired lately. -/
def RecentlyQuiet (start : Instant) (laps : List Lap) (now : Instant) : Prop :=
  now ≤ start + 2 * flowSweepInterval ∨
    ∃ lap ∈ laps, lap.quiet ∧ now ≤ lap.start + flowSweepInterval + 2 * flowSweepInterval

instance (start : Instant) (laps : List Lap) (now : Instant) :
    Decidable (RecentlyQuiet start laps now) := inferInstanceAs (Decidable (_ ∨ _))

/-- Whenever an iteration ends with a quiet iteration not long before, no flow
has outlived its timeout by more than two sweep intervals. -/
theorem idle_bounded {rules : RuleTable} {start : Instant} {laps : List Lap} {s : Server}
    (h : LoopRun rules start laps s) (hq : RecentlyQuiet start laps s.clock) (c : Scid) (f : UInt64)
    (flow : Flow) (d : Duration) (hf : s.flowAt c f = some flow) (hd : flow.idleTimeout = some d) :
    ∃ idle, idleFor laps s c f = some idle ∧ idle ≤ d + 2 * flowSweepInterval := by
  have hpaced := h.paced
  obtain ⟨w, hswept, hrecent⟩ : ∃ w, SweptAt w s ∧ s.clock ≤ w + 2 * flowSweepInterval := by
    rcases hq with hyoung | ⟨lap, hlap, hquiet, hlate⟩
    · exact ⟨start, hpaced.begun, hyoung⟩
    · exact ⟨_, hpaced.swept lap hlap hquiet, hlate⟩
  have hdue := hswept.flows c f flow d hf hd
  refine ⟨s.clock - flow.lastActivity, ?_, ?_⟩
  · rw [idleFor, (hpaced.timely c f flow hf).1]
    rfl
  · have hsum := Nat.le_trans hrecent (Nat.add_le_add_right hdue _)
    rw [Nat.add_assoc] at hsum
    exact Nat.sub_le_iff_le_add'.mpr hsum

/-- One flow is opened as soon as the loop starts. -/
def openingIteration : Iteration where
  packetAfter := some 0
  payloadAfter := none
  after := 0
  wake := .packets firstPacket [requestPacket]
  flushed := fun _ => ⟨true, false, some (secs 20)⟩
  flushing := 0

/-- Nothing arrives, so the sweep timer expires. -/
def quietIteration : Iteration :=
  { openingIteration with packetAfter := none, after := secs 1, wake := .sweep 0 }

/-- A stray packet arrives before the sweep timer expires. -/
def noisyIteration : Iteration :=
  { openingIteration with
    packetAfter := some 900000000, after := 900000000, wake := .packets malformedPacket [] }

theorem idle_bounded_quiet :
    ∃ laps s c idle, LoopRun shadowedRules 0 laps s ∧ RecentlyQuiet 0 laps s.clock ∧
      s.clock = secs 3 + 5 ∧ idleFor laps s c 0 = some idle ∧ idle ≤ secs 30 + 2 * flowSweepInterval := by
  have hrun : LoopRun shadowedRules 0 _ _ :=
    Run.of_permitted [openingIteration, quietIteration, quietIteration, quietIteration]
      (by decide) (by decide)
  obtain ⟨idle, hidle, hle⟩ := idle_bounded hrun (by decide) ⟨List.replicate 16 7, rfl⟩ 0
    ⟨0, 5, some (secs 30)⟩ (secs 30) (by decide) rfl
  exact ⟨_, _, _, idle, hrun, by decide, by decide, hidle, hle⟩

/-- Traffic that concerns no connection at all keeps an idle flow open: the
timer of the sweep starts over with every packet. -/
theorem idle_unbounded_noisy :
    ∃ laps s c flow idle, LoopRun ⟨[⟨⟨"proxy:4433", "/masque"⟩, .v4 0x7f000001 53, false, none,
        some (secs 1)⟩]⟩ 0 laps s ∧
      s.flowAt c 0 = some flow ∧ flow.idleTimeout = some (secs 1) ∧
      idleFor laps s c 0 = some idle ∧ secs 1 + 2 * flowSweepInterval < idle := by
  refine ⟨_, _, ⟨List.replicate 16 7, rfl⟩, ⟨0, 5, some (secs 1)⟩, 3600000000,
    Run.of_permitted [openingIteration, noisyIteration, noisyIteration, noisyIteration, noisyIteration]
      (by decide) (by decide), by decide, by decide, by decide, by decide⟩

end ZeroMasque.Server
