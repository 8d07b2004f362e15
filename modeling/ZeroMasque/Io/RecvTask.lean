import ZeroMasque.Foundation.Queues
import ZeroMasque.Io.FlushPoints
import ZeroMasque.Io.Receive

/-! The task that reads a socket into a channel, for the server's listener and for
both sockets of the client. What the channel is full for is dropped; the rest comes
out as it was sent. -/
namespace ZeroMasque.Io
open Foundation
open scoped List

abbrev Datagram := Bytes × SocketAddr

/-- A nonblocking socket: its answer to a `recvmsg` with that much space, and what it
holds afterwards. -/
abbrev Recv (σ : Type) := σ → Nat → Except IoError Received × σ

/-- The reading loop of a woken task: what it read, whether the task goes on, and the
socket it leaves. -/
def readBatch {σ : Type} (recv : Recv σ) (bufSize : Nat) : Nat → σ → List Datagram × Bool × σ
  | 0, s => ([], true, s)
  | n + 1, s =>
    let s' := (recv s (bufferCapacity bufSize)).2
    match recvUdpSegments bufSize fun space => (recv s space).1 with
    | .ok segments => (segments ++ (readBatch recv bufSize n s').1, (readBatch recv bufSize n s').2)
    | .error .wouldBlock => ([], true, s')
    | .error .interrupted => readBatch recv bufSize n s'
    | .error _ => ([], false, s')

/-- What the kernel holds for a socket, and which of the coming calls fail instead. -/
structure Kernel where
  backlog : List CoalescedRun
  faults : List (Option IoError)

def Kernel.recv : Recv Kernel := fun k space =>
  match k.faults.head?.join with
  | some e => (.error e, ⟨k.backlog, k.faults.tail⟩)
  | none =>
    match k.backlog with
    | [] => (.error .wouldBlock, ⟨[], k.faults.tail⟩)
    | run :: backlog => (run.recvmsg space, ⟨backlog, k.faults.tail⟩)

/-- The datagrams of a run with the peer they come from. -/
def CoalescedRun.sent (run : CoalescedRun) : List Datagram := run.datagrams.map fun d => (d, run.peer)

section Reading
variable {bufSize : Nat}

/-- The loop takes runs off the backlog in order, whole, and no more than its rounds.
Without faults it stops only for want of runs. -/
structure Takes (n : Nat) (k : Kernel) (result : List Datagram × Bool × Kernel) : Prop where
  reads : ∃ taken, k.backlog = taken ++ result.2.2.backlog ∧ result.1 = taken.flatMap CoalescedRun.sent
  smooth : k.faults = [] → result.1 = (k.backlog.take n).flatMap CoalescedRun.sent ∧ result.2.1 = true ∧
    result.2.2.backlog = k.backlog.drop n

private theorem Takes.none {n : Nat} {k k' : Kernel} (goesOn : Bool) (hk : k'.backlog = k.backlog)
    (hs : k.faults = [] → k.backlog.take n = [] ∧ goesOn = true ∧ k.backlog.drop n = k.backlog) :
    Takes n k ([], goesOn, k') where
  reads := ⟨[], by simp [hk], rfl⟩
  smooth := by
    intro hfaults
    obtain ⟨htake, hon, hdrop⟩ := hs hfaults
    exact ⟨by rw [htake]; rfl, hon, by rw [hdrop, hk]⟩

/-- A run that can be read comes first, whatever else is read after it. -/
private theorem Takes.cons {n : Nat} {run : CoalescedRun} {backlog : List CoalescedRun}
    {faults : List (Option IoError)} {result : List Datagram × Bool × Kernel}
    (h : Takes n ⟨backlog, faults.tail⟩ result) :
    Takes (n + 1) ⟨run :: backlog, faults⟩ (run.sent ++ result.1, result.2) where
  reads := by
    obtain ⟨taken, hbacklog, hread⟩ := h.reads
    exact ⟨run :: taken, congrArg (run :: ·) hbacklog, by rw [hread, List.flatMap_cons]⟩
  smooth := by
    rintro rfl
    obtain ⟨hread, hon, hrest⟩ := h.smooth rfl
    exact ⟨by rw [hread, List.take_succ_cons, List.flatMap_cons], hon, hrest⟩

private theorem readBatch_takes (n : Nat) (k : Kernel) (hk : ∀ run ∈ k.backlog, Exact bufSize run) :
    Takes n k (readBatch Kernel.recv bufSize n k) := by
  induction n generalizing k with
  | zero => exact .none true rfl (by simp)
  | succ n ih =>
    obtain ⟨backlog, faults⟩ := k
    cases hfault : faults.head?.join with
    | some e =>
      have hne : faults ≠ [] := by
        rintro rfl
        cases hfault
      simp only [readBatch, Kernel.recv, hfault, recvUdpSegments]
      cases e with
      | interrupted => exact ⟨(ih ⟨backlog, faults.tail⟩ hk).reads, fun h => absurd h hne⟩
      | wouldBlock | invalidData | other => exact .none _ rfl fun h => absurd h hne
    | none =>
      cases backlog with
      | nil =>
        simp only [readBatch, Kernel.recv, hfault, recvUdpSegments]
        exact .none true rfl (by simp)
      | cons run backlog =>
        have hexact : recvUdpSegments bufSize run.recvmsg = .ok run.sent := hk run List.mem_cons_self
        simp only [readBatch, Kernel.recv, hfault, hexact]
        exact .cons (ih ⟨backlog, faults.tail⟩ fun r hr => hk r (List.mem_cons_of_mem _ hr))

end Reading

/-- A socket, the task that reads it and the channel it fills. -/
structure RecvTask where
  backlog : List CoalescedRun
  running : Bool
  queue : List Datagram

inductive RecvAct where
  -- the kernel gets a run
  | arrive (run : CoalescedRun)
  -- the socket is readable; a datagram whose turn is refused finds the channel full
  | wake (faults : List (Option IoError)) (refused : Nat → Bool)
  | readinessFailed
  | cancel
  -- the other end of the channel takes a datagram
  | next

inductive RecvEffect where
  | arrived (run : CoalescedRun)
  | refused (d : Datagram)
  | taken (d : Datagram)
  | ended

namespace RecvTask

/-- What of a burst gets into the channel, and what does not. -/
def accepted (refused : Nat → Bool) (burst : List Datagram) : List Datagram :=
  (burst.zipIdx.filter fun d => !refused d.2).map Prod.fst

def dropped (refused : Nat → Bool) (burst : List Datagram) : List Datagram :=
  (burst.zipIdx.filter fun d => refused d.2).map Prod.fst

def spawn : RecvTask := ⟨[], true, []⟩

/-- A wakeup reads at most 32 times. -/
def wake (bufSize : Nat) (t : RecvTask) (faults : List (Option IoError)) (refused : Nat → Bool) :
    RecvTask × List RecvEffect :=
  let read := readBatch Kernel.recv bufSize recvBatchLen ⟨t.backlog, faults⟩
  (⟨read.2.2.backlog, read.2.1, t.queue ++ accepted refused read.1⟩,
    (dropped refused read.1).map .refused ++ if read.2.1 then [] else [RecvEffect.ended])

/-- One step of the task of `spawn_udp_recv`, its socket or the channel's other end. -/
def step (bufSize : Nat) (cancellable : Bool) (t : RecvTask) : RecvAct → Option (RecvTask × List RecvEffect)
  | .arrive run => some ({ t with backlog := t.backlog ++ [run] }, [.arrived run])
  | .wake faults refused => if t.running then some (t.wake bufSize faults refused) else none
  | .readinessFailed => if t.running then some ({ t with running := false }, [.ended]) else none
  | .cancel => if t.running && cancellable then some ({ t with running := false }, [.ended]) else none
  | .next =>
    match t.queue with
    | [] => none
    | d :: queue => some ({ t with queue := queue }, [.taken d])

/-- Runs in which the kernel coalesces only what the reader can take apart again. -/
abbrev RecvRun (bufSize : Nat) (cancellable : Bool) : List RecvEffect → RecvTask → Prop :=
  Run (step bufSize cancellable) (fun _ _ a => ∀ run, a = .arrive run → Exact bufSize run) spawn

/-- Datagrams on their way through the task. -/
def held (t : RecvTask) : List Datagram := t.queue ++ t.backlog.flatMap CoalescedRun.sent

/-- Datagrams that come to the socket. -/
def sentIn : RecvEffect → List Datagram
  | .arrived run => run.sent
  | _ => []

/-- Datagrams that come out of the channel. -/
def takenOut : RecvEffect → List Datagram
  | .taken d => [d]
  | _ => []

private theorem accepted_sublist (refused : Nat → Bool) (burst : List Datagram) : accepted refused burst <+ burst := by
  have h := (List.filter_sublist (p := fun d => !refused d.2) (l := burst.zipIdx)).map Prod.fst
  rwa [List.zipIdx_map_fst] at h

private theorem accepted_of_dropped {refused : Nat → Bool} {burst : List Datagram} (h : dropped refused burst = []) :
    accepted refused burst = burst := by
  rw [dropped, List.map_eq_nil_iff, List.filter_eq_nil_iff] at h
  rw [accepted, List.filter_eq_self.mpr fun d hd => by simpa using h d hd, List.zipIdx_map_fst]

/-- What a step hands on and keeps comes, in order, from what was held and what came. -/
structure Relays (es : List RecvEffect) (t t' : RecvTask) : Prop where
  ordered : es.flatMap takenOut ++ t'.held <+ t.held ++ es.flatMap sentIn
  whole : (∀ d, .refused d ∉ es) → es.flatMap takenOut ++ t'.held = t.held ++ es.flatMap sentIn

private theorem Relays.of_eq {es : List RecvEffect} {t t' : RecvTask}
    (h : es.flatMap takenOut ++ t'.held = t.held ++ es.flatMap sentIn) : Relays es t t' :=
  ⟨h ▸ .refl _, fun _ => h⟩

section Step
variable {bufSize : Nat} {cancellable : Bool} {t t' : RecvTask} {a : RecvAct} {es : List RecvEffect}

/-- A wakeup emits refusals and perhaps the end of the task. -/
private theorem wake_quiet {refused : List Datagram} {running : Bool} {g : RecvEffect → List Datagram}
    (hr : ∀ d, g (.refused d) = []) (he : g .ended = []) :
    (refused.map RecvEffect.refused ++ if running then [] else [RecvEffect.ended]).flatMap g = [] := by
  rw [List.flatMap_eq_nil_iff]
  intro e hmem
  rcases List.mem_append.mp hmem with hmem | hmem
  · obtain ⟨d, -, rfl⟩ := List.mem_map.mp hmem
    exact hr d
  · split at hmem
    · cases hmem
    · rw [List.mem_singleton.mp hmem, he]

private theorem wake_relays (ht : ∀ run ∈ t.backlog, Exact bufSize run) (faults : List (Option IoError))
    (refused : Nat → Bool) : Relays (t.wake bufSize faults refused).2 t (t.wake bufSize faults refused).1 := by
  obtain ⟨taken, hbacklog, hburst⟩ := (readBatch_takes recvBatchLen ⟨t.backlog, faults⟩ ht).reads
  simp only [wake]
  generalize readBatch Kernel.recv bufSize recvBatchLen ⟨t.backlog, faults⟩ = read at hbacklog hburst ⊢
  have hheld : t.held = t.queue ++ (read.1 ++ read.2.2.backlog.flatMap CoalescedRun.sent) := by
    rw [held, hburst, ← List.flatMap_append, ← hbacklog]
  refine ⟨?_, fun hall => ?_⟩ <;>
    rw [wake_quiet (fun _ => rfl) rfl, wake_quiet (fun _ => rfl) rfl, hheld, List.nil_append, List.append_nil,
      held, List.append_assoc]
  · exact ((accepted_sublist refused read.1).append_right _).append_left _
  · have hnone : dropped refused read.1 = [] := by
      refine List.eq_nil_iff_forall_not_mem.mpr fun d hd => hall d ?_
      exact List.mem_append_left _ (List.mem_map_of_mem hd)
    rw [accepted_of_dropped hnone]

theorem step_relays (ht : ∀ run ∈ t.backlog, Exact bufSize run)
    (hs : t.step bufSize cancellable a = some (t', es)) : Relays es t t' := by
  cases a with
  | arrive run =>
    cases hs
    exact .of_eq (by simp [held, takenOut, sentIn])
  | wake faults refused =>
    simp only [step] at hs
    split_ifs at hs
    cases hs
    exact wake_relays ht faults refused
  | readinessFailed | cancel =>
    simp only [step] at hs
    split_ifs at hs
    cases hs
    exact .of_eq (by simp [held, takenOut, sentIn])
  | next =>
    simp only [step] at hs
    split at hs
    · cases hs
    · rename_i d queue hq
      cases hs
      exact .of_eq (by simp [held, takenOut, sentIn, hq])

/-- Nothing leaves the channel but at its other end. -/
theorem step_takes_nothing (ha : a ≠ .next) (hs : t.step bufSize cancellable a = some (t', es)) :
    es.flatMap takenOut = [] := by
  cases a with
  | arrive run =>
    cases hs
    rfl
  | wake faults refused =>
    simp only [step] at hs
    split_ifs at hs
    cases hs
    exact wake_quiet (fun _ => rfl) rfl
  | readinessFailed | cancel =>
    simp only [step] at hs
    split_ifs at hs
    cases hs
    rfl
  | next => exact absurd rfl ha

/-- Nothing but an arrival adds to the backlog. -/
theorem step_exact (ht : ∀ run ∈ t.backlog, Exact bufSize run)
    (ha : ∀ run, a = .arrive run → Exact bufSize run) (hs : t.step bufSize cancellable a = some (t', es)) :
    ∀ run ∈ t'.backlog, Exact bufSize run := by
  cases a with
  | arrive run =>
    cases hs
    intro run' hrun'
    rcases List.mem_append.mp hrun' with hold | hnew
    · exact ht run' hold
    · rw [List.mem_singleton.mp hnew]
      exact ha run rfl
  | wake faults refused =>
    simp only [step] at hs
    split_ifs at hs
    cases hs
    obtain ⟨taken, hbacklog, -⟩ := (readBatch_takes recvBatchLen ⟨t.backlog, faults⟩ ht).reads
    intro run hrun
    refine ht run ?_
    rw [show t.backlog = _ from hbacklog]
    exact List.mem_append_right taken hrun
  | readinessFailed | cancel =>
    simp only [step] at hs
    split_ifs at hs
    cases hs
    exact ht
  | next =>
    simp only [step] at hs
    split at hs <;> cases hs
    exact ht

end Step

/-- Under any order of arrivals, wakeups, faults and reads of the channel, what comes
out of the channel, then what it holds, then what the kernel holds, is a part of what
was sent to the socket, in order and datagram by datagram; it is all of it unless the
channel was full. A wakeup without faults takes the first 32 coalesced runs. -/
theorem recv_task_in_order {bufSize : Nat} {cancellable : Bool} {tr : List RecvEffect} {t : RecvTask}
    (hr : RecvRun bufSize cancellable tr t) :
    tr.flatMap takenOut ++ t.held <+ tr.flatMap sentIn ∧
    ((∀ d, .refused d ∉ tr) → tr.flatMap takenOut ++ t.held = tr.flatMap sentIn) ∧
    (t.running = true → t.step bufSize cancellable (.wake [] fun _ => false) =
      some (⟨t.backlog.drop recvBatchLen, true,
        t.queue ++ (t.backlog.take recvBatchLen).flatMap CoalescedRun.sent⟩, [])) := by
  have hexact {tr : List RecvEffect} {t : RecvTask} (hr : RecvRun bufSize cancellable tr t) :
      ∀ run ∈ t.backlog, Exact bufSize run := by
    refine Run.invariant (P := fun _ t => ∀ run ∈ t.backlog, Exact bufSize run) ?_ ?_ hr
    · intro run hrun
      cases hrun
    · intro tr t a t' es _ ih ha hs
      exact step_exact ih ha hs
  refine ⟨?_, ?_, fun hrunning => ?_⟩
  · exact Run.ordered held rfl (fun _ _ _ _ _ hr _ hs => (step_relays (hexact hr) hs).ordered) hr
  · refine Run.invariant (P := fun tr t => (∀ d, .refused d ∉ tr) →
      tr.flatMap takenOut ++ t.held = tr.flatMap sentIn) (fun _ => rfl) ?_ hr
    intro tr t a t' es hr ih _ hs hall
    have hstep := (step_relays (hexact hr) hs).whole fun d hd => hall d (List.mem_append_right _ hd)
    have hbefore := ih fun d hd => hall d (List.mem_append_left _ hd)
    rw [List.flatMap_append, List.flatMap_append, List.append_assoc, hstep, ← List.append_assoc, hbefore]
  · obtain ⟨hread, hon, hrest⟩ := (readBatch_takes recvBatchLen ⟨t.backlog, []⟩ (hexact hr)).smooth rfl
    simp [step, wake, hrunning, hread, hon, hrest, accepted, dropped]

/-- Two datagrams that came as one. -/
def twoInOne : CoalescedRun where
  peer := .v4 0x7f000001 4433
  segment := 2
  datagrams := [[1, 2], [3]]
  nonempty := List.cons_ne_nil _ _
  segmented := ⟨rfl, by decide⟩
  bounded := by decide

private theorem twoInOne_exact : Exact recvBuf twoInOne :=
  (exact_iff_split recvBuf twoInOne).mpr (split_of_fits (by decide) (.inr (by decide)))

/-- Two coalesced pairs are read in one wakeup, and the first datagram is taken. -/
theorem recv_task_in_order_pairs :
    ∃ tr t, RecvRun recvBuf false tr t ∧ tr.flatMap takenOut = [([1, 2], twoInOne.peer)] ∧
      t.held = ([3], twoInOne.peer) :: twoInOne.sent ∧ tr.flatMap takenOut ++ t.held = tr.flatMap sentIn := by
  have harrive (run : CoalescedRun) (h : RecvAct.arrive twoInOne = .arrive run) : Exact recvBuf run := by
    cases h
    exact twoInOne_exact
  have harrived : RecvRun recvBuf false _ _ :=
    .next (.arrive twoInOne) (.next (.arrive twoInOne) .init harrive rfl) harrive rfl
  have hrun := Run.next .next (Run.next (.wake [] fun _ => false) harrived nofun
    ((recv_task_in_order harrived).2.2 rfl)) nofun rfl
  exact ⟨_, _, hrun, rfl, rfl, (recv_task_in_order hrun).2.1 (by simp)⟩

end RecvTask

/-- Whatever part of a flushed batch the kernel at the other end hands over at once,
the reader there takes it apart at the boundaries the batch was put together at. -/
theorem flushed_batch_read_back {linux : Bool} {last : ConnEnd} {socket : Socket}
    {sends : List (Bytes × SocketAddr)} (hs : ∀ p ∈ sends, p.1 ≠ [] ∧ p.1.length ≤ maxDatagramSize)
    {calls : List Call} {f : Flush} (hr : FlushRun linux last (.start sends socket) calls f)
    {dest : SocketAddr} {segmentSize : Nat} {packets : List Bytes}
    (hcall : .sendPackets dest segmentSize packets ∈ calls) (run : CoalescedRun)
    (hrun : run.datagrams <:+: packets) : Exact maxDatagramSize run := by
  have hpassed : Passed sends dest segmentSize packets := (FlushRun.kept hs hr).2 _ hcall
  refine (exact_iff_split maxDatagramSize run).mpr (split_of_fits ?_ (.inr ?_))
  · have hpart : run.datagrams.flatten.length ≤ packets.flatten.length := by
      obtain ⟨before, after, rfl⟩ := hrun
      simp only [List.flatten_append, List.length_append]
      omega
    calc run.datagrams.flatten.length
        ≤ packets.flatten.length := hpart
      _ ≤ sendBatchLen * maxDatagramSize := hpassed.payload
      _ = bufferCapacity maxDatagramSize := by decide
  · intro hlast
    have hmem : ([], dest) ∈ sends := by
      refine hpassed.formed.shared.subset ?_
      exact List.mem_map.mpr ⟨[], hrun.subset (List.mem_of_getLast? hlast), rfl⟩
    exact (hs _ hmem).1 rfl

/-- The last two packets of a flushed batch come in as one. -/
theorem flushed_batch_read_back_tail :
    ∃ run : CoalescedRun, run.datagrams = [[3, 4], [5]] ∧ Exact maxDatagramSize run := by
  have hrun : FlushRun true .done (.start shortTail ⟨[], withoutGso⟩) _ _ :=
    Run.extend .init (List.replicate 12 ()) (fun _ _ _ _ => trivial) (by decide)
  refine ⟨⟨.v4 0x7f000001 4433, 2, [[3, 4], [5]], by decide, ⟨rfl, by decide⟩, by decide⟩, rfl, ?_⟩
  exact flushed_batch_read_back (by decide) hrun
    (by decide : Call.sendPackets (.v4 0x7f000001 4433) 2 [[1, 2], [3, 4], [5]] ∈ _) _ (by decide)

end ZeroMasque.Io
