import ZeroMasque.Foundation.Segments
import ZeroMasque.Net

/-! Receiving on a socket with UDP GRO: the kernel merges a run of datagrams
and the reader cuts it again at the reported segment size. -/
namespace ZeroMasque.Io
open Foundation

inductive IoError where
  | wouldBlock | interrupted | invalidData | other
  deriving DecidableEq

/-- What one successful `recvmsg` leaves behind: the bytes copied, the peer
(`none` for an address family other than IPv4 and IPv6) and the GRO control message. -/
structure Received where
  data : Bytes
  peer : Option SocketAddr
  gro : Option Nat

/-- `usize::saturating_mul`. -/
def saturatingMul (a b : Nat) : Nat := min (a * b) (2 ^ 64 - 1)

/-- The space `recv_udp_segments` allocates and offers to the kernel. -/
def bufferCapacity (segmentSize : Nat) : Nat :=
  max (min (saturatingMul segmentSize recvBatchLen) 65535) segmentSize

/-- Read once and split what came by the reported segment size. The socket is
given by its answer to a `recvmsg` with that much space. -/
def recvUdpSegments (segmentSize : Nat) (recvmsg : Nat → Except IoError Received) :
    Except IoError (List (Bytes × SocketAddr)) :=
  match recvmsg (bufferCapacity segmentSize) with
  | .error e => .error e
  | .ok msg =>
    match msg.peer with
    | none => .error .invalidData
    | some peer =>
      let n := msg.data.length
      match msg.gro.filter (fun s => 0 < s && s < n) with
      | none => .ok [(msg.data, peer)]
      | some groSize => .ok ((chunks groSize msg.data).map fun chunk => (chunk, peer))

/-- A run the kernel coalesces: datagrams of one peer, all of the segment size
except the last, which may be shorter, in at most 65535 bytes. -/
structure CoalescedRun where
  peer : SocketAddr
  segment : Nat
  datagrams : List Bytes
  nonempty : datagrams ≠ []
  segmented : Segmented segment datagrams
  bounded : datagrams.flatten.length ≤ 65535

/-- The kernel copies as much of the concatenation as there is space for. -/
def CoalescedRun.recvmsg (run : CoalescedRun) (capacity : Nat) : Except IoError Received :=
  .ok ⟨run.datagrams.flatten.take capacity, some run.peer, some run.segment⟩

/-- The reader reports every datagram of the run, with its boundaries and in order. -/
def Exact (segmentSize : Nat) (run : CoalescedRun) : Prop :=
  recvUdpSegments segmentSize run.recvmsg = .ok (run.datagrams.map fun d => (d, run.peer))

/-- The words a read returns, without the peer they all share. -/
def split (run : CoalescedRun) (capacity : Nat) : List Bytes :=
  let data := run.datagrams.flatten.take capacity
  if 0 < run.segment ∧ run.segment < data.length then chunks run.segment data else [data]

private theorem recvUdpSegments_split (segmentSize : Nat) (run : CoalescedRun) :
    recvUdpSegments segmentSize run.recvmsg =
      .ok ((split run (bufferCapacity segmentSize)).map fun d => (d, run.peer)) := by
  simp only [recvUdpSegments, CoalescedRun.recvmsg, split]
  by_cases h : 0 < run.segment ∧
      run.segment < (run.datagrams.flatten.take (bufferCapacity segmentSize)).length
  · rw [Option.filter_some_pos (by simpa using h), if_pos h]
  · rw [Option.filter_some_neg (by simpa using h), if_neg h]
    rfl

theorem exact_iff_split (segmentSize : Nat) (run : CoalescedRun) :
    Exact segmentSize run ↔ split run (bufferCapacity segmentSize) = run.datagrams := by
  rw [Exact, recvUdpSegments_split]
  constructor
  · intro h
    have hinj : Function.Injective fun d : Bytes => (d, run.peer) := fun a b hab => congrArg Prod.fst hab
    exact List.map_injective_iff.mpr hinj (Except.ok.inj h)
  · intro h
    rw [h]

private theorem flatten_split (run : CoalescedRun) (capacity : Nat) :
    (split run capacity).flatten = run.datagrams.flatten.take capacity := by
  unfold split
  dsimp only
  split
  · rename_i h
    exact flatten_chunks h.1 _
  · simp

/-- Nothing beyond the buffer can be returned. -/
private theorem fits_of_exact {segmentSize : Nat} {run : CoalescedRun} (h : Exact segmentSize run) :
    run.datagrams.flatten.length ≤ bufferCapacity segmentSize := by
  have hs := congrArg (fun ds => (List.flatten ds).length) ((exact_iff_split segmentSize run).mp h)
  simp only [flatten_split, List.length_take] at hs
  omega

private theorem last_nonempty_of_split {run : CoalescedRun} {capacity : Nat}
    (h : split run capacity = run.datagrams) (hlen : run.datagrams.length ≠ 1) :
    run.datagrams.getLast? ≠ some [] := by
  unfold split at h
  dsimp only at h
  split at h
  · rename_i hg
    intro hl
    have hm : [] ∈ run.datagrams := List.mem_of_getLast? hl
    rw [← h] at hm
    exact nil_not_mem_chunks hg.1 _ hm
  · exact absurd (congrArg List.length h.symm) hlen

private theorem segment_lt_total {g : Nat} {ds : List Bytes} (hs : Segmented g ds)
    (hlen : ds.length ≠ 1) (hne : ds ≠ []) (hlast : ds.getLast? ≠ some []) :
    0 < g ∧ g < ds.flatten.length := by
  match ds, hs, hlen, hne, hlast with
  | d :: e :: rest, hs, _, _, hlast =>
    have hlast' : (e :: rest).getLast (by simp) ≠ [] := by
      intro h
      apply hlast
      rw [List.getLast?_cons_cons, List.getLast?_eq_some_getLast (by simp), h]
    have hmem := List.getLast_mem (l := e :: rest) (by simp)
    have hpos := List.length_pos_of_ne_nil hlast'
    have hle := hs.2.length_le _ hmem
    have htotal := (List.sublist_flatten_of_mem hmem).length_le
    refine ⟨by omega, ?_⟩
    rw [List.flatten_cons, List.length_append, hs.1]
    omega

theorem split_of_fits {run : CoalescedRun} {capacity : Nat}
    (hfit : run.datagrams.flatten.length ≤ capacity)
    (hlast : run.datagrams.length = 1 ∨ run.datagrams.getLast? ≠ some []) :
    split run capacity = run.datagrams := by
  have htake : run.datagrams.flatten.take capacity = run.datagrams.flatten :=
    List.take_of_length_le hfit
  unfold split
  dsimp only
  rw [htake]
  by_cases hone : run.datagrams.length = 1
  · obtain ⟨d, hd⟩ := List.length_eq_one_iff.mp hone
    have hseg := run.segmented
    rw [hd] at hseg ⊢
    have hle : d.length ≤ run.segment := hseg
    rw [if_neg (by simp; omega)]
    simp
  · have hl := hlast.resolve_left hone
    have hg := segment_lt_total run.segmented hone run.nonempty hl
    rw [if_pos hg]
    apply chunks_flatten hg.1 run.segmented
    rintro d hd rfl
    exact hl hd

/-- Coalesced datagrams survive the read exactly when the whole run fits the
buffer and no empty datagram trails others. -/
theorem recvUdpSegments_exact_iff (segmentSize : Nat) (run : CoalescedRun) :
    Exact segmentSize run ↔
      run.datagrams.flatten.length ≤ bufferCapacity segmentSize ∧
        (run.datagrams.length = 1 ∨ run.datagrams.getLast? ≠ some []) := by
  constructor
  · intro h
    refine ⟨fits_of_exact h, ?_⟩
    by_cases hone : run.datagrams.length = 1
    · exact .inl hone
    · exact .inr (last_nonempty_of_split ((exact_iff_split segmentSize run).mp h) hone)
  · rintro ⟨hfit, hlast⟩
    exact (exact_iff_split segmentSize run).mpr (split_of_fits hfit hlast)

example : bufferCapacity maxDatagramSize = 44800 := by decide
example : bufferCapacity recvBuf = 65535 := by decide

/-- Thirty-three full QUIC packets in one coalesced run. -/
def fullBurst : CoalescedRun where
  peer := .v4 0x7f000001 4433
  segment := 1400
  datagrams := List.replicate 33 (List.replicate 1400 0)
  nonempty := List.cons_ne_nil _ _
  segmented := segmented_replicate 33 1400 0
  bounded := by
    rw [length_flatten_replicate]
    decide

/-- The QUIC sockets' buffer holds thirty-two of them: the read loses the last. -/
theorem fullBurst_truncated : fullBurst.segment ≤ maxDatagramSize ∧ ¬ Exact maxDatagramSize fullBurst := by
  refine ⟨by decide, ?_⟩
  intro h
  have hfit := fits_of_exact h
  have hcap : bufferCapacity maxDatagramSize = 44800 := by decide
  have htotal : fullBurst.datagrams.flatten.length = 33 * 1400 := length_flatten_replicate 33 1400 0
  rw [hcap, htotal] at hfit
  exact absurd hfit (by decide)

end ZeroMasque.Io
