import ZeroMasque.Foundation.Segments
import ZeroMasque.Net

/-! Batches of outgoing packets and the socket they are written to. The socket
answers every `sendmsg` from a script; a refused call puts nothing on the wire. -/
namespace ZeroMasque.Io
open Foundation

/-- Packets collected for one destination, to leave as one segmented payload. -/
structure SendBatch where
  dest : Option SocketAddr
  segmentSize : Nat
  packets : List Bytes

namespace SendBatch

def new : SendBatch := ⟨none, 0, []⟩

def pushFirst (batch : SendBatch) (packet : Bytes) (dest : SocketAddr) : SendBatch :=
  ⟨some dest, packet.length, batch.packets ++ [packet]⟩

/-- Add a packet, or hand it back when it cannot join the batch. -/
def tryPush (batch : SendBatch) (packet : Bytes) (dest : SocketAddr) : SendBatch × Option Bytes :=
  if batch.packets = [] then (batch.pushFirst packet dest, none)
  else if batch.dest = some dest ∧ packet.length ≤ batch.segmentSize ∧
      (packet.length = batch.segmentSize ∨ batch.packets.length < sendBatchLen) then
    ({ batch with packets := batch.packets ++ [packet] }, none)
  else (batch, some packet)

def endsWithShortSegment (batch : SendBatch) : Bool :=
  batch.packets.getLast?.any fun p => p.length < batch.segmentSize

def take (batch : SendBatch) : SendBatch × Option (SocketAddr × Nat × List Bytes) :=
  match batch.dest with
  | none => (batch, none)
  | some dest => (⟨none, 0, []⟩, some (dest, batch.segmentSize, batch.packets))

/-- The datagrams a batch stands for. -/
def contents (batch : SendBatch) : List (Bytes × SocketAddr) :=
  match batch.dest with
  | none => []
  | some dest => batch.packets.map fun p => (p, dest)

end SendBatch

/-- How one `sendmsg` attempt ends: sent, to be retried once the socket is
writable, or failed with an errno that does or does not mean missing GSO. -/
inductive SendResult where
  | sent
  | blocked
  | failed (gsoUnsupported : Bool)
  deriving DecidableEq

/-- The kernel's answer to the next attempt, with and without `UDP_SEGMENT`. -/
structure Answer where
  plain : SendResult
  segmented : SendResult
  deriving DecidableEq

structure Socket where
  wire : List (Bytes × SocketAddr)
  answers : List Answer
  deriving DecidableEq

/-- `waiting` is a task still parked on a socket that is not writable. -/
inductive Status where
  | done
  | failed (gsoUnsupported : Bool)
  | waiting
  deriving DecidableEq

/-- What an accepted `sendmsg` puts on the wire: the kernel cuts a segmented
payload every `segment_size` bytes, a value cast to 16 bits on the way. -/
def sendmsgUdp (dest : SocketAddr) (payload : Bytes) (gso : Option Nat) : List (Bytes × SocketAddr) :=
  match gso with
  | none => [(payload, dest)]
  | some segmentSize => (chunks (segmentSize % 2 ^ 16) payload).map fun p => (p, dest)

def sendPayload (dest : SocketAddr) (payload : Bytes) (gso : Option Nat)
    (wire : List (Bytes × SocketAddr)) : List Answer → Socket × Status
  | [] => (⟨wire, []⟩, .waiting)
  | a :: rest =>
    match if gso.isSome then a.segmented else a.plain with
    | .sent => (⟨wire ++ sendmsgUdp dest payload gso, rest⟩, .done)
    | .blocked => sendPayload dest payload gso wire rest
    | .failed gsoUnsupported => (⟨wire, rest⟩, .failed gsoUnsupported)

/-- One plain `sendmsg` a packet, up to the first failure. -/
def sendEach (dest : SocketAddr) : List Bytes → Socket → Socket × Status
  | [], socket => (socket, .done)
  | packet :: rest, socket =>
    match sendPayload dest packet none socket.wire socket.answers with
    | (socket', .done) => sendEach dest rest socket'
    | r => r

def sendPackets (linux : Bool) (dest : SocketAddr) (segmentSize : Nat) (packets : List Bytes)
    (socket : Socket) : Socket × Status :=
  let useGso := linux && decide (packets.length > 1)
  if !useGso && decide (packets.length > 1) then sendEach dest packets socket
  else
    match sendPayload dest packets.flatten (if useGso then some segmentSize else none)
        socket.wire socket.answers with
    | (socket', .failed gsoUnsupported) =>
      if useGso && gsoUnsupported then sendEach dest packets socket'
      else (socket', .failed gsoUnsupported)
    | r => r

def sendBatch (linux : Bool) (batch : SendBatch) (socket : Socket) : SendBatch × Socket × Status :=
  match batch.take with
  | (batch', none) => (batch', socket, .done)
  | (batch', some (dest, segmentSize, packets)) =>
    (batch', sendPackets linux dest segmentSize packets socket)

/-- A write that left a part of the content behind what was there, all of it if done. -/
def Delivers (content : List (Bytes × SocketAddr)) (socket : Socket) (r : Socket × Status) : Prop :=
  ∃ out, r.1.wire = socket.wire ++ out ∧ out <+: content ∧ (r.2 = .done → out = content)

private theorem Delivers.nil (socket : Socket) : Delivers [] socket (socket, .done) :=
  ⟨[], by simp, List.prefix_rfl, fun _ => rfl⟩

/-- Writing on after a finished write. -/
private theorem Delivers.append {c d : List (Bytes × SocketAddr)} {socket : Socket} {r q : Socket × Status}
    (h : Delivers c socket r) (hd : r.2 = .done) (hq : Delivers d r.1 q) :
    Delivers (c ++ d) socket q := by
  obtain ⟨out, hw, _, hall⟩ := h
  obtain ⟨out', hw', hp', hall'⟩ := hq
  refine ⟨out ++ out', ?_, ?_, ?_⟩
  · rw [hw', hw, List.append_assoc]
  · rw [hall hd]
    exact (List.prefix_append_right_inj c).mpr hp'
  · intro hq
    rw [hall hd, hall' hq]

/-- Stopping after an unfinished one. -/
private theorem Delivers.stop {c : List (Bytes × SocketAddr)} (d : List (Bytes × SocketAddr))
    {socket : Socket} {r : Socket × Status}
    (h : Delivers c socket r) (hd : r.2 ≠ .done) : Delivers (c ++ d) socket r := by
  obtain ⟨out, hw, hp, _⟩ := h
  exact ⟨out, hw, hp.trans (List.prefix_append c d), fun hr => absurd hr hd⟩

private theorem sendPayload_delivers (dest : SocketAddr) (payload : Bytes) (gso : Option Nat)
    (wire : List (Bytes × SocketAddr)) (answers : List Answer) :
    let r := sendPayload dest payload gso wire answers
    (r.2 = .done ∧ r.1.wire = wire ++ sendmsgUdp dest payload gso) ∨
      (r.2 ≠ .done ∧ r.1.wire = wire) := by
  induction answers with
  | nil => exact .inr ⟨by simp [sendPayload], rfl⟩
  | cons a rest ih =>
    simp only [sendPayload]
    split
    · exact .inl ⟨rfl, rfl⟩
    · exact ih
    · exact .inr ⟨by simp, rfl⟩

private theorem sendEach_delivers (dest : SocketAddr) (packets : List Bytes) (socket : Socket) :
    Delivers (packets.map fun p => (p, dest)) socket (sendEach dest packets socket) := by
  induction packets generalizing socket with
  | nil => exact Delivers.nil socket
  | cons packet rest ih =>
    have h := sendPayload_delivers dest packet none socket.wire socket.answers
    simp only [sendEach]
    split
    · rename_i socket' he
      rw [he] at h
      have hw := (h.resolve_right fun hn => hn.1 rfl).2
      have hfirst : Delivers [(packet, dest)] socket (socket', .done) :=
        ⟨[(packet, dest)], hw, List.prefix_rfl, fun _ => rfl⟩
      exact hfirst.append rfl (ih socket')
    · rename_i hne
      have hnd : (sendPayload dest packet none socket.wire socket.answers).2 ≠ .done :=
        fun hd => hne _ (Prod.ext rfl hd)
      have hw := (h.resolve_left fun hn => hnd hn.1).2
      exact ⟨[], by simp [hw], List.nil_prefix, fun hd => absurd hd hnd⟩

/-- A batch may be cut by the kernel without moving a boundary. -/
structure Cuttable (segmentSize : Nat) (packets : List Bytes) : Prop where
  small : segmentSize < 2 ^ 16
  segmented : Segmented segmentSize packets
  nonempty : ∀ p ∈ packets, p ≠ []

private theorem Cuttable.chunks_flatten {segmentSize : Nat} {packets : List Bytes}
    (h : Cuttable segmentSize packets) (hlen : 1 < packets.length) :
    chunks (segmentSize % 2 ^ 16) packets.flatten = packets := by
  rw [Nat.mod_eq_of_lt h.small]
  refine Foundation.chunks_flatten ?_ h.segmented fun d hd => h.nonempty d (List.mem_of_getLast? hd)
  match packets, hlen with
  | p :: q :: rest, _ =>
    have hp := List.length_pos_of_ne_nil (h.nonempty p List.mem_cons_self)
    have hle := h.segmented.length_le p List.mem_cons_self
    omega

/-- All that `send_packets` can do: packet by packet, or as one payload, which is cut
by the kernel if it is more than one packet. Only a refused cut is made up for. -/
private theorem sendPackets_cases (linux : Bool) (dest : SocketAddr) (segmentSize : Nat) {packets : List Bytes}
    (socket : Socket) (hne : packets ≠ []) :
    sendPackets linux dest segmentSize packets socket = sendEach dest packets socket ∨
      ∃ gso, (gso = none ∧ packets.length = 1 ∨ gso = some segmentSize ∧ 1 < packets.length) ∧
        sendPackets linux dest segmentSize packets socket =
          let r := sendPayload dest packets.flatten gso socket.wire socket.answers
          if gso.isSome ∧ r.2 = .failed true then sendEach dest packets r.1 else r := by
  have hpos := List.length_pos_of_ne_nil hne
  by_cases hmany : 1 < packets.length
  · cases linux with
    | false =>
      left
      simp [sendPackets, hmany]
    | true =>
      refine .inr ⟨some segmentSize, .inr ⟨rfl, hmany⟩, ?_⟩
      simp only [sendPackets, hmany, decide_true, Bool.and_self, Bool.not_true, Bool.false_and,
        Bool.false_eq_true, if_false, if_true, Bool.true_and, Option.isSome_some, true_and]
      split
      · rename_i socket' unsupported he
        cases unsupported <;> simp [he]
      · rename_i hother
        rw [if_neg fun hfailed => hother _ _ (Prod.ext rfl hfailed)]
  · have hone : packets.length = 1 := by omega
    refine .inr ⟨none, .inl ⟨rfl, hone⟩, ?_⟩
    simp only [sendPackets, hmany, decide_false, Bool.and_false, Bool.false_eq_true, if_false,
      Bool.false_and, Option.isSome_none, false_and]
    split
    · rename_i he
      exact he.symm
    · rfl

theorem sendPackets_delivers (linux : Bool) (dest : SocketAddr) (segmentSize : Nat)
    (packets : List Bytes) (socket : Socket) (hc : Cuttable segmentSize packets)
    (hne : packets ≠ []) :
    Delivers (packets.map fun p => (p, dest)) socket
      (sendPackets linux dest segmentSize packets socket) := by
  rcases sendPackets_cases linux dest segmentSize socket hne with heq | ⟨gso, hgso, heq⟩
  · rw [heq]
    exact sendEach_delivers dest packets socket
  have hcut : sendmsgUdp dest packets.flatten gso = packets.map fun p => (p, dest) := by
    rcases hgso with ⟨rfl, hone⟩ | ⟨rfl, hmany⟩
    · obtain ⟨p, rfl⟩ := List.length_eq_one_iff.mp hone
      simp [sendmsgUdp]
    · rw [sendmsgUdp, hc.chunks_flatten hmany]
  have h := sendPayload_delivers dest packets.flatten gso socket.wire socket.answers
  rw [hcut] at h
  rw [heq]
  dsimp only
  split
  · rename_i hfailed
    have hsame := (h.resolve_left fun hn => by rw [hfailed.2] at hn; cases hn.1).2
    obtain ⟨out, hw, hp, hall⟩ :=
      sendEach_delivers dest packets (sendPayload dest packets.flatten gso socket.wire socket.answers).1
    exact ⟨out, by rw [hw, hsame], hp, hall⟩
  · rcases h with ⟨hd, hw⟩ | ⟨hd, hw⟩
    · exact ⟨_, hw, List.prefix_rfl, fun _ => rfl⟩
    · exact ⟨[], by rw [hw, List.append_nil], List.nil_prefix, fun hx => absurd hx hd⟩

/-- An answer that does not ask to try again. -/
def Answer.prompt (a : Answer) : Bool := a.plain != .blocked && a.segmented != .blocked

/-- An answer that no call fails on for good: only a segmented call may be
refused, and then for missing GSO support. -/
def Answer.Benign (a : Answer) : Prop :=
  (a.plain = .sent ∨ a.plain = .blocked) ∧
    (a.segmented = .sent ∨ a.segmented = .blocked ∨ a.segmented = .failed true)

instance (a : Answer) : Decidable a.Benign :=
  inferInstanceAs (Decidable (_ ∧ _))

def Benign (answers : List Answer) : Prop := ∀ a ∈ answers, a.Benign

/-- The prompt answers still to come. -/
def supply (answers : List Answer) : Nat := (answers.filter Answer.prompt).length

/-- With benign answers and n prompt ones at hand the write finishes, at that cost. -/
def Serves (n : Nat) (answers : List Answer) (r : Socket × Status) : Prop :=
  Benign answers → n ≤ supply answers →
    r.2 = .done ∧ Benign r.1.answers ∧ supply answers ≤ supply r.1.answers + n

private theorem sendPayload_serves (dest : SocketAddr) (payload : Bytes) (gso : Option Nat)
    (wire : List (Bytes × SocketAddr)) (answers : List Answer) (hb : Benign answers)
    (hs : 1 ≤ supply answers) :
    let r := sendPayload dest payload gso wire answers
    (r.2 = .done ∨ (gso.isSome ∧ r.2 = .failed true)) ∧ Benign r.1.answers ∧
      supply answers ≤ supply r.1.answers + 1 := by
  induction answers with
  | nil => exact absurd hs (by decide)
  | cons a rest ih =>
    have hrest : Benign rest := fun x hx => hb x (List.mem_cons_of_mem _ hx)
    have hle : supply (a :: rest) ≤ supply rest + 1 := by
      unfold supply
      rw [List.filter_cons]
      split <;> simp
    obtain ⟨hplain, hseg⟩ := hb a List.mem_cons_self
    simp only [sendPayload]
    split
    · exact ⟨.inl rfl, hrest, hle⟩
    · rename_i hblocked
      have hsame : supply (a :: rest) = supply rest := by
        have hp : a.prompt = false := by
          unfold Answer.prompt
          cases gso <;> simp_all
        unfold supply
        rw [List.filter_cons, hp]
        rfl
      rw [hsame] at hs ⊢
      exact ih hrest hs
    · rename_i u hfail
      refine ⟨.inr ?_, hrest, hle⟩
      cases gso <;> simp_all

private theorem sendEach_serves (dest : SocketAddr) (packets : List Bytes) (socket : Socket) :
    Serves packets.length socket.answers (sendEach dest packets socket) := by
  induction packets generalizing socket with
  | nil =>
    intro hb _
    exact ⟨rfl, hb, Nat.le_refl _⟩
  | cons packet rest ih =>
    intro hb hs
    rw [List.length_cons] at hs
    obtain ⟨hd, hb', hs'⟩ := sendPayload_serves dest packet none socket.wire socket.answers hb (by omega)
    have hdone := hd.resolve_right (by simp)
    have he : sendPayload dest packet none socket.wire socket.answers =
        ((sendPayload dest packet none socket.wire socket.answers).1, .done) := Prod.ext rfl hdone
    rw [sendEach, he]
    dsimp only
    obtain ⟨h1, h2, h3⟩ := ih (sendPayload dest packet none socket.wire socket.answers).1 hb' (by omega)
    refine ⟨h1, h2, ?_⟩
    rw [List.length_cons]
    omega

theorem sendPackets_serves (linux : Bool) (dest : SocketAddr) (segmentSize : Nat)
    (packets : List Bytes) (socket : Socket) (hne : packets ≠ []) :
    Serves (2 * packets.length) socket.answers
      (sendPackets linux dest segmentSize packets socket) := by
  intro hb hs
  have hpos := List.length_pos_of_ne_nil hne
  rcases sendPackets_cases linux dest segmentSize socket hne with heq | ⟨gso, hgso, heq⟩
  · obtain ⟨h1, h2, h3⟩ := sendEach_serves dest packets socket hb (by omega)
    rw [heq]
    exact ⟨h1, h2, by omega⟩
  obtain ⟨hd, hb', hs'⟩ :=
    sendPayload_serves dest packets.flatten gso socket.wire socket.answers hb (by omega)
  rw [heq]
  dsimp only
  split
  · rename_i hfailed
    have hmany : 1 < packets.length := by
      rcases hgso with ⟨rfl, -⟩ | ⟨-, hmany⟩
      · cases hfailed.1
      · exact hmany
    obtain ⟨h1, h2, h3⟩ := sendEach_serves dest packets
      (sendPayload dest packets.flatten gso socket.wire socket.answers).1 hb' (by omega)
    exact ⟨h1, h2, by omega⟩
  · rename_i hfine
    exact ⟨hd.resolve_right hfine, hb', by omega⟩

end ZeroMasque.Io
