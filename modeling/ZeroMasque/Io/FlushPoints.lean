import Mathlib.Algebra.Group.Action.Defs
import Mathlib.Algebra.Order.BigOperators.Group.List
import Mathlib.Algebra.Order.Group.Nat
import ZeroMasque.Foundation.Traces
import ZeroMasque.Io.Flush

/-! Flushing a connection point by point. `flushLoop` tells what a whole run does;
here its loops are taken apart into the steps between which the batch can be looked
at, together with the calls that fill it and pass it on. -/
namespace ZeroMasque.Io
open Foundation

/-- What `flush_connection` does next. The rounds are those of its inner loop. -/
inductive Point where
  -- `conn.send`
  | polling (round : Nat)
  -- `try_push`
  | pushing (round : Nat) (packet : Bytes) (dest : SocketAddr)
  -- `push_first` with the packet that was handed back
  | placing (round : Nat) (pending : Bytes) (dest : SocketAddr)
  -- `ends_with_short_segment`
  | checking (round : Nat)
  -- the end of a round
  | closing (round : Nat)
  -- `send_batch`, and what comes after it
  | flushing (next : Point)
  -- `send_packets`, which `send_batch` waits for
  | sending (dest : SocketAddr) (segmentSize : Nat) (packets : List Bytes) (next : Point)
  | ended (status : Status)

/-- A call of `push_first`, with the packets that are there before, or of `send_packets`. -/
inductive Call where
  | pushFirst (before : List Bytes)
  | sendPackets (dest : SocketAddr) (segmentSize : Nat) (packets : List Bytes)
  deriving DecidableEq

/-- A run of `flush_connection` at one point; `rest` is what `conn.send` will yield. -/
structure Flush where
  point : Point
  batch : SendBatch
  socket : Socket
  rest : List (Bytes × SocketAddr)

namespace Flush

def step (linux : Bool) (last : ConnEnd) (f : Flush) : Option (Flush × List Call) :=
  match f.point with
  | .polling round =>
    match f.rest, last with
    | (packet, dest) :: rest, _ => some ({ f with point := .pushing round packet dest, rest := rest }, [])
    | [], .done => some ({ f with point := .flushing (.ended .done) }, [])
    | [], .error => some ({ f with point := .ended (.failed false) }, [])
  | .pushing round packet dest =>
    -- an empty batch is started by `push_first`
    let calls := if f.batch.packets = [] then [.pushFirst f.batch.packets] else []
    match f.batch.tryPush packet dest with
    | (batch, some pending) =>
      some ({ f with point := .flushing (.placing round pending dest), batch := batch }, calls)
    | (batch, none) => some ({ f with point := .checking round, batch := batch }, calls)
  | .placing round pending dest =>
    some ({ f with point := .checking round, batch := f.batch.pushFirst pending dest },
      [.pushFirst f.batch.packets])
  | .checking round =>
    if f.batch.endsWithShortSegment then some ({ f with point := .flushing (.closing round) }, [])
    else some ({ f with point := .closing round }, [])
  | .closing round =>
    if round + 1 = sendBatchLen then some ({ f with point := .flushing (.polling 0) }, [])
    else some ({ f with point := .polling (round + 1) }, [])
  | .flushing next =>
    match f.batch.take with
    | (batch, none) => some ({ f with point := next, batch := batch }, [])
    | (batch, some (dest, segmentSize, packets)) =>
      some ({ f with point := .sending dest segmentSize packets next, batch := batch },
        [.sendPackets dest segmentSize packets])
  | .sending dest segmentSize packets next =>
    match sendPackets linux dest segmentSize packets f.socket with
    | (socket, .done) => some ({ f with point := next, socket := socket }, [])
    | (socket, status) => some ({ f with point := .ended status, socket := socket }, [])
  | .ended _ => none

/-- Before the first packet. -/
def start (sends : List (Bytes × SocketAddr)) (socket : Socket) : Flush := ⟨.polling 0, .new, socket, sends⟩

end Flush

/-- The runs of `step` from a given state, with the calls they make. -/
abbrev FlushRun (linux : Bool) (last : ConnEnd) : Flush → List Call → Flush → Prop :=
  Run (fun f (_ : Unit) => f.step linux last) fun _ _ _ => True

section Agreement
variable {linux : Bool} {last : ConnEnd}

/-- The state in which a call returns, to go on with the next point if all is well. -/
def Flush.after (next : Point) (rest : List (Bytes × SocketAddr)) (r : SendBatch × Socket × Status) : Flush :=
  ⟨if r.2.2 = .done then next else .ended r.2.2, r.1, r.2.1, rest⟩

/-- Some run leads from one state to the other. -/
def Leads (linux : Bool) (last : ConnEnd) (f f' : Flush) : Prop := ∃ calls, FlushRun linux last f calls f'

private theorem Leads.trans {f g h : Flush} (hf : Leads linux last f g) (hg : Leads linux last g h) :
    Leads linux last f h := by
  obtain ⟨calls, hf⟩ := hf
  obtain ⟨calls', hg⟩ := hg
  exact ⟨calls ++ calls', hf.trans (fun _ _ _ => trivial) hg⟩

private theorem leads_step {f g : Flush} (calls : List Call) (h : f.step linux last = some (g, calls)) :
    Leads linux last f g := ⟨_, .next () .init trivial h⟩

/-- A run up to the return of a call goes on after it, or has ended. -/
private theorem Leads.returned {f : Flush} {next : Point} {rest : List (Bytes × SocketAddr)}
    {r : SendBatch × Socket × Status} (h : Leads linux last f (.after next rest r))
    (k : SendBatch → Socket → SendBatch × Socket × Status) :
    (andThen r k = k r.1 r.2.1 ∧ Leads linux last f ⟨next, r.1, r.2.1, rest⟩) ∨
      (∀ next', Leads linux last f (.after next' rest (andThen r k))) := by
  unfold Io.andThen
  split
  · rename_i hdone
    rw [Flush.after, if_pos hdone] at h
    exact .inl ⟨rfl, h⟩
  · rename_i hdone
    rw [Flush.after, if_neg hdone] at h
    refine .inr fun next' => ?_
    rw [Flush.after, if_neg hdone]
    exact h

private theorem Leads.andThen {f : Flush} {next next' : Point} {rest : List (Bytes × SocketAddr)}
    {r : SendBatch × Socket × Status} {k : SendBatch → Socket → SendBatch × Socket × Status}
    (h : Leads linux last f (.after next rest r))
    (hk : Leads linux last ⟨next, r.1, r.2.1, rest⟩ (.after next' rest (k r.1 r.2.1))) :
    Leads linux last f (.after next' rest (andThen r k)) := by
  rcases h.returned k with ⟨heq, hnext⟩ | hended
  · rw [heq]
    exact hnext.trans hk
  · exact hended next'

/-- A run to the end, wherever the packets to come are left. -/
def Ends (linux : Bool) (last : ConnEnd) (f : Flush) (r : SendBatch × Socket × Status) : Prop :=
  ∃ rest, Leads linux last f (.after (.ended .done) rest r)

private theorem Leads.ends {f : Flush} {next : Point} {rest : List (Bytes × SocketAddr)}
    {r : SendBatch × Socket × Status} {k : SendBatch → Socket → SendBatch × Socket × Status}
    (h : Leads linux last f (.after next rest r))
    (hk : Ends linux last ⟨next, r.1, r.2.1, rest⟩ (k r.1 r.2.1)) : Ends linux last f (Io.andThen r k) := by
  rcases h.returned k with ⟨heq, hnext⟩ | hended
  · obtain ⟨rest', hk⟩ := hk
    rw [heq]
    exact ⟨rest', hnext.trans hk⟩
  · exact ⟨rest, hended _⟩

private theorem Leads.then_ends {f g : Flush} {r : SendBatch × Socket × Status} (h : Leads linux last f g)
    (hg : Ends linux last g r) : Ends linux last f r := by
  obtain ⟨rest, hg⟩ := hg
  exact ⟨rest, h.trans hg⟩

private theorem sendPackets_leads (dest : SocketAddr) (segmentSize : Nat) (packets : List Bytes) (next : Point)
    (batch : SendBatch) (socket : Socket) (rest : List (Bytes × SocketAddr)) :
    Leads linux last ⟨.sending dest segmentSize packets next, batch, socket, rest⟩
      (.after next rest (batch, sendPackets linux dest segmentSize packets socket)) := by
  apply leads_step []
  simp only [Flush.step, Flush.after]
  split
  · rename_i hdone
    simp [hdone]
  · rename_i socket' status hne heq
    have hstop : ¬ status = .done := hne
    simp [heq, hstop]

private theorem sendBatch_leads (next : Point) (batch : SendBatch) (socket : Socket)
    (rest : List (Bytes × SocketAddr)) :
    Leads linux last ⟨.flushing next, batch, socket, rest⟩ (.after next rest (sendBatch linux batch socket)) := by
  cases hd : batch.dest with
  | none =>
    have hnothing : sendBatch linux batch socket = (batch, socket, .done) := by
      simp [sendBatch, SendBatch.take, hd]
    rw [hnothing]
    apply leads_step []
    simp [Flush.step, SendBatch.take, hd, Flush.after]
  | some dest =>
    have hsend : sendBatch linux batch socket =
        (.new, sendPackets linux dest batch.segmentSize batch.packets socket) := by
      simp [sendBatch, SendBatch.take, hd, SendBatch.new]
    rw [hsend]
    refine (leads_step [.sendPackets dest batch.segmentSize batch.packets] ?_).trans
      (sendPackets_leads dest batch.segmentSize batch.packets next .new socket rest)
    simp [Flush.step, SendBatch.take, hd, SendBatch.new]

/-- One round of the inner loop, up to its end. -/
private theorem pushPacket_leads (round : Nat) (packet : Bytes) (dest : SocketAddr) (batch : SendBatch)
    (socket : Socket) (rest : List (Bytes × SocketAddr)) :
    Leads linux last ⟨.pushing round packet dest, batch, socket, rest⟩
      (.after (.closing round) rest (pushPacket linux batch packet dest socket)) := by
  have hchecked (b : SendBatch) (s : Socket) : Leads linux last ⟨.checking round, b, s, rest⟩
      (.after (.closing round) rest
        (if b.endsWithShortSegment then sendBatch linux b s else (b, s, .done))) := by
    split
    · rename_i hshort
      refine (leads_step [] ?_).trans (sendBatch_leads (.closing round) b s rest)
      simp [Flush.step, hshort]
    · rename_i hshort
      apply leads_step []
      simp [Flush.step, hshort, Flush.after]
  unfold pushPacket
  cases hpush : batch.tryPush packet dest with
  | mk batch' refused =>
    cases refused with
    | some pending =>
      have hrefused : Leads linux last ⟨.pushing round packet dest, batch, socket, rest⟩
          ⟨.flushing (.placing round pending dest), batch', socket, rest⟩ := by
        apply leads_step (if batch.packets = [] then [.pushFirst batch.packets] else [])
        simp only [Flush.step, hpush]
      have hsent := hrefused.trans (sendBatch_leads (.placing round pending dest) batch' socket rest)
      refine Leads.andThen (hsent.andThen ?_) (hchecked _ _)
      exact leads_step [.pushFirst _] rfl
    | none =>
      refine Leads.andThen ?_ (hchecked _ _)
      apply leads_step (if batch.packets = [] then [.pushFirst batch.packets] else [])
      simp only [Flush.step, hpush]
      rfl

/-- The steps follow the two loops to their end. -/
private theorem flushLoop_ends (sends : List (Bytes × SocketAddr)) (round : Nat) (batch : SendBatch) (socket : Socket) :
    Ends linux last ⟨.polling round, batch, socket, sends⟩ (flushLoop linux last sends round batch socket) := by
  induction sends generalizing round batch socket with
  | nil =>
    refine ⟨[], ?_⟩
    cases last with
    | done =>
      refine Leads.trans (leads_step [] ?_) (sendBatch_leads (.ended .done) batch socket [])
      rfl
    | error => exact leads_step [] rfl
  | cons p rest ih =>
    obtain ⟨packet, dest⟩ := p
    have hpolled : Leads linux last ⟨.polling round, batch, socket, (packet, dest) :: rest⟩
        ⟨.pushing round packet dest, batch, socket, rest⟩ := leads_step [] rfl
    refine (hpolled.trans (pushPacket_leads round packet dest batch socket rest)).ends ?_
    split
    · rename_i hfull
      refine Leads.then_ends (leads_step [] ?_) ((sendBatch_leads (.polling 0) _ _ rest).ends (ih 0 _ _))
      simp only [Flush.step, if_pos hfull]
    · rename_i hroom
      refine Leads.then_ends (leads_step [] ?_) (ih (round + 1) _ _)
      simp only [Flush.step, if_neg hroom]

/-- `flushConnection` is what the steps make of the start. -/
private theorem flushConnection_run (linux : Bool) (sends : List (Bytes × SocketAddr)) (last : ConnEnd)
    (socket : Socket) : ∃ calls f, FlushRun linux last (.start sends socket) calls f ∧
      f.point = .ended (flushConnection linux sends last socket).2 ∧
      f.socket = (flushConnection linux sends last socket).1 := by
  obtain ⟨rest, calls, hrun⟩ := @flushLoop_ends linux last sends 0 .new socket
  refine ⟨calls, _, hrun, ?_, rfl⟩
  simp only [Flush.after, flushConnection]
  split
  · rename_i hdone
    rw [hdone]
  · rfl

end Agreement

section Shape

/-- A batch as it is at any point: fit to leave, and measured by its first packet. -/
structure Shaped (batch : SendBatch) : Prop where
  ready : Ready batch
  small : batch.segmentSize ≤ maxDatagramSize
  first : batch.segmentSize = (batch.packets.headD []).length

private theorem Shaped.new : Shaped .new := ⟨Level.new.ready, Level.new.small, rfl⟩

/-- Between two packets none is short. -/
private theorem Shaped.level {batch : SendBatch} (h : Shaped batch) (hshort : batch.endsWithShortSegment = false) :
    Level batch where
  small := h.small
  level := by
    have hlast : ∀ p ∈ batch.packets.getLast?, batch.segmentSize ≤ p.length := by
      intro p hp
      rw [SendBatch.endsWithShortSegment, hp] at hshort
      simpa using hshort
    intro p hp
    exact ⟨h.ready.cut.nonempty p hp, h.ready.cut.segmented.length_eq hlast p hp⟩
  dest := h.ready.dest

/-- There is one empty batch. -/
private theorem Shaped.eq_new {batch : SendBatch} (h : Shaped batch) (hd : batch.dest = none) : batch = .new := by
  have hp := h.ready.dest.mp hd
  have hs := h.first
  rw [hp] at hs
  obtain ⟨dest, segmentSize, packets⟩ := batch
  cases hd
  cases hp
  cases hs
  rfl

private theorem tryPush_grows {batch batch' : SendBatch} {packet : Bytes} {dest : SocketAddr}
    (he : batch.tryPush packet dest = (batch', none)) :
    batch'.packets = batch.packets ++ [packet] ∧
      batch'.segmentSize = if batch.packets = [] then packet.length else batch.segmentSize := by
  unfold SendBatch.tryPush at he
  split_ifs at he with hempty hjoin
  · cases he
    exact ⟨rfl, (if_pos hempty).symm⟩
  · cases he
    exact ⟨rfl, (if_neg hempty).symm⟩
  · cases he

private theorem Shaped.tryPush {batch batch' : SendBatch} (h : Shaped batch)
    (hshort : batch.endsWithShortSegment = false) {packet : Bytes}
    (hp : packet ≠ [] ∧ packet.length ≤ maxDatagramSize) {dest : SocketAddr}
    (he : batch.tryPush packet dest = (batch', none)) : Shaped batch' := by
  obtain ⟨-, hready, hsmall, -⟩ := tryPush_joins (h.level hshort) hp he
  obtain ⟨hpackets, hsize⟩ := tryPush_grows he
  refine ⟨hready, hsmall, ?_⟩
  rw [hsize, hpackets]
  cases hb : batch.packets with
  | nil => rfl
  | cons q qs =>
    have hfirst := h.first
    rw [hb] at hfirst
    exact hfirst

private theorem Shaped.pushFirst {packet : Bytes} (hp : packet ≠ [] ∧ packet.length ≤ maxDatagramSize)
    (dest : SocketAddr) : Shaped (SendBatch.new.pushFirst packet dest) := by
  obtain ⟨hlevel, -⟩ := pushFirst_spec Level.new rfl hp dest
  exact ⟨hlevel.ready, hlevel.small, rfl⟩

end Shape

section Limits
variable {sends : List (Bytes × SocketAddr)}

/-- The packets on their way that are not in the batch. -/
def Point.waiting : Point → List (Bytes × SocketAddr)
  | .pushing _ packet dest | .placing _ packet dest => [(packet, dest)]
  | .flushing next => next.waiting
  | .sending dest _ packets next => (packets.map fun p => (p, dest)) ++ next.waiting
  | .polling _ | .checking _ | .closing _ | .ended _ => []

/-- What has not left yet, in order. -/
def Flush.held (f : Flush) : List (Bytes × SocketAddr) := f.batch.contents ++ f.point.waiting ++ f.rest

/-- The inner loop starts with an empty batch, so that a batch never has more packets
than the loop had rounds. -/
def Point.Within : Point → SendBatch → Prop
  | .polling round, batch | .pushing round _ _, batch =>
    batch.endsWithShortSegment = false ∧ batch.packets.length ≤ round ∧ round < sendBatchLen
  | .placing round _ _, batch => batch = .new ∧ round < sendBatchLen
  | .checking round, batch => batch.packets.length ≤ round + 1 ∧ round < sendBatchLen
  | .closing round, batch =>
    batch.endsWithShortSegment = false ∧ batch.packets.length ≤ round + 1 ∧ round < sendBatchLen
  | .flushing next, batch => batch.packets.length ≤ sendBatchLen ∧ next.Within .new
  | .sending _ _ _ next, batch => batch = .new ∧ next.Within .new
  | .ended _, _ => True

/-- The representation invariant of a batch of packets that `conn.send` gave out. -/
structure Formed (sends : List (Bytes × SocketAddr)) (batch : SendBatch) : Prop where
  dest : batch.dest.isSome ↔ batch.packets ≠ []
  first : batch.segmentSize = (batch.packets.headD []).length
  segmented : Segmented batch.segmentSize batch.packets
  /-- The packets were given out one after the other for the destination of the batch. -/
  shared : batch.contents <:+: sends

/-- A batch that is passed to `send_packets`. -/
structure Passed (sends : List (Bytes × SocketAddr)) (dest : SocketAddr) (segmentSize : Nat)
    (packets : List Bytes) : Prop where
  formed : Formed sends ⟨some dest, segmentSize, packets⟩
  count : packets.length ≤ sendBatchLen
  payload : packets.flatten.length ≤ sendBatchLen * maxDatagramSize
  udp : packets.flatten.length ≤ 65507
  cast : segmentSize % 2 ^ 16 = segmentSize

/-- `push_first` asserts that the batch is empty. -/
def Call.Sound (sends : List (Bytes × SocketAddr)) : Call → Prop
  | .pushFirst before => before = []
  | .sendPackets dest segmentSize packets => Passed sends dest segmentSize packets

/-- What every step keeps: the shape of the batch, its size, and that nothing is
taken out of order. -/
structure Kept (sends : List (Bytes × SocketAddr)) (f : Flush) : Prop where
  shaped : Shaped f.batch
  within : f.point.Within f.batch
  held : f.held <:+ sends

private theorem Kept.formed {f : Flush} (h : Kept sends f) : Formed sends f.batch where
  dest := by
    rw [Option.isSome_iff_ne_none, Ne, h.shaped.ready.dest]
  first := h.shaped.first
  segmented := h.shaped.ready.cut.segmented
  shared := by
    refine List.infix_iff_prefix_suffix.mpr ⟨f.held, ?_, h.held⟩
    rw [Flush.held, List.append_assoc]
    exact List.prefix_append _ _

/-- As many packets as rounds, each no longer than a datagram. -/
private theorem passed_of_shaped {dest : SocketAddr} {segmentSize : Nat} {packets : List Bytes}
    (hshaped : Shaped ⟨some dest, segmentSize, packets⟩) (hformed : Formed sends ⟨some dest, segmentSize, packets⟩)
    (hcount : packets.length ≤ sendBatchLen) : Passed sends dest segmentSize packets := by
  have hlong : packets.flatten.length ≤ sendBatchLen * maxDatagramSize := by
    have hsum := List.sum_le_card_nsmul (packets.map List.length) maxDatagramSize (by
      intro n hn
      obtain ⟨p, hp, rfl⟩ := List.mem_map.mp hn
      exact (hshaped.ready.cut.segmented.length_le p hp).trans hshaped.small)
    rw [List.length_map, smul_eq_mul, ← List.length_flatten] at hsum
    exact hsum.trans (Nat.mul_le_mul_right _ hcount)
  refine ⟨hformed, hcount, hlong, hlong.trans (by decide), ?_⟩
  exact Nat.mod_eq_of_lt hshaped.ready.cut.small

private theorem Kept.start (sends : List (Bytes × SocketAddr)) (socket : Socket) :
    Kept sends (.start sends socket) where
  shaped := Shaped.new
  within := ⟨rfl, Nat.le_refl 0, by decide⟩
  held := List.suffix_rfl

/-- A step that leaves the batch alone. -/
private theorem Kept.move {point point' : Point} {batch : SendBatch} {socket socket' : Socket}
    {rest rest' : List (Bytes × SocketAddr)} (h : Kept sends ⟨point, batch, socket, rest⟩)
    (hwithin : point'.Within batch) (hheld : point'.waiting ++ rest' = point.waiting ++ rest) :
    Kept sends ⟨point', batch, socket', rest'⟩ where
  shaped := h.shaped
  within := hwithin
  held := by
    have hold := h.held
    simp only [Flush.held, List.append_assoc] at hold ⊢
    rwa [hheld]

/-- A packet joins the batch or is handed back. -/
private theorem Kept.push {batch batch' : SendBatch} {socket : Socket} {rest : List (Bytes × SocketAddr)}
    {round : Nat} {packet : Bytes} {dest : SocketAddr}
    (h : Kept sends ⟨.pushing round packet dest, batch, socket, rest⟩)
    (hs : ∀ p ∈ sends, p.1 ≠ [] ∧ p.1.length ≤ maxDatagramSize)
    (he : batch.tryPush packet dest = (batch', none)) : Kept sends ⟨.checking round, batch', socket, rest⟩ := by
  obtain ⟨hshort, hcount, hround⟩ := h.within
  have hp := hs (packet, dest) (h.held.subset (by simp [Flush.held, Point.waiting]))
  obtain ⟨hcontents, -⟩ := tryPush_joins (h.shaped.level hshort) hp he
  obtain ⟨hpackets, -⟩ := tryPush_grows he
  refine ⟨h.shaped.tryPush hshort hp he, ⟨?_, hround⟩, ?_⟩
  · rw [hpackets, List.length_append]
    exact Nat.succ_le_succ hcount
  · have hold := h.held
    simp only [Flush.held, Point.waiting, List.append_nil] at hold ⊢
    rwa [hcontents]

/-- A packet that was handed back starts the next batch. -/
private theorem Kept.place {socket : Socket} {rest : List (Bytes × SocketAddr)} {round : Nat} {pending : Bytes}
    {dest : SocketAddr} (h : Kept sends ⟨.placing round pending dest, .new, socket, rest⟩)
    (hs : ∀ p ∈ sends, p.1 ≠ [] ∧ p.1.length ≤ maxDatagramSize) :
    Kept sends ⟨.checking round, SendBatch.new.pushFirst pending dest, socket, rest⟩ := by
  have hp := hs (pending, dest) (h.held.subset (by simp [Flush.held, Point.waiting]))
  refine ⟨Shaped.pushFirst hp dest, ⟨Nat.succ_le_succ (Nat.zero_le round), h.within.2⟩, ?_⟩
  simpa [Flush.held, Point.waiting, SendBatch.contents, SendBatch.pushFirst, SendBatch.new] using h.held

/-- `take` hands everything over. -/
private theorem Kept.take {batch : SendBatch} {socket : Socket} {rest : List (Bytes × SocketAddr)} {next : Point}
    (h : Kept sends ⟨.flushing next, batch, socket, rest⟩) {dest : SocketAddr} (hd : batch.dest = some dest) :
    Kept sends ⟨.sending dest batch.segmentSize batch.packets next, .new, socket, rest⟩ ∧
      Passed sends dest batch.segmentSize batch.packets := by
  obtain ⟨hcount, hnext⟩ := h.within
  have hbatch : batch = ⟨some dest, batch.segmentSize, batch.packets⟩ := by rw [← hd]
  refine ⟨⟨Shaped.new, ⟨rfl, hnext⟩, ?_⟩, passed_of_shaped (hbatch ▸ h.shaped) (hbatch ▸ h.formed) hcount⟩
  have hold := h.held
  simp only [Flush.held, Point.waiting, contents_some hd] at hold
  simpa [Flush.held, Point.waiting, SendBatch.contents, SendBatch.new] using hold

/-- What was passed on is not held any more. -/
private theorem Kept.sent {batch : SendBatch} {socket : Socket} {rest : List (Bytes × SocketAddr)} {next : Point}
    {dest : SocketAddr} {segmentSize : Nat} {packets : List Bytes}
    (h : Kept sends ⟨.sending dest segmentSize packets next, batch, socket, rest⟩) :
    Kept sends ⟨next, batch, socket, rest⟩ := by
  obtain ⟨rfl, hnext⟩ := h.within
  refine ⟨h.shaped, hnext, List.IsSuffix.trans ⟨packets.map fun p => (p, dest), ?_⟩ h.held⟩
  simp [Flush.held, Point.waiting, SendBatch.contents, SendBatch.new]

/-- Ending early forgets what was handed back. -/
private theorem Kept.stop {point : Point} {batch : SendBatch} {socket socket' : Socket}
    {rest : List (Bytes × SocketAddr)} (h : Kept sends ⟨point, batch, socket, rest⟩) (hnew : batch = .new)
    (status : Status) : Kept sends ⟨.ended status, batch, socket', rest⟩ := by
  subst hnew
  refine ⟨h.shaped, trivial, List.IsSuffix.trans ⟨point.waiting, ?_⟩ h.held⟩
  simp [Flush.held, Point.waiting, SendBatch.contents, SendBatch.new]

/-- The step lemma: one case for each point. -/
private theorem Kept.step {linux : Bool} {last : ConnEnd} {f f' : Flush} {calls : List Call} (h : Kept sends f)
    (hs : ∀ p ∈ sends, p.1 ≠ [] ∧ p.1.length ≤ maxDatagramSize)
    (hstep : f.step linux last = some (f', calls)) : Kept sends f' ∧ ∀ call ∈ calls, call.Sound sends := by
  obtain ⟨point, batch, socket, rest⟩ := f
  have hwithin := h.within
  cases point with
  | polling round =>
    obtain ⟨hshort, hcount, hround⟩ := hwithin
    simp only [Flush.step] at hstep
    split at hstep
    · cases hstep
      exact ⟨h.move ⟨hshort, hcount, hround⟩ rfl, by simp⟩
    · cases hstep
      exact ⟨h.move ⟨hcount.trans hround.le, trivial⟩ rfl, by simp⟩
    · cases hstep
      exact ⟨h.move trivial rfl, by simp⟩
  | pushing round packet dest =>
    have hstart : ∀ call ∈ if batch.packets = [] then [Call.pushFirst batch.packets] else [], call.Sound sends := by
      split
      · rename_i hempty
        simpa [Call.Sound] using hempty
      · simp
    simp only [Flush.step] at hstep
    split at hstep
    · rename_i batch' pending he
      obtain ⟨rfl, rfl⟩ := tryPush_refuses he
      cases hstep
      obtain ⟨-, hcount, hround⟩ := hwithin
      exact ⟨h.move ⟨hcount.trans hround.le, rfl, hround⟩ rfl, hstart⟩
    · rename_i batch' he
      cases hstep
      exact ⟨h.push hs he, hstart⟩
  | placing round pending dest =>
    obtain ⟨rfl, -⟩ := hwithin
    cases hstep
    exact ⟨h.place hs, by simp [Call.Sound, SendBatch.new]⟩
  | checking round =>
    obtain ⟨hcount, hround⟩ := hwithin
    simp only [Flush.step] at hstep
    split at hstep
    · cases hstep
      exact ⟨h.move ⟨hcount.trans hround, rfl, Nat.zero_le _, hround⟩ rfl, by simp⟩
    · rename_i hshort
      cases hstep
      exact ⟨h.move ⟨Bool.eq_false_of_not_eq_true hshort, hcount, hround⟩ rfl, by simp⟩
  | closing round =>
    obtain ⟨hshort, hcount, hround⟩ := hwithin
    simp only [Flush.step] at hstep
    split at hstep
    · cases hstep
      exact ⟨h.move ⟨hcount.trans hround, rfl, Nat.zero_le _, by decide⟩ rfl, by simp⟩
    · rename_i hmore
      cases hstep
      exact ⟨h.move ⟨hshort, hcount, lt_of_le_of_ne hround hmore⟩ rfl, by simp⟩
  | flushing next =>
    obtain ⟨hcount, hnext⟩ := hwithin
    cases hd : batch.dest with
    | none =>
      obtain rfl := h.shaped.eq_new hd
      cases hstep
      exact ⟨h.move hnext rfl, by simp⟩
    | some dest =>
      obtain ⟨hkept, hpassed⟩ := h.take hd
      simp only [Flush.step, SendBatch.take, hd] at hstep
      cases hstep
      exact ⟨hkept, by simpa [Call.Sound] using hpassed⟩
  | sending dest segmentSize packets next =>
    have hsent := h.sent
    simp only [Flush.step] at hstep
    split at hstep
    · cases hstep
      exact ⟨hsent.move hsent.within rfl, by simp⟩
    · cases hstep
      exact ⟨hsent.stop hwithin.1 _, by simp⟩
  | ended status => cases hstep

/-- The run lemma, by induction on the steps. -/
theorem FlushRun.kept {linux : Bool} {last : ConnEnd} {socket : Socket}
    (hs : ∀ p ∈ sends, p.1 ≠ [] ∧ p.1.length ≤ maxDatagramSize) {calls : List Call} {f : Flush}
    (h : FlushRun linux last (.start sends socket) calls f) :
    Kept sends f ∧ ∀ call ∈ calls, call.Sound sends := by
  refine Run.invariant (P := fun calls f => Kept sends f ∧ ∀ call ∈ calls, call.Sound sends)
    ⟨Kept.start sends socket, by simp⟩ ?_ h
  intro calls f _ f' new _ ih _ hstep
  obtain ⟨hnext, hnew⟩ := ih.1.step hs hstep
  refine ⟨hnext, fun call hmem => ?_⟩
  rcases List.mem_append.mp hmem with hold | hmem
  · exact ih.2 call hold
  · exact hnew call hmem

/-- The steps lead to where `flushConnection` ends. At every point on the way the
batch is well formed, `push_first` finds it empty, and what is passed to
`send_packets` keeps the limits of a segmented send. -/
theorem flush_batches (linux : Bool) (last : ConnEnd) (socket : Socket)
    (hs : ∀ p ∈ sends, p.1 ≠ [] ∧ p.1.length ≤ maxDatagramSize) :
    (∃ calls f, FlushRun linux last (.start sends socket) calls f ∧
      f.point = .ended (flushConnection linux sends last socket).2 ∧
      f.socket = (flushConnection linux sends last socket).1) ∧
    ∀ calls f, FlushRun linux last (.start sends socket) calls f →
      Formed sends f.batch ∧ ∀ call ∈ calls, call.Sound sends := by
  refine ⟨flushConnection_run linux sends last socket, ?_⟩
  intro calls f h
  obtain ⟨hkept, hcalls⟩ := FlushRun.kept hs h
  exact ⟨hkept.formed, hcalls⟩

/-- Two full packets and a short one are passed on together. -/
theorem flush_batches_short :
    ∃ calls f, FlushRun true .done (.start shortTail ⟨[], withoutGso⟩) calls f ∧
      .sendPackets (.v4 0x7f000001 4433) 2 [[1, 2], [3, 4], [5]] ∈ calls ∧
      Passed shortTail (.v4 0x7f000001 4433) 2 [[1, 2], [3, 4], [5]] ∧ Formed shortTail f.batch := by
  have hrun : FlushRun true .done (.start shortTail ⟨[], withoutGso⟩) _ _ :=
    Run.extend .init (List.replicate 12 ()) (fun _ _ _ _ => trivial) (by decide)
  obtain ⟨hformed, hcalls⟩ := (flush_batches true .done ⟨[], withoutGso⟩ (by decide)).2 _ _ hrun
  refine ⟨_, _, hrun, ?_, hcalls (.sendPackets (.v4 0x7f000001 4433) 2 [[1, 2], [3, 4], [5]]) ?_, hformed⟩
  · decide
  · decide

end Limits

end ZeroMasque.Io
