import ZeroMasque.Io.SendBatch

/-! Flushing a connection: packets are grouped into batches on the way out, and
the wire sees the same datagrams as if each had been sent alone. -/
namespace ZeroMasque.Io
open Foundation

/-- How the run of `conn.send` calls ends. -/
inductive ConnEnd where
  | done
  | error
  deriving DecidableEq

/-- Continue only after success, as `.await?` does. -/
def andThen (r : SendBatch × Socket × Status) (k : SendBatch → Socket → SendBatch × Socket × Status) :
    SendBatch × Socket × Status :=
  if r.2.2 = .done then k r.1 r.2.1 else r

/-- One packet of the inner loop: join the batch or send it off first, and send
at once a batch that a short packet closed. -/
def pushPacket (linux : Bool) (batch : SendBatch) (packet : Bytes) (dest : SocketAddr)
    (socket : Socket) : SendBatch × Socket × Status :=
  let pushed :=
    match batch.tryPush packet dest with
    | (batch', some pending) =>
      andThen (sendBatch linux batch' socket) fun b s => (b.pushFirst pending dest, s, .done)
    | (batch', none) => (batch', socket, .done)
  andThen pushed fun b s => if b.endsWithShortSegment then sendBatch linux b s else (b, s, .done)

/-- The two nested loops; n counts the packets of the current inner loop. -/
def flushLoop (linux : Bool) (last : ConnEnd) :
    List (Bytes × SocketAddr) → Nat → SendBatch → Socket → SendBatch × Socket × Status
  | [], _, batch, socket =>
    match last with
    | .done => sendBatch linux batch socket
    | .error => (batch, socket, .failed false)
  | (packet, dest) :: rest, n, batch, socket =>
    andThen (pushPacket linux batch packet dest socket) fun b s =>
      if n + 1 = sendBatchLen then andThen (sendBatch linux b s) (flushLoop linux last rest 0)
      else flushLoop linux last rest (n + 1) b s

/-- Write everything `conn.send` yields before it ends. -/
def flushConnection (linux : Bool) (sends : List (Bytes × SocketAddr)) (last : ConnEnd)
    (socket : Socket) : Socket × Status :=
  (flushLoop linux last sends 0 SendBatch.new socket).2

/-- A batch between two packets: one destination, packets of one size. -/
structure Level (batch : SendBatch) : Prop where
  small : batch.segmentSize ≤ maxDatagramSize
  level : ∀ p ∈ batch.packets, p ≠ [] ∧ p.length = batch.segmentSize
  dest : batch.dest = none ↔ batch.packets = []

/-- A batch that may leave: its last packet may be short. -/
structure Ready (batch : SendBatch) : Prop where
  cut : Cuttable batch.segmentSize batch.packets
  dest : batch.dest = none ↔ batch.packets = []

private theorem segmented_of_level {g : Nat} {ps : List Bytes} (h : ∀ p ∈ ps, p.length = g) :
    Segmented g ps := by
  induction ps with
  | nil => trivial
  | cons p ps ih =>
    cases ps with
    | nil => exact Nat.le_of_eq (h p List.mem_cons_self)
    | cons q qs => exact ⟨h p List.mem_cons_self, ih fun x hx => h x (List.mem_cons_of_mem _ hx)⟩

private theorem segmented_snoc {g : Nat} {ps : List Bytes} {p : Bytes}
    (h : ∀ q ∈ ps, q.length = g) (hp : p.length ≤ g) : Segmented g (ps ++ [p]) := by
  induction ps with
  | nil => exact hp
  | cons q ps ih =>
    have hi := ih fun x hx => h x (List.mem_cons_of_mem _ hx)
    cases ps with
    | nil => exact ⟨h q List.mem_cons_self, hi⟩
    | cons r rs => exact ⟨h q List.mem_cons_self, hi⟩

theorem Level.ready {batch : SendBatch} (h : Level batch) : Ready batch where
  cut := {
    small := Nat.lt_of_le_of_lt h.small (by decide)
    segmented := segmented_of_level fun p hp => (h.level p hp).2
    nonempty := fun p hp => (h.level p hp).1 }
  dest := h.dest

private theorem level_empty {batch : SendBatch} (hd : batch.dest = none) (hp : batch.packets = [])
    (hs : batch.segmentSize ≤ maxDatagramSize) : Level batch where
  small := hs
  level := by simp [hp]
  dest := by simp [hd, hp]

theorem Level.new : Level SendBatch.new := level_empty rfl rfl (by decide)

/-- Progress on a batch that gains packets: what left, what stays, and the
prompt answers it took. -/
structure Advances (batch : SendBatch) (socket : Socket) (gained : List (Bytes × SocketAddr))
    (r : SendBatch × Socket × Status) : Prop where
  wire : ∃ out, r.2.1.wire = socket.wire ++ out ∧
    (r.2.2 = .done → Level r.1 ∧ out ++ r.1.contents = batch.contents ++ gained) ∧
    (r.2.2 ≠ .done → out <+: batch.contents ++ gained)
  serves : ∀ m, Benign socket.answers →
    2 * (batch.contents.length + gained.length) + m ≤ supply socket.answers →
      r.2.2 = .done ∧ Benign r.2.1.answers ∧ 2 * r.1.contents.length + m ≤ supply r.2.1.answers

private theorem Advances.andThen {batch : SendBatch} {socket : Socket} {c d : List (Bytes × SocketAddr)}
    {r : SendBatch × Socket × Status} {k : SendBatch → Socket → SendBatch × Socket × Status}
    (h : Advances batch socket c r)
    (hk : Level r.1 → Advances r.1 r.2.1 d (k r.1 r.2.1)) :
    Advances batch socket (c ++ d) (andThen r k) := by
  obtain ⟨out, hw, hdone, hstop⟩ := h.wire
  unfold Io.andThen
  split
  · rename_i hd
    obtain ⟨hl, he⟩ := hdone hd
    have hn := hk hl
    obtain ⟨out', hw', hdone', hstop'⟩ := hn.wire
    refine ⟨⟨out ++ out', ?_, ?_, ?_⟩, ?_⟩
    · rw [hw', hw, List.append_assoc]
    · intro hd'
      obtain ⟨hl', he'⟩ := hdone' hd'
      refine ⟨hl', ?_⟩
      rw [List.append_assoc, he', ← List.append_assoc, he, List.append_assoc]
    · intro hd'
      have hp := (List.prefix_append_right_inj out).mpr (hstop' hd')
      rwa [← List.append_assoc, he, List.append_assoc] at hp
    · intro m hb hs
      rw [List.length_append] at hs
      obtain ⟨_, hb1, hs1⟩ := h.serves (2 * d.length + m) hb (by omega)
      exact hn.serves m hb1 (by omega)
  · rename_i hd
    refine ⟨⟨out, hw, fun hx => absurd hx hd, ?_⟩, ?_⟩
    · intro _
      rw [← List.append_assoc]
      exact (hstop hd).trans (List.prefix_append _ d)
    · intro m hb hs
      rw [List.length_append] at hs
      exact absurd (h.serves (2 * d.length + m) hb (by omega)).1 hd

private theorem Advances.stay {batch : SendBatch} (socket : Socket) (h : Level batch) :
    Advances batch socket [] (batch, socket, .done) where
  wire := ⟨[], by simp, fun _ => ⟨h, by simp⟩, fun hx => absurd rfl hx⟩
  serves := by
    intro m hb hs
    exact ⟨rfl, hb, by simpa using hs⟩

private theorem contents_nil {batch : SendBatch} (h : batch.dest = none) : batch.contents = [] := by
  simp [SendBatch.contents, h]

theorem contents_some {batch : SendBatch} {dest : SocketAddr} (h : batch.dest = some dest) :
    batch.contents = batch.packets.map fun p => (p, dest) := by
  simp [SendBatch.contents, h]

/-- Sending a batch empties it and leaves its datagrams on the wire, in order. -/
theorem sendBatch_advances (linux : Bool) {batch : SendBatch} (socket : Socket) (h : Ready batch)
    (hs : batch.segmentSize ≤ maxDatagramSize) :
    Advances batch socket [] (sendBatch linux batch socket) := by
  cases hd : batch.dest with
  | none =>
    have he : sendBatch linux batch socket = (batch, socket, .done) := by
      simp [sendBatch, SendBatch.take, hd]
    rw [he]
    exact Advances.stay socket (level_empty hd (h.dest.mp hd) hs)
  | some dest =>
    have he : sendBatch linux batch socket =
        (⟨none, 0, []⟩, sendPackets linux dest batch.segmentSize batch.packets socket) := by
      simp [sendBatch, SendBatch.take, hd]
    have hne : batch.packets ≠ [] := fun hp => by simp [h.dest.mpr hp] at hd
    have hc := contents_some hd
    obtain ⟨out, hw, hp, hall⟩ :=
      sendPackets_delivers linux dest batch.segmentSize batch.packets socket h.cut hne
    rw [he]
    refine ⟨⟨out, hw, ?_, ?_⟩, ?_⟩
    · intro hdone
      refine ⟨level_empty rfl rfl (by simp), ?_⟩
      rw [hall hdone, contents_nil rfl, hc]
    · intro _
      rw [hc, List.append_nil]
      exact hp
    · intro m hb hm
      have hlen : batch.contents.length = batch.packets.length := by rw [hc, List.length_map]
      rw [hlen] at hm
      simp only [List.length_nil, Nat.add_zero] at hm
      obtain ⟨h1, h2, h3⟩ := sendPackets_serves linux dest batch.segmentSize batch.packets socket hne hb
        (by omega)
      refine ⟨h1, h2, ?_⟩
      simp only [contents_nil, List.length_nil]
      omega

private theorem sendBatch_empties {linux : Bool} {batch : SendBatch} {socket : Socket} :
    (sendBatch linux batch socket).1.contents = [] := by
  cases hd : batch.dest with
  | none => simp [sendBatch, SendBatch.take, hd, contents_nil]
  | some dest => simp [sendBatch, SendBatch.take, hd, SendBatch.contents]

/-- Reading the packets a batch already took as still to come. -/
private theorem Advances.rebase {batch batch' : SendBatch} {socket : Socket}
    {c : List (Bytes × SocketAddr)} {r : SendBatch × Socket × Status}
    (h : Advances batch' socket [] r) (hc : batch'.contents = batch.contents ++ c) :
    Advances batch socket c r := by
  obtain ⟨out, hw, hdone, hstop⟩ := h.wire
  rw [List.append_nil, hc] at hdone hstop
  refine ⟨⟨out, hw, hdone, hstop⟩, ?_⟩
  intro m hb hs
  apply h.serves m hb
  rw [hc, List.length_append]
  simpa using hs

theorem pushFirst_spec {batch : SendBatch} (h : Level batch) (he : batch.packets = [])
    {packet : Bytes} (hp : packet ≠ [] ∧ packet.length ≤ maxDatagramSize) (dest : SocketAddr) :
    Level (batch.pushFirst packet dest) ∧
      (batch.pushFirst packet dest).contents = batch.contents ++ [(packet, dest)] := by
  have hn : batch.contents = [] := contents_nil (h.dest.mpr he)
  refine ⟨⟨hp.2, ?_, ?_⟩, ?_⟩
  · intro q hq
    have hq' : q = packet := by simpa [SendBatch.pushFirst, he] using hq
    exact ⟨hq' ▸ hp.1, hq' ▸ rfl⟩
  · simp [SendBatch.pushFirst]
  · simp [SendBatch.pushFirst, SendBatch.contents, he, h.dest.mpr he]

private theorem ready_level {batch : SendBatch} {ps : List Bytes} {p : Bytes}
    (hsmall : batch.segmentSize ≤ maxDatagramSize) (hdest : batch.dest = none ↔ batch.packets = [])
    (hps : batch.packets = ps ++ [p]) (hlevel : ∀ q ∈ ps, q ≠ [] ∧ q.length = batch.segmentSize)
    (hp : p ≠ []) (hle : p.length ≤ batch.segmentSize)
    (hshort : batch.endsWithShortSegment = false) : Level batch := by
  refine ⟨hsmall, ?_, hdest⟩
  have hlast : p.length = batch.segmentSize := by
    simp [SendBatch.endsWithShortSegment, hps] at hshort
    omega
  intro q hq
  rw [hps] at hq
  rcases List.mem_append.mp hq with hq | hq
  · exact hlevel q hq
  · rw [List.mem_singleton.mp hq]
    exact ⟨hp, hlast⟩

/-- A packet that joins keeps the batch fit to leave, and level unless it is short. -/
theorem tryPush_joins {batch batch' : SendBatch} (h : Level batch) {packet : Bytes}
    (hp : packet ≠ [] ∧ packet.length ≤ maxDatagramSize) {dest : SocketAddr}
    (he : batch.tryPush packet dest = (batch', none)) :
    batch'.contents = batch.contents ++ [(packet, dest)] ∧ Ready batch' ∧
      batch'.segmentSize ≤ maxDatagramSize ∧ (batch'.endsWithShortSegment = false → Level batch') := by
  unfold SendBatch.tryPush at he
  split at he
  · rename_i hempty
    have hb : batch' = batch.pushFirst packet dest := (Prod.mk.inj he).1.symm
    obtain ⟨hl, hc⟩ := pushFirst_spec h hempty hp dest
    rw [hb]
    exact ⟨hc, hl.ready, hl.small, fun _ => hl⟩
  · split at he
    · rename_i hempty hjoin
      obtain ⟨hd, hle, _⟩ := hjoin
      have hb : batch' = { batch with packets := batch.packets ++ [packet] } := (Prod.mk.inj he).1.symm
      subst hb
      have hdest : batch.dest = none ↔ batch.packets ++ [packet] = [] := by simp [hd]
      refine ⟨by simp [SendBatch.contents, hd], ⟨⟨?_, ?_, ?_⟩, hdest⟩, h.small, ?_⟩
      · exact Nat.lt_of_le_of_lt h.small (by decide)
      · exact segmented_snoc (fun q hq => (h.level q hq).2) hle
      · intro q hq
        rcases List.mem_append.mp hq with hq | hq
        · exact (h.level q hq).1
        · rw [List.mem_singleton.mp hq]
          exact hp.1
      · exact ready_level h.small hdest rfl h.level hp.1 hle
    · exact absurd (Prod.mk.inj he).2 (by simp)

theorem tryPush_refuses {batch batch' : SendBatch} {packet pending : Bytes} {dest : SocketAddr}
    (he : batch.tryPush packet dest = (batch', some pending)) : batch' = batch ∧ pending = packet := by
  unfold SendBatch.tryPush at he
  split at he
  · exact absurd (Prod.mk.inj he).2 (by simp)
  · split at he
    · exact absurd (Prod.mk.inj he).2 (by simp)
    · exact ⟨(Prod.mk.inj he).1.symm, (Option.some.inj (Prod.mk.inj he).2).symm⟩

private theorem close_advances (linux : Bool) {batch : SendBatch} (socket : Socket) (h : Level batch) :
    Advances batch socket []
      (if batch.endsWithShortSegment then sendBatch linux batch socket else (batch, socket, .done)) := by
  split
  · exact sendBatch_advances linux socket h.ready h.small
  · exact Advances.stay socket h

private theorem packets_nil_of_contents {batch : SendBatch} (h : Level batch)
    (hc : batch.contents = []) : batch.packets = [] := by
  cases hd : batch.dest with
  | none => exact h.dest.mp hd
  | some dest =>
    rw [contents_some hd] at hc
    exact List.map_eq_nil_iff.mp hc

theorem pushPacket_advances (linux : Bool) {batch : SendBatch} (socket : Socket) (h : Level batch)
    {packet : Bytes} (hp : packet ≠ [] ∧ packet.length ≤ maxDatagramSize) (dest : SocketAddr) :
    Advances batch socket [(packet, dest)] (pushPacket linux batch packet dest socket) := by
  unfold pushPacket
  dsimp only
  split
  · rename_i batch' pending he
    obtain ⟨rfl, rfl⟩ := tryPush_refuses he
    have hsend := sendBatch_advances linux socket h.ready h.small
    have hpush := hsend.andThen (d := [(pending, dest)])
      (k := fun b s => (b.pushFirst pending dest, s, .done)) (by
        intro hl
        obtain ⟨hl', hc⟩ := pushFirst_spec hl (packets_nil_of_contents hl sendBatch_empties) hp dest
        exact (Advances.stay _ hl').rebase hc)
    simpa using hpush.andThen (d := []) fun hl => close_advances linux _ hl
  · rename_i batch' he
    obtain ⟨hc, hready, hsmall, hlevel⟩ := tryPush_joins h hp he
    unfold andThen
    rw [if_pos rfl]
    dsimp only
    split
    · exact (sendBatch_advances linux socket hready hsmall).rebase hc
    · rename_i hshort
      exact (Advances.stay socket (hlevel (by simpa using hshort))).rebase hc

theorem flushLoop_advances (linux : Bool) (sends : List (Bytes × SocketAddr))
    (hs : ∀ p ∈ sends, p.1 ≠ [] ∧ p.1.length ≤ maxDatagramSize) (n : Nat) {batch : SendBatch}
    (socket : Socket) (h : Level batch) :
    Advances batch socket sends (flushLoop linux .done sends n batch socket) := by
  induction sends generalizing n batch socket with
  | nil => exact sendBatch_advances linux socket h.ready h.small
  | cons p rest ih =>
    obtain ⟨packet, dest⟩ := p
    have hrest : ∀ p ∈ rest, p.1 ≠ [] ∧ p.1.length ≤ maxDatagramSize :=
      fun p hp => hs p (List.mem_cons_of_mem _ hp)
    have hpush := pushPacket_advances linux socket h (hs _ List.mem_cons_self) dest
    refine hpush.andThen (d := rest) fun hl => ?_
    split
    · exact (sendBatch_advances linux _ hl.ready hl.small).andThen fun hl' => ih hrest 0 _ hl'
    · exact ih hrest (n + 1) _ hl

private theorem andThen_of_done {r : SendBatch × Socket × Status}
    {k : SendBatch → Socket → SendBatch × Socket × Status} (h : (andThen r k).2.2 = .done) :
    andThen r k = k r.1 r.2.1 := by
  unfold andThen at h ⊢
  split
  · rfl
  · rename_i hstop
    rw [if_neg hstop] at h
    exact absurd h hstop

theorem flushLoop_empties (linux : Bool) (last : ConnEnd) (sends : List (Bytes × SocketAddr))
    (n : Nat) (batch : SendBatch) (socket : Socket)
    (hd : (flushLoop linux last sends n batch socket).2.2 = .done) :
    (flushLoop linux last sends n batch socket).1.contents = [] := by
  induction sends generalizing n batch socket with
  | nil =>
    cases last with
    | done => exact sendBatch_empties
    | error => exact absurd hd Status.noConfusion
  | cons p rest ih =>
    simp only [flushLoop] at hd ⊢
    have hpushed := andThen_of_done hd
    rw [hpushed] at hd ⊢
    split
    · rename_i hfull
      rw [if_pos hfull] at hd
      have hsent := andThen_of_done hd
      rw [hsent] at hd ⊢
      exact ih _ _ _ hd
    · rename_i hroom
      rw [if_neg hroom] at hd
      exact ih _ _ _ hd

/-- Batched sending equals one-by-one sending. Whatever the kernel answers, the
wire carries a prefix of the sequence; after success it carries all of it, and
success is certain once no call fails for good and the socket stays writable. -/
theorem flushConnection_wire (linux : Bool) (sends : List (Bytes × SocketAddr))
    (hs : ∀ p ∈ sends, p.1 ≠ [] ∧ p.1.length ≤ maxDatagramSize) (answers : List Answer) :
    let r := flushConnection linux sends .done ⟨[], answers⟩
    r.1.wire <+: sends ∧ (r.2 = .done → r.1.wire = sends) ∧
      (Benign answers → 2 * sends.length ≤ supply answers → r.2 = .done) := by
  have h := flushLoop_advances linux sends hs 0 ⟨[], answers⟩ Level.new
  obtain ⟨out, hw, hdone, hstop⟩ := h.wire
  have hnew : SendBatch.new.contents = [] := rfl
  rw [hnew, List.nil_append] at hdone hstop
  have hall : (flushConnection linux sends .done ⟨[], answers⟩).2 = .done →
      (flushConnection linux sends .done ⟨[], answers⟩).1.wire = sends := by
    intro hd
    have he := (hdone hd).2
    rw [flushLoop_empties linux .done sends 0 _ _ hd, List.append_nil] at he
    exact hw.trans he
  refine ⟨?_, hall, ?_⟩
  · by_cases hd : (flushConnection linux sends .done ⟨[], answers⟩).2 = .done
    · rewrite [hall hd]
      exact List.prefix_rfl
    · exact (congrArg (· <+: sends) hw).mpr (hstop hd)
  · intro hb hsup
    exact (h.serves 0 hb (by simpa [hnew] using hsup)).1

/-- Two full packets and a short one. -/
def shortTail : List (Bytes × SocketAddr) :=
  [([1, 2], .v4 0x7f000001 4433), ([3, 4], .v4 0x7f000001 4433), ([5], .v4 0x7f000001 4433)]

/-- A kernel without segmentation offload. -/
def withoutGso : List Answer := List.replicate 6 ⟨.sent, .failed true⟩

theorem flushConnection_wire_fallback :
    (flushConnection true shortTail .done ⟨[], withoutGso⟩).2 = .done ∧
      (flushConnection true shortTail .done ⟨[], withoutGso⟩).1.wire = shortTail := by
  obtain ⟨_, hall, hends⟩ := flushConnection_wire true shortTail (by decide) withoutGso
  have hd := hends (by unfold Benign; decide) (by decide)
  exact ⟨hd, hall hd⟩

end ZeroMasque.Io
