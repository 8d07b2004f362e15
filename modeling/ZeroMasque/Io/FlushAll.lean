import ZeroMasque.Io.Flush

/-! Flushing all connections of the server over its one socket. A connection that fails
is logged and the next one has its turn; only a socket that stays unwritable holds up the
others. -/
namespace ZeroMasque.Io
open Foundation

/-- What `conn.send` yields for a connection, and how that ends. -/
structure Pending where
  sends : List (Bytes × SocketAddr)
  last : ConnEnd

/-- The connections one after the other, with how each of them went. -/
def flushAll (linux : Bool) : List Pending → Socket → Socket × List Status
  | [], socket => (socket, [])
  | p :: rest, socket =>
    match flushConnection linux p.sends p.last socket with
    | (socket', .waiting) => (socket', [.waiting])
    | (socket', status) =>
      let r := flushAll linux rest socket'
      (r.1, status :: r.2)

variable {linux : Bool}

/-- Progress on a batch whose connection ends in an error: a part leaves, the rest of the
batch is lost. -/
structure Cut (batch : SendBatch) (socket : Socket) (gained : List (Bytes × SocketAddr))
    (r : SendBatch × Socket × Status) : Prop where
  wire : ∃ out, r.2.1.wire = socket.wire ++ out ∧ out <+: batch.contents ++ gained
  stops : r.2.2 ≠ .done
  serves : ∀ m, Benign socket.answers →
    2 * (batch.contents.length + gained.length) + m ≤ supply socket.answers →
      r.2.2 = .failed false ∧ Benign r.2.1.answers ∧ m ≤ supply r.2.1.answers

private theorem Advances.then_cut {batch : SendBatch} {socket : Socket} {c d : List (Bytes × SocketAddr)}
    {r : SendBatch × Socket × Status} {k : SendBatch → Socket → SendBatch × Socket × Status}
    (h : Advances batch socket c r) (hk : Level r.1 → Cut r.1 r.2.1 d (k r.1 r.2.1)) :
    Cut batch socket (c ++ d) (Io.andThen r k) := by
  obtain ⟨out, hw, hdone, hstop⟩ := h.wire
  unfold Io.andThen
  split
  · rename_i hd
    obtain ⟨hl, he⟩ := hdone hd
    have hn := hk hl
    obtain ⟨out', hw', hpart⟩ := hn.wire
    refine ⟨⟨out ++ out', ?_, ?_⟩, hn.stops, ?_⟩
    · rw [hw', hw, List.append_assoc]
    · have hp := (List.prefix_append_right_inj out).mpr hpart
      rwa [← List.append_assoc, he, List.append_assoc] at hp
    · intro m hb hs
      rw [List.length_append] at hs
      obtain ⟨_, hb1, hs1⟩ := h.serves (2 * d.length + m) hb (by omega)
      exact hn.serves m hb1 (by omega)
  · rename_i hd
    refine ⟨⟨out, hw, ?_⟩, hd, ?_⟩
    · rw [← List.append_assoc]
      exact (hstop hd).trans (List.prefix_append _ d)
    · intro m hb hs
      rw [List.length_append] at hs
      exact absurd (h.serves (2 * d.length + m) hb (by omega)).1 hd

private theorem flushLoop_cut (linux : Bool) (sends : List (Bytes × SocketAddr))
    (hs : ∀ p ∈ sends, p.1 ≠ [] ∧ p.1.length ≤ maxDatagramSize) (n : Nat) {batch : SendBatch}
    (socket : Socket) (h : Level batch) : Cut batch socket sends (flushLoop linux .error sends n batch socket) := by
  induction sends generalizing n batch socket with
  | nil =>
    refine ⟨⟨[], (List.append_nil _).symm, List.nil_prefix⟩, nofun, ?_⟩
    intro m hb hm
    exact ⟨rfl, hb, by simp only [flushLoop]; omega⟩
  | cons p rest ih =>
    obtain ⟨packet, dest⟩ := p
    have hrest : ∀ p ∈ rest, p.1 ≠ [] ∧ p.1.length ≤ maxDatagramSize :=
      fun p hp => hs p (List.mem_cons_of_mem _ hp)
    have hpush := pushPacket_advances linux socket h (hs _ List.mem_cons_self) dest
    refine hpush.then_cut (d := rest) fun hl => ?_
    split
    · exact (sendBatch_advances linux _ hl.ready hl.small).then_cut fun hl' => ih hrest 0 _ hl'
    · exact ih hrest (n + 1) _ hl

/-- What became of a connection's packets. -/
structure Flushed where
  conn : Pending
  out : List (Bytes × SocketAddr)
  status : Status
  part : out <+: conn.sends
  whole : status = .done → out = conn.sends

/-- One connection, whatever is on the wire before. -/
private theorem flushConnection_flushed (linux : Bool) (p : Pending)
    (hs : ∀ q ∈ p.sends, q.1 ≠ [] ∧ q.1.length ≤ maxDatagramSize) (socket : Socket) :
    ∃ f : Flushed, f.conn = p ∧ f.status = (flushConnection linux p.sends p.last socket).2 ∧
      (flushConnection linux p.sends p.last socket).1.wire = socket.wire ++ f.out ∧
      ∀ m, Benign socket.answers → 2 * p.sends.length + m ≤ supply socket.answers →
        f.status ≠ .waiting ∧ (p.last = .done → f.status = .done) ∧
          Benign (flushConnection linux p.sends p.last socket).1.answers ∧
          m ≤ supply (flushConnection linux p.sends p.last socket).1.answers := by
  have hnew : SendBatch.new.contents = [] := rfl
  obtain ⟨sends, last⟩ := p
  cases last with
  | done =>
    have h := flushLoop_advances linux sends hs 0 socket Level.new
    obtain ⟨out, hw, hdone, hstop⟩ := h.wire
    rw [hnew, List.nil_append] at hdone hstop
    have hall (hd : (flushConnection linux sends .done socket).2 = .done) : out = sends := by
      have he := (hdone hd).2
      rwa [flushLoop_empties linux .done sends 0 _ _ hd, List.append_nil] at he
    have hpart : out <+: sends := by
      by_cases hd : (flushConnection linux sends .done socket).2 = .done
      · exact hall hd ▸ List.prefix_rfl
      · exact hstop hd
    refine ⟨⟨⟨sends, .done⟩, out, _, hpart, hall⟩, rfl, rfl, hw, ?_⟩
    intro m hb hm
    obtain ⟨hd, hb', hm'⟩ := h.serves m hb (by simpa [hnew] using hm)
    refine ⟨?_, fun _ => hd, hb', Nat.le_trans (Nat.le_add_left m _) hm'⟩
    show (flushConnection linux sends .done socket).2 ≠ .waiting
    rw [flushConnection, hd]
    nofun
  | error =>
    have h := flushLoop_cut linux sends hs 0 socket Level.new
    obtain ⟨out, hw, hpart⟩ := h.wire
    refine ⟨⟨⟨sends, .error⟩, out, _, hpart, fun hd => absurd hd h.stops⟩, rfl, rfl, hw, ?_⟩
    intro m hb hm
    obtain ⟨hfailed, hb', hm'⟩ := h.serves m hb (by simpa [hnew] using hm)
    refine ⟨?_, nofun, hb', hm'⟩
    show (flushConnection linux sends .error socket).2 ≠ .waiting
    rw [flushConnection, hfailed]
    nofun

/-- The packets of all connections. -/
def total (pending : List Pending) : Nat := (pending.flatMap Pending.sends).length

private theorem total_cons (p : Pending) (rest : List Pending) : total (p :: rest) = p.sends.length + total rest := by
  rw [total, List.flatMap_cons, List.length_append, total]

private theorem flushAll_cons_waiting {p : Pending} {socket : Socket} (rest : List Pending)
    (h : (flushConnection linux p.sends p.last socket).2 = .waiting) :
    flushAll linux (p :: rest) socket = ((flushConnection linux p.sends p.last socket).1, [.waiting]) := by
  rw [flushAll]
  split
  · rename_i heq
    rw [heq]
  · rename_i hne heq
    rw [heq] at h
    exact absurd h hne

private theorem flushAll_cons {p : Pending} {socket socket' : Socket} {status : Status} (rest : List Pending)
    (h : flushConnection linux p.sends p.last socket = (socket', status)) (hgo : status ≠ .waiting) :
    flushAll linux (p :: rest) socket =
      ((flushAll linux rest socket').1, status :: (flushAll linux rest socket').2) := by
  rw [flushAll, h]
  split
  · rename_i heq
    cases heq
    exact absurd rfl hgo
  · rename_i heq
    cases heq
    rfl

/-- Every connection gets its turn unless the socket stays unwritable before it. What it
puts on the wire is a part of its own packets, all of them if its flush succeeds, and
stands there in one piece. If no call fails for good and the socket stays writable, then a
connection that ends well is sent as a whole, whatever the others end in. -/
theorem flushAll_separate (linux : Bool) {pending : List Pending}
    (hs : ∀ p ∈ pending, ∀ q ∈ p.sends, q.1 ≠ [] ∧ q.1.length ≤ maxDatagramSize) (socket : Socket) :
    ∃ flushed : List Flushed, (flushAll linux pending socket).2 = flushed.map Flushed.status ∧
      (flushAll linux pending socket).1.wire = socket.wire ++ flushed.flatMap Flushed.out ∧
      flushed.map Flushed.conn <+: pending ∧
      (flushed.map Flushed.conn = pending ∨ ∃ f ∈ flushed, f.status = .waiting) ∧
      (Benign socket.answers → 2 * total pending ≤ supply socket.answers →
        flushed.map Flushed.conn = pending ∧ ∀ f ∈ flushed, f.conn.last = .done → f.out = f.conn.sends) := by
  induction pending generalizing socket with
  | nil => exact ⟨[], rfl, (List.append_nil _).symm, List.nil_prefix, .inl rfl, fun _ _ => ⟨rfl, nofun⟩⟩
  | cons p rest ih =>
    obtain ⟨f, rfl, hstatus, hwire, hserves⟩ := flushConnection_flushed linux p (hs p List.mem_cons_self) socket
    have hrest := ih (fun q hq => hs q (List.mem_cons_of_mem _ hq))
      (flushConnection linux f.conn.sends f.conn.last socket).1
    obtain ⟨flushed, hstatuses, hwires, hprefix, hall, hbenign⟩ := hrest
    by_cases hwaiting : f.status = .waiting
    · rw [flushAll_cons_waiting rest (hstatus ▸ hwaiting)]
      refine ⟨[f], by rw [List.map_singleton, hwaiting], by simpa using hwire, by simp,
        .inr ⟨f, List.mem_cons_self, hwaiting⟩, ?_⟩
      intro hb hm
      rw [total_cons] at hm
      exact absurd hwaiting (hserves 0 hb (by omega)).1
    · have hgo : flushConnection linux f.conn.sends f.conn.last socket =
          ((flushConnection linux f.conn.sends f.conn.last socket).1, f.status) := Prod.ext rfl hstatus.symm
      rw [flushAll_cons rest hgo hwaiting]
      refine ⟨f :: flushed, by rw [hstatuses, List.map_cons], ?_, ?_, ?_, ?_⟩
      · rw [hwires, hwire, List.flatMap_cons, List.append_assoc]
      · exact (List.prefix_cons_inj f.conn).mpr hprefix
      · rcases hall with hall | ⟨g, hg, hg'⟩
        · exact .inl (by rw [List.map_cons, hall])
        · exact .inr ⟨g, List.mem_cons_of_mem f hg, hg'⟩
      · intro hb hm
        rw [total_cons] at hm
        obtain ⟨-, hdone, hb', hm'⟩ := hserves (2 * total rest) hb (by omega)
        obtain ⟨hconns, houts⟩ := hbenign hb' hm'
        refine ⟨by rw [List.map_cons, hconns], List.forall_mem_cons.mpr ⟨?_, houts⟩⟩
        exact fun hlast => f.whole (hdone hlast)

/-- The first of two connections fails after a packet; the second is sent as a whole. -/
theorem flushAll_separate_failure :
    ∃ flushed : List Flushed, flushed.map Flushed.conn = [⟨shortTail, .error⟩, ⟨shortTail, .done⟩] ∧
      ∀ f ∈ flushed, f.conn.last = .done → f.out = f.conn.sends := by
  have hs : ∀ p ∈ [Pending.mk shortTail .error, ⟨shortTail, .done⟩],
      ∀ q ∈ p.sends, q.1 ≠ [] ∧ q.1.length ≤ maxDatagramSize := by
    decide
  obtain ⟨flushed, -, -, -, -, hbenign⟩ := flushAll_separate true hs ⟨[], withoutGso ++ withoutGso⟩
  exact ⟨flushed, hbenign (by unfold Benign; decide) (by decide)⟩

end ZeroMasque.Io
