import ZeroMasque.Varint

/-! CONNECT-UDP datagram framing: quarter stream id, context id, UDP payload. -/
namespace ZeroMasque.Dgram
open Foundation

def contextIdUdp : UInt64 := 0

/-- Frame a UDP payload for a flow. -/
def encode (flowId : UInt64) (udpPayload : Bytes) : Bytes :=
  Varint.encode contextIdUdp (Varint.encode flowId []) ++ udpPayload

structure Parsed where
  flowId : UInt64
  contextId : UInt64
  payload : Bytes
  deriving DecidableEq

/-- Flow id, context id and the remaining payload of a datagram. -/
def decode (buf : Bytes) : Option Parsed :=
  match Varint.decode buf with
  | none => none
  | some (flowId, n1) =>
    match Varint.decode (buf.drop n1) with
    | none => none
    | some (contextId, n2) => some ⟨flowId, contextId, buf.drop (n1 + n2)⟩

/-- Flow ids are quarters of stream ids, so they fit a variable-length integer. -/
theorem quarter_lt (stream : UInt64) : (stream / 4).toNat < 2 ^ 62 := by
  have h4 : (4 : UInt64).toNat = 4 := rfl
  have hlt := stream.toNat_lt
  rw [UInt64.toNat_div, h4]
  omega

/-- Framing is undone by parsing, for every flow id a stream can have. -/
theorem decode_encode (f : UInt64) (hf : f.toNat < 2 ^ 62) (p : Bytes) :
    decode (encode f p) = some ⟨f, contextIdUdp, p⟩ := by
  have hctx : (contextIdUdp).toNat < 2 ^ 62 := by decide
  have hbuf : encode f p = Varint.encode f [] ++ (Varint.encode contextIdUdp [] ++ p) := by
    rw [encode, Varint.encode_eq_append, List.append_assoc]
  have hflow := Varint.decode_encode f hf (Varint.encode contextIdUdp [] ++ p)
  have hdrop : (encode f p).drop (Varint.encodedLen f) = Varint.encode contextIdUdp [] ++ p := by
    rw [hbuf, ← Varint.length_encode f hf, List.drop_left]
  have hrest : (encode f p).drop (Varint.encodedLen f + Varint.encodedLen contextIdUdp) = p := by
    rw [← List.drop_drop, hdrop, ← Varint.length_encode contextIdUdp hctx, List.drop_left]
  rw [decode, hbuf, hflow]
  dsimp only
  rw [← hbuf, hdrop, Varint.decode_encode contextIdUdp hctx p]
  dsimp only
  rw [hrest]

/-- `decode` with slices that may be out of range. -/
def decodeIndexed (buf : Bytes) : Except OutOfRange (Option Parsed) := do
  let some (flowId, n1) ← Varint.decodeIndexed buf | return none
  let some (contextId, n2) ← Varint.decodeIndexed (← sliceFrom buf n1) | return none
  return some ⟨flowId, contextId, ← sliceFrom buf (n1 + n2)⟩

/-- What is accepted: two variable-length integers and the payload after them. -/
private theorem decode_shape {b : Bytes} {parsed : Parsed} (h : decode b = some parsed) :
    parsed.flowId.toNat < 2 ^ 62 ∧ parsed.contextId.toNat < 2 ^ 62 ∧
      ∃ flow context, b = flow ++ context ++ parsed.payload ∧
        Varint.decode flow = some (parsed.flowId, flow.length) ∧
        Varint.decode context = some (parsed.contextId, context.length) := by
  rw [decode] at h
  split at h
  · cases h
  rename_i flowId n1 hflow
  split at h
  · cases h
  rename_i contextId n2 hcontext
  cases h
  obtain ⟨hf, flow, s, rfl, rfl, hread⟩ := Varint.decode_reads hflow
  rw [List.drop_left] at hcontext
  obtain ⟨hc, context, payload, rfl, rfl, hread'⟩ := Varint.decode_reads hcontext
  have hflow' := hread []
  have hcontext' := hread' []
  rw [List.append_nil] at hflow' hcontext'
  refine ⟨hf, hc, flow, context, ?_, hflow', hcontext'⟩
  rw [← List.append_assoc, ← List.length_append, List.drop_left]

/-- No slice of `decode` is out of range. -/
private theorem decodeIndexed_eq (b : Bytes) : decodeIndexed b = .ok (decode b) := by
  simp only [decodeIndexed, decode, Varint.decodeIndexed_eq, bind, Except.bind]
  cases hflow : Varint.decode b with
  | none => rfl
  | some flow =>
    obtain ⟨flowId, n1⟩ := flow
    obtain ⟨-, word, s, rfl, rfl, -⟩ := Varint.decode_reads hflow
    dsimp only
    rw [sliceFrom_of_le (by simp)]
    dsimp only
    cases hcontext : Varint.decode ((word ++ s).drop word.length) with
    | none => rfl
    | some context =>
      obtain ⟨contextId, n2⟩ := context
      rw [List.drop_left] at hcontext
      obtain ⟨-, word', s', rfl, rfl, -⟩ := Varint.decode_reads hcontext
      dsimp only
      rw [sliceFrom_of_le (by simp)]
      rfl

/-- Framing is a codec: it is undone by parsing and tells flows and payloads apart;
and of any bytes parsing takes two variable-length integers and the rest, within bounds. -/
theorem datagram_codec :
    (∀ f p, f.toNat < 2 ^ 62 → decode (encode f p) = some ⟨f, 0, p⟩) ∧
    (∀ f p f' p', f.toNat < 2 ^ 62 → f'.toNat < 2 ^ 62 → encode f p = encode f' p' → f = f' ∧ p = p') ∧
    (∀ b, decodeIndexed b = .ok (decode b)) ∧
    ∀ b parsed, decode b = some parsed →
      parsed.flowId.toNat < 2 ^ 62 ∧ parsed.contextId.toNat < 2 ^ 62 ∧
        ∃ flow context, b = flow ++ context ++ parsed.payload ∧
          Varint.decode flow = some (parsed.flowId, flow.length) ∧
          Varint.decode context = some (parsed.contextId, context.length) := by
  refine ⟨fun f p hf => decode_encode f hf p, ?_, decodeIndexed_eq, fun b parsed => decode_shape⟩
  intro f p f' p' hf hf' h
  have hparsed := decode_encode f hf p
  rw [h, decode_encode f' hf' p'] at hparsed
  cases hparsed
  exact ⟨rfl, rfl⟩

/-- A datagram whose flow id and context id take more bytes than they need. -/
theorem datagram_codec_padded :
    ∃ flow context, [0x40, 0x07, 0x80, 0, 0, 0, 120] = flow ++ context ++ [120] ∧
      Varint.decode flow = some (7, flow.length) ∧ Varint.decode context = some (0, context.length) :=
  (datagram_codec.2.2.2 [0x40, 0x07, 0x80, 0, 0, 0, 120] ⟨7, 0, [120]⟩ (by decide)).2.2

example : decode (encode 7 [120]) = some ⟨7, 0, [120]⟩ := by decide

end ZeroMasque.Dgram
