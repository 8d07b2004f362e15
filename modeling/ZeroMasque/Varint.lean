import ZeroMasque.Foundation.BigEndian
import ZeroMasque.Foundation.Slices
import ZeroMasque.Net

/-! QUIC variable-length integers: the two high bits of the first byte select
a length of 1, 2, 4 or 8 bytes. -/
namespace ZeroMasque.Varint
open Foundation

/-- The value at the front of the buffer and the bytes it took. -/
def decode (buf : Bytes) : Option (UInt64 × Nat) :=
  match buf with
  | [] => none
  | first :: _ =>
    let len := 1 <<< (first >>> 6).toNat
    if buf.length < len then none
    else
      some (((buf.take len).drop 1).foldl (fun value b => (value <<< 8) ||| b.toUInt64)
        (first &&& 0x3f).toUInt64, len)

def encodedLen (value : UInt64) : Nat :=
  if value ≤ 63 then 1
  else if value ≤ 16383 then 2
  else if value ≤ 1073741823 then 4
  else 8

/-- Append the encoding of a value. -/
def encode (value : UInt64) (out : Bytes) : Bytes :=
  match encodedLen value with
  | 1 => out ++ [value.toUInt8]
  | 2 => out ++ toBytes 2 (value.toUInt16 ||| 0x4000).toNat
  | 4 => out ++ toBytes 4 (value.toUInt32 ||| 0x80000000).toNat
  | _ => out ++ toBytes 8 (value ||| 0xc000000000000000).toNat

theorem encode_eq_append (value : UInt64) (out : Bytes) :
    encode value out = out ++ encode value [] := by
  unfold encode
  split <;> simp

private theorem shift_or_toNat (v : UInt64) (b : UInt8) (h : v.toNat < 2 ^ 56) :
    ((v <<< 8) ||| b.toUInt64).toNat = v.toNat * 256 + b.toNat := by
  have hs : (v <<< 8).toNat = 2 ^ 8 * v.toNat := by
    rw [UInt64.toNat_shiftLeft]
    simp only [UInt64.reduceToNat, Nat.reduceMod, Nat.shiftLeft_eq]
    omega
  have hb : b.toUInt64.toNat < 2 ^ 8 := by
    rw [UInt8.toNat_toUInt64]
    exact b.toNat_lt
  rw [UInt64.toNat_or, hs, ← Nat.two_pow_add_eq_or_of_lt hb, UInt8.toNat_toUInt64]
  omega

private theorem fold_toNat (bs : Bytes) (v : UInt64)
    (h : (v.toNat + 1) * 256 ^ bs.length ≤ 2 ^ 64) :
    (bs.foldl (fun (value : UInt64) b => (value <<< 8) ||| b.toUInt64) v).toNat =
      ofBytes v.toNat bs := by
  induction bs generalizing v with
  | nil => rfl
  | cons b bs ih =>
    have hpos : 0 < 256 ^ bs.length := Nat.pow_pos (by decide)
    have hsmall : (v.toNat + 1) * 256 ≤ 2 ^ 64 := by
      calc (v.toNat + 1) * 256
        _ ≤ (v.toNat + 1) * 256 * 256 ^ bs.length := Nat.le_mul_of_pos_right _ hpos
        _ = (v.toNat + 1) * 256 ^ (b :: bs).length := by
          rw [List.length_cons, pow_succ]
          ring
        _ ≤ 2 ^ 64 := h
    have hv := shift_or_toNat v b (by omega)
    rw [List.foldl_cons, ih, hv, ofBytes_cons]
    rw [hv]
    have hb := b.toNat_lt
    calc (v.toNat * 256 + b.toNat + 1) * 256 ^ bs.length
      _ ≤ ((v.toNat + 1) * 256) * 256 ^ bs.length := Nat.mul_le_mul_right _ (by omega)
      _ = (v.toNat + 1) * 256 ^ (b :: bs).length := by
        rw [List.length_cons, pow_succ]
        ring
      _ ≤ 2 ^ 64 := h

private theorem tag_split (t q : Nat) (ht : t < 4) (hq : q < 64) :
    (t * 64 + q) % 256 = t * 64 + q ∧ (t * 64 + q) / 64 = t ∧ (t * 64 + q) % 64 = q := by
  omega

private theorem tag_shift (first : UInt8) : (first >>> 6).toNat = first.toNat / 64 := by
  rw [UInt8.toNat_shiftRight]
  simp [Nat.shiftRight_eq_div_pow]

private theorem tag_mask (first : UInt8) : (first &&& 0x3f).toUInt64.toNat = first.toNat % 64 := by
  rw [UInt8.toNat_toUInt64, UInt8.toNat_and]
  exact Nat.and_two_pow_sub_one_eq_mod first.toNat 6

/-- Six bits and at most seven more bytes. -/
private theorem tagged_bound {t k : Nat} (hk : k + 1 = 2 ^ t) (ht : t < 4) : 64 * 256 ^ k ≤ 2 ^ 62 := by
  have hpow : 2 ^ t ≤ 2 ^ 3 := Nat.pow_le_pow_right (by decide) (by omega)
  calc 64 * 256 ^ k ≤ 64 * 256 ^ 7 := Nat.mul_le_mul_left _ (Nat.pow_le_pow_right (by decide) (by omega))
    _ = 2 ^ 62 := by decide

/-- A word of 2^t bytes tagged with t in its two high bits decodes to the rest. -/
private theorem decode_tagged (t k v : Nat) (hk : k + 1 = 2 ^ t) (ht : t < 4) (hv : v < 64 * 256 ^ k)
    (s : Bytes) :
    decode (toBytes (k + 1) (t * 64 * 256 ^ k + v) ++ s) = some (UInt64.ofNat v, k + 1) := by
  have hpos : 0 < 256 ^ k := Nat.pow_pos (by decide)
  have hdiv : (t * 64 * 256 ^ k + v) / 256 ^ k = t * 64 + v / 256 ^ k := by
    rw [Nat.add_comm, Nat.add_mul_div_right _ _ hpos, Nat.add_comm]
  have htop : v / 256 ^ k < 64 := Nat.div_lt_of_lt_mul (by rw [Nat.mul_comm]; exact hv)
  obtain ⟨hbyte, htag, hrest⟩ := tag_split t (v / 256 ^ k) ht htop
  have hmod : (t * 64 * 256 ^ k + v) % 256 ^ k = v % 256 ^ k := by
    rw [Nat.add_comm, Nat.add_mul_mod_self_right]
  have hfirst : (UInt8.ofNat ((t * 64 * 256 ^ k + v) / 256 ^ k)).toNat = t * 64 + v / 256 ^ k := by
    rw [hdiv, UInt8.toNat_ofNat', hbyte]
  have hlen : 1 <<< ((UInt8.ofNat ((t * 64 * 256 ^ k + v) / 256 ^ k)) >>> 6).toNat = k + 1 := by
    rw [tag_shift, hfirst, htag, Nat.one_shiftLeft, hk]
  have hbits := tagged_bound hk ht
  have hmask : ((UInt8.ofNat ((t * 64 * 256 ^ k + v) / 256 ^ k)) &&& 0x3f).toUInt64.toNat = v / 256 ^ k := by
    rw [tag_mask, hfirst, hrest]
  have hvalue : ofBytes (v / 256 ^ k) (toBytes k (t * 64 * 256 ^ k + v)) = v := by
    rw [ofBytes_toBytes, hmod, Nat.mul_comm]
    exact Nat.div_add_mod v (256 ^ k)
  have hfold := fold_toNat (toBytes k (t * 64 * 256 ^ k + v))
    ((UInt8.ofNat ((t * 64 * 256 ^ k + v) / 256 ^ k)) &&& 0x3f).toUInt64 (by
      rw [hmask, length_toBytes]
      calc (v / 256 ^ k + 1) * 256 ^ k ≤ 64 * 256 ^ k := Nat.mul_le_mul_right _ (by omega)
        _ ≤ 2 ^ 64 := by omega)
  rw [hmask, hvalue] at hfold
  have htake : ((toBytes (k + 1) (t * 64 * 256 ^ k + v) ++ s).take (k + 1)).drop 1 =
      toBytes k (t * 64 * 256 ^ k + v) := by
    rw [List.take_left' (length_toBytes _ _), toBytes, List.drop_one, List.tail_cons]
  simp only [toBytes, List.cons_append] at htake ⊢
  simp only [decode, hlen, htake]
  rw [if_neg (by simp)]
  congr 2
  apply UInt64.toNat_inj.mp
  rw [hfold, UInt64.toNat_ofNat']
  omega

private theorem or_toNat_of_lt (a b i c : Nat) (hb : b = 2 ^ i * c) (h : a < 2 ^ i) :
    a ||| b = b + a := by
  rw [Nat.or_comm, hb, ← Nat.two_pow_add_eq_or_of_lt h]

/-- Every value below 2^62 is its tag and digits, in the announced length. -/
private theorem encode_tagged (v : UInt64) (hv : v.toNat < 2 ^ 62) :
    ∃ t k, k + 1 = 2 ^ t ∧ t < 4 ∧ v.toNat < 64 * 256 ^ k ∧ encodedLen v = k + 1 ∧
      encode v [] = toBytes (k + 1) (t * 64 * 256 ^ k + v.toNat) := by
  have hle (n : UInt64) : v ≤ n ↔ v.toNat ≤ n.toNat := UInt64.le_iff_toNat_le
  by_cases h1 : v ≤ 63
  · have hn := (hle 63).mp h1
    simp only [UInt64.reduceToNat] at hn
    refine ⟨0, 0, rfl, by decide, by omega, by simp [encodedLen, h1], ?_⟩
    simp only [encode, encodedLen, if_pos h1, toBytes, List.nil_append]
    congr 1
    apply UInt8.toNat_inj.mp
    simp
  by_cases h2 : v ≤ 16383
  · have hn := (hle 16383).mp h2
    simp only [UInt64.reduceToNat] at hn
    refine ⟨1, 1, rfl, by decide, by omega, by simp [encodedLen, h1, h2], ?_⟩
    simp only [encode, encodedLen, if_neg h1, if_pos h2, List.nil_append]
    congr 1
    rw [UInt16.toNat_or, UInt64.toNat_toUInt16, Nat.mod_eq_of_lt (by omega)]
    exact or_toNat_of_lt _ _ 14 1 rfl (by omega)
  by_cases h4 : v ≤ 1073741823
  · have hn := (hle 1073741823).mp h4
    simp only [UInt64.reduceToNat] at hn
    refine ⟨2, 3, rfl, by decide, by omega, by simp [encodedLen, h1, h2, h4], ?_⟩
    simp only [encode, encodedLen, if_neg h1, if_neg h2, if_pos h4, List.nil_append]
    congr 1
    rw [UInt32.toNat_or, UInt64.toNat_toUInt32, Nat.mod_eq_of_lt (by omega)]
    exact or_toNat_of_lt _ _ 30 2 rfl (by omega)
  · refine ⟨3, 7, rfl, by decide, by omega, by simp [encodedLen, h1, h2, h4], ?_⟩
    simp only [encode, encodedLen, if_neg h1, if_neg h2, if_neg h4, List.nil_append]
    congr 1
    rw [UInt64.toNat_or]
    exact or_toNat_of_lt _ _ 62 3 rfl hv

/-- Decoding undoes encoding and consumes nothing of what follows. -/
theorem decode_encode (v : UInt64) (hv : v.toNat < 2 ^ 62) (s : Bytes) :
    decode (encode v [] ++ s) = some (v, encodedLen v) := by
  obtain ⟨t, k, hk, ht, hlt, hlen, he⟩ := encode_tagged v hv
  rw [he, hlen, decode_tagged t k v.toNat hk ht hlt s, UInt64.ofNat_toNat]

theorem length_encode (v : UInt64) (hv : v.toNat < 2 ^ 62) :
    (encode v []).length = encodedLen v := by
  obtain ⟨t, k, _, _, _, hlen, he⟩ := encode_tagged v hv
  rw [he, hlen, length_toBytes]

/-- A buffer as long as its first byte announces begins with a tagged word. -/
private theorem exists_tagged {first : UInt8} {rest : Bytes}
    (hlong : 2 ^ (first.toNat / 64) ≤ (first :: rest).length) :
    ∃ k v, k + 1 = 2 ^ (first.toNat / 64) ∧ v < 64 * 256 ^ k ∧
      first :: rest = toBytes (k + 1) (first.toNat / 64 * 64 * 256 ^ k + v) ++ rest.drop k := by
  obtain ⟨k, hk⟩ : ∃ k, k + 1 = 2 ^ (first.toNat / 64) := ⟨_, Nat.sub_add_cancel (Nat.pow_pos (by decide))⟩
  have hlen : (rest.take k).length = k := by
    rw [← hk, List.length_cons] at hlong
    rw [List.length_take]
    omega
  obtain ⟨r, hr, hword⟩ := ofBytes_split first.toNat (rest.take k)
  rw [hlen] at hr hword
  have hvalue : first.toNat * 256 ^ k + r =
      first.toNat / 64 * 64 * 256 ^ k + (first.toNat % 64 * 256 ^ k + r) := by
    rw [← Nat.add_assoc, ← Nat.add_mul, Nat.div_add_mod']
  refine ⟨k, first.toNat % 64 * 256 ^ k + r, hk, ?_, ?_⟩
  · calc first.toNat % 64 * 256 ^ k + r < first.toNat % 64 * 256 ^ k + 256 ^ k := by omega
      _ = (first.toNat % 64 + 1) * 256 ^ k := by ring
      _ ≤ 64 * 256 ^ k := Nat.mul_le_mul_right _ (by omega)
  · have hdigits := toBytes_ofBytes 0 (first :: rest.take k)
    rw [ofBytes_cons, Nat.zero_mul, Nat.zero_add, hword, List.length_cons, hlen, hvalue] at hdigits
    rw [hdigits, List.cons_append, List.take_append_drop]

/-- What is accepted: a word of 2^t bytes, tagged with t in its two high bits. -/
private theorem decode_eq_some {b : Bytes} {v : UInt64} {n : Nat} :
    decode b = some (v, n) ↔ ∃ t k s, k + 1 = 2 ^ t ∧ t < 4 ∧ v.toNat < 64 * 256 ^ k ∧ n = k + 1 ∧
      b = toBytes (k + 1) (t * 64 * 256 ^ k + v.toNat) ++ s := by
  constructor
  · intro h
    cases b with
    | nil => cases h
    | cons first rest =>
      have ht : first.toNat / 64 < 4 := by
        have := first.toNat_lt
        omega
      have hlong : 2 ^ (first.toNat / 64) ≤ (first :: rest).length := by
        by_contra hshort
        simp only [decode, tag_shift, Nat.one_shiftLeft, Nat.lt_of_not_le hshort, if_true] at h
        cases h
      obtain ⟨k, value, hk, hvalue, hb⟩ := exists_tagged hlong
      have hbits := tagged_bound hk ht
      have hsmall : (UInt64.ofNat value).toNat = value := by
        rw [UInt64.toNat_ofNat']
        omega
      rw [hb, decode_tagged _ k value hk ht hvalue] at h
      cases h
      exact ⟨_, k, rest.drop k, hk, ht, by rwa [hsmall], rfl, by rwa [hsmall]⟩
  · rintro ⟨t, k, s, hk, ht, hv, rfl, rfl⟩
    rw [decode_tagged t k v.toNat hk ht hv, UInt64.ofNat_toNat]

/-- A decoded value fits 62 bits, and only the bytes it took were read. -/
theorem decode_reads {b : Bytes} {v : UInt64} {n : Nat} (h : decode b = some (v, n)) :
    v.toNat < 2 ^ 62 ∧ ∃ word s, b = word ++ s ∧ word.length = n ∧ ∀ s', decode (word ++ s') = some (v, n) := by
  obtain ⟨t, k, s, hk, ht, hv, rfl, rfl⟩ := decode_eq_some.mp h
  refine ⟨lt_of_lt_of_le hv (tagged_bound hk ht), _, s, rfl, length_toBytes _ _, fun s' => ?_⟩
  exact decode_eq_some.mpr ⟨t, k, s', hk, ht, hv, rfl, rfl⟩

/-- No shorter length holds the value. -/
private theorem encodedLen_le {v : UInt64} {t k : Nat} (hk : k + 1 = 2 ^ t) (ht : t < 4)
    (hv : v.toNat < 64 * 256 ^ k) : encodedLen v ≤ k + 1 := by
  have hle (n : UInt64) : v ≤ n ↔ v.toNat ≤ n.toNat := UInt64.le_iff_toNat_le
  simp only [encodedLen, hle, UInt64.reduceToNat]
  obtain rfl | rfl | rfl | rfl : t = 0 ∨ t = 1 ∨ t = 2 ∨ t = 3 := by omega
  · obtain rfl : k = 0 := by omega
    split_ifs <;> omega
  · obtain rfl : k = 1 := by omega
    split_ifs <;> omega
  · obtain rfl : k = 3 := by omega
    split_ifs <;> omega
  · split_ifs <;> omega

/-- Among the words that decode to a value, its encoding is the shortest. -/
private theorem decode_canonical {b : Bytes} {v : UInt64} {n : Nat} (h : decode b = some (v, n)) :
    encodedLen v ≤ n ∧ (encodedLen v = n ↔ b.take n = encode v []) := by
  obtain ⟨t, k, s, hk, ht, hv, rfl, rfl⟩ := decode_eq_some.mp h
  have hsmall := lt_of_lt_of_le hv (tagged_bound hk ht)
  rw [List.take_left' (length_toBytes _ _)]
  refine ⟨encodedLen_le hk ht hv, ?_, ?_⟩
  · intro hlen
    obtain ⟨t', k', hk', -, -, hlen', hword⟩ := encode_tagged v hsmall
    obtain rfl : k' = k := by omega
    obtain rfl : t' = t := Nat.pow_right_injective (Nat.le_refl 2) (hk'.symm.trans hk)
    exact hword.symm
  · intro hword
    rw [← length_encode v hsmall, ← hword, length_toBytes]

/-- Nothing is decoded from a buffer that ends before its first byte says. -/
private theorem decode_eq_none {b : Bytes} :
    decode b = none ↔ b = [] ∨ ∃ first ∈ b.head?, b.length < 2 ^ (first.toNat / 64) := by
  cases b with
  | nil => simp [decode]
  | cons first rest =>
    simp only [decode, tag_shift, Nat.one_shiftLeft]
    simp

/-- `decode` with slices that may be out of range. -/
def decodeIndexed (buf : Bytes) : Except OutOfRange (Option (UInt64 × Nat)) :=
  match buf with
  | [] => .ok none
  | first :: _ =>
    let len := 1 <<< (first >>> 6).toNat
    if buf.length < len then .ok none
    else do
      let tail ← slice buf 1 len
      return some (tail.foldl (fun value b => (value <<< 8) ||| b.toUInt64) (first &&& 0x3f).toUInt64, len)

theorem decodeIndexed_eq (buf : Bytes) : decodeIndexed buf = .ok (decode buf) := by
  cases buf with
  | nil => rfl
  | cons first rest =>
    simp only [decodeIndexed, decode]
    split
    · rfl
    · rename_i hlong
      have hpos : 1 ≤ 1 <<< (first >>> 6).toNat := by
        rw [Nat.one_shiftLeft]
        exact Nat.pow_pos (by decide)
      rw [slice_of_le hpos (Nat.le_of_not_lt hlong)]
      rfl

/-- The codec: values below 2^62 are read back from their encoding whatever follows
it; what is read takes no other bytes than its own, is never shorter than its
encoding, and as short only if it is the encoding. -/
theorem varint_codec :
    (∀ v s, v.toNat < 2 ^ 62 →
      decode (encode v [] ++ s) = some (v, encodedLen v) ∧ (encode v []).length = encodedLen v) ∧
    (∀ b v n, decode b = some (v, n) → n ≤ b.length ∧ v.toNat < 2 ^ 62 ∧
      (∀ b', b'.take n = b.take n → decode b' = decode b) ∧
      encodedLen v ≤ n ∧ (encodedLen v = n ↔ b.take n = encode v [])) ∧
    ∀ b, decode b = none ↔ b = [] ∨ ∃ first ∈ b.head?, b.length < 2 ^ (first.toNat / 64) := by
  refine ⟨fun v s hv => ⟨decode_encode v hv s, length_encode v hv⟩, ?_, fun b => decode_eq_none⟩
  intro b v n h
  obtain ⟨hv, word, s, rfl, rfl, hreads⟩ := decode_reads h
  refine ⟨by simp, hv, ?_, decode_canonical h⟩
  intro b' hb'
  rw [List.take_left] at hb'
  rw [h, ← List.take_append_drop word.length b', hb', hreads]

/-- The value 37 in two bytes, one more than it needs. -/
theorem varint_codec_padded :
    encodedLen 37 ≤ 2 ∧ (encodedLen 37 = 2 ↔ [0x40, 0x25] = encode 37 []) ∧
      ∀ b', b'.take 2 = [0x40, 0x25] → decode b' = some (37, 2) := by
  obtain ⟨-, -, hreads, hcanonical⟩ := varint_codec.2.1 [0x40, 0x25, 9] 37 2 (by decide)
  exact ⟨hcanonical.1, hcanonical.2, fun b' hb' => hreads b' hb'⟩

example : decode [0x7b, 0xbd] = some (15293, 2) := by decide

end ZeroMasque.Varint
