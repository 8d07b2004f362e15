import ZeroMasque.Foundation.BigEndian
import ZeroMasque.Foundation.Readers
import ZeroMasque.Foundation.Results
import ZeroMasque.Foundation.Text
import ZeroMasque.Net

/-! Wire format of an ECHConfig and of an ECHConfigList. -/
namespace ZeroMasque.Ech
open Foundation

def echConfigVersionV18 : UInt16 := 0xfe0d

structure CipherSuite where
  kdfId : UInt16
  aeadId : UInt16
  deriving DecidableEq

structure EchConfig where
  configId : UInt8
  kemId : UInt16
  publicKey : Bytes
  cipherSuites : List CipherSuite
  maximumNameLength : UInt8
  publicName : String
  deriving DecidableEq

/-- `u16::to_be_bytes`. -/
def toBeBytes (v : UInt16) : Bytes := toBytes 2 v.toNat

/-- `u16::try_from(n).expect(what)`, or the message it panics with. -/
def expectU16 (what : String) (n : Nat) : Except String UInt16 :=
  if n < 2 ^ 16 then .ok (UInt16.ofNat n) else .error what

/-- `u8::try_from(n).expect(what)`, or the message it panics with. -/
def expectU8 (what : String) (n : Nat) : Except String UInt8 :=
  if n < 2 ^ 8 then .ok (UInt8.ofNat n) else .error what

def CipherSuite.encode (cs : CipherSuite) : Bytes := toBeBytes cs.kdfId ++ toBeBytes cs.aeadId

/-- The full ECHConfig, or the message of the panic where a length does not fit. -/
def EchConfig.encode (c : EchConfig) : Except String Bytes := do
  let pkLen ← expectU16 "public_key too long" c.publicKey.length
  let csBytesLen ← expectU16 "too many suites" (c.cipherSuites.length * 4)
  let pnBytes := utf8 c.publicName
  let pnLen ← expectU8 "public_name too long" pnBytes.length
  let contents := [c.configId] ++ toBeBytes c.kemId ++ toBeBytes pkLen ++ c.publicKey ++
    toBeBytes csBytesLen ++ c.cipherSuites.flatMap CipherSuite.encode ++
    [c.maximumNameLength] ++ [pnLen] ++ pnBytes ++ [0, 0]
  let contentsLen ← expectU16 "config contents too long" contents.length
  return toBeBytes echConfigVersionV18 ++ toBeBytes contentsLen ++ contents

/-- An ECHConfigList, or the message of a panic. -/
def encodeList (configs : List EchConfig) : Except String Bytes := do
  let body := (← configs.mapM EchConfig.encode).flatten
  let bodyLen ← expectU16 "ECHConfigList too long" body.length
  return toBeBytes bodyLen ++ body

def readU8 : Reader UInt8 String UInt8
  | [] => .error "short read u8"
  | b :: rest => .ok (b, rest)

def readU16 : Reader UInt8 String UInt16 := do
  let bs ← Reader.take 2 "short read u16"
  return UInt16.ofNat (ofBytes 0 bs)

def readSlice (n : Nat) : Reader UInt8 String Bytes := Reader.take n ("short read " ++ toString n ++ " bytes")

def CipherSuite.read : Reader UInt8 String CipherSuite := do
  let kdfId ← readU16
  let aeadId ← readU16
  return { kdfId, aeadId }

/-- A slice after its length. -/
def readVec16 : Reader UInt8 String Bytes := do
  let n ← readU16
  readSlice n.toNat

/-- The suites of a window; every read makes progress, so the fuel lasts. -/
def readSuitesOf (csBytes : Bytes) : Except String (List CipherSuite) :=
  Reader.untilEmpty CipherSuite.read "" csBytes.length csBytes

def readCipherSuites : Reader UInt8 String (List CipherSuite) := do
  let csBytesLen ← readU16
  Reader.require (csBytesLen.toNat % 4 = 0 ∧ csBytesLen.toNat ≠ 0) "invalid cipher_suites length"
  let csBytes ← readSlice csBytesLen.toNat
  readSuitesOf csBytes

def readPublicName : Reader UInt8 String String := do
  let pnLen ← readU8
  let pnBytes ← readSlice pnLen.toNat
  Reader.expect (fromUtf8 pnBytes) "ECHConfig public_name is not valid UTF-8"

/-- The contents of a config. What follows the extensions is left unread. -/
def EchConfig.readContents : Reader UInt8 String EchConfig := do
  let configId ← readU8
  let kemId ← readU16
  let publicKey ← readVec16
  let cipherSuites ← readCipherSuites
  let maximumNameLength ← readU8
  let publicName ← readPublicName
  let _extBytes ← readVec16
  return { configId, kemId, publicKey, cipherSuites, maximumNameLength, publicName }

def EchConfig.decodeFrom : Reader UInt8 String EchConfig := do
  let version ← readU16
  let contents ← readVec16
  Reader.require (version = echConfigVersionV18)
    ("unsupported ECHConfig version 0x" ++ lowerHex 4 version.toNat)
  Reader.inside contents EchConfig.readContents

def EchConfig.decode (bytes : Bytes) : Except String EchConfig := do
  let (cfg, rest) ← EchConfig.decodeFrom.run bytes
  if rest ≠ [] then throw "trailing bytes after ECHConfig"
  return cfg

section Format

/-- Bytes after their length. -/
def vec16 (bs : Bytes) : Bytes := toBeBytes (UInt16.ofNat bs.length) ++ bs

/-- The contents of a config up to its extensions. -/
def EchConfig.fields (c : EchConfig) : Bytes :=
  [c.configId] ++ toBeBytes c.kemId ++ vec16 c.publicKey ++ vec16 (c.cipherSuites.flatMap CipherSuite.encode) ++
    [c.maximumNameLength] ++ [UInt8.ofNat (utf8 c.publicName).length] ++ utf8 c.publicName

/-- Every part of the config fits its length field. -/
structure EchConfig.Fits (c : EchConfig) : Prop where
  publicKey : c.publicKey.length < 2 ^ 16
  cipherSuites : c.cipherSuites.length * 4 < 2 ^ 16
  publicName : (utf8 c.publicName).length < 2 ^ 8

@[simp] theorem length_toBeBytes (v : UInt16) : (toBeBytes v).length = 2 := length_toBytes 2 _

@[simp] theorem length_vec16 (bs : Bytes) : (vec16 bs).length = 2 + bs.length := by
  rw [vec16, List.length_append, length_toBeBytes]

private theorem take_vec16 (bs : Bytes) : (vec16 bs).take 2 = toBeBytes (UInt16.ofNat bs.length) :=
  List.take_left' (length_toBeBytes _)

private theorem drop_vec16 (bs : Bytes) : (vec16 bs).drop 2 = bs := List.drop_left' (length_toBeBytes _)

theorem length_suites (ss : List CipherSuite) : (ss.flatMap CipherSuite.encode).length = ss.length * 4 := by
  induction ss with
  | nil => rfl
  | cons s ss ih =>
    rw [List.flatMap_cons, List.length_append, ih, List.length_cons]
    simp only [CipherSuite.encode, List.length_append, length_toBeBytes]
    omega

private theorem expectU16_eq_ok {what : String} {n : Nat} {v : UInt16} :
    expectU16 what n = .ok v ↔ n < 2 ^ 16 ∧ v = UInt16.ofNat n := by
  rw [expectU16]
  split <;> simp_all [eq_comm]

private theorem expectU8_eq_ok {what : String} {n : Nat} {v : UInt8} :
    expectU8 what n = .ok v ↔ n < 2 ^ 8 ∧ v = UInt8.ofNat n := by
  rw [expectU8]
  split <;> simp_all [eq_comm]

/-- What `encode` writes, and when it does not panic. -/
theorem encode_eq_ok {c : EchConfig} {b : Bytes} :
    c.encode = .ok b ↔ c.Fits ∧ (c.fields ++ vec16 []).length < 2 ^ 16 ∧
      b = toBeBytes echConfigVersionV18 ++ vec16 (c.fields ++ vec16 []) := by
  have hcontents : [c.configId] ++ toBeBytes c.kemId ++ toBeBytes (UInt16.ofNat c.publicKey.length) ++
      c.publicKey ++ toBeBytes (UInt16.ofNat (c.cipherSuites.length * 4)) ++
      c.cipherSuites.flatMap CipherSuite.encode ++ [c.maximumNameLength] ++
      [UInt8.ofNat (utf8 c.publicName).length] ++ utf8 c.publicName ++ [0, 0] = c.fields ++ vec16 [] := by
    have hempty : vec16 [] = [0, 0] := by decide
    rw [EchConfig.fields, hempty, vec16, vec16, length_suites]
    simp only [List.append_assoc]
  simp only [EchConfig.encode, bind_eq_ok, expectU16_eq_ok, expectU8_eq_ok, pure_eq_ok]
  constructor
  · rintro ⟨pk, ⟨hpk, rfl⟩, cs, ⟨hcs, rfl⟩, pn, ⟨hpn, rfl⟩, len, ⟨hlen, rfl⟩, rfl⟩
    rw [hcontents] at hlen ⊢
    exact ⟨⟨hpk, hcs, hpn⟩, hlen, List.append_assoc _ _ _⟩
  · rintro ⟨hfits, hlen, rfl⟩
    rw [← hcontents] at hlen
    refine ⟨_, ⟨hfits.publicKey, rfl⟩, _, ⟨hfits.cipherSuites, rfl⟩, _, ⟨hfits.publicName, rfl⟩, _, ⟨hlen, rfl⟩, ?_⟩
    rw [hcontents]
    exact (List.append_assoc _ _ _).symm

end Format

section Reading
variable {bs rest : Bytes}

private theorem reads_readU8 {v : UInt8} : Reads readU8 bs v rest ↔ bs = v :: rest := by
  cases bs with
  | nil =>
    constructor <;> nofun
  | cons b bs =>
    simp only [Reads, readU8, StateT.run, Except.ok.injEq, Prod.mk.injEq, List.cons.injEq]

private theorem reads_readU16 {v : UInt16} : Reads readU16 bs v rest ↔ bs = toBeBytes v ++ rest := by
  simp only [readU16, reads_bind, reads_take, reads_pure]
  constructor
  · rintro ⟨xs, mid, ⟨rfl, hlen⟩, rfl, rfl⟩
    have hlt : ofBytes 0 xs < 2 ^ 16 := by
      have h := ofBytes_toBytes xs.length 0 (ofBytes 0 xs)
      rw [toBytes_ofBytes, hlen] at h
      omega
    rw [toBeBytes, UInt16.toNat_ofNat_of_lt' hlt, ← hlen, toBytes_ofBytes]
  · rintro rfl
    refine ⟨toBeBytes v, rest, ⟨rfl, length_toBeBytes v⟩, ?_, rfl⟩
    have hlt := v.toNat_lt
    apply UInt16.toNat_inj.mp
    rw [toBeBytes, ofBytes_toBytes, UInt16.toNat_ofNat']
    omega

private theorem reads_readSlice {n : Nat} {xs : Bytes} :
    Reads (readSlice n) bs xs rest ↔ bs = xs ++ rest ∧ xs.length = n := reads_take

private theorem reads_suite {s : CipherSuite} : Reads CipherSuite.read bs s rest ↔ bs = s.encode ++ rest := by
  simp only [CipherSuite.read, reads_bind, reads_readU16, reads_pure]
  constructor
  · rintro ⟨kdf, mid, rfl, aead, mid', rfl, rfl, rfl⟩
    simp [CipherSuite.encode]
  · rintro rfl
    exact ⟨s.kdfId, _, by simp only [CipherSuite.encode, List.append_assoc], s.aeadId, _, rfl, rfl, rfl⟩

private theorem readSuitesOf_eq_ok {window : Bytes} {ss : List CipherSuite} :
    readSuitesOf window = .ok ss ↔ window = ss.flatMap CipherSuite.encode := by
  constructor
  · exact Reader.flatMap_of_untilEmpty fun _ _ _ => reads_suite.mp
  · rintro rfl
    rw [readSuitesOf, List.flatMap_def]
    apply Reader.untilEmpty_flatten
    · refine List.forall₂_map_right_iff.mpr (List.forall₂_same.mpr fun s _ => ⟨?_, fun _ => reads_suite.mpr rfl⟩)
      exact List.ne_nil_of_length_pos (by simp [CipherSuite.encode])
    · rw [← List.flatMap_def, length_suites]
      omega

private theorem reads_readVec16 {xs : Bytes} :
    Reads readVec16 bs xs rest ↔ xs.length < 2 ^ 16 ∧ bs = vec16 xs ++ rest := by
  simp only [readVec16, reads_bind, reads_readU16, reads_readSlice]
  constructor
  · rintro ⟨n, _, rfl, rfl, hlen⟩
    refine ⟨hlen ▸ n.toNat_lt, ?_⟩
    rw [vec16, hlen, UInt16.ofNat_toNat, List.append_assoc]
  · rintro ⟨hlen, rfl⟩
    refine ⟨UInt16.ofNat xs.length, _, List.append_assoc _ _ _, rfl, ?_⟩
    rw [UInt16.toNat_ofNat_of_lt' hlen]

private theorem reads_readCipherSuites {ss : List CipherSuite} :
    Reads readCipherSuites bs ss rest ↔ ss ≠ [] ∧ ss.length * 4 < 2 ^ 16 ∧
      bs = vec16 (ss.flatMap CipherSuite.encode) ++ rest := by
  simp only [readCipherSuites, reads_bind, reads_readU16, reads_require, reads_readSlice, reads_lift,
    readSuitesOf_eq_ok]
  constructor
  · rintro ⟨n, _, rfl, -, _, ⟨⟨-, hpos⟩, rfl⟩, _, _, ⟨rfl, hlen⟩, rfl, rfl⟩
    have hn := length_suites ss ▸ hlen
    refine ⟨?_, hn ▸ n.toNat_lt, ?_⟩
    · rintro rfl
      exact hpos hn.symm
    · rw [vec16, hlen, UInt16.ofNat_toNat, List.append_assoc]
  · rintro ⟨hne, hlen, rfl⟩
    have hn : (UInt16.ofNat (ss.flatMap CipherSuite.encode).length).toNat = ss.length * 4 := by
      rw [length_suites, UInt16.toNat_ofNat_of_lt' hlen]
    have hpos := List.length_pos_iff.mpr hne
    refine ⟨_, _, List.append_assoc _ _ _, (), _, ⟨?_, rfl⟩, _, _, ⟨rfl, ?_⟩, rfl, rfl⟩
    · rw [hn]
      omega
    · rw [hn, length_suites]

private theorem reads_readPublicName {name : String} :
    Reads readPublicName bs name rest ↔ (utf8 name).length < 2 ^ 8 ∧
      bs = UInt8.ofNat (utf8 name).length :: utf8 name ++ rest := by
  simp only [readPublicName, reads_bind, reads_readU8, reads_readSlice, reads_expect]
  constructor
  · rintro ⟨n, _, rfl, pn, _, ⟨rfl, hlen⟩, hname, rfl⟩
    rw [utf8_of_fromUtf8 hname, hlen, UInt8.ofNat_toNat]
    exact ⟨n.toNat_lt, rfl⟩
  · rintro ⟨hlen, rfl⟩
    refine ⟨_, _, rfl, utf8 name, _, ⟨rfl, ?_⟩, fromUtf8_utf8 name, rfl⟩
    rw [UInt8.toNat_ofNat_of_lt' hlen]

private theorem fields_append (c : EchConfig) (tail : Bytes) :
    c.fields ++ tail = c.configId :: (toBeBytes c.kemId ++ (vec16 c.publicKey ++
      (vec16 (c.cipherSuites.flatMap CipherSuite.encode) ++ c.maximumNameLength ::
        (UInt8.ofNat (utf8 c.publicName).length :: utf8 c.publicName ++ tail)))) := by
  simp only [EchConfig.fields, List.append_assoc, List.cons_append, List.nil_append]

/-- The contents that are read as a config: its fields, an extensions block
and whatever follows it. -/
theorem reads_readContents {c : EchConfig} :
    Reads EchConfig.readContents bs c rest ↔ c.Fits ∧ c.cipherSuites ≠ [] ∧
      ∃ ext, ext.length < 2 ^ 16 ∧ bs = c.fields ++ vec16 ext ++ rest := by
  simp only [EchConfig.readContents, reads_bind, reads_readU8, reads_readU16, reads_readVec16,
    reads_readCipherSuites, reads_readPublicName, reads_pure]
  constructor
  · rintro ⟨id, _, rfl, kem, _, rfl, pk, _, ⟨hpk, rfl⟩, suites, _, ⟨hne, hsuites, rfl⟩, maxLen, _, rfl,
      name, _, ⟨hname, rfl⟩, ext, _, ⟨hext, rfl⟩, rfl, rfl⟩
    refine ⟨⟨hpk, hsuites, hname⟩, hne, ext, hext, ?_⟩
    rw [List.append_assoc, fields_append]
  · rintro ⟨hfits, hne, ext, hext, rfl⟩
    rw [List.append_assoc, fields_append]
    exact ⟨_, _, rfl, _, _, rfl, _, _, ⟨hfits.publicKey, rfl⟩, _, _, ⟨hne, hfits.cipherSuites, rfl⟩, _, _, rfl,
      _, _, ⟨hfits.publicName, rfl⟩, ext, _, ⟨hext, rfl⟩, rfl, rfl⟩

theorem reads_decodeFrom {c : EchConfig} :
    Reads EchConfig.decodeFrom bs c rest ↔ ∃ contents more, contents.length < 2 ^ 16 ∧
      Reads EchConfig.readContents contents c more ∧
      bs = toBeBytes echConfigVersionV18 ++ vec16 contents ++ rest := by
  simp only [EchConfig.decodeFrom, reads_bind, reads_readU16, reads_readVec16, reads_require, reads_inside]
  constructor
  · rintro ⟨version, _, rfl, contents, _, ⟨hlen, rfl⟩, -, _, ⟨rfl, rfl⟩, ⟨more, hread⟩, rfl⟩
    exact ⟨contents, more, hlen, hread, (List.append_assoc _ _ _).symm⟩
  · rintro ⟨contents, more, hlen, hread, rfl⟩
    exact ⟨_, _, List.append_assoc _ _ _, contents, _, ⟨hlen, rfl⟩, (), _, ⟨rfl, rfl⟩, ⟨more, hread⟩, rfl⟩

end Reading

theorem decode_eq_ok {b : Bytes} {c : EchConfig} :
    EchConfig.decode b = .ok c ↔ Reads EchConfig.decodeFrom b c [] := by
  rw [EchConfig.decode, bind_eq_ok]
  constructor
  · rintro ⟨⟨cfg, rest⟩, hrun, h⟩
    by_cases hrest : rest = []
    · subst hrest
      cases h
      exact hrun
    · simp [hrest, throw, throwThe, MonadExceptOf.throw, bind, Except.bind] at h
  · intro hrun
    exact ⟨(c, []), hrun, rfl⟩

private theorem decode_trailing {b rest : Bytes} {c : EchConfig} (h : Reads EchConfig.decodeFrom b c rest)
    (hrest : rest ≠ []) : EchConfig.decode b = .error "trailing bytes after ECHConfig" := by
  rw [Reads] at h
  rw [EchConfig.decode, h]
  simp [hrest, throw, throwThe, MonadExceptOf.throw, bind, Except.bind]

/-- An encoded config is read back, and nothing after it is touched. -/
private theorem reads_encode {c : EchConfig} {b : Bytes} (hs : c.cipherSuites ≠ []) (h : c.encode = .ok b)
    (rest : Bytes) : Reads EchConfig.decodeFrom (b ++ rest) c rest := by
  obtain ⟨hfits, hlen, rfl⟩ := encode_eq_ok.mp h
  refine reads_decodeFrom.mpr ⟨c.fields ++ vec16 [], [], hlen, ?_, rfl⟩
  exact reads_readContents.mpr ⟨hfits, hs, [], by simp, by rw [List.append_nil]⟩

theorem decode_of_encode {c : EchConfig} {b : Bytes} (hs : c.cipherSuites ≠ []) (h : c.encode = .ok b) :
    EchConfig.decode b = .ok c := by
  have hread := reads_encode hs h []
  rw [List.append_nil] at hread
  exact decode_eq_ok.mpr hread

/-- What an accepted ECHConfig looks like. -/
theorem decode_shape {b : Bytes} {c : EchConfig} (h : EchConfig.decode b = .ok c) :
    c.Fits ∧ c.cipherSuites ≠ [] ∧ ∃ ext more, ext.length < 2 ^ 16 ∧
      (c.fields ++ vec16 ext ++ more).length < 2 ^ 16 ∧
      b = toBeBytes echConfigVersionV18 ++ vec16 (c.fields ++ vec16 ext ++ more) := by
  obtain ⟨contents, more, hlen, hread, rfl⟩ := reads_decodeFrom.mp (decode_eq_ok.mp h)
  obtain ⟨hfits, hsuites, ext, hext, rfl⟩ := reads_readContents.mp hread
  exact ⟨hfits, hsuites, ext, more, hext, hlen, List.append_nil _⟩

/-- A config that was decoded can be encoded, without extensions and without
what followed them. -/
theorem encode_of_decode {b : Bytes} {c : EchConfig} (h : EchConfig.decode b = .ok c) :
    c.encode = .ok (toBeBytes echConfigVersionV18 ++ vec16 (c.fields ++ vec16 [])) := by
  obtain ⟨hfits, -, ext, more, -, hlen, -⟩ := decode_shape h
  refine encode_eq_ok.mpr ⟨hfits, ?_, rfl⟩
  simp only [List.length_append, length_vec16, List.length_nil] at hlen ⊢
  omega

/-- What a decoded config is encoded as is no longer than what it was decoded from,
and is decoded as the same config. -/
theorem reencode {b : Bytes} {c : EchConfig} (h : EchConfig.decode b = .ok c) :
    ∃ out, c.encode = .ok out ∧ out.length ≤ b.length ∧ EchConfig.decode out = .ok c := by
  have hout := encode_of_decode h
  obtain ⟨-, hsuites, ext, more, -, -, rfl⟩ := decode_shape h
  refine ⟨_, hout, ?_, decode_of_encode hsuites hout⟩
  simp only [List.length_append, length_toBeBytes, length_vec16, List.length_nil]
  omega

theorem vec16_inj {xs ys tail tail' : Bytes} (hx : xs.length < 2 ^ 16) (hy : ys.length < 2 ^ 16)
    (h : vec16 xs ++ tail = vec16 ys ++ tail') : xs = ys ∧ tail = tail' := by
  simp only [vec16, List.append_assoc] at h
  obtain ⟨hlen, hrest⟩ := List.append_inj h (by simp)
  have hvalue := congrArg (ofBytes 0) hlen
  simp only [toBeBytes, ofBytes_toBytes, UInt16.toNat_ofNat_of_lt' hx, UInt16.toNat_ofNat_of_lt' hy] at hvalue
  exact List.append_inj hrest (by omega)

/-- What an encoded config is decoded as, if at all, is the config. -/
theorem decode_encode_unique {c c' : EchConfig} {b : Bytes} (h : c.encode = .ok b)
    (h' : EchConfig.decode b = .ok c') : c' = c := by
  by_cases hs : c.cipherSuites = []
  · exfalso
    obtain ⟨hfits, hlen, rfl⟩ := encode_eq_ok.mp h
    obtain ⟨contents, more, hlen', hread, heq⟩ := reads_decodeFrom.mp (decode_eq_ok.mp h')
    obtain ⟨hfits', hne, ext, -, hcontents⟩ := reads_readContents.mp hread
    rw [List.append_assoc] at heq
    have hvec := List.append_cancel_left heq
    rw [← List.append_nil (vec16 _)] at hvec
    obtain ⟨hsame, -⟩ := vec16_inj hlen hlen' hvec
    -- The same bytes name a key first and then the suites, of which c has none.
    rw [hcontents, List.append_assoc, fields_append, fields_append] at hsame
    obtain ⟨-, hsame⟩ := List.cons.inj hsame
    obtain ⟨-, hsame⟩ := List.append_inj hsame (by simp)
    obtain ⟨-, hsame⟩ := vec16_inj hfits.publicKey hfits'.publicKey hsame
    obtain ⟨hsuites, -⟩ := vec16_inj (by simp [hs]) (by rw [length_suites]; exact hfits'.cipherSuites) hsame
    have hlength := congrArg List.length hsuites
    rw [length_suites, length_suites, hs] at hlength
    exact hne (List.length_eq_zero_iff.mp (by simpa using hlength.symm))
  · rw [decode_of_encode hs h] at h'
    exact (Except.ok.inj h').symm

private theorem encode_ne_nil {c : EchConfig} {b : Bytes} (h : c.encode = .ok b) : b ≠ [] := by
  obtain ⟨-, -, rfl⟩ := encode_eq_ok.mp h
  exact List.ne_nil_of_length_pos (by simp)

theorem encodeList_eq_ok {cs : List EchConfig} {out : Bytes} :
    encodeList cs = .ok out ↔ ∃ words, List.Forall₂ (fun c b => c.encode = .ok b) cs words ∧
      words.flatten.length < 2 ^ 16 ∧ out = vec16 words.flatten := by
  simp only [encodeList, bind_eq_ok, mapM_eq_ok, expectU16_eq_ok, pure_eq_ok]
  constructor
  · rintro ⟨words, hwords, _, ⟨hlen, rfl⟩, rfl⟩
    exact ⟨words, hwords, hlen, rfl⟩
  · rintro ⟨words, hwords, hlen, rfl⟩
    exact ⟨words, hwords, _, ⟨hlen, rfl⟩, rfl⟩

theorem encodeList_too_long {cs : List EchConfig} {words : List Bytes}
    (h : List.Forall₂ (fun c b => c.encode = .ok b) cs words) (hlen : 2 ^ 16 ≤ words.flatten.length) :
    encodeList cs = .error "ECHConfigList too long" := by
  have hnot : ¬ words.flatten.length < 2 ^ 16 := by omega
  rw [encodeList, mapM_eq_ok.mpr h]
  simp only [bind, Except.bind, expectU16, hnot, if_false]

/-- An encoded list starts with the length of its body, and the body is read back
config by config. -/
theorem encodeList_reads {cs : List EchConfig} {out : Bytes} (hs : ∀ c ∈ cs, c.cipherSuites ≠ [])
    (h : encodeList cs = .ok out) :
    ofBytes 0 (out.take 2) = (out.drop 2).length ∧
    ∀ stuck fuel, cs.length ≤ fuel → EchConfig.decodeFrom.untilEmpty stuck fuel (out.drop 2) = .ok cs := by
  obtain ⟨words, hwords, hlen, rfl⟩ := encodeList_eq_ok.mp h
  rw [take_vec16, drop_vec16]
  constructor
  · rw [toBeBytes, ofBytes_toBytes, UInt16.toNat_ofNat_of_lt' hlen]
    omega
  · intro stuck fuel hfuel
    refine Reader.untilEmpty_flatten ?_ hfuel
    refine ((List.forall₂_and_left cs words).mpr ⟨hs, hwords⟩).imp ?_
    rintro c b ⟨hc, hb⟩
    exact ⟨encode_ne_nil hb, reads_encode hc hb⟩

/-- A list that is encoded starts with the length of its body. Its body is taken
apart again config by config, and a config is never read past its own end. -/
theorem configList_roundTrip {cs : List EchConfig} {out : Bytes} (hs : ∀ c ∈ cs, c.cipherSuites ≠ [])
    (h : encodeList cs = .ok out) :
    ofBytes 0 (out.take 2) = (out.drop 2).length ∧
    (∃ words, List.Forall₂ (fun c b => c.encode = .ok b) cs words ∧ out.drop 2 = words.flatten) ∧
    (∀ stuck fuel, cs.length ≤ fuel → EchConfig.decodeFrom.untilEmpty stuck fuel (out.drop 2) = .ok cs) ∧
    ∀ c b, c.cipherSuites ≠ [] → c.encode = .ok b →
      (∀ rest, EchConfig.decodeFrom.run (b ++ rest) = .ok (c, rest)) ∧ EchConfig.decode b = .ok c ∧
      ∀ more, more ≠ [] → EchConfig.decode (b ++ more) = .error "trailing bytes after ECHConfig" := by
  obtain ⟨hlen, hbody⟩ := encodeList_reads hs h
  obtain ⟨words, hwords, -, rfl⟩ := encodeList_eq_ok.mp h
  refine ⟨hlen, ⟨words, hwords, drop_vec16 _⟩, hbody, ?_⟩
  intro c b hc hb
  exact ⟨reads_encode hc hb, decode_of_encode hc hb, fun more => decode_trailing (reads_encode hc hb more)⟩

/-- A config for X25519 with HKDF-SHA256 and AES-128-GCM. -/
def sampleConfig (id : UInt8) : EchConfig where
  configId := id
  kemId := 0x0020
  publicKey := List.replicate 32 0xab
  cipherSuites := [⟨0x0001, 0x0001⟩]
  maximumNameLength := 0
  publicName := "example.com"

theorem length_fields_sampleConfig (id : UInt8) : (sampleConfig id).fields.length = 56 := by
  have hname : (utf8 "example.com").length = 11 := by decide
  simp [EchConfig.fields, sampleConfig, CipherSuite.encode, hname]

theorem encode_sampleConfig (id : UInt8) : (sampleConfig id).encode =
    .ok (toBeBytes echConfigVersionV18 ++ vec16 ((sampleConfig id).fields ++ vec16 [])) := by
  refine encode_eq_ok.mpr ⟨⟨?_, by simp [sampleConfig], by simp only [sampleConfig]; decide⟩, ?_, rfl⟩
  · simp [sampleConfig]
  · simp [length_fields_sampleConfig]

theorem configList_roundTrip_two :
    ∃ out, encodeList [sampleConfig 1, sampleConfig 2] = .ok out ∧
      EchConfig.decodeFrom.untilEmpty "" 2 (out.drop 2) = .ok [sampleConfig 1, sampleConfig 2] := by
  have hout := encodeList_eq_ok.mpr ⟨_, .cons (encode_sampleConfig 1) (.cons (encode_sampleConfig 2) .nil),
    by simp [length_fields_sampleConfig], rfl⟩
  exact ⟨_, hout, (configList_roundTrip (by decide) hout).2.2.1 "" 2 (by decide)⟩

/-- An X25519 key pair for examples. -/
def exampleKey : Bytes := List.replicate 32 0x55

def examplePublicKey : Bytes :=
  [0x38, 0xab, 0x66, 0x4b, 0xd8, 0x6f, 0x77, 0xd7, 0xe6, 0x6b, 0xdd, 0x9a, 0xe0, 0x79, 0x29, 0x13,
    0xa9, 0x4f, 0xd8, 0xb3, 0x3a, 0x12, 0x60, 0x02, 0x7e, 0x4b, 0x46, 0xc1, 0xf4, 0x88, 0x4c, 0x67]

end ZeroMasque.Ech
