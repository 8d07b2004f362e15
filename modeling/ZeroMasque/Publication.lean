import ZeroMasque.Ech.KeySet

/-! Publishing the keys. The server prints the ECHConfigList of all loaded configs
for the DNS record; each config fits its own length field, the list need not. -/
namespace ZeroMasque
open Foundation Ech

/-- What is published is the encodings one after the other. -/
theorem configListBytes_eq_ok {ech : EchKeySet} {out : Bytes} :
    ech.configListBytes = .ok out ↔ ∃ words, List.Forall₂ (fun p w => p.config.encode = .ok w) ech.pairs words ∧
      words.flatten.length < 2 ^ 16 ∧ out = vec16 words.flatten := by
  simp only [EchKeySet.configListBytes, encodeList_eq_ok, List.forall₂_map_left_iff]

/-- The size of the ECHConfigList of a key set. -/
def listSize (set : EchKeySet) : Nat := (set.pairs.map fun p => p.config.fields.length + 6).sum

private theorem length_encode {c : EchConfig} {b : Bytes} (h : c.encode = .ok b) :
    b.length = c.fields.length + 6 := by
  obtain ⟨-, -, rfl⟩ := encode_eq_ok.mp h
  simp only [List.length_append, length_toBeBytes, length_vec16, List.length_nil]
  omega

private theorem length_words {pairs : List EchKeyPair} {words : List Bytes}
    (h : List.Forall₂ (fun p w => p.config.encode = .ok w) pairs words) :
    words.flatten.length = (pairs.map fun p => p.config.fields.length + 6).sum := by
  induction h with
  | nil => rfl
  | cons hword _ ih =>
    rw [List.flatten_cons, List.length_append, length_encode hword, ih, List.map_cons, List.sum_cons]

/-- The configs of a loaded set can be encoded. -/
theorem encodes_of_load {b64 : Base64} {w : World} {path : Path} {set : EchKeySet}
    (h : EchKeySet.load b64 w path = .ok set) :
    ∀ p ∈ set.pairs, ∃ b, p.config.encode = .ok b := by
  intro p hp
  obtain ⟨body, hbody⟩ := decoded_of_load h p hp
  exact ⟨_, encode_of_decode hbody⟩

private theorem exists_words {pairs : List EchKeyPair} (h : ∀ p ∈ pairs, ∃ b, p.config.encode = .ok b) :
    ∃ words, List.Forall₂ (fun p w => p.config.encode = .ok w) pairs words := by
  induction pairs with
  | nil => exact ⟨[], .nil⟩
  | cons p pairs ih =>
    obtain ⟨b, hb⟩ := h p List.mem_cons_self
    obtain ⟨words, hwords⟩ := ih fun q hq => h q (List.mem_cons_of_mem p hq)
    exact ⟨b :: words, .cons hb hwords⟩

/-- The list of a loaded set is published without a panic if it is small enough. -/
theorem published_iff {b64 : Base64} {w : World} {path : Path} {set : EchKeySet}
    (h : EchKeySet.load b64 w path = .ok set) :
    (∃ out, set.configListBytes = .ok out) ↔ listSize set < 2 ^ 16 := by
  obtain ⟨words, hwords⟩ := exists_words (encodes_of_load h)
  constructor
  · rintro ⟨out, hout⟩
    obtain ⟨words', hwords', hlen, -⟩ := configListBytes_eq_ok.mp hout
    rwa [length_words hwords'] at hlen
  · intro hsize
    rw [listSize, ← length_words hwords] at hsize
    exact ⟨_, configListBytes_eq_ok.mpr ⟨words, hwords, hsize, rfl⟩⟩

theorem suites_of_load {b64 : Base64} {w : World} {path : Path} {set : EchKeySet}
    (h : EchKeySet.load b64 w path = .ok set) : ∀ c ∈ set.pairs.map EchKeyPair.config, c.cipherSuites ≠ [] := by
  intro c hc
  obtain ⟨p, hp, rfl⟩ := List.mem_map.mp hc
  obtain ⟨body, hbody⟩ := decoded_of_load h p hp
  exact (decode_shape hbody).2.1

private theorem listSize_eq (set : EchKeySet) : listSize set = (set.pairs.map fun p =>
    p.config.publicKey.length + 4 * p.config.cipherSuites.length + (utf8 p.config.publicName).length + 15).sum := by
  rw [listSize]
  congr 1
  apply List.map_congr_left
  intro p _
  simp only [EchConfig.fields, List.length_append, length_vec16, length_toBeBytes, length_suites,
    List.length_cons, List.length_nil]
  omega

/-- A loaded key set is published as a list that is read back as all of its
configs, in order, exactly if what the configs hold is short enough. Nothing in
`load` bounds that. -/
theorem published_list {b64 : Base64} {w : World} {path : Path} {set : EchKeySet}
    (h : EchKeySet.load b64 w path = .ok set) :
    (∃ out, set.configListBytes = .ok out ∧ ofBytes 0 (out.take 2) = (out.drop 2).length ∧
      ∀ stuck fuel, set.pairs.length ≤ fuel →
        EchConfig.decodeFrom.untilEmpty stuck fuel (out.drop 2) = .ok (set.pairs.map EchKeyPair.config)) ↔
      (set.pairs.map fun p => p.config.publicKey.length + 4 * p.config.cipherSuites.length +
        (utf8 p.config.publicName).length + 15).sum < 2 ^ 16 := by
  rw [← listSize_eq, ← published_iff h]
  constructor
  · rintro ⟨out, hout, -⟩
    exact ⟨out, hout⟩
  · rintro ⟨out, hout⟩
    obtain ⟨hlen, hread⟩ := encodeList_reads (suites_of_load h) hout
    rw [List.length_map] at hread
    exact ⟨out, hout, hlen, hread⟩

section Example

/-- A config for the example key that offers one suite n times. -/
def exampleConfig (n : Nat) (id : UInt8) : EchConfig where
  configId := id
  kemId := 0x0020
  publicKey := examplePublicKey
  cipherSuites := List.replicate n ⟨0x0001, 0x0001⟩
  maximumNameLength := 0
  publicName := "example.com"

def examplePairs (n : Nat) : List EchKeyPair :=
  [⟨exampleKey, exampleConfig n 1⟩, ⟨exampleKey, exampleConfig n 2⟩]

def exampleBlocks (n : Nat) : List PemBlock :=
  [⟨pemLabelKey, exampleKey⟩,
    ⟨pemLabelConfig, toBeBytes echConfigVersionV18 ++ vec16 ((exampleConfig n 1).fields ++ vec16 [])⟩,
    ⟨pemLabelKey, exampleKey⟩,
    ⟨pemLabelConfig, toBeBytes echConfigVersionV18 ++ vec16 ((exampleConfig n 2).fields ++ vec16 [])⟩]

theorem length_fields_exampleConfig (n : Nat) (id : UInt8) :
    (exampleConfig n id).fields.length = 52 + n * 4 := by
  have hname : (utf8 "example.com").length = 11 := by decide
  have hkey : examplePublicKey.length = 32 := rfl
  simp only [EchConfig.fields, exampleConfig, List.length_append, length_vec16, length_toBeBytes, length_suites,
    List.length_replicate, hname, hkey, List.length_cons, List.length_nil]
  omega

theorem encode_exampleConfig {n : Nat} (hn : n ≤ 16000) (id : UInt8) : (exampleConfig n id).encode =
    .ok (toBeBytes echConfigVersionV18 ++ vec16 ((exampleConfig n id).fields ++ vec16 [])) := by
  refine encode_eq_ok.mpr ⟨⟨by simp only [exampleConfig]; decide, ?_, by simp only [exampleConfig]; decide⟩, ?_, rfl⟩
  · simp only [exampleConfig, List.length_replicate]
    omega
  · simp only [List.length_append, length_vec16, List.length_nil, length_fields_exampleConfig]
    omega

/-- A file with the two pairs is loaded. -/
theorem load_example {n : Nat} (hpos : 0 < n) (hn : n ≤ 16000) {w : World} {path : Path}
    (hdir : w.isDir path = .ok false)
    (hread : w.read path = .ok (utf8 (String.ofList (bundleText rfc4648 (exampleBlocks n))))) :
    EchKeySet.load rfc4648 w path = .ok ⟨examplePairs n⟩ := by
  have hrendered : Rendered (examplePairs n) (exampleBlocks n) :=
    .cons (encode_exampleConfig hn 1) (.cons (encode_exampleConfig hn 2) .nil)
  have hsuites : ∀ p ∈ examplePairs n, p.config.cipherSuites ≠ [] := by
    simp [examplePairs, exampleConfig]
    omega
  refine load_file hdir hread ?_ (by simp [examplePairs]) rfl
  rw [parsePemBundle_bundleText rfc4648_standard hrendered.labelled, pairBlocks_rendered hrendered hsuites]

theorem configListBytes_example_long {n : Nat} (hn : n ≤ 16000) (hlong : 2 ^ 16 ≤ 2 * (58 + n * 4)) :
    (EchKeySet.mk (examplePairs n)).configListBytes =
      .error "ECHConfigList too long" := by
  refine encodeList_too_long (.cons (encode_exampleConfig hn 1) (.cons (encode_exampleConfig hn 2) .nil)) ?_
  simp only [List.flatten_cons, List.flatten_nil, List.length_append, length_toBeBytes, length_vec16,
    length_fields_exampleConfig, List.length_nil]
  omega

/-- A key file with the two pairs, and nothing else. -/
def keyFile (n : Nat) : World where
  isDir _ := .ok false
  readDir _ := .error "Not a directory (os error 20)"
  isFile _ := true
  read _ := .ok (utf8 (String.ofList (bundleText rfc4648 (exampleBlocks n))))
  toSocketAddrs _ := .error "failed to lookup address information"

theorem published_list_two :
    EchKeySet.load rfc4648 (keyFile 1) ⟨"ech.pem", some "ech.pem"⟩ = .ok ⟨examplePairs 1⟩ ∧
    ∃ out, (EchKeySet.mk (examplePairs 1)).configListBytes = .ok out ∧
      EchConfig.decodeFrom.untilEmpty "" 2 (out.drop 2) = .ok [exampleConfig 1 1, exampleConfig 1 2] := by
  have hload : EchKeySet.load rfc4648 (keyFile 1) ⟨"ech.pem", some "ech.pem"⟩ = .ok ⟨examplePairs 1⟩ :=
    load_example (by omega) (by omega) rfl rfl
  obtain ⟨out, hout, -, hread⟩ := (published_list hload).mpr (by decide)
  exact ⟨hload, out, hout, hread "" 2 (by decide)⟩

/-- Two configs that fit their own length fields, but not together. -/
theorem long_list_loads_but_panics :
    EchKeySet.load rfc4648 (keyFile 8192) ⟨"ech.pem", some "ech.pem"⟩ = .ok ⟨examplePairs 8192⟩ ∧
    (EchKeySet.mk (examplePairs 8192)).configListBytes = .error "ECHConfigList too long" :=
  ⟨load_example (by omega) (by omega) rfl rfl, configListBytes_example_long (by omega) (by omega)⟩

end Example

end ZeroMasque
