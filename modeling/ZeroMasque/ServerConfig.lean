import ZeroMasque.Publication

/-! Building the server's TLS configuration. BoringSSL and the QUIC library are
given by what their calls return. -/
namespace ZeroMasque
open Foundation Ech

/-- A key as it is handed to the TLS library. -/
structure EchServerKey where
  isRetryConfig : Bool
  config : Bytes
  key : Bytes
  deriving DecidableEq

/-- What a TLS configuration is made of, apart from constants. -/
structure Tls where
  certChain : Bytes
  privateKey : Bytes
  echKeys : Option (List EchServerKey)
  allowedSniHosts : List String
  deriving DecidableEq

/-- The calls into the TLS and QUIC libraries, as functions of what they are given. -/
structure Boring where
  contextNew : Except String Unit
  setMinProtoVersion : Except String Unit
  setMaxProtoVersion : Except String Unit
  setCertificateChainFile : Except String Bytes → Except String Bytes
  setPrivateKeyFile : Except String Bytes → Except String Bytes
  checkPrivateKey : Bytes → Bytes → Except String Unit
  echKeysNew : Except String Unit
  hpkeKey : Bytes → Except String Bytes
  addKey : List EchServerKey → EchServerKey → Except String Unit
  setEchKeys : List EchServerKey → Except String Unit
  quicheConfig : Tls → Except String Unit
  setApplicationProtos : Except String Unit
  setCcAlgorithmName : Except String Unit

/-- An error that is reported after a text. -/
def reported (what : String) {α : Type} (x : Except String α) : Except Stop α :=
  orFail (x.mapError fun e => [what ++ e])

/-- The loop of `install_ech_keys`. -/
def addKeys (boring : Boring) (keys : List EchServerKey) : List EchKeyPair → Except Stop (List EchServerKey)
  | [] => .ok keys
  | pair :: pairs => do
    let id := "(config_id 0x" ++ lowerHex 2 pair.config.configId.toNat ++ "): "
    let key ← reported ("invalid ECH HPKE key " ++ id) (boring.hpkeKey pair.privateKey)
    let config ← orPanic pair.config.encode
    let added : EchServerKey := ⟨true, config, key⟩
    reported ("SSL_ECH_KEYS_add failed " ++ id) (boring.addKey keys added)
    addKeys boring (keys ++ [added]) pairs

def installEchKeys (boring : Boring) (ech : EchKeySet) : Except Stop (List EchServerKey) := do
  reported "SSL_ECH_KEYS_new failed: " boring.echKeysNew
  let keys ← addKeys boring [] ech.pairs
  reported "SSL_CTX_set1_ech_keys failed: " (boring.setEchKeys keys)
  return keys

def buildServerConfig (boring : Boring) (w : World) (certPath keyPath : Path) (ech : Option EchKeySet)
    (allowedSniHosts : List String) : Except Stop Tls := do
  orFail (context "creating BoringSSL server context" boring.contextNew)
  orFail (context "min TLS version" boring.setMinProtoVersion)
  orFail (context "max TLS version" boring.setMaxProtoVersion)
  let certChain ← orFail (context ("loading cert chain " ++ certPath.display)
    (boring.setCertificateChainFile (w.read certPath)))
  let privateKey ← orFail (context ("loading private key " ++ keyPath.display)
    (boring.setPrivateKeyFile (w.read keyPath)))
  orFail (context ("certificate/key mismatch: " ++ certPath.display ++ " and " ++ keyPath.display)
    (boring.checkPrivateKey certChain privateKey))
  let echKeys ← ech.mapM (installEchKeys boring)
  let tls : Tls := { certChain, privateKey, echKeys, allowedSniHosts }
  reported "quiche server config: " (boring.quicheConfig tls)
  orFail (context "setting ALPN h3" boring.setApplicationProtos)
  orFail (context "selecting BBRv2 congestion control" boring.setCcAlgorithmName)
  return tls

/-- The guard of a built configuration allows the given hosts. -/
theorem allowedSniHosts_of_build {boring : Boring} {w : World} {certPath keyPath : Path}
    {ech : Option EchKeySet} {hosts : List String} {tls : Tls}
    (h : buildServerConfig boring w certPath keyPath ech hosts = .ok tls) : tls.allowedSniHosts = hosts := by
  simp only [buildServerConfig, bind_eq_ok, pure_eq_ok] at h
  obtain ⟨-, -, -, -, -, -, cert, -, key, -, -, -, keys, -, -, -, -, -, -, -, rfl⟩ := h
  rfl

/-- The installed keys are those of the set. -/
theorem echKeys_of_build {boring : Boring} {w : World} {certPath keyPath : Path} {ech : Option EchKeySet}
    {hosts : List String} {tls : Tls} (h : buildServerConfig boring w certPath keyPath ech hosts = .ok tls) :
    ech.mapM (installEchKeys boring) = .ok tls.echKeys := by
  simp only [buildServerConfig, bind_eq_ok, pure_eq_ok] at h
  obtain ⟨-, -, -, -, -, -, cert, -, key, -, -, -, keys, hkeys, -, -, -, -, -, -, rfl⟩ := h
  exact hkeys

/-- A pair as it is handed to the library. -/
structure Installed (boring : Boring) (p : EchKeyPair) (k : EchServerKey) : Prop where
  retry : k.isRetryConfig = true
  config : p.config.encode = .ok k.config
  key : boring.hpkeKey p.privateKey = .ok k.key

private theorem addKeys_eq_ok {boring : Boring} {keys out : List EchServerKey} {pairs : List EchKeyPair}
    (h : addKeys boring keys pairs = .ok out) :
    ∃ added, out = keys ++ added ∧ List.Forall₂ (Installed boring) pairs added := by
  induction pairs generalizing keys with
  | nil =>
    cases h
    exact ⟨[], (List.append_nil _).symm, .nil⟩
  | cons pair pairs ih =>
    simp only [addKeys, bind_eq_ok] at h
    obtain ⟨key, hkey, config, hconfig, -, -, h⟩ := h
    obtain ⟨added, rfl, hadded⟩ := ih h
    refine ⟨_, List.append_assoc _ _ _, .cons ⟨rfl, mapError_eq_ok.mp hconfig, ?_⟩ hadded⟩
    exact mapError_eq_ok.mp (mapError_eq_ok.mp hkey)

theorem installEchKeys_installed {boring : Boring} {ech : EchKeySet} {keys : List EchServerKey}
    (h : installEchKeys boring ech = .ok keys) : List.Forall₂ (Installed boring) ech.pairs keys := by
  simp only [installEchKeys, bind_eq_ok, pure_eq_ok] at h
  obtain ⟨-, -, added, hadded, -, -, rfl⟩ := h
  obtain ⟨added, rfl, hinstalled⟩ := addKeys_eq_ok hadded
  exact hinstalled

/-- The library is handed the encodings of the configs. -/
private theorem installEchKeys_configs {boring : Boring} {ech : EchKeySet} {keys : List EchServerKey}
    (h : installEchKeys boring ech = .ok keys) :
    List.Forall₂ (fun p k => p.config.encode = .ok k.config) ech.pairs keys :=
  (installEchKeys_installed h).imp fun _ _ => Installed.config

private theorem addKeys_noPanic (boring : Boring) (keys : List EchServerKey) {pairs : List EchKeyPair}
    (h : ∀ p ∈ pairs, ∃ b, p.config.encode = .ok b) : NoPanic (addKeys boring keys pairs) := by
  induction pairs generalizing keys with
  | nil => exact noPanic_ok keys
  | cons pair pairs ih =>
    obtain ⟨b, hb⟩ := h pair List.mem_cons_self
    rw [addKeys, hb]
    refine .bind (noPanic_orFail _) fun key _ => .bind (noPanic_ok b) fun config _ => ?_
    exact .bind (noPanic_orFail _) fun _ _ => ih _ fun p hp => h p (List.mem_cons_of_mem pair hp)

/-- Only a config that cannot be encoded makes installing the keys panic. -/
private theorem installEchKeys_noPanic (boring : Boring) {ech : EchKeySet}
    (h : ∀ p ∈ ech.pairs, ∃ b, p.config.encode = .ok b) : NoPanic (installEchKeys boring ech) := by
  refine .bind (noPanic_orFail _) fun _ _ => .bind (addKeys_noPanic boring [] h) fun keys _ => ?_
  exact .bind (noPanic_orFail _) fun _ _ => noPanic_ok keys

theorem buildServerConfig_noPanic (boring : Boring) (w : World) (certPath keyPath : Path)
    {ech : Option EchKeySet} (hosts : List String)
    (h : ∀ set ∈ ech, ∀ p ∈ set.pairs, ∃ b, p.config.encode = .ok b) :
    NoPanic (buildServerConfig boring w certPath keyPath ech hosts) := by
  have hech : NoPanic (ech.mapM (installEchKeys boring)) := by
    cases ech with
    | none => exact noPanic_ok none
    | some set => exact (installEchKeys_noPanic boring (h set rfl)).bind fun keys _ => noPanic_ok (some keys)
  refine .bind (noPanic_orFail _) fun _ _ => .bind (noPanic_orFail _) fun _ _ =>
    .bind (noPanic_orFail _) fun _ _ => .bind (noPanic_orFail _) fun cert _ =>
    .bind (noPanic_orFail _) fun key _ => .bind (noPanic_orFail _) fun _ _ => .bind hech fun keys _ => ?_
  exact .bind (noPanic_orFail _) fun _ _ => .bind (noPanic_orFail _) fun _ _ =>
    .bind (noPanic_orFail _) fun _ _ => noPanic_ok _

/-- Whatever bytes a config was decoded from, its lengths fit when it is encoded
again; so the keys of a file that was parsed are installed without a panic. -/
theorem decoded_configs_encode :
    (∀ b c, EchConfig.decode b = .ok c →
      ∃ out, c.encode = .ok out ∧ out.length ≤ b.length ∧ EchConfig.decode out = .ok c) ∧
    (∀ b64 bytes pairs, parsePemBundle b64 bytes = .ok pairs →
      ∀ boring, NoPanic (installEchKeys boring ⟨pairs⟩)) ∧
    ∀ b64 w path set, EchKeySet.load b64 w path = .ok set → ∀ boring, NoPanic (installEchKeys boring set) := by
  refine ⟨fun b c => reencode, ?_, ?_⟩
  · intro b64 bytes pairs hparse boring
    apply installEchKeys_noPanic
    intro p hp
    obtain ⟨body, hbody⟩ := decoded_of_parse hparse p hp
    exact ⟨_, encode_of_decode hbody⟩
  · intro b64 w path set hload boring
    exact installEchKeys_noPanic boring (encodes_of_load hload)

private theorem reencoded_iff {c : EchConfig} {ext more : Bytes} (hext : ext.length < 2 ^ 16)
    (hlen : (c.fields ++ vec16 ext ++ more).length < 2 ^ 16) :
    vec16 (c.fields ++ vec16 []) = vec16 (c.fields ++ vec16 ext ++ more) ↔ ext = [] ∧ more = [] := by
  constructor
  · intro h
    have hshort : (c.fields ++ vec16 []).length < 2 ^ 16 := by
      simp only [List.length_append, length_vec16, List.length_nil] at hlen ⊢
      omega
    rw [← List.append_nil (vec16 (c.fields ++ vec16 [])), ← List.append_nil (vec16 (_ ++ more))] at h
    have hcontents := (vec16_inj hshort hlen h).1
    rw [List.append_assoc, ← List.append_nil (vec16 [])] at hcontents
    obtain ⟨hnone, hmore⟩ := vec16_inj (by decide) hext (List.append_cancel_left hcontents)
    exact ⟨hnone.symm, hmore.symm⟩
  · rintro ⟨rfl, rfl⟩
    rw [List.append_nil]

/-- A decoded ECHConfig is handed to the TLS library and published as its fields
with an empty extensions list. Those are the bytes it was decoded from only if it
had no extensions and nothing after them. -/
theorem configs_reencoded {b : Bytes} {c : EchConfig} (h : EchConfig.decode b = .ok c) :
    (∃ ext more, b = toBeBytes echConfigVersionV18 ++ vec16 (c.fields ++ vec16 ext ++ more) ∧
      c.encode = .ok (toBeBytes echConfigVersionV18 ++ vec16 (c.fields ++ vec16 [])) ∧
      (c.encode = .ok b ↔ ext = [] ∧ more = [])) ∧
    (∀ boring ech keys, installEchKeys boring ech = .ok keys →
      List.Forall₂ (fun p k => p.config.encode = .ok k.config) ech.pairs keys) ∧
    ∀ (ech : EchKeySet) out, ech.configListBytes = .ok out → ∃ words,
      List.Forall₂ (fun p w => p.config.encode = .ok w) ech.pairs words ∧ out = vec16 words.flatten := by
  refine ⟨?_, fun _ _ _ => installEchKeys_configs, ?_⟩
  · obtain ⟨-, -, ext, more, hext, hlen, rfl⟩ := decode_shape h
    refine ⟨ext, more, rfl, encode_of_decode h, ?_⟩
    rw [encode_of_decode h, Except.ok.injEq, List.append_cancel_left_eq, reencoded_iff hext hlen]
  · intro ech out hout
    obtain ⟨words, hwords, -, rfl⟩ := configListBytes_eq_ok.mp hout
    exact ⟨words, hwords, rfl⟩

/-- The sample config with an extension. -/
def extended : Bytes :=
  toBeBytes echConfigVersionV18 ++ vec16 ((sampleConfig 7).fields ++ vec16 [0xfe, 0x00, 0x00, 0x00] ++ [])

private theorem decode_extended : EchConfig.decode extended = .ok (sampleConfig 7) := by
  obtain ⟨hfits, -, -⟩ := encode_eq_ok.mp (encode_sampleConfig 7)
  refine decode_eq_ok.mpr (reads_decodeFrom.mpr ⟨_, [], ?_, ?_, (List.append_nil _).symm⟩)
  · simp [length_fields_sampleConfig]
  · exact reads_readContents.mpr ⟨hfits, by decide, _, by decide, rfl⟩

theorem decoded_configs_encode_extended :
    EchConfig.decode extended = .ok (sampleConfig 7) ∧
    ∃ out, (sampleConfig 7).encode = .ok out ∧ out.length ≤ extended.length ∧
      EchConfig.decode out = .ok (sampleConfig 7) :=
  ⟨decode_extended, decoded_configs_encode.1 extended (sampleConfig 7) decode_extended⟩

theorem configs_reencoded_extended :
    ∃ ext more, extended =
        toBeBytes echConfigVersionV18 ++ vec16 ((sampleConfig 7).fields ++ vec16 ext ++ more) ∧
      ((sampleConfig 7).encode = .ok extended ↔ ext = [] ∧ more = []) := by
  obtain ⟨ext, more, hb, -, hiff⟩ := (configs_reencoded decode_extended).1
  exact ⟨ext, more, hb, hiff⟩

/-- A key file with an extension in its config: other bytes are handed to the TLS
library and published. -/
theorem extensions_dropped :
    let pair : EchKeyPair := ⟨List.replicate 32 0x55, sampleConfig 7⟩
    let file := bundleText rfc4648 [⟨pemLabelKey, pair.privateKey⟩, ⟨pemLabelConfig, extended⟩]
    parsePemBundle rfc4648 (utf8 (String.ofList file)) = .ok [pair] ∧
    EchConfig.decode extended = .ok (sampleConfig 7) ∧
    ∃ b, b ≠ extended ∧ (sampleConfig 7).encode = .ok b ∧
      (∀ boring keys, installEchKeys boring ⟨[pair]⟩ = .ok keys → keys.map EchServerKey.config = [b]) ∧
      (EchKeySet.mk [pair]).configListBytes = .ok (vec16 b) := by
  intro pair file
  have hencode := encode_sampleConfig 7
  refine ⟨?_, decode_extended, _, ?_, hencode, ?_, ?_⟩
  · rw [parsePemBundle_bundleText rfc4648_standard (by simp [Labelled])]
    simp only [pairBlocks, if_true, ne_eq, not_true_eq_false, if_false, decode_extended]
    rfl
  · intro heq
    have hlen := congrArg List.length heq
    simp [extended] at hlen
  · intro boring keys hkeys
    cases installEchKeys_configs hkeys with
    | cons hk hnil =>
      cases hnil
      rw [hencode] at hk
      rw [List.map_singleton, ← Except.ok.inj hk]
  · refine configListBytes_eq_ok.mpr ⟨_, .cons hencode .nil, ?_, ?_⟩
    · simp [length_fields_sampleConfig]
    · simp

end ZeroMasque
