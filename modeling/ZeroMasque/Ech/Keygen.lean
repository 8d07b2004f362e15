import Mathlib.Data.List.Chain
import ZeroMasque.Ech.Truncation

/-! Generating an ECH key. The public name is checked character by character; what
that leaves open is where its dots and hyphens stand. -/
namespace ZeroMasque.Ech
open Foundation

section Source

def hpkeKemDhkemX25519 : UInt16 := 0x0020

def hpkeKdfHkdfSha256 : UInt16 := 0x0001

def hpkeAeadAes128Gcm : UInt16 := 0x0001

def validatePublicName (name : String) : Except Chain Unit := do
  if name.toList = [] ∨ 253 < (utf8 name).length then throw ["ECH public name must be 1..=253 characters"]
  if '.' ∉ name.toList then
    throw ["ECH public name must contain at least one dot (use a real DNS name)"]
  name.toList.forM fun c =>
    if c.isAlphanum ∨ c = '.' ∨ c = '-' then pure ()
    else throw ["ECH public name has invalid character `" ++ c.toString ++ "`"]

/-- What the surroundings contribute to a run: the X25519 key pair, a random byte,
and how writing ends. A failed write to stdout comes after some of the bytes. -/
structure Surroundings where
  keypair : Except String ({ key : Bytes // key.length ≤ 32 } × Bytes)
  randomByte : UInt8
  stdout : Option (Nat × String)
  stderr : Nat → Option String

/-- What has been written so far; stderr by lines. -/
structure Printed where
  stdout : Bytes := []
  stderr : List String := []

abbrev Printing := ExceptT Stop (StateM Printed)

def writeAll (env : Surroundings) (text : String) : Printing Unit :=
  match env.stdout with
  | none => modify fun p => { p with stdout := p.stdout ++ utf8 text }
  | some (n, e) => do
    modify fun p => { p with stdout := p.stdout ++ (utf8 text).take n }
    throw (.failed ["writing ECH PEM bundle", e])

def writeln (env : Surroundings) (line : String) : Printing Unit := do
  let p ← get
  match env.stderr p.stderr.length with
  | none => set { p with stderr := p.stderr ++ [line] }
  | some e => throw (.failed [e])

/-- The lines on stderr. -/
def guidance (publicName : String) (configId : UInt8) (listB64 : String) : List String :=
  ["Generated ECH key for public name `" ++ publicName ++ "`.",
    "config_id: 0x" ++ lowerHex 2 configId.toNat,
    "Publish the following base64-encoded ECHConfigList",
    "in an HTTPS DNS resource record's `ech=` parameter:",
    "",
    "  ech=\"" ++ listB64 ++ "\"",
    "",
    "Run `zeromasque serve --ech-key <FILE>` pointing at the PEM saved from stdout."]

def generatedConfig (configId : UInt8) (publicKey : Bytes) (publicName : String) : EchConfig where
  configId := configId
  kemId := hpkeKemDhkemX25519
  publicKey := publicKey
  cipherSuites := [⟨hpkeKdfHkdfSha256, hpkeAeadAes128Gcm⟩]
  maximumNameLength := 0
  publicName := publicName

def run (b64 : Base64) (env : Surroundings) (publicName : String) : Printing Unit := do
  orFail (validatePublicName publicName)
  let (publicKey, privateKey) ← orFail (env.keypair.mapError fun e => [e])
  let config := generatedConfig env.randomByte publicKey publicName
  let pem ← orPanic (encodePairPem b64 privateKey config)
  writeAll env pem
  let listBytes ← orPanic (encodeList [config])
  let listB64 := String.ofList (b64.encodeString listBytes)
  (guidance publicName config.configId listB64).forM (writeln env)

end Source

private theorem validatePublicName_eq_ok {name : String} : validatePublicName name = .ok () ↔
    name.toList ≠ [] ∧ (utf8 name).length ≤ 253 ∧ '.' ∈ name.toList ∧
      ∀ c ∈ name.toList, c.isAlphanum ∨ c = '.' ∨ c = '-' := by
  have hchar (c : Char) : (if c.isAlphanum ∨ c = '.' ∨ c = '-' then pure ()
      else throw ["ECH public name has invalid character `" ++ c.toString ++ "`"] : Except Chain Unit) = .ok () ↔
      c.isAlphanum ∨ c = '.' ∨ c = '-' := by
    split
    · rename_i h
      simp [h, pure, Except.pure]
    · rename_i h
      simp only [h, iff_false]
      nofun
  simp only [validatePublicName, bail_eq_ok, forM_eq_ok, hchar, not_or, not_not, Nat.not_lt, and_assoc, ne_eq]

section Names

/-- Letters, digits and inner hyphens. -/
structure IsLabel (label : List Char) : Prop where
  pos : 1 ≤ label.length
  short : label.length ≤ 63
  chars : ∀ c ∈ label, c.isAlphanum ∨ c = '-'
  first : label.head? ≠ some '-'
  last : label.getLast? ≠ some '-'

/-- At least two labels with dots between them. -/
structure IsDnsName (name : String) : Prop where
  two : 2 ≤ (name.toList.splitOn '.').length
  labels : ∀ label ∈ name.toList.splitOn '.', IsLabel label
  length : (utf8 name).length ≤ 253

/-- Neither end is a dot or a hyphen, a dot has neither beside it, and a dot comes
at least every 64 characters. -/
structure WellPlaced (name : List Char) : Prop where
  first : ∀ c ∈ name.head?, c ≠ '.' ∧ c ≠ '-'
  last : ∀ c ∈ name.getLast?, c ≠ '.' ∧ c ≠ '-'
  beside : name.IsChain fun c d => (c = '.' → d ≠ '.' ∧ d ≠ '-') ∧ (d = '.' → c ≠ '.' ∧ c ≠ '-')
  runs : ∀ run, run <:+: name → '.' ∉ run → run.length ≤ 63

private theorem prefix_of_dotless {a b run : List Char} (h : run <+: a ++ '.' :: b) (hdot : '.' ∉ run) :
    run <+: a := by
  have hjoint : a ++ ['.'] <+: a ++ '.' :: b := ⟨b, by simp⟩
  rcases List.prefix_or_prefix_of_prefix h hjoint with hrun | hrun
  · rcases List.prefix_concat_iff.mp hrun with rfl | hrun
    · exact absurd (by simp) hdot
    · exact hrun
  · exact absurd (hrun.subset (by simp)) hdot

/-- What has no dot in it stands on one side of the dot. -/
private theorem infix_of_dotless {a b run : List Char} (h : run <:+: a ++ '.' :: b) (hdot : '.' ∉ run) :
    run <:+: a ∨ run <:+: b := by
  induction a with
  | nil =>
    rcases List.infix_cons_iff.mp h with hfirst | hrest
    · exact .inl (prefix_of_dotless hfirst hdot).isInfix
    · exact .inr hrest
  | cons c a ih =>
    rcases List.infix_cons_iff.mp h with hfirst | hrest
    · exact .inl (prefix_of_dotless hfirst hdot).isInfix
    · rcases ih hrest with ha | hb
      · exact .inl (List.infix_cons ha)
      · exact .inr hb

private theorem head_joined {a : List Char} (ha : a ≠ []) (b : List Char) : (a ++ '.' :: b).head? = a.head? := by
  obtain ⟨c, a, rfl⟩ := List.exists_cons_of_ne_nil ha
  rfl

private theorem last_joined (a : List Char) {b : List Char} (hb : b ≠ []) :
    (a ++ '.' :: b).getLast? = b.getLast? := by
  obtain ⟨c, b, rfl⟩ := List.exists_cons_of_ne_nil hb
  rw [List.getLast?_append, List.getLast?_cons_cons, List.getLast?_cons, Option.some_or]

/-- A dot joins two pieces. -/
private theorem wellPlaced_join (a b : List Char) :
    WellPlaced (a ++ '.' :: b) ↔ (a ≠ [] ∧ WellPlaced a) ∧ b ≠ [] ∧ WellPlaced b := by
  constructor
  · intro h
    have ha : a ≠ [] := by
      rintro rfl
      exact (h.first '.' rfl).1 rfl
    have hb : b ≠ [] := by
      rintro rfl
      exact (h.last '.' (by simp)).1 rfl
    obtain ⟨hchainA, hchainB, hjoint⟩ := List.isChain_append.mp h.beside
    obtain ⟨hafter, hchainB⟩ := List.isChain_cons.mp hchainB
    have hinA : a <:+: a ++ '.' :: b := List.infix_append' [] a _
    have hinB : b <:+: a ++ '.' :: b := ⟨a ++ ['.'], [], by simp⟩
    refine ⟨⟨ha, ?_, fun c hc => (hjoint c hc '.' rfl).2 rfl, hchainA, fun run hrun => h.runs run (hrun.trans hinA)⟩,
      hb, fun c hc => (hafter c hc).1 rfl, ?_, hchainB, fun run hrun => h.runs run (hrun.trans hinB)⟩
    · rw [← head_joined ha b]
      exact h.first
    · rw [← last_joined a hb]
      exact h.last
  · rintro ⟨⟨ha, hwa⟩, hb, hwb⟩
    refine ⟨?_, ?_, ?_, ?_⟩
    · rw [head_joined ha]
      exact hwa.first
    · rw [last_joined a hb]
      exact hwb.last
    · refine List.isChain_append.mpr ⟨hwa.beside, List.isChain_cons.mpr ⟨?_, hwb.beside⟩, ?_⟩
      · intro d hd
        exact ⟨fun _ => hwb.first d hd, fun hdot => absurd hdot (hwb.first d hd).1⟩
      · rintro c hc d ⟨⟩
        exact ⟨fun hdot => absurd hdot (hwa.last c hc).1, fun _ => hwa.last c hc⟩
    · intro run hrun hdot
      rcases infix_of_dotless hrun hdot with hrun | hrun
      · exact hwa.runs run hrun hdot
      · exact hwb.runs run hrun hdot

/-- A piece without dots. -/
private theorem wellPlaced_label {label : List Char} (hdot : '.' ∉ label) : label ≠ [] ∧ WellPlaced label ↔
    1 ≤ label.length ∧ label.length ≤ 63 ∧ label.head? ≠ some '-' ∧ label.getLast? ≠ some '-' := by
  constructor
  · rintro ⟨hne, h⟩
    refine ⟨List.length_pos_iff.mpr hne, h.runs label (List.infix_refl label) hdot, ?_, ?_⟩
    · exact fun hfirst => (h.first '-' hfirst).2 rfl
    · exact fun hlast => (h.last '-' hlast).2 rfl
  · rintro ⟨hpos, hshort, hfirst, hlast⟩
    have hmem : ∀ c ∈ label, c ≠ '.' := fun c hc heq => hdot (heq ▸ hc)
    refine ⟨List.length_pos_iff.mp hpos, ?_, ?_, ?_, ?_⟩
    · intro c hc
      exact ⟨hmem c (List.mem_of_mem_head? hc), fun heq => hfirst (heq ▸ hc)⟩
    · intro c hc
      exact ⟨hmem c (List.mem_of_mem_getLast? hc), fun heq => hlast (heq ▸ hc)⟩
    · apply List.isChain_iff_getElem.mpr
      intro i hi
      exact ⟨fun hdot' => absurd hdot' (hmem _ (List.getElem_mem _)),
        fun hdot' => absurd hdot' (hmem _ (List.getElem_mem _))⟩
    · intro run hrun _
      exact hrun.length_le.trans hshort

/-- A name is a label, or a label before a dot and a name. -/
@[elab_as_elim]
private theorem labels_induction {motive : List Char → Prop} (label : ∀ l, '.' ∉ l → motive l)
    (join : ∀ l rest, '.' ∉ l → motive rest → motive (l ++ '.' :: rest)) (name : List Char) : motive name := by
  by_cases hdot : '.' ∈ name
  · obtain ⟨l, rest, rfl, hl⟩ := List.eq_append_cons_of_mem hdot
    exact join l rest hl (labels_induction label join rest)
  · exact label name hdot
termination_by name.length

private theorem wellPlaced_labels (name : List Char) : name ≠ [] ∧ WellPlaced name ↔
    ∀ label ∈ name.splitOn '.', 1 ≤ label.length ∧ label.length ≤ 63 ∧ label.head? ≠ some '-' ∧
      label.getLast? ≠ some '-' := by
  induction name using labels_induction with
  | label l hl => rw [List.splitOn_eq_singleton hl, List.forall_mem_singleton, wellPlaced_label hl]
  | join l rest hl ih =>
    rw [List.splitOn_append_cons_self_of_not_mem hl, List.forall_mem_cons, ← ih, ← wellPlaced_label hl,
      ← wellPlaced_join]
    simp

private theorem mem_of_label {name label : List Char} (h : label ∈ name.splitOn '.') :
    ∀ c ∈ label, c ∈ name ∧ c ≠ '.' := by
  induction name using labels_induction with
  | label l hl =>
    rw [List.splitOn_eq_singleton hl, List.mem_singleton] at h
    subst h
    exact fun c hc => ⟨hc, fun heq => hl (heq ▸ hc)⟩
  | join l rest hl ih =>
    rw [List.splitOn_append_cons_self_of_not_mem hl, List.mem_cons] at h
    rcases h with rfl | h
    · exact fun c hc => ⟨List.mem_append_left _ hc, fun heq => hl (heq ▸ hc)⟩
    · intro c hc
      obtain ⟨hrest, hdot⟩ := ih h c hc
      exact ⟨List.mem_append_right _ (List.mem_cons_of_mem _ hrest), hdot⟩

/-- What the check of a public name leaves open. -/
private theorem isDnsName_iff {name : String} (h : validatePublicName name = .ok ()) :
    IsDnsName name ↔ WellPlaced name.toList := by
  obtain ⟨hne, hlen, hdot, hchars⟩ := validatePublicName_eq_ok.mp h
  have hlabels := wellPlaced_labels name.toList
  constructor
  · intro hname
    refine (hlabels.mpr fun label hlabel => ?_).2
    have hl := hname.labels label hlabel
    exact ⟨hl.pos, hl.short, hl.first, hl.last⟩
  · intro hplaced
    refine ⟨?_, ?_, hlen⟩
    · obtain ⟨label, rest, heq, hlabel⟩ := List.eq_append_cons_of_mem hdot
      rw [heq, List.splitOn_append_cons_self_of_not_mem hlabel, List.length_cons]
      have hpos := List.length_pos_iff.mpr (List.splitOn_ne_nil '.' rest)
      omega
    · intro label hlabel
      obtain ⟨hpos, hshort, hfirst, hlast⟩ := hlabels.mp ⟨hne, hplaced⟩ label hlabel
      refine ⟨hpos, hshort, ?_, hfirst, hlast⟩
      intro c hc
      obtain ⟨hmem, hdot⟩ := mem_of_label hlabel c hc
      exact (hchars c hmem).imp_right fun hc => hc.resolve_left hdot

end Names

section Runs
variable {b64 : Base64} {env : Surroundings} {name : String}

/-- What a run has written when it ends, however it ends. -/
def printed (b64 : Base64) (env : Surroundings) (name : String) : Printed :=
  ((run b64 env name).run.run {}).2

private theorem join_singleton (pem : String) : String.join [pem] = pem := by
  simp

private theorem stdout_guidance (env : Surroundings) (lines : List String) (p : Printed) :
    ((lines.forM (writeln env)).run.run p).2.stdout = p.stdout := by
  induction lines generalizing p with
  | nil => rfl
  | cons line lines ih =>
    have hline : (writeln env line).run.run p = (match env.stderr p.stderr.length with
        | none => set { p with stderr := p.stderr ++ [line] }
        | some e => throw (.failed [e]) : Printing Unit).run.run p := rfl
    rw [List.forM]
    cases h : env.stderr p.stderr.length with
    | none =>
      rw [h] at hline
      rw [run_bind_ok hline, ih]
    | some e =>
      rw [h] at hline
      rw [run_bind_error hline]

/-- The part of a text that is written to stdout. -/
def written (env : Surroundings) (text : String) : Bytes :=
  match env.stdout with
  | none => utf8 text
  | some (n, _) => (utf8 text).take n

private theorem stdout_of_pem {keys : { key : Bytes // key.length ≤ 32 } × Bytes} {pem : String}
    (hname : validatePublicName name = .ok ()) (hkeys : env.keypair = .ok keys)
    (hpem : encodePairPem b64 keys.2 (generatedConfig env.randomByte keys.1 name) = .ok pem) :
    (printed b64 env name).stdout = written env pem := by
  rw [printed, run, hname, hkeys, written]
  simp only [orFail, orPanic, Except.mapError, run_lift_bind_ok, hpem]
  cases hwrite : env.stdout with
  | none =>
    have hdone : (writeAll env pem).run.run {} = (.ok (), ⟨utf8 pem, []⟩) := by
      rw [writeAll, hwrite]
      rfl
    rw [run_bind_ok hdone]
    cases encodeList [generatedConfig env.randomByte keys.1 name] with
    | error e => rfl
    | ok listBytes =>
      rw [run_lift_bind_ok, stdout_guidance]
  | some failure =>
    have hdone : (writeAll env pem).run.run {} =
        (.error (.failed ["writing ECH PEM bundle", failure.2]), ⟨(utf8 pem).take failure.1, []⟩) := by
      rw [writeAll, hwrite]
      rfl
    rw [run_bind_error hdone]

/-- The config that is generated for a checked name can be encoded. -/
private theorem encodePairPem_generated (b64 : Base64) {publicKey : Bytes} (hkey : publicKey.length ≤ 32)
    (hname : validatePublicName name = .ok ()) (id : UInt8) (privateKey : Bytes) :
    ∃ pem, encodePairPem b64 privateKey (generatedConfig id publicKey name) = .ok pem := by
  obtain ⟨-, hlen, -⟩ := validatePublicName_eq_ok.mp hname
  have hfits : (generatedConfig id publicKey name).Fits := by
    refine ⟨?_, by simp [generatedConfig], ?_⟩
    · simp only [generatedConfig]
      omega
    · simp only [generatedConfig]
      omega
  have htotal : ((generatedConfig id publicKey name).fields ++ vec16 []).length < 2 ^ 16 := by
    simp only [EchConfig.fields, generatedConfig, List.length_append, length_vec16, length_toBeBytes,
      length_suites, List.length_cons, List.length_nil]
    omega
  exact ⟨_, bind_eq_ok.mpr ⟨_, encode_eq_ok.mpr ⟨hfits, htotal, rfl⟩, pure_eq_ok.mpr rfl⟩⟩

/-- Nothing, or a bundle as far as it could be written. -/
private theorem stdout_printed (b64 : Base64) (env : Surroundings) (name : String) :
    (printed b64 env name).stdout = [] ∨ ∃ keys pem, validatePublicName name = .ok () ∧ env.keypair = .ok keys ∧
      encodePairPem b64 keys.2 (generatedConfig env.randomByte keys.1 name) = .ok pem ∧
      (printed b64 env name).stdout = written env pem := by
  cases hname : validatePublicName name with
  | error e =>
    rw [printed, run, hname]
    exact .inl rfl
  | ok _ =>
    cases hkeys : env.keypair with
    | error e =>
      rw [printed, run, hname, hkeys]
      exact .inl rfl
    | ok keys =>
      obtain ⟨pem, hpem⟩ := encodePairPem_generated b64 keys.1.2 hname env.randomByte keys.2
      exact .inr ⟨keys, pem, rfl, rfl, hpem, stdout_of_pem hname hkeys hpem⟩

/-- Whatever can be read from what a run wrote to stdout is a key whose config has
the name the run was given, and that name was checked. -/
private theorem publicName_printed (hb : b64.Standard) {pairs : List EchKeyPair}
    (h : parsePemBundle b64 (printed b64 env name).stdout = .ok pairs) :
    ∀ p ∈ pairs, validatePublicName name = .ok () ∧ p.config.publicName = name := by
  rcases stdout_printed b64 env name with hnone | ⟨keys, pem, hname, -, hpem, hout⟩
  · rw [hnone] at h
    cases h
    simp
  · obtain ⟨n, hn⟩ : ∃ n, written env pem = (utf8 pem).take n := by
      rw [written]
      split
      · exact ⟨_, List.take_length.symm⟩
      · exact ⟨_, rfl⟩
    have htake := @parsePemBundle_take b64 hb [⟨keys.2, generatedConfig env.randomByte keys.1 name⟩] [pem]
      (.cons hpem .nil) n
    rw [join_singleton, ← hn, ← hout, h] at htake
    rcases htake with ⟨e, ⟨⟩⟩ | ⟨k, hk⟩
    intro p hp
    rw [Except.ok.inj hk] at hp
    rw [List.mem_singleton.mp (List.mem_of_mem_take hp)]
    exact ⟨hname, rfl⟩

/-- A run whose writes succeed prints one key, with the given name. -/
theorem bundle_printed (hb : b64.Standard) {keys : { key : Bytes // key.length ≤ 32 } × Bytes}
    (hname : validatePublicName name = .ok ()) (hkeys : env.keypair = .ok keys) (hwrite : env.stdout = none) :
    parsePemBundle b64 (printed b64 env name).stdout =
      .ok [⟨keys.2, generatedConfig env.randomByte keys.1 name⟩] := by
  obtain ⟨pem, hpem⟩ := encodePairPem_generated b64 keys.1.2 hname env.randomByte keys.2
  rw [stdout_of_pem hname hkeys hpem, written, hwrite]
  have hparse := @parsePemBundle_pems b64 hb [⟨keys.2, generatedConfig env.randomByte keys.1 name⟩] [pem]
    (by simp [generatedConfig]) (.cons hpem .nil)
  rwa [join_singleton] at hparse

end Runs

/-- A name that passes the check is a DNS name if its dots and hyphens are well
placed, and so is the name in every config that is printed. -/
theorem publicName_isDnsName (name : String) :
    (validatePublicName name = .ok () → (IsDnsName name ↔ WellPlaced name.toList)) ∧
    ∀ b64 env pairs, b64.Standard → parsePemBundle b64 (printed b64 env name).stdout = .ok pairs →
      ∀ p ∈ pairs, (IsDnsName p.config.publicName ↔ WellPlaced name.toList) := by
  refine ⟨isDnsName_iff, ?_⟩
  intro b64 env pairs hb hparse p hp
  obtain ⟨hname, heq⟩ := publicName_printed hb hparse p hp
  rw [heq]
  exact isDnsName_iff hname

/-- A run in which nothing fails. -/
def smoothRun : Surroundings where
  keypair := .ok (⟨examplePublicKey, by decide⟩, exampleKey)
  randomByte := 7
  stdout := none
  stderr _ := none

theorem publicName_isDnsName_example :
    validatePublicName "public.example.com" = .ok () ∧ IsDnsName "public.example.com" ∧
    ∃ p, parsePemBundle rfc4648 (printed rfc4648 smoothRun "public.example.com").stdout = .ok [p] ∧
      IsDnsName p.config.publicName := by
  have hname : validatePublicName "public.example.com" = .ok () := by decide
  have hplaced : WellPlaced "public.example.com".toList := by
    have hfirst : "public.example.com".toList.head? = some 'p' := by decide
    have hlast : "public.example.com".toList.getLast? = some 'm' := by decide
    refine ⟨?_, ?_, by decide, ?_⟩
    · rw [hfirst]
      simp
    · rw [hlast]
      simp
    · intro run hrun _
      exact hrun.length_le.trans (by decide)
  have hprinted := @bundle_printed rfc4648 smoothRun _ rfc4648_standard _ hname rfl rfl
  obtain ⟨hchecked, hemitted⟩ := publicName_isDnsName "public.example.com"
  exact ⟨hname, (hchecked hname).mpr hplaced, _, hprinted,
    (hemitted _ _ _ rfc4648_standard hprinted _ List.mem_cons_self).mpr hplaced⟩

/-- A name with an empty label passes the check and is printed in a config. -/
theorem empty_label_printed :
    validatePublicName "a..b" = .ok () ∧ ¬ IsDnsName "a..b" ∧
    ∃ p, parsePemBundle rfc4648 (printed rfc4648 smoothRun "a..b").stdout = .ok [p] ∧
      p.config.publicName = "a..b" := by
  have hname : validatePublicName "a..b" = .ok () := by decide
  refine ⟨hname, ?_, _, bundle_printed rfc4648_standard hname rfl rfl, rfl⟩
  intro h
  exact absurd (h.labels [] (by decide)).pos (by decide)

end ZeroMasque.Ech
