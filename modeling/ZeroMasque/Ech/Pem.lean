import Mathlib.Data.Bool.AllAny
import ZeroMasque.Ech.Config
import ZeroMasque.Foundation.Base64
import ZeroMasque.Foundation.Segments

/-! ECH key bundles: an `ECH PRIVATE KEY` block followed by an `ECH CONFIG` block,
any number of times. -/
namespace ZeroMasque.Ech
open Foundation

def pemLabelKey : String := "ECH PRIVATE KEY"

def pemLabelConfig : String := "ECH CONFIG"

structure EchKeyPair where
  privateKey : Bytes
  config : EchConfig
  deriving DecidableEq

structure PemBlock where
  label : String
  body : Bytes
  deriving DecidableEq

section Parsing

def beginWord : List Char := "-----BEGIN ".toList

def endWord : List Char := "-----END ".toList

def dashes : List Char := "-----".toList

/-- The label of a trimmed line that begins a block. -/
def beginLabel (trimmed : List Char) : Option String :=
  (beginWord.isPrefixOf? trimmed).bind fun rest => (dashes.isSuffixOf? rest).map String.ofList

def endMarker (label : String) : List Char := endWord ++ label.toList ++ dashes

/-- Both loops of `parse_pem_blocks` over the remaining lines. Inside a block the
inner loop carries the label and the base64 collected so far. -/
def parseLines (b64 : Base64) : Option (String × List Char) → List (List Char) → Except Chain (List PemBlock)
  | none, [] => .ok []
  | none, line :: lines =>
    let trimmed := trim line
    if trimmed = [] then parseLines b64 none lines
    else
      match beginLabel trimmed with
      | none => .error ["expected PEM `-----BEGIN ...-----`, got: " ++ String.ofList trimmed]
      | some label => parseLines b64 (some (label, [])) lines
  | some (label, _), [] => .error ["missing PEM end marker for label `" ++ label ++ "`"]
  | some (label, text), inner :: lines =>
    let t := trim inner
    if t = endMarker label then
      match b64.decodeVec text with
      | .error e => .error ["invalid base64 in PEM block `" ++ label ++ "`: " ++ e]
      | .ok body => (parseLines b64 none lines).map (⟨label, body⟩ :: ·)
    else if t = [] then parseLines b64 (some (label, text)) lines
    else parseLines b64 (some (label, text ++ t)) lines

def parsePemBlocks (b64 : Base64) (bytes : Bytes) : Except Chain (List PemBlock) :=
  match fromUtf8 bytes with
  | none => .error ["PEM file is not valid UTF-8"]
  | some text => parseLines b64 none (lines text.toList)

/-- The pairing loop of `parse_pem_bundle`. -/
def pairBlocks : List PemBlock → Except Chain (List EchKeyPair)
  | [] => .ok []
  | first :: blocks =>
    if first.label = pemLabelKey then
      match blocks with
      | [] => .error ["missing `" ++ pemLabelConfig ++ "` block after `" ++ pemLabelKey ++ "`"]
      | configBlock :: blocks =>
        if configBlock.label ≠ pemLabelConfig then
          .error ["expected `" ++ pemLabelConfig ++ "` after `" ++ pemLabelKey ++ "`, found `" ++
            configBlock.label ++ "`"]
        else
          match EchConfig.decode configBlock.body with
          | .error e => .error ["decoding `ECH CONFIG`", e]
          | .ok config => (pairBlocks blocks).map (⟨first.body, config⟩ :: ·)
    else if first.label = pemLabelConfig then
      .error ["expected `" ++ pemLabelKey ++ "` block before `" ++ pemLabelConfig ++ "`"]
    else .error ["unexpected PEM label `" ++ first.label ++ "`"]

def parsePemBundle (b64 : Base64) (bytes : Bytes) : Except Chain (List EchKeyPair) :=
  parsePemBlocks b64 bytes >>= pairBlocks

end Parsing

section Writing

def writePemBlock (b64 : Base64) (label : String) (body : Bytes) : List Char :=
  beginWord ++ label.toList ++ dashes ++ ['\n'] ++
    (chunks 64 (b64.encodeString body)).flatMap (· ++ ['\n']) ++
    endWord ++ label.toList ++ dashes ++ ['\n']

/-- A key pair as two blocks, or the message of the panic in `encode`. -/
def encodePairPem (b64 : Base64) (privateKey : Bytes) (config : EchConfig) : Except String String := do
  let body ← config.encode
  return String.ofList (writePemBlock b64 pemLabelKey privateKey ++ writePemBlock b64 pemLabelConfig body)

end Writing

section Lines
variable {b64 : Base64}

/-- Only the trimmed text of a line matters. -/
theorem parseLines_congr {line line' : List Char} {ls ls' : List (List Char)} (htrim : trim line = trim line')
    (hrest : ∀ mode, parseLines b64 mode ls = parseLines b64 mode ls') (mode : Option (String × List Char)) :
    parseLines b64 mode (line :: ls) = parseLines b64 mode (line' :: ls') := by
  cases mode with
  | none => simp only [parseLines, htrim, hrest]
  | some block => simp only [parseLines, htrim, hrest]

private theorem endMarker_ne_nil (label : String) : endMarker label ≠ [] := by
  have hword : endWord ≠ [] := by decide
  simp [endMarker, hword]

/-- Blank lines are skipped, in a block or outside. -/
theorem parseLines_blank {line : List Char} (hblank : trim line = []) (ls : List (List Char))
    (mode : Option (String × List Char)) : parseLines b64 mode (line :: ls) = parseLines b64 mode ls := by
  cases mode with
  | none => simp only [parseLines, hblank, if_true]
  | some block => simp only [parseLines, hblank, (endMarker_ne_nil block.1).symm, if_false, if_true]

/-- Lines joined by line feeds are read as they were. -/
theorem parseLines_unlines {rows : List (List Char)} (hrows : ∀ row ∈ rows, '\n' ∉ row) (text : List Char)
    (mode : Option (String × List Char)) :
    parseLines b64 mode (lines (unlines rows ++ text)) = parseLines b64 mode (rows ++ lines text) := by
  rw [lines_unlines hrows]
  clear hrows
  induction rows generalizing mode with
  | nil => rfl
  | cons row rows ih => exact parseLines_congr (trim_dropCr row) ih mode

end Lines

section Rows
variable {b64 : Base64}

/-- The lines of a written block. -/
def PemBlock.rows (b64 : Base64) (block : PemBlock) : List (List Char) :=
  (beginWord ++ block.label.toList ++ dashes) ::
    (chunks 64 (b64.encodeString block.body) ++ [endMarker block.label])

private theorem writePemBlock_eq (label : String) (body : Bytes) :
    writePemBlock b64 label body = unlines (PemBlock.rows b64 ⟨label, body⟩) := by
  simp only [writePemBlock, PemBlock.rows, endMarker, unlines, List.flatMap_cons, List.flatMap_append,
    List.flatMap_nil, List.append_assoc, List.append_nil]

private theorem not_isWhitespace {c : Char} (h : isBase64 c) : ¬ isWhitespace c := by
  obtain ⟨hlow, hhigh, -⟩ := isBase64_range h
  simp only [isWhitespace, Bool.or_eq_true, Bool.and_eq_true, decide_eq_true_eq, beq_iff_eq]
  omega

theorem trim_base64 {row : List Char} (hrow : ∀ c ∈ row, isBase64 c) : trim row = row :=
  stripWhile_eq_self (fun c hc => not_isWhitespace (hrow c (List.mem_of_head? hc)))
    (fun c hc => not_isWhitespace (hrow c (List.mem_of_getLast? hc)))

private theorem trim_marker {word : List Char} (hword : word.head? = some '-') (label : List Char) :
    trim (word ++ label ++ dashes) = word ++ label ++ dashes := by
  apply stripWhile_eq_self
  · intro c hc
    rw [List.append_assoc, List.head?_append, hword] at hc
    cases hc
    decide
  · intro c hc
    have hlast : dashes.getLast? = some '-' := by decide
    rw [List.getLast?_append, hlast] at hc
    cases hc
    decide

private theorem trim_endMarker (label : String) : trim (endMarker label) = endMarker label := trim_marker (by decide) _

private theorem beginLabel_begin (label : String) : beginLabel (beginWord ++ label.toList ++ dashes) = some label := by
  have hhead : beginWord.isPrefixOf? (beginWord ++ label.toList ++ dashes) = some (label.toList ++ dashes) :=
    List.isPrefixOf?_eq_some_iff_append_eq.mpr (List.append_assoc _ _ _).symm
  have htail : dashes.isSuffixOf? (label.toList ++ dashes) = some label.toList :=
    List.isSuffixOf?_eq_some_iff_append_eq.mpr rfl
  rw [beginLabel, hhead, Option.bind_some, htail, Option.map_some, String.ofList_toList]

/-- A line of base64 ends no block. -/
theorem base64_ne_endMarker {row : List Char} (hrow : ∀ c ∈ row, isBase64 c) (label : String) :
    row ≠ endMarker label := by
  rintro rfl
  have hdash : '-' ∈ endMarker label := by
    have hmem : '-' ∈ dashes := by decide
    exact List.mem_append_right _ hmem
  exact (isBase64_range (hrow '-' hdash)).2.2 rfl

theorem parseLines_begin (label : String) (ls : List (List Char)) :
    parseLines b64 none ((beginWord ++ label.toList ++ dashes) :: ls) = parseLines b64 (some (label, [])) ls := by
  have hne : beginWord ++ label.toList ++ dashes ≠ [] := by
    have hword : beginWord ≠ [] := by decide
    simp [hword]
  simp only [parseLines, trim_marker (by decide : beginWord.head? = some '-'), hne, if_false, beginLabel_begin]

/-- The inner loop collects the lines of a body. -/
theorem parseLines_body {rows : List (List Char)} (hrows : ∀ row ∈ rows, row ≠ [] ∧ ∀ c ∈ row, isBase64 c)
    (label : String) (text : List Char) (ls : List (List Char)) :
    parseLines b64 (some (label, text)) (rows ++ ls) = parseLines b64 (some (label, text ++ rows.flatten)) ls := by
  induction rows generalizing text with
  | nil => simp
  | cons row rows ih =>
    obtain ⟨hne, hrow⟩ := hrows row List.mem_cons_self
    rw [List.cons_append, parseLines]
    simp only [trim_base64 hrow, base64_ne_endMarker hrow, hne, if_false]
    rw [ih fun r hr => hrows r (List.mem_cons_of_mem row hr), List.flatten_cons, List.append_assoc]

private theorem parseLines_end {label : String} {text : List Char} {body : Bytes}
    (hbody : b64.decodeVec text = .ok body) (ls : List (List Char)) :
    parseLines b64 (some (label, text)) (endMarker label :: ls) =
      (parseLines b64 none ls).map (⟨label, body⟩ :: ·) := by
  simp only [parseLines, trim_endMarker, if_true, hbody]

theorem base64_of_chunks (hb : b64.Standard) (body : Bytes) :
    ∀ row ∈ chunks 64 (b64.encodeString body), row ≠ [] ∧ ∀ c ∈ row, isBase64 c := by
  intro row hrow
  constructor
  · rintro rfl
    exact nil_not_mem_chunks (by omega) _ hrow
  · intro c hc
    apply hb.alphabet body
    rw [← flatten_chunks (by omega : 0 < 64) (b64.encodeString body)]
    exact List.mem_flatten_of_mem hrow hc

/-- A written block is read back, whatever follows it. -/
theorem parseLines_block (hb : b64.Standard) (block : PemBlock) (ls : List (List Char)) :
    parseLines b64 none (block.rows b64 ++ ls) = (parseLines b64 none ls).map (block :: ·) := by
  have hbody : b64.decodeVec (chunks 64 (b64.encodeString block.body)).flatten = .ok block.body := by
    rw [flatten_chunks (by omega), hb.decode_encode]
  rw [PemBlock.rows, List.cons_append, parseLines_begin, List.append_assoc,
    parseLines_body (base64_of_chunks hb block.body), List.nil_append, List.singleton_append, parseLines_end hbody]

end Rows

section Spacing
variable {b64 : Base64}

/-- Whitespace within a line. -/
def Blank (pad : List Char) : Prop := ∀ c ∈ pad, isWhitespace c ∧ c ≠ '\n'

def LineEnd (eol : List Char) : Prop := eol = ['\n'] ∨ eol = ['\r', '\n']

/-- The second text is the first with blank lines inserted, with whitespace at
either end of its lines, and with line ends of either kind. -/
inductive Respaced : List Char → List Char → Prop
  | last {pad : List Char} (hpad : Blank pad) : Respaced [] pad
  | blank {pad eol text text' : List Char} (hpad : Blank pad) (heol : LineEnd eol) (h : Respaced text text') :
      Respaced text (pad ++ eol ++ text')
  | line {row before after eol text text' : List Char} (hrow : '\n' ∉ row) (hbefore : Blank before)
      (hafter : Blank after) (heol : LineEnd eol) (h : Respaced text text') :
      Respaced (row ++ '\n' :: text) (before ++ row ++ after ++ eol ++ text')

private theorem Blank.newline {pad : List Char} (h : Blank pad) : '\n' ∉ pad := fun hmem => (h _ hmem).2 rfl

private theorem trim_pad {before after : List Char} (hbefore : Blank before) (hafter : Blank after)
    (row : List Char) : trim (before ++ row ++ after) = trim row :=
  stripWhile_pad (fun c hc => (hbefore c hc).1) (fun c hc => (hafter c hc).1) row

private theorem trim_blank {pad : List Char} (h : Blank pad) : trim pad = [] := by
  have hnil : Blank [] := by simp [Blank]
  simpa [trim, stripWhile] using trim_pad h hnil []

private theorem lines_lineEnd {row eol : List Char} (hrow : '\n' ∉ row) (heol : LineEnd eol) (text : List Char) :
    ∃ line, lines (row ++ eol ++ text) = line :: lines text ∧ trim line = trim row := by
  rcases heol with rfl | rfl
  · refine ⟨dropCr row, ?_, trim_dropCr row⟩
    rw [List.append_assoc, List.singleton_append, lines_row hrow]
  · have hnil : Blank [] := by simp [Blank]
    have hcr : Blank ['\r'] := by simp [Blank, isWhitespace]
    refine ⟨dropCr (row ++ ['\r']), ?_, ?_⟩
    · rw [← lines_row (by simp [hrow])]
      simp
    · rw [trim_dropCr]
      exact trim_pad hnil hcr row

private theorem parseLines_respaced {text text' : List Char} (h : Respaced text text')
    (mode : Option (String × List Char)) : parseLines b64 mode (lines text') = parseLines b64 mode (lines text) := by
  induction h generalizing mode with
  | @last pad hpad =>
    rw [lines_last hpad.newline]
    split
    · rfl
    · exact parseLines_blank (trim_blank hpad) [] mode
  | @blank pad eol text text' hpad heol _ ih =>
    obtain ⟨line, hlines, htrim⟩ := lines_lineEnd hpad.newline heol text'
    rw [hlines, parseLines_blank (by rw [htrim, trim_blank hpad]), ih]
  | @line row before after eol text text' hrow hbefore hafter heol _ ih =>
    have hpadded : '\n' ∉ before ++ row ++ after := by
      simp [hrow, hbefore.newline, hafter.newline]
    obtain ⟨line, hlines, htrim⟩ := lines_lineEnd hpadded heol text'
    rw [hlines, lines_row hrow]
    exact parseLines_congr (by rw [htrim, trim_pad hbefore hafter, trim_dropCr]) ih mode

private theorem respaced_refl {rows : List (List Char)} (hrows : ∀ row ∈ rows, '\n' ∉ row) :
    Respaced (unlines rows) (unlines rows) := by
  have hnil : Blank [] := by simp [Blank]
  induction rows with
  | nil => exact .last hnil
  | cons row rows ih =>
    have h := Respaced.line (hrows row List.mem_cons_self) hnil hnil (.inl rfl)
      (ih fun r hr => hrows r (List.mem_cons_of_mem row hr))
    simpa [unlines_cons] using h

end Spacing

section Bundles
variable {b64 : Base64}

/-- The blocks that a list of pairs is written as. -/
inductive Rendered : List EchKeyPair → List PemBlock → Prop
  | nil : Rendered [] []
  | cons {pair : EchKeyPair} {pairs : List EchKeyPair} {body : Bytes} {blocks : List PemBlock}
      (hbody : pair.config.encode = .ok body) (h : Rendered pairs blocks) :
      Rendered (pair :: pairs) (⟨pemLabelKey, pair.privateKey⟩ :: ⟨pemLabelConfig, body⟩ :: blocks)

/-- The text of a bundle. -/
def bundleText (b64 : Base64) (blocks : List PemBlock) : List Char := unlines (blocks.flatMap (PemBlock.rows b64))

theorem rendered_of_pems {pairs : List EchKeyPair} {pems : List String}
    (h : List.Forall₂ (fun p pem => encodePairPem b64 p.privateKey p.config = .ok pem) pairs pems) :
    ∃ blocks, Rendered pairs blocks ∧ (String.join pems).toList = bundleText b64 blocks := by
  induction h with
  | nil => exact ⟨[], .nil, by simp [bundleText, unlines]⟩
  | @cons pair pem pairs pems hpem _ ih =>
    obtain ⟨blocks, hrendered, htext⟩ := ih
    obtain ⟨body, hbody, hpem⟩ := bind_eq_ok.mp hpem
    rw [pure_eq_ok] at hpem
    subst hpem
    refine ⟨_, .cons hbody hrendered, ?_⟩
    rw [String.toList_join] at htext ⊢
    simp only [List.flatMap_cons, htext, String.toList_ofList, writePemBlock_eq, bundleText, unlines_append,
      List.append_assoc]

/-- The characters of a written line. -/
def Printable (c : Char) : Prop := 32 ≤ c.toNat ∧ c.toNat ≤ 126

instance : DecidablePred Printable := fun c => inferInstanceAs (Decidable (32 ≤ c.toNat ∧ c.toNat ≤ 126))

private theorem printable_rows (hb : b64.Standard) (block : PemBlock)
    (hlabel : ∀ c ∈ block.label.toList, Printable c) : ∀ row ∈ block.rows b64, ∀ c ∈ row, Printable c := by
  have hmarker {word : List Char} (hword : ∀ c ∈ word, Printable c) :
      ∀ c ∈ word ++ block.label.toList ++ dashes, Printable c := by
    intro c hc
    have hdashes : ∀ c ∈ dashes, Printable c := List.all_iff_forall_prop.mp (by decide)
    rcases List.mem_append.mp hc with hc | hc
    · exact (List.mem_append.mp hc).elim (hword c) (hlabel c)
    · exact hdashes c hc
  have hbegin : ∀ c ∈ beginWord, Printable c := List.all_iff_forall_prop.mp (by decide)
  have hend : ∀ c ∈ endWord, Printable c := List.all_iff_forall_prop.mp (by decide)
  intro row hrow c hc
  rw [PemBlock.rows, List.mem_cons, List.mem_append, List.mem_singleton] at hrow
  rcases hrow with rfl | hrow | rfl
  · exact hmarker hbegin c hc
  · obtain ⟨hlow, hhigh, -⟩ := isBase64_range ((base64_of_chunks hb block.body row hrow).2 c hc)
    exact ⟨by omega, by omega⟩
  · rw [endMarker] at hc
    exact hmarker hend c hc

/-- Every block is a key or a config. -/
def Labelled (blocks : List PemBlock) : Prop :=
  ∀ block ∈ blocks, block.label = pemLabelKey ∨ block.label = pemLabelConfig

theorem Rendered.labelled {pairs : List EchKeyPair} {blocks : List PemBlock} (h : Rendered pairs blocks) :
    Labelled blocks := by
  induction h with
  | nil => simp [Labelled]
  | cons hbody _ ih =>
    intro block hblock
    rcases List.mem_cons.mp hblock with rfl | hblock
    · exact .inl rfl
    · rcases List.mem_cons.mp hblock with rfl | hblock
      · exact .inr rfl
      · exact ih block hblock

theorem Labelled.printable (hb : b64.Standard) {blocks : List PemBlock} (h : Labelled blocks) :
    ∀ row ∈ blocks.flatMap (PemBlock.rows b64), ∀ c ∈ row, Printable c := by
  have hkey : ∀ c ∈ pemLabelKey.toList, Printable c := List.all_iff_forall_prop.mp (by decide)
  have hconfig : ∀ c ∈ pemLabelConfig.toList, Printable c := List.all_iff_forall_prop.mp (by decide)
  intro row hrow
  obtain ⟨block, hblock, hrow⟩ := List.mem_flatMap.mp hrow
  refine printable_rows hb block ?_ row hrow
  rcases h block hblock with hlabel | hlabel
  · rw [hlabel]
    exact hkey
  · rw [hlabel]
    exact hconfig

theorem Labelled.newline (hb : b64.Standard) {blocks : List PemBlock} (h : Labelled blocks) :
    ∀ row ∈ blocks.flatMap (PemBlock.rows b64), '\n' ∉ row := by
  intro row hrow hmem
  exact absurd (h.printable hb row hrow _ hmem).1 (by decide)

private theorem parseLines_bundle (hb : b64.Standard) (blocks : List PemBlock) :
    parseLines b64 none (blocks.flatMap (PemBlock.rows b64)) = .ok blocks := by
  induction blocks with
  | nil => rfl
  | cons block blocks ih =>
    rw [List.flatMap_cons, parseLines_block hb, ih]
    rfl

theorem parsePemBundle_text (text : List Char) :
    parsePemBundle b64 (utf8 (String.ofList text)) = parseLines b64 none (lines text) >>= pairBlocks := by
  rw [parsePemBundle, parsePemBlocks, fromUtf8_utf8]
  dsimp only
  rw [String.toList_ofList]

/-- A bundle is read as its blocks, however its text is spaced. -/
private theorem parsePemBundle_respaced (hb : b64.Standard) {blocks : List PemBlock} (h : Labelled blocks)
    {text : List Char} (hrespaced : Respaced (bundleText b64 blocks) text) :
    parsePemBundle b64 (utf8 (String.ofList text)) = pairBlocks blocks := by
  have hparsed : parseLines b64 none (lines text) = .ok blocks := by
    rw [parseLines_respaced hrespaced, bundleText, ← List.append_nil (unlines _), parseLines_unlines (h.newline hb)]
    exact (congrArg _ (List.append_nil _)).trans (parseLines_bundle hb blocks)
  rw [parsePemBundle_text, hparsed]
  rfl

theorem parsePemBundle_bundleText (hb : b64.Standard) {blocks : List PemBlock} (h : Labelled blocks) :
    parsePemBundle b64 (utf8 (String.ofList (bundleText b64 blocks))) = pairBlocks blocks :=
  parsePemBundle_respaced hb h (respaced_refl (h.newline hb))

theorem pairBlocks_rendered {pairs : List EchKeyPair} {blocks : List PemBlock} (h : Rendered pairs blocks)
    (hs : ∀ p ∈ pairs, p.config.cipherSuites ≠ []) : pairBlocks blocks = .ok pairs := by
  induction h with
  | nil => rfl
  | @cons pair pairs body blocks hbody _ ih =>
    have hconfig := decode_of_encode (hs pair List.mem_cons_self) hbody
    simp only [pairBlocks, if_true, ne_eq, not_true_eq_false, if_false, hconfig,
      ih fun p hp => hs p (List.mem_cons_of_mem pair hp)]
    rfl

theorem parsePemBundle_pems (hb : b64.Standard) {pairs : List EchKeyPair} {pems : List String}
    (hs : ∀ p ∈ pairs, p.config.cipherSuites ≠ [])
    (h : List.Forall₂ (fun p pem => encodePairPem b64 p.privateKey p.config = .ok pem) pairs pems) :
    parsePemBundle b64 (utf8 (String.join pems)) = .ok pairs := by
  obtain ⟨blocks, hrendered, htext⟩ := rendered_of_pems h
  rw [← String.ofList_toList (s := String.join pems), htext, parsePemBundle_bundleText hb hrendered.labelled,
    pairBlocks_rendered hrendered hs]

/-- Pairs that were written are read back, also after any respacing of the text. -/
theorem pem_roundTrip (hb : b64.Standard) {pairs : List EchKeyPair} {pems : List String}
    (hs : ∀ p ∈ pairs, p.config.cipherSuites ≠ [])
    (h : List.Forall₂ (fun p pem => encodePairPem b64 p.privateKey p.config = .ok pem) pairs pems) :
    parsePemBundle b64 (utf8 (String.join pems)) = .ok pairs ∧
    ∀ text, Respaced (String.join pems).toList text → parsePemBundle b64 (utf8 (String.ofList text)) = .ok pairs := by
  refine ⟨parsePemBundle_pems hb hs h, ?_⟩
  intro text hrespaced
  obtain ⟨blocks, hrendered, htext⟩ := rendered_of_pems h
  rw [htext] at hrespaced
  rw [parsePemBundle_respaced hb hrendered.labelled hrespaced, pairBlocks_rendered hrendered hs]

theorem encodePairPem_sampleConfig (b64 : Base64) (privateKey : Bytes) (id : UInt8) :
    ∃ pem, encodePairPem b64 privateKey (sampleConfig id) = .ok pem :=
  ⟨_, bind_eq_ok.mpr ⟨_, encode_sampleConfig id, pure_eq_ok.mpr rfl⟩⟩

/-- An empty private key, and the same text after a line with a blank and a
carriage return. -/
theorem pem_roundTrip_empty_key :
    ∃ pem, encodePairPem rfc4648 [] (sampleConfig 7) = .ok pem ∧
      parsePemBundle rfc4648 (utf8 (String.join [pem])) = .ok [⟨[], sampleConfig 7⟩] ∧
      parsePemBundle rfc4648 (utf8 (String.ofList ([' '] ++ ['\r', '\n'] ++ (String.join [pem]).toList))) =
        .ok [⟨[], sampleConfig 7⟩] := by
  obtain ⟨pem, hpem⟩ := encodePairPem_sampleConfig rfc4648 [] 7
  have hpems : List.Forall₂ (fun (p : EchKeyPair) pem => encodePairPem rfc4648 p.privateKey p.config = .ok pem)
      [⟨[], sampleConfig 7⟩] [pem] := .cons hpem .nil
  obtain ⟨hplain, hrespaced⟩ := pem_roundTrip rfc4648_standard (by decide) hpems
  refine ⟨pem, hpem, hplain, hrespaced _ (.blank (by simp [Blank, isWhitespace]) (.inr rfl) ?_)⟩
  obtain ⟨blocks, hrendered, htext⟩ := rendered_of_pems hpems
  rw [htext]
  exact respaced_refl (hrendered.labelled.newline rfc4648_standard)

end Bundles

end ZeroMasque.Ech
