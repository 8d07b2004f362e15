import ZeroMasque.Ech.Pem

/-! Half-written key bundles. A bundle that breaks off anywhere is rejected, or
read as the first few of its pairs. -/
namespace ZeroMasque.Ech
open Foundation

/-- An error, or the first few of the expected entries. -/
def FailsOrTakes {ε α : Type} (x : Except ε (List α)) (expected : List α) : Prop :=
  (∃ e, x = .error e) ∨ ∃ k, x = .ok (expected.take k)

private theorem FailsOrTakes.cons {ε α : Type} {x : Except ε (List α)} {expected : List α}
    (h : FailsOrTakes x expected) (a : α) : FailsOrTakes (x.map (a :: ·)) (a :: expected) := by
  rcases h with ⟨e, rfl⟩ | ⟨k, rfl⟩
  · exact .inl ⟨e, rfl⟩
  · exact .inr ⟨k + 1, rfl⟩

section Blocks
variable {b64 : Base64}

private theorem parseLines_append_congr {ls ls' : List (List Char)}
    (h : ∀ mode, parseLines b64 mode ls = parseLines b64 mode ls') (full : List (List Char))
    (mode : Option (String × List Char)) :
    parseLines b64 mode (full ++ ls) = parseLines b64 mode (full ++ ls') := by
  induction full generalizing mode with
  | nil => exact h mode
  | cons line full ih => exact parseLines_congr rfl ih mode

/-- A text that breaks off inside a line. -/
private theorem parseLines_broken {full : List (List Char)} {part : List Char}
    (hfull : ∀ row ∈ full, '\n' ∉ row) (hpart : '\n' ∉ part) :
    parseLines b64 none (lines (unlines full ++ part)) = parseLines b64 none (full ++ [part]) := by
  rw [parseLines_unlines hfull]
  refine parseLines_append_congr (fun mode => ?_) full none
  rw [lines_last hpart]
  split
  · rename_i hnil
    subst hnil
    exact (parseLines_blank rfl [] mode).symm
  · rfl

/-- A single line outside a block completes none. -/
private theorem parseLines_single (line : List Char) (expected : List PemBlock) :
    FailsOrTakes (parseLines b64 none [line]) expected := by
  rw [parseLines]
  split
  · exact .inr ⟨0, rfl⟩
  · split
    · exact .inl ⟨_, rfl⟩
    · exact .inl ⟨_, rfl⟩

/-- Without its end marker a block is not complete. -/
private theorem parseLines_unfinished {label : String} {line : List Char} (h : trim line ≠ endMarker label)
    (text : List Char) : ∃ e, parseLines b64 (some (label, text)) [line] = .error e := by
  simp only [parseLines, h, if_false]
  split
  · exact ⟨_, rfl⟩
  · exact ⟨_, rfl⟩

private theorem concat_eq_append_cons {xs full mid : List (List Char)} {e row : List Char}
    (h : xs ++ [e] = full ++ row :: mid) : (full = xs ∧ row = e) ∨ ∃ rest, xs = full ++ row :: rest := by
  rcases List.eq_nil_or_concat mid with rfl | ⟨mid, m, rfl⟩
  · obtain ⟨hxs, he⟩ := List.append_inj' h rfl
    exact .inl ⟨hxs.symm, (List.singleton_inj.mp he).symm⟩
  · rw [List.concat_eq_append, ← List.cons_append, ← List.append_assoc] at h
    exact .inr ⟨mid, (List.append_inj' h rfl).1⟩

/-- A block that breaks off in one of its lines. -/
private theorem parseLines_cut (hb : b64.Standard) {block : PemBlock} {full mid : List (List Char)}
    {row part : List Char} (hrows : block.rows b64 = full ++ row :: mid) (hpart : part <+: row)
    (blocks : List PemBlock) : FailsOrTakes (parseLines b64 none (full ++ [part])) (block :: blocks) := by
  cases full with
  | nil => exact parseLines_single part _
  | cons line full =>
    rw [PemBlock.rows, List.cons_append] at hrows
    obtain ⟨rfl, hlines⟩ := List.cons.inj hrows
    have hchunks := base64_of_chunks hb block.body
    rw [List.cons_append, parseLines_begin]
    rcases concat_eq_append_cons hlines with ⟨rfl, rfl⟩ | ⟨rest, hbody⟩
    · -- The cut is in the end marker, so the body is complete.
      rw [parseLines_body hchunks, List.nil_append, flatten_chunks (by omega)]
      by_cases htrim : trim part = endMarker block.label
      · refine .inr ⟨1, ?_⟩
        simp only [parseLines, htrim, if_true, hb.decode_encode]
        rfl
      · exact .inl (parseLines_unfinished htrim _)
    · -- The cut is in the body, where no line looks like an end marker.
      rw [hbody] at hchunks
      have hrow := (hchunks row (by simp)).2
      have hbase : ∀ c ∈ part, isBase64 c := fun c hc => hrow c (hpart.subset hc)
      rw [parseLines_body fun r hr => hchunks r (List.mem_append_left _ hr)]
      refine .inl (parseLines_unfinished ?_ _)
      rw [trim_base64 hbase]
      exact base64_ne_endMarker hbase block.label

/-- A bundle that breaks off yields no block but its own first ones. -/
private theorem parseLines_truncated (hb : b64.Standard) {blocks : List PemBlock} {full more : List (List Char)}
    {part : List Char} (hrows : blocks.flatMap (PemBlock.rows b64) = full ++ more)
    (hpart : part <+: more.headD []) : FailsOrTakes (parseLines b64 none (full ++ [part])) blocks := by
  induction blocks generalizing full with
  | nil =>
    obtain ⟨rfl, rfl⟩ := List.append_eq_nil_iff.mp hrows.symm
    exact parseLines_single part []
  | cons block blocks ih =>
    rw [List.flatMap_cons] at hrows
    rcases List.append_eq_append_iff.mp hrows with ⟨rest, rfl, hrest⟩ | ⟨rest, hblock, rfl⟩
    · rw [List.append_assoc, parseLines_block hb]
      exact (ih hrest).cons block
    · cases rest with
      | nil =>
        rw [List.append_nil] at hblock
        rw [← hblock, parseLines_block hb]
        exact (ih (List.nil_append _).symm).cons block
      | cons row rest => exact parseLines_cut hb hblock hpart blocks

end Blocks

private theorem pairBlocks_truncated {pairs : List EchKeyPair} {blocks : List PemBlock} (h : Rendered pairs blocks)
    (k : Nat) : FailsOrTakes (pairBlocks (blocks.take k)) pairs := by
  induction h generalizing k with
  | nil =>
    rw [List.take_nil]
    exact .inr ⟨0, rfl⟩
  | @cons pair pairs body blocks hbody _ ih =>
    match k with
    | 0 => exact .inr ⟨0, rfl⟩
    | 1 => exact .inl ⟨_, rfl⟩
    | k + 2 =>
      simp only [List.take_succ_cons, pairBlocks, if_true, ne_eq, not_true_eq_false, if_false]
      split
      · exact .inl ⟨_, rfl⟩
      · rename_i config hconfig
        rw [decode_encode_unique hbody hconfig]
        exact (ih k).cons pair

private theorem ascii_bundle {b64 : Base64} (hb : b64.Standard) {blocks : List PemBlock} (h : Labelled blocks) :
    ∀ c ∈ bundleText b64 blocks, c.toNat < 128 := by
  intro c hc
  obtain ⟨row, hrow, hc⟩ := List.mem_flatMap.mp hc
  rcases List.mem_append.mp hc with hc | hc
  · have hprintable := (h.printable hb row hrow c hc).2
    omega
  · rw [List.mem_singleton.mp hc]
    decide

theorem parsePemBundle_take {b64 : Base64} (hb : b64.Standard) {pairs : List EchKeyPair} {pems : List String}
    (h : List.Forall₂ (fun p pem => encodePairPem b64 p.privateKey p.config = .ok pem) pairs pems) (n : Nat) :
    FailsOrTakes (parsePemBundle b64 ((utf8 (String.join pems)).take n)) pairs := by
  obtain ⟨blocks, hrendered, htext⟩ := rendered_of_pems h
  obtain ⟨full, more, part, hrows, hcut, hpart⟩ := take_unlines (blocks.flatMap (PemBlock.rows b64)) n
  have hnewline := hrendered.labelled.newline hb
  rw [hrows] at hnewline
  have hpartline : '\n' ∉ part := by
    cases more with
    | nil => simp [List.prefix_nil.mp hpart]
    | cons row more => exact fun hmem => hnewline row (by simp) (hpart.subset hmem)
  have hbytes : (utf8 (String.join pems)).take n = utf8 (String.ofList (unlines full ++ part)) := by
    rw [← String.ofList_toList (s := String.join pems), htext, utf8_take (ascii_bundle hb hrendered.labelled),
      bundleText, hcut]
  have hparse : parsePemBundle b64 ((utf8 (String.join pems)).take n) =
      parseLines b64 none (full ++ [part]) >>= pairBlocks := by
    rw [hbytes, parsePemBundle_text,
      parseLines_broken (fun r hr => hnewline r (List.mem_append_left _ hr)) hpartline]
  rw [hparse]
  rcases parseLines_truncated hb hrows hpart with ⟨e, he⟩ | ⟨k, hk⟩
  · exact .inl ⟨e, by rw [he]; rfl⟩
  · rw [hk]
    exact pairBlocks_truncated hrendered k

/-- Every beginning of a bundle is rejected, or read as its first few pairs. -/
theorem truncated_bundle {b64 : Base64} (hb : b64.Standard) {pairs : List EchKeyPair} {pems : List String}
    (h : List.Forall₂ (fun p pem => encodePairPem b64 p.privateKey p.config = .ok pem) pairs pems) (n : Nat) :
    (∃ e, parsePemBundle b64 ((utf8 (String.join pems)).take n) = .error e) ∨
      ∃ k, parsePemBundle b64 ((utf8 (String.join pems)).take n) = .ok (pairs.take k) :=
  parsePemBundle_take hb h n

/-- A bundle of one pair, cut anywhere. -/
theorem truncated_bundle_one_pair :
    ∃ pem, encodePairPem rfc4648 [1, 2, 3] (sampleConfig 7) = .ok pem ∧
      ∀ n, (∃ e, parsePemBundle rfc4648 ((utf8 (String.join [pem])).take n) = .error e) ∨
        ∃ k, parsePemBundle rfc4648 ((utf8 (String.join [pem])).take n) =
          .ok (([⟨[1, 2, 3], sampleConfig 7⟩] : List EchKeyPair).take k) := by
  obtain ⟨pem, hpem⟩ := encodePairPem_sampleConfig rfc4648 [1, 2, 3] 7
  exact ⟨pem, hpem, fun n => truncated_bundle rfc4648_standard (.cons hpem .nil) n⟩

end ZeroMasque.Ech
