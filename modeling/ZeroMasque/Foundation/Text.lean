import Mathlib.Data.List.DropRight

/-! Cutting lists and text the way the Rust standard library does. -/
namespace ZeroMasque.Foundation

section Split
variable {α : Type} [DecidableEq α]

/-- `str::split_once`: what stands before and after the first occurrence. -/
def splitOnce (pat : List α) : List α → Option (List α × List α)
  | [] => if pat = [] then some ([], []) else none
  | x :: xs =>
    if pat.isPrefixOf (x :: xs) then some ([], (x :: xs).drop pat.length)
    else (splitOnce pat xs).map fun cut => (x :: cut.1, cut.2)

/-- `str::rsplit_once` at a single character. -/
def rsplitOnce (c : α) (xs : List α) : Option (List α × List α) :=
  (splitOnce [c] xs.reverse).map fun cut => (cut.2.reverse, cut.1.reverse)

/-- The first occurrence is where the first character is. -/
theorem splitOnce_append {c : α} {xs : List α} (h : c ∉ xs) (pat ys : List α) :
    splitOnce (c :: pat) (xs ++ (c :: pat) ++ ys) = some (xs, ys) := by
  induction xs with
  | nil =>
    have hpat : (c :: pat).isPrefixOf (c :: (pat ++ ys)) := List.isPrefixOf_iff_prefix.mpr ⟨ys, rfl⟩
    rw [List.nil_append, List.cons_append, splitOnce, if_pos hpat]
    simp
  | cons x xs ih =>
    obtain ⟨hx, hxs⟩ := not_or.mp (List.mem_cons.not.mp h)
    have hpat : ¬ (c :: pat).isPrefixOf (x :: (xs ++ (c :: pat) ++ ys)) := by
      simp [List.isPrefixOf, hx]
    rw [List.cons_append, List.cons_append, splitOnce, if_neg hpat, ih hxs]
    rfl

/-- Cutting at a character and cutting at the place where it is found agree. -/
theorem splitOnce_singleton (c : α) (xs : List α) :
    splitOnce [c] xs = (xs.findIdx? (· == c)).map fun i => (xs.take i, xs.drop (i + 1)) := by
  induction xs with
  | nil => rfl
  | cons x xs ih =>
    rw [splitOnce, ih, List.findIdx?_cons]
    by_cases hx : x = c
    · simp [hx]
    · simp [hx, Ne.symm hx, Function.comp_def]

theorem splitOnce_eq_none {c : α} {xs : List α} (h : c ∉ xs) : splitOnce [c] xs = none := by
  rw [splitOnce_singleton, List.findIdx?_eq_none_iff.mpr, Option.map_none]
  intro x hx
  exact beq_eq_false_iff_ne.mpr fun hxc => h (hxc ▸ hx)

/-- The last occurrence is where no other follows. -/
theorem rsplitOnce_append {c : α} {ys : List α} (h : c ∉ ys) (xs : List α) :
    rsplitOnce c (xs ++ c :: ys) = some (xs, ys) := by
  have hcut := splitOnce_append (List.mem_reverse.not.mpr h) [] xs.reverse
  rw [rsplitOnce, List.reverse_append, List.reverse_cons, hcut]
  simp

theorem rsplitOnce_eq_none {c : α} {xs : List α} (h : c ∉ xs) : rsplitOnce c xs = none := by
  rw [rsplitOnce, splitOnce_eq_none (List.mem_reverse.not.mpr h), Option.map_none]

private theorem splitOnce_map {β : Type} [DecidableEq β] {f : α → β} {c : α} (hf : ∀ x, f x = f c → x = c)
    (xs : List α) :
    splitOnce [f c] (xs.map f) = (splitOnce [c] xs).map fun cut => (cut.1.map f, cut.2.map f) := by
  induction xs with
  | nil => rfl
  | cons x xs ih =>
    rw [List.map_cons, splitOnce, splitOnce, ih]
    by_cases hx : x = c
    · subst hx
      simp [List.isPrefixOf]
    · have hfx : ¬ f c = f x := fun h => hx (hf x h.symm)
      have hxc : ¬ c = x := fun h => hx h.symm
      simp [List.isPrefixOf, hfx, hxc, Function.comp_def]

end Split

section Strip
variable {α : Type}

/-- Drop matching entries at both ends. -/
def stripWhile (p : α → Bool) (xs : List α) : List α := (xs.dropWhile p).rdropWhile p

/-- Padding of matching entries makes no difference. -/
theorem stripWhile_pad {p : α → Bool} {pre post : List α} (hpre : ∀ x ∈ pre, p x) (hpost : ∀ x ∈ post, p x)
    (xs : List α) : stripWhile p (pre ++ xs ++ post) = stripWhile p xs := by
  have hnil : post.dropWhile p = [] := List.dropWhile_eq_nil_iff.mpr hpost
  rw [stripWhile, stripWhile, List.append_assoc, List.dropWhile_append_of_pos hpre, List.dropWhile_append]
  split
  · rename_i hxs
    rw [hnil, List.isEmpty_iff.mp hxs]
  · rw [List.rdropWhile, List.reverse_append, List.dropWhile_append_of_pos (by simpa using hpost)]
    rfl

/-- Nothing is stripped between two entries that do not match. -/
theorem stripWhile_eq_self {p : α → Bool} {xs : List α} (hhead : ∀ x ∈ xs.head?, ¬ p x)
    (hlast : ∀ x ∈ xs.getLast?, ¬ p x) : stripWhile p xs = xs := by
  have hsame : xs.dropWhile p = xs := by
    cases xs with
    | nil => rfl
    | cons x xs => exact List.dropWhile_cons_of_neg (hhead x rfl)
  rw [stripWhile, hsame, List.rdropWhile_eq_self_iff]
  intro hne
  exact hlast _ (List.getLast_mem_getLast? hne)

end Strip

/-- `char::is_whitespace`: the characters with the property White_Space. -/
def isWhitespace (c : Char) : Bool :=
  let n := c.toNat
  (9 ≤ n && n ≤ 13) || n == 0x20 || n == 0x85 || n == 0xa0 || n == 0x1680 || (0x2000 ≤ n && n ≤ 0x200a) ||
    n == 0x2028 || n == 0x2029 || n == 0x202f || n == 0x205f || n == 0x3000

/-- `str::trim`. -/
def trim (line : List Char) : List Char := stripWhile isWhitespace line

section Lines

/-- A line end takes one carriage return with it. -/
def dropCr (line : List Char) : List Char := if line.getLast? = some '\r' then line.dropLast else line

/-- `str::lines`, inside a line that has begun. -/
def linesFrom (line : List Char) : List Char → List (List Char)
  | [] => if line = [] then [] else [line]
  | c :: text => if c = '\n' then dropCr line :: linesFrom [] text else linesFrom (line ++ [c]) text

/-- `str::lines`. -/
def lines (text : List Char) : List (List Char) := linesFrom [] text

/-- Lines joined again, each with its line end. -/
def unlines (rows : List (List Char)) : List Char := rows.flatMap (· ++ ['\n'])

theorem unlines_cons (row : List Char) (rows : List (List Char)) :
    unlines (row :: rows) = row ++ '\n' :: unlines rows := by
  simp [unlines]

theorem unlines_append (rows rows' : List (List Char)) : unlines (rows ++ rows') = unlines rows ++ unlines rows' :=
  List.flatMap_append

theorem trim_dropCr (line : List Char) : trim (dropCr line) = trim line := by
  rw [dropCr]
  split
  · rename_i h
    obtain ⟨init, rfl⟩ := List.getLast?_eq_some_iff.mp h
    rw [List.dropLast_concat]
    have hnone : ∀ c ∈ ([] : List Char), isWhitespace c := by simp
    have hcr : ∀ c ∈ ['\r'], isWhitespace c := List.forall_mem_singleton.mpr rfl
    exact (stripWhile_pad hnone hcr init).symm
  · rfl

private theorem linesFrom_row {row : List Char} (hrow : '\n' ∉ row) (line text : List Char) :
    linesFrom line (row ++ text) = linesFrom (line ++ row) text := by
  induction row generalizing line with
  | nil => simp
  | cons c row ih =>
    obtain ⟨hc, hrow⟩ := not_or.mp (List.mem_cons.not.mp hrow)
    rw [List.cons_append, linesFrom, if_neg (Ne.symm hc), ih hrow, List.append_assoc, List.singleton_append]

theorem lines_row {row : List Char} (hrow : '\n' ∉ row) (text : List Char) :
    lines (row ++ '\n' :: text) = dropCr row :: lines text := by
  rw [lines, linesFrom_row hrow, List.nil_append, linesFrom, if_pos rfl]
  rfl

theorem lines_last {row : List Char} (hrow : '\n' ∉ row) : lines row = if row = [] then [] else [row] := by
  have h := linesFrom_row hrow [] []
  rw [List.append_nil] at h
  rw [lines, h]
  rfl

theorem lines_unlines {rows : List (List Char)} (hrows : ∀ row ∈ rows, '\n' ∉ row) (text : List Char) :
    lines (unlines rows ++ text) = rows.map dropCr ++ lines text := by
  induction rows with
  | nil => rfl
  | cons row rows ih =>
    rw [unlines_cons, List.append_assoc, List.cons_append, lines_row (hrows row List.mem_cons_self),
      ih fun r hr => hrows r (List.mem_cons_of_mem row hr)]
    rfl

/-- A beginning of joined lines is some of the lines and a beginning of the next. -/
theorem take_unlines (rows : List (List Char)) (n : Nat) :
    ∃ full more part, rows = full ++ more ∧ (unlines rows).take n = unlines full ++ part ∧
      part <+: more.headD [] := by
  induction rows generalizing n with
  | nil => exact ⟨[], [], [], rfl, by simp [unlines], List.prefix_refl _⟩
  | cons row rows ih =>
    by_cases hn : n ≤ row.length
    · refine ⟨[], row :: rows, row.take n, rfl, ?_, List.take_prefix n row⟩
      rw [unlines_cons, List.take_append_of_le_length hn]
      rfl
    · obtain ⟨m, rfl⟩ : ∃ m, n = row.length + (m + 1) := ⟨n - row.length - 1, by omega⟩
      obtain ⟨full, more, part, hrows, htake, hpart⟩ := ih m
      refine ⟨row :: full, more, part, by rw [hrows]; rfl, ?_, hpart⟩
      rw [unlines_cons, List.take_length_add_append, List.take_succ_cons, htake, unlines_cons]
      simp

end Lines

/-- The formatting `{:0wx}`: lower-case hex digits, padded with zeros to a width. -/
def lowerHex (width n : Nat) : String := String.ofList ((Nat.toDigits 16 n).leftpad width '0')

/-- `str::to_ascii_lowercase`. -/
def toAsciiLowercase (s : String) : String := String.ofList (s.toList.map Char.toLower)

/-- `str::eq_ignore_ascii_case`. -/
def eqIgnoreAsciiCase (s t : String) : Bool := toAsciiLowercase s == toAsciiLowercase t

private theorem toLower_of_not_upper {c : Char} (h : c.isUpper = false) : c.toLower = c :=
  dif_neg (of_decide_eq_false h)

private theorem isLower_toLower {c : Char} (h : c.isUpper) : c.toLower.isLower := by
  have hupper := of_decide_eq_true h
  have hlow : c.toLower.val = c.val + 32 := by
    have hshift : c.toLower = _ := dif_pos hupper
    rw [hshift]
    rfl
  change (decide _ && decide _) = true
  rw [Bool.and_eq_true, decide_eq_true_iff, decide_eq_true_iff, hlow]
  simp only [ge_iff_le, UInt32.le_iff_toNat_le, UInt32.toNat_add, Char.reduceVal, UInt32.reduceToNat] at hupper ⊢
  omega

private theorem not_upper_of_lower {c : Char} (h : c.isLower) : c.isUpper = false := by
  obtain ⟨hlow, -⟩ := Bool.and_eq_true_iff.mp h
  have hlow := of_decide_eq_true hlow
  apply decide_eq_false
  simp only [ge_iff_le, UInt32.le_iff_toNat_le, Char.reduceVal, UInt32.reduceToNat] at hlow ⊢
  omega

/-- A character that is not a letter is the lower case of nothing else. -/
theorem eq_of_toLower {c x : Char} (hc : c.isAlpha = false) (h : x.toLower = c.toLower) : x = c := by
  obtain ⟨hupper, hlower⟩ := Bool.or_eq_false_iff.mp hc
  rw [toLower_of_not_upper hupper] at h
  cases hx : x.isUpper with
  | true =>
    have hlow := isLower_toLower hx
    rw [h, hlower] at hlow
    cases hlow
  | false => rwa [toLower_of_not_upper hx] at h

private theorem toLower_toLower (c : Char) : c.toLower.toLower = c.toLower := by
  cases hc : c.isUpper with
  | true => exact toLower_of_not_upper (not_upper_of_lower (isLower_toLower hc))
  | false => rw [toLower_of_not_upper hc, toLower_of_not_upper hc]

theorem toAsciiLowercase_idem (s : String) : toAsciiLowercase (toAsciiLowercase s) = toAsciiLowercase s := by
  rw [toAsciiLowercase, toAsciiLowercase, String.toList_ofList, List.map_map]
  congr 2
  funext c
  exact toLower_toLower c

private theorem eq_of_map_toLower {xs ys : List Char} (hys : ∀ c ∈ ys, c.isAlpha = false)
    (h : xs.map Char.toLower = ys.map Char.toLower) : xs = ys := by
  induction ys generalizing xs with
  | nil => exact List.map_eq_nil_iff.mp h
  | cons y ys ih =>
    obtain ⟨x, xs, rfl, hx, hxs⟩ := List.map_eq_cons_iff.mp h
    rw [eq_of_toLower (hys y List.mem_cons_self) hx, ih (fun c hc => hys c (List.mem_cons_of_mem y hc)) hxs]

/-- Text without letters has one spelling. -/
theorem eq_of_toAsciiLowercase {s t : String} (ht : ∀ c ∈ t.toList, c.isAlpha = false)
    (h : toAsciiLowercase s = toAsciiLowercase t) : s = t := by
  apply String.toList_injective
  exact eq_of_map_toLower ht (String.ofList_injective h)

/-- Cutting at a character that is not a letter does not depend on case. -/
theorem splitOnce_lower {c : Char} (hc : c.isAlpha = false) (xs : List Char) :
    splitOnce [c] (xs.map Char.toLower) =
      (splitOnce [c] xs).map fun cut => (cut.1.map Char.toLower, cut.2.map Char.toLower) := by
  have hsame : c.toLower = c := toLower_of_not_upper (Bool.or_eq_false_iff.mp hc).1
  have h := splitOnce_map (f := Char.toLower) (fun x => eq_of_toLower hc) xs
  rwa [hsame] at h

theorem rsplitOnce_lower {c : Char} (hc : c.isAlpha = false) (xs : List Char) :
    rsplitOnce c (xs.map Char.toLower) =
      (rsplitOnce c xs).map fun cut => (cut.1.map Char.toLower, cut.2.map Char.toLower) := by
  rw [rsplitOnce, rsplitOnce, ← List.map_reverse, splitOnce_lower hc]
  cases splitOnce [c] xs.reverse with
  | none => rfl
  | some cut => simp

end ZeroMasque.Foundation
