import Mathlib.Data.List.Basic

/-! Cutting a word into pieces of one size, and the words that such a cut recovers. -/
namespace ZeroMasque.Foundation
variable {α : Type}

/-- Consecutive pieces of size g; the last one may be shorter. -/
def chunks (g : Nat) (l : List α) : List (List α) :=
  if g = 0 ∨ l = [] then [] else l.take g :: chunks g (l.drop g)
termination_by l.length
decreasing_by
  rename_i h
  have := List.length_pos_of_ne_nil (not_or.mp h).2
  rw [List.length_drop]
  omega

theorem chunks_nil (g : Nat) : chunks g ([] : List α) = [] := by
  rw [chunks]
  simp

theorem chunks_cons {g : Nat} (hg : 0 < g) {l : List α} (hl : l ≠ []) :
    chunks g l = l.take g :: chunks g (l.drop g) := by
  rw [chunks, if_neg]
  simp [hl]
  omega

theorem flatten_chunks {g : Nat} (hg : 0 < g) (l : List α) : (chunks g l).flatten = l := by
  induction l using chunks.induct g with
  | case1 l h =>
    rcases h with rfl | rfl
    · omega
    · simp [chunks_nil]
  | case2 l h ih =>
    rw [chunks_cons hg (not_or.mp h).2, List.flatten_cons, ih, List.take_append_drop]

theorem nil_not_mem_chunks {g : Nat} (hg : 0 < g) (l : List α) : [] ∉ chunks g l := by
  induction l using chunks.induct g with
  | case1 l h =>
    rcases h with rfl | rfl
    · omega
    · simp [chunks_nil]
  | case2 l h ih =>
    have hl := List.length_pos_of_ne_nil (not_or.mp h).2
    rw [chunks_cons hg (not_or.mp h).2]
    intro hm
    rcases List.mem_cons.mp hm with he | hm
    · have hz := congrArg List.length he
      rw [List.length_take, List.length_nil] at hz
      omega
    · exact ih hm

/-- Every word has length g, except the last, which may be shorter. -/
def Segmented (g : Nat) : List (List α) → Prop
  | [] => True
  | [d] => d.length ≤ g
  | d :: e :: ds => d.length = g ∧ Segmented g (e :: ds)

instance (g : Nat) : DecidablePred (Segmented (α := α) g) := by
  intro ds
  induction ds with
  | nil => exact .isTrue trivial
  | cons d ds ih =>
    cases ds with
    | nil => exact inferInstanceAs (Decidable (d.length ≤ g))
    | cons e ds => exact inferInstanceAs (Decidable (d.length = g ∧ Segmented g (e :: ds)))

theorem Segmented.length_le {g : Nat} {ds : List (List α)} (hs : Segmented g ds) :
    ∀ d ∈ ds, d.length ≤ g := by
  induction ds with
  | nil => simp
  | cons d ds ih =>
    cases ds with
    | nil =>
      intro x hx
      rw [List.mem_singleton.mp hx]
      exact hs
    | cons e ds =>
      intro x hx
      rcases List.mem_cons.mp hx with rfl | hx
      · exact Nat.le_of_eq hs.1
      · exact ih hs.2 x hx

/-- With a last word of full length all words have that length. -/
theorem Segmented.length_eq {g : Nat} {ds : List (List α)} (hs : Segmented g ds)
    (hlast : ∀ d ∈ ds.getLast?, g ≤ d.length) : ∀ d ∈ ds, d.length = g := by
  induction ds with
  | nil => simp
  | cons d ds ih =>
    cases ds with
    | nil =>
      intro x hx
      rw [List.mem_singleton.mp hx]
      exact Nat.le_antisymm hs (hlast d rfl)
    | cons e ds =>
      intro x hx
      rcases List.mem_cons.mp hx with rfl | hx
      · exact hs.1
      · exact ih hs.2 (fun y hy => hlast y (by rwa [List.getLast?_cons_cons])) x hx

theorem segmented_replicate (n g : Nat) (a : α) :
    Segmented g (List.replicate n (List.replicate g a)) := by
  induction n with
  | zero => trivial
  | succ n ih =>
    cases n with
    | zero => exact Nat.le_of_eq List.length_replicate
    | succ n => exact ⟨List.length_replicate, ih⟩

theorem length_flatten_replicate (n g : Nat) (a : α) :
    (List.replicate n (List.replicate g a)).flatten.length = n * g := by
  induction n with
  | zero => simp
  | succ n ih =>
    rw [List.replicate_succ, List.flatten_cons, List.length_append, ih, List.length_replicate,
      Nat.succ_mul, Nat.add_comm]

/-- A segmented run with a nonempty last word is recovered from its concatenation. -/
theorem chunks_flatten {g : Nat} (hg : 0 < g) {ds : List (List α)} (hs : Segmented g ds)
    (hlast : ∀ d ∈ ds.getLast?, d ≠ []) : chunks g ds.flatten = ds := by
  induction ds with
  | nil => simp [chunks_nil]
  | cons d ds ih =>
    cases ds with
    | nil =>
      have hd : d ≠ [] := hlast d (by simp)
      have hle : d.length ≤ g := hs
      have ht : d.take g = d := List.take_of_length_le hle
      have hr : d.drop g = [] := List.drop_eq_nil_of_le hle
      simp only [List.flatten_cons, List.flatten_nil, List.append_nil]
      rw [chunks_cons hg hd, ht, hr, chunks_nil]
    | cons e ds =>
      obtain ⟨hd, hrest⟩ := hs
      have hne : (d :: e :: ds).flatten ≠ [] := by
        intro h
        have hz := congrArg List.length h
        simp only [List.flatten_cons, List.length_append, List.length_nil] at hz
        omega
      have hi := ih hrest (by
        intro x hx
        exact hlast x (by simpa [List.getLast?_cons_cons] using hx))
      have ht : (d :: e :: ds).flatten.take g = d := by
        rw [List.flatten_cons, List.take_left' hd]
      have hr : (d :: e :: ds).flatten.drop g = (e :: ds).flatten := by
        rw [List.flatten_cons, List.drop_left' hd]
      rw [chunks_cons hg hne, ht, hr, hi]

end ZeroMasque.Foundation
