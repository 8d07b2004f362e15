import Mathlib.Data.List.Forall2

/-! Readers that consume a list from its front and stop at the first error. -/
namespace ZeroMasque.Foundation
variable {β ε α γ : Type}

abbrev Reader (β ε α : Type) := StateT (List β) (Except ε) α

/-- The reader returns a value and leaves the rest of its input. -/
def Reads (p : Reader β ε α) (bs : List β) (a : α) (rest : List β) : Prop := p.run bs = .ok (a, rest)

namespace Reader

/-- The next n entries. -/
def take (n : Nat) (e : ε) : Reader β ε (List β) := fun bs =>
  if bs.length < n then .error e else .ok (bs.take n, bs.drop n)

/-- Go on only under a condition. -/
def require (p : Prop) [Decidable p] (e : ε) : Reader β ε Unit := if p then pure () else throw e

/-- Go on with a value that may be missing. -/
def expect (a : Option α) (e : ε) : Reader β ε α :=
  match a with
  | some a => pure a
  | none => throw e

/-- Read inside a window, whose own rest is dropped. -/
def inside (window : List β) (p : Reader β ε α) : Reader β ε α := fun bs =>
  (p.run window).map fun done => (done.1, bs)

/-- Read until nothing is left; every read counts against the fuel. -/
def untilEmpty (p : Reader β ε α) (stuck : ε) : Nat → List β → Except ε (List α)
  | _, [] => .ok []
  | 0, _ :: _ => .error stuck
  | n + 1, b :: bs => do
    let (a, rest) ← p.run (b :: bs)
    return a :: (← untilEmpty p stuck n rest)

end Reader

theorem reads_pure {a x : α} {bs rest : List β} :
    Reads (pure a : Reader β ε α) bs x rest ↔ x = a ∧ bs = rest := by
  simp only [Reads, StateT.run_pure]
  constructor
  · rintro ⟨⟩
    exact ⟨rfl, rfl⟩
  · rintro ⟨rfl, rfl⟩
    rfl

theorem reads_bind {p : Reader β ε α} {f : α → Reader β ε γ} {bs rest : List β} {c : γ} :
    Reads (p >>= f) bs c rest ↔ ∃ a mid, Reads p bs a mid ∧ Reads (f a) mid c rest := by
  simp only [Reads, StateT.run_bind]
  cases hp : p.run bs with
  | error e =>
    constructor
    · nofun
    · rintro ⟨a, mid, ⟨⟩, -⟩
  | ok done =>
    constructor
    · exact fun h => ⟨done.1, done.2, rfl, h⟩
    · rintro ⟨a, mid, ⟨⟩, h⟩
      exact h

theorem reads_take {n : Nat} {e : ε} {bs xs rest : List β} :
    Reads (Reader.take n e) bs xs rest ↔ bs = xs ++ rest ∧ xs.length = n := by
  simp only [Reads, Reader.take, StateT.run]
  split
  · rename_i hshort
    constructor
    · nofun
    · rintro ⟨rfl, rfl⟩
      rw [List.length_append] at hshort
      omega
  · rename_i hlong
    constructor
    · rintro ⟨⟩
      refine ⟨(List.take_append_drop n bs).symm, ?_⟩
      rw [List.length_take]
      omega
    · rintro ⟨rfl, rfl⟩
      rw [List.take_left, List.drop_left]

theorem reads_require {p : Prop} [Decidable p] {e : ε} {bs rest : List β} {u : Unit} :
    Reads (Reader.require p e) bs u rest ↔ p ∧ bs = rest := by
  simp only [Reader.require]
  split
  · rename_i h
    simp [reads_pure, h]
  · rename_i h
    simp only [h, false_and, iff_false]
    nofun

theorem reads_expect {a : Option α} {e : ε} {bs rest : List β} {x : α} :
    Reads (Reader.expect a e) bs x rest ↔ a = some x ∧ bs = rest := by
  cases a with
  | some a => simp [Reader.expect, reads_pure, eq_comm]
  | none =>
    simp only [reduceCtorEq, false_and, iff_false]
    nofun

/-- A computation that reads nothing. -/
theorem reads_lift {x : Except ε α} {bs rest : List β} {a : α} :
    Reads (liftM x : Reader β ε α) bs a rest ↔ x = .ok a ∧ bs = rest := by
  cases x with
  | error e =>
    constructor
    · nofun
    · rintro ⟨⟨⟩, -⟩
  | ok x =>
    constructor
    · rintro ⟨⟩
      exact ⟨rfl, rfl⟩
    · rintro ⟨⟨⟩, rfl⟩
      rfl

theorem reads_inside {window : List β} {p : Reader β ε α} {bs rest : List β} {a : α} :
    Reads (Reader.inside window p) bs a rest ↔ (∃ more, Reads p window a more) ∧ bs = rest := by
  simp only [Reads, Reader.inside, StateT.run]
  cases hp : p window with
  | error e =>
    constructor
    · nofun
    · rintro ⟨⟨more, ⟨⟩⟩, -⟩
  | ok done =>
    constructor
    · rintro ⟨⟩
      exact ⟨⟨done.2, rfl⟩, rfl⟩
    · rintro ⟨⟨more, ⟨⟩⟩, rfl⟩
      rfl

namespace Reader

private theorem untilEmpty_succ {p : Reader β ε α} {stuck : ε} {n : Nat} {bs : List β} (hne : bs ≠ [])
    {as : List α} : untilEmpty p stuck (n + 1) bs = .ok as ↔
      ∃ a rest as', Reads p bs a rest ∧ untilEmpty p stuck n rest = .ok as' ∧ as = a :: as' := by
  obtain ⟨b, bs, rfl⟩ := List.exists_cons_of_ne_nil hne
  simp only [untilEmpty, Reads]
  cases hp : p.run (b :: bs) with
  | error e =>
    constructor
    · nofun
    · rintro ⟨a, rest, as', ⟨⟩, -⟩
  | ok done =>
    cases hu : untilEmpty p stuck n done.2 with
    | error e =>
      constructor
      · intro h
        simp [bind, Except.bind, hu] at h
      · rintro ⟨a, rest, as', ⟨⟩, h, -⟩
        rw [hu] at h
        cases h
    | ok as' =>
      constructor
      · intro h
        simp only [bind, Except.bind, hu, pure, Except.pure, Except.ok.injEq] at h
        exact ⟨done.1, done.2, as', rfl, hu, h.symm⟩
      · rintro ⟨a, rest, as', ⟨⟩, h, rfl⟩
        simp [bind, Except.bind, pure, Except.pure, h]

/-- Reading until nothing is left takes the input apart into the words it was
put together from, given fuel for each. -/
theorem untilEmpty_flatten {p : Reader β ε α} {stuck : ε} {as : List α} {words : List (List β)}
    (h : List.Forall₂ (fun a w => w ≠ [] ∧ ∀ rest, Reads p (w ++ rest) a rest) as words) {fuel : Nat}
    (hfuel : as.length ≤ fuel) : untilEmpty p stuck fuel words.flatten = .ok as := by
  induction h generalizing fuel with
  | nil => cases fuel <;> rfl
  | @cons a w as words hword _ ih =>
    obtain ⟨n, rfl⟩ := Nat.exists_eq_add_of_le' (Nat.le_trans (Nat.le_add_left 1 _) hfuel)
    rw [List.flatten_cons, untilEmpty_succ (by simp [hword.1])]
    exact ⟨a, words.flatten, as, hword.2 _, ih (Nat.le_of_succ_le_succ hfuel), rfl⟩

/-- If every value read was spelled by its word, so was the whole input. -/
theorem flatMap_of_untilEmpty {p : Reader β ε α} {stuck : ε} {word : α → List β}
    (hword : ∀ bs a rest, Reads p bs a rest → bs = word a ++ rest) {fuel : Nat} {bs : List β}
    {as : List α} (h : untilEmpty p stuck fuel bs = .ok as) : bs = as.flatMap word := by
  induction fuel generalizing bs as with
  | zero =>
    cases bs with
    | nil =>
      cases h
      rfl
    | cons b bs => cases h
  | succ n ih =>
    by_cases hne : bs = []
    · subst hne
      cases h
      rfl
    · obtain ⟨a, rest, as', hread, hrest, rfl⟩ := (untilEmpty_succ hne).mp h
      rw [hword bs a rest hread, ih hrest, List.flatMap_cons]

end Reader
end ZeroMasque.Foundation
