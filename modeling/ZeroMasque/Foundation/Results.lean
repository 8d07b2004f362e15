import Mathlib.Data.List.Forall2

/-! Computations that stop at their first error. -/
namespace ZeroMasque.Foundation
variable {ε α γ : Type}

/-- The messages of an error, outermost context first. -/
abbrev Chain := List String

def withContext (message : String) (x : Except Chain α) : Except Chain α := x.mapError (message :: ·)

/-- An error of the surroundings, seen from where it was met. -/
def context (message : String) (x : Except String α) : Except Chain α := x.mapError fun e => [message, e]

/-- How a program stops: with an error, or in a panic. -/
inductive Stop where
  | failed (chain : Chain)
  | panicked (message : String)

def orFail (x : Except Chain α) : Except Stop α := x.mapError .failed

def orPanic (x : Except String α) : Except Stop α := x.mapError .panicked

theorem mapError_eq_ok {ε' : Type} {f : ε → ε'} {x : Except ε α} {a : α} :
    x.mapError f = .ok a ↔ x = .ok a := by
  cases x <;> simp [Except.mapError]

theorem withContext_eq_ok {message : String} {x : Except Chain α} {a : α} :
    withContext message x = .ok a ↔ x = .ok a := mapError_eq_ok

theorem orFail_eq_ok {x : Except Chain α} {a : α} : orFail x = .ok a ↔ x = .ok a := mapError_eq_ok

theorem orPanic_eq_ok {x : Except String α} {a : α} : orPanic x = .ok a ↔ x = .ok a := mapError_eq_ok

theorem map_eq_ok {x : Except ε α} {f : α → γ} {c : γ} : x.map f = .ok c ↔ ∃ a, x = .ok a ∧ f a = c := by
  cases x <;> simp [Except.map]

theorem bind_eq_ok {x : Except ε α} {f : α → Except ε γ} {c : γ} :
    x >>= f = .ok c ↔ ∃ a, x = .ok a ∧ f a = .ok c := by
  cases x with
  | error e =>
    constructor
    · nofun
    · rintro ⟨a, ⟨⟩, -⟩
  | ok a =>
    constructor
    · exact fun h => ⟨a, rfl, h⟩
    · rintro ⟨a, ⟨⟩, h⟩
      exact h

theorem pure_eq_ok {a b : α} : (pure a : Except ε α) = .ok b ↔ b = a := by
  constructor
  · rintro ⟨⟩
    rfl
  · rintro rfl
    rfl

/-- A check that ends the computation. -/
theorem bail_eq_ok {p : Prop} [Decidable p] {e : ε} {k : γ → Except ε α} {x : Except ε α} {a : α} :
    (if p then throw e >>= k else x) = .ok a ↔ ¬ p ∧ x = .ok a := by
  split
  · rename_i hp
    simp only [hp, not_true_eq_false, false_and, iff_false]
    nofun
  · rename_i hp
    simp [hp]

theorem option_mapM_eq_ok {f : α → Except ε γ} {o : Option α} {c : Option γ} :
    o.mapM f = .ok c ↔ (o = none ∧ c = none) ∨ ∃ a b, o = some a ∧ f a = .ok b ∧ c = some b := by
  cases o with
  | none =>
    simp only [Option.mapM_none, pure_eq_ok, true_and, reduceCtorEq, false_and, exists_false, or_false]
  | some a =>
    simp only [Option.mapM_some, reduceCtorEq, false_and, false_or, Option.some.injEq]
    constructor
    · intro h
      obtain ⟨b, hb, rfl⟩ := map_eq_ok.mp h
      exact ⟨a, b, rfl, hb, rfl⟩
    · rintro ⟨a, b, rfl, hb, rfl⟩
      exact map_eq_ok.mpr ⟨b, hb, rfl⟩

/-- A loop that collects results succeeds if it does at every entry. -/
theorem mapM_eq_ok {f : α → Except ε γ} {as : List α} {cs : List γ} :
    as.mapM f = .ok cs ↔ List.Forall₂ (fun a c => f a = .ok c) as cs := by
  induction as generalizing cs with
  | nil =>
    rw [List.mapM_nil, List.forall₂_nil_left_iff]
    constructor
    · rintro ⟨⟩
      rfl
    · rintro rfl
      rfl
  | cons a as ih =>
    rw [List.mapM_cons, bind_eq_ok]
    simp only [bind_eq_ok, ih]
    constructor
    · rintro ⟨c, hc, cs, hcs, ⟨⟩⟩
      exact .cons hc hcs
    · rintro (_ | ⟨hc, hcs⟩)
      exact ⟨_, hc, _, hcs, rfl⟩

/-- Every collected result belongs to an entry. -/
theorem exists_of_mem_mapM {f : α → Except ε γ} {as : List α} {cs : List γ} (h : as.mapM f = .ok cs) {c : γ}
    (hc : c ∈ cs) : ∃ a ∈ as, f a = .ok c := by
  replace h := mapM_eq_ok.mp h
  induction h with
  | nil => cases hc
  | @cons a c' as cs ha _ ih =>
    rcases List.mem_cons.mp hc with rfl | hc
    · exact ⟨a, List.mem_cons_self, ha⟩
    · obtain ⟨a', ha', hfa⟩ := ih hc
      exact ⟨a', List.mem_cons_of_mem a ha', hfa⟩

/-- Every entry has its result collected. -/
theorem exists_mem_of_mapM {f : α → Except ε γ} {as : List α} {cs : List γ} (h : as.mapM f = .ok cs) {a : α}
    (ha : a ∈ as) : ∃ c ∈ cs, f a = .ok c := by
  replace h := mapM_eq_ok.mp h
  induction h with
  | nil => cases ha
  | @cons a' c as cs hc _ ih =>
    rcases List.mem_cons.mp ha with rfl | ha
    · exact ⟨c, List.mem_cons_self, hc⟩
    · obtain ⟨c', hc', hfa⟩ := ih ha
      exact ⟨c', List.mem_cons_of_mem c hc', hfa⟩

/-- A loop of checks succeeds if every check does. -/
theorem forM_eq_ok {f : α → Except ε Unit} {as : List α} : as.forM f = .ok () ↔ ∀ a ∈ as, f a = .ok () := by
  induction as with
  | nil => simp [List.forM, pure, Except.pure]
  | cons a as ih =>
    rw [List.forall_mem_cons, ← ih, List.forM, bind_eq_ok]
    exact ⟨fun ⟨_, ha, has⟩ => ⟨ha, has⟩, fun ⟨ha, has⟩ => ⟨(), ha, has⟩⟩

section Stateful
variable {σ : Type} {x : ExceptT ε (StateM σ) α} {f : α → ExceptT ε (StateM σ) γ} {s s' : σ}

theorem run_bind_ok {a : α} (h : x.run.run s = (.ok a, s')) : (x >>= f).run.run s = (f a).run.run s' := by
  rw [ExceptT.run_bind, StateT.run_bind, h]
  rfl

theorem run_bind_error {e : ε} (h : x.run.run s = (.error e, s')) : (x >>= f).run.run s = (.error e, s') := by
  rw [ExceptT.run_bind, StateT.run_bind, h]
  rfl

theorem run_lift_bind_ok (a : α) : ((liftM (.ok a : Except ε α) : ExceptT ε (StateM σ) α) >>= f).run.run s =
    (f a).run.run s := rfl

end Stateful

/-- The computation does not end in a panic. -/
def NoPanic (x : Except Stop α) : Prop := ∀ message, x ≠ .error (.panicked message)

theorem noPanic_ok (a : α) : NoPanic (.ok a) := nofun

theorem noPanic_orFail (x : Except Chain α) : NoPanic (orFail x) := by
  cases x <;> nofun

theorem NoPanic.bind {x : Except Stop α} {f : α → Except Stop γ} (hx : NoPanic x)
    (hf : ∀ a, x = .ok a → NoPanic (f a)) : NoPanic (x >>= f) := by
  cases x with
  | error stop => exact fun message h => hx message (congrArg Except.error (Except.error.inj h))
  | ok a => exact hf a rfl

end ZeroMasque.Foundation
