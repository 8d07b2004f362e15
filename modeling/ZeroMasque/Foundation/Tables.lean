import Mathlib.Data.List.AList

/-! Finite tables with one value a key, in the operations a hash map offers.
The table is Mathlib's association list; only its pointwise reading is used. -/
namespace ZeroMasque.Foundation

abbrev Table (K V : Type) := AList (fun _ : K => V)

namespace Table
variable {K V W : Type} [DecidableEq K]

theorem lookup_insert_ite (m : Table K V) (a k : K) (b : V) :
    (m.insert a b).lookup k = if k = a then some b else m.lookup k := by
  split
  · rename_i h
    subst h
    exact AList.lookup_insert m
  · rename_i h
    exact AList.lookup_insert_ne h

theorem lookup_erase_ite (m : Table K V) (a k : K) :
    (m.erase a).lookup k = if k = a then none else m.lookup k := by
  split
  · rename_i h
    subst h
    exact AList.lookup_erase k m
  · rename_i h
    exact AList.lookup_erase_ne h

theorem mem_entries_iff (m : Table K V) (k : K) (v : V) :
    (⟨k, v⟩ : Sigma fun _ : K => V) ∈ m.entries ↔ m.lookup k = some v :=
  AList.mem_lookup_iff.symm

/-- Keep the entries the predicate accepts. -/
def retain (p : K → V → Bool) (m : Table K V) : Table K V :=
  ⟨m.entries.filter (fun e => p e.1 e.2), m.nodupKeys.sublist List.filter_sublist⟩

theorem lookup_retain (p : K → V → Bool) (m : Table K V) (k : K) :
    (retain p m).lookup k = (m.lookup k).filter (p k) := by
  ext v
  change v ∈ (retain p m).lookup k ↔ _
  rw [AList.mem_lookup_iff, Option.filter_eq_some_iff, ← mem_entries_iff]
  simp [retain]

/-- Rewrite every value in place. -/
def mapValues (f : K → V → W) (m : Table K V) : Table K W :=
  ⟨m.entries.map (fun e => ⟨e.1, f e.1 e.2⟩),
    @List.NodupKeys.map₂ K (fun _ => V) (fun _ => W) f m.entries m.nodupKeys⟩

theorem lookup_mapValues (f : K → V → W) (m : Table K V) (k : K) :
    (mapValues f m).lookup k = (m.lookup k).map (f k) :=
  List.dlookup_map₂ (γ := fun _ : K => V) (δ := fun _ : K => W) (f := f) k

/-- Rewrite the value of one key, if it has one. -/
def modify (a : K) (f : V → V) (m : Table K V) : Table K V :=
  match m.lookup a with
  | some v => m.insert a (f v)
  | none => m

theorem lookup_modify (m : Table K V) (a k : K) (f : V → V) :
    (modify a f m).lookup k = if k = a then (m.lookup k).map f else m.lookup k := by
  cases h : m.lookup a with
  | some v =>
    simp only [modify, h, lookup_insert_ite]
    split
    · rename_i hk
      rw [hk, h]
      rfl
    · rfl
  | none =>
    simp only [modify, h]
    split
    · rename_i hk
      rw [hk, h]
      rfl
    · rfl

/-- Remove a list of keys, one after the other. -/
def eraseAll (ks : List K) (m : Table K V) : Table K V := ks.foldl (fun m k => m.erase k) m

theorem lookup_eraseAll (ks : List K) (m : Table K V) (k : K) :
    (eraseAll ks m).lookup k = if k ∈ ks then none else m.lookup k := by
  induction ks generalizing m with
  | nil => simp [eraseAll]
  | cons a ks ih =>
    have he : eraseAll (a :: ks) m = eraseAll ks (m.erase a) := rfl
    rw [he, ih, lookup_erase_ite]
    by_cases hk : k ∈ ks <;> by_cases ha : k = a <;> simp [hk, ha]

end Table
end ZeroMasque.Foundation
