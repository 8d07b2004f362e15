import Mathlib.Algebra.Order.Group.Multiset
import ZeroMasque.Foundation.Traces

/-! Occurrence bags of what a trace tells, and the conservation law of a run:
what comes out and what is in stock never exceeds what went in. -/
namespace ZeroMasque.Foundation
variable {σ ι ε β γ κ : Type}

/-- Everything a reading finds in a trace, with repetitions. -/
def bag (g : ε → Option β) (tr : List ε) : Multiset β := tr.filterMap g

section Bag
variable (g : ε → Option β)

@[simp] theorem bag_nil : bag g [] = 0 := rfl

@[simp] theorem bag_append (tr es : List ε) : bag g (tr ++ es) = bag g tr + bag g es := by
  simp [bag]

@[simp] theorem bag_cons (e : ε) (tr : List ε) : bag g (e :: tr) = (g e).elim 0 ({·}) + bag g tr := by
  cases h : g e <;> simp [bag, h, ← Multiset.cons_coe]

theorem mem_bag {g : ε → Option β} {b : β} {tr : List ε} : b ∈ bag g tr ↔ ∃ e ∈ tr, g e = some b := by
  simp [bag]

theorem bag_eq_zero {g : ε → Option β} {tr : List ε} (h : ∀ e ∈ tr, g e = none) : bag g tr = 0 := by
  rw [bag, List.filterMap_eq_nil_iff.mpr h]
  rfl

theorem bag_map (k : β → γ) (tr : List ε) : (bag g tr).map k = bag (fun e => (g e).map k) tr := by
  simp [bag, List.map_filterMap]

theorem bag_filterMap {α : Type} (m : α → Option ε) (tr : List α) :
    bag g (tr.filterMap m) = bag (fun e => (m e).bind g) tr := by
  rw [bag, List.filterMap_filterMap]
  rfl

theorem bag_of_map {α : Type} (k : α → ε) (tr : List α) : bag g (tr.map k) = bag (fun e => g (k e)) tr := by
  rw [bag, List.filterMap_map]
  rfl

theorem bag_filter_le (p : ε → Bool) (tr : List ε) : bag g (tr.filter p) ≤ bag g tr :=
  Multiset.coe_le.mpr ((List.filter_sublist.filterMap g).subperm)

/-- A reading that finds everything another one finds has the larger bag. -/
theorem bag_le_bag {g g' : ε → Option β} {tr : List ε} (h : ∀ e ∈ tr, ∀ b, g e = some b → g' e = some b) :
    bag g tr ≤ bag g' tr := by
  induction tr with
  | nil => exact le_refl _
  | cons e tr ih =>
    rw [bag_cons, bag_cons]
    refine add_le_add ?_ (ih fun e' he' => h e' (List.mem_cons_of_mem _ he'))
    cases hg : g e with
    | none => exact Multiset.zero_le _
    | some b => rw [h e List.mem_cons_self b hg]

/-- Taking one entry out of a list takes what it tells out of the bag. -/
theorem bag_erase [BEq ε] [LawfulBEq ε] {e : ε} {tr : List ε} (h : e ∈ tr) :
    bag g [e] + bag g (tr.erase e) = bag g tr := by
  rw [← bag_append]
  exact Multiset.coe_eq_coe.mpr ((List.perm_cons_erase h).symm.filterMap g)

end Bag

/-- The part of a keyed reading that belongs to one key. -/
def keyed [DecidableEq κ] (g : ε → Option (κ × β)) (k : κ) (e : ε) : Option β :=
  (g e).bind fun x => if x.1 = k then some x.2 else none

theorem keyed_eq_some [DecidableEq κ] {g : ε → Option (κ × β)} {k : κ} {e : ε} {b : β} :
    keyed g k e = some b ↔ g e = some (k, b) := by
  cases h : g e <;> simp [keyed, h, Prod.ext_iff]

theorem filterMap_keyed [DecidableEq κ] (g : ε → Option (κ × β)) (k : κ) (es : List ε) :
    es.filterMap (keyed g k) = (es.filterMap g).filterMap fun x => if x.1 = k then some x.2 else none := by
  rw [List.filterMap_filterMap]
  rfl

private theorem count_keyed [DecidableEq κ] [DecidableEq β] (g : ε → Option (κ × β)) (k : κ) (b : β)
    (tr : List ε) : (bag (keyed g k) tr).count b = (bag g tr).count (k, b) := by
  induction tr with
  | nil => rfl
  | cons e tr ih =>
    rw [bag_cons, bag_cons, Multiset.count_add, Multiset.count_add, ih]
    congr 1
    cases h : g e with
    | none => simp [keyed, h]
    | some x =>
      obtain ⟨k', b'⟩ := x
      by_cases hk : k' = k
      · simp [keyed, h, hk, Multiset.count_singleton]
      · simp [keyed, h, hk, Ne.symm hk]

/-- Bags compare as soon as they compare key by key. -/
theorem bag_le_of_keyed [DecidableEq κ] [DecidableEq β] {ε' : Type} {g : ε → Option (κ × β)}
    {g' : ε' → Option (κ × β)} {tr : List ε} {tr' : List ε'}
    (h : ∀ k, bag (keyed g k) tr ≤ bag (keyed g' k) tr') : bag g tr ≤ bag g' tr' := by
  rw [Multiset.le_iff_count]
  rintro ⟨k, b⟩
  rw [← count_keyed, ← count_keyed]
  exact Multiset.count_le_of_le b (h k)

/-- One step of the conservation law. -/
theorem balance {out out' into into' stock stock' : Multiset β} (h : out + stock ≤ into)
    (hs : out' + stock' ≤ stock + into') : out + out' + stock' ≤ into + into' := by
  calc out + out' + stock' = out + (out' + stock') := add_assoc ..
    _ ≤ out + (stock + into') := by gcongr
    _ = out + stock + into' := (add_assoc ..).symm
    _ ≤ into + into' := by gcongr

/-- If no step puts out more than it takes in and from the stock, no run does. -/
theorem Run.balanced {step : σ → ι → Option (σ × List ε)} {ok : List ε → σ → ι → Prop} {start : σ}
    {out into : ε → Option β} (stock : σ → Multiset β) (h0 : stock start = 0)
    (hstep : ∀ tr s i s' es, Run step ok start tr s → ok tr s i → step s i = some (s', es) →
      bag out es + stock s' ≤ stock s + bag into es)
    {tr : List ε} {s : σ} (h : Run step ok start tr s) : bag out tr + stock s ≤ bag into tr := by
  refine Run.invariant (P := fun tr s => bag out tr + stock s ≤ bag into tr) ?_ ?_ h
  · simp [h0]
  · intro tr s i s' es hr ih hok hs
    rw [bag_append, bag_append]
    exact balance ih (hstep tr s i s' es hr hok hs)

end ZeroMasque.Foundation
