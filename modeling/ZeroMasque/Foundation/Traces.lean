import Mathlib.Data.List.Basic

/-! Runs of an event loop and the trace it leaves.
A step answers one input and may stop the whole run; a guard restricts which
inputs the surroundings may offer after a given history. -/
namespace ZeroMasque.Foundation
variable {σ ι ε : Type}

/-- Handle a list of inputs in order and collect what each handling emits. -/
def drive (f : σ → ι → σ × List ε) : σ → List ι → σ × List ε
  | s, [] => (s, [])
  | s, i :: is => ((drive f (f s i).1 is).1, (f s i).2 ++ (drive f (f s i).1 is).2)

@[simp] theorem drive_nil (f : σ → ι → σ × List ε) (s : σ) : drive f s [] = (s, []) := rfl

theorem drive_cons (f : σ → ι → σ × List ε) (s : σ) (i : ι) (is : List ι) :
    drive f s (i :: is) =
      ((drive f (f s i).1 is).1, (f s i).2 ++ (drive f (f s i).1 is).2) := rfl

@[simp] theorem drive_singleton (f : σ → ι → σ × List ε) (s : σ) (i : ι) : drive f s [i] = f s i := by
  rw [drive_cons, drive_nil, List.append_nil]

/-- What every handling keeps, relative to the trace so far, the whole burst keeps. -/
theorem drive_keeps {f : σ → ι → σ × List ε} {P : List ε → σ → Prop} (is : List ι)
    (hf : ∀ tr s, ∀ i ∈ is, P tr s → P (tr ++ (f s i).2) (f s i).1)
    {t : List ε} {s : σ} (h : P t s) : P (t ++ (drive f s is).2) (drive f s is).1 := by
  induction is generalizing t s with
  | nil => simpa using h
  | cons i is ih =>
    have h1 := hf t s i (List.mem_cons_self) h
    have h2 := ih (fun tr s j hj => hf tr s j (List.mem_cons_of_mem _ hj)) h1
    rw [drive_cons]
    simpa only [List.append_assoc] using h2

/-- Handle a list of inputs in order with a step that may fail. -/
def attempt (step : σ → ι → Option (σ × List ε)) : σ → List ι → Option (σ × List ε)
  | s, [] => some (s, [])
  | s, i :: is =>
    match step s i with
    | none => none
    | some (s', es) => (attempt step s' is).map fun done => (done.1, es ++ done.2)

theorem attempt_cons_eq_some {step : σ → ι → Option (σ × List ε)} {s : σ} {i : ι} {is : List ι}
    {result : σ × List ε} (h : attempt step s (i :: is) = some result) :
    ∃ s' es rest, step s i = some (s', es) ∧ attempt step s' is = some (result.1, rest) ∧
      result.2 = es ++ rest := by
  rw [attempt] at h
  split at h
  · cases h
  · rename_i s' es hs
    obtain ⟨done, hdone, rfl⟩ := Option.map_eq_some_iff.mp h
    exact ⟨s', es, done.2, hs, hdone, rfl⟩

theorem attempt_append {step : σ → ι → Option (σ × List ε)} {s s' s'' : σ} {is js : List ι} {es es' : List ε}
    (h : attempt step s is = some (s', es)) (h' : attempt step s' js = some (s'', es')) :
    attempt step s (is ++ js) = some (s'', es ++ es') := by
  induction is generalizing s es with
  | nil =>
    cases h
    exact h'
  | cons i is ih =>
    obtain ⟨s1, es1, rest, hs, hrest, he⟩ := attempt_cons_eq_some h
    have hes : es = es1 ++ rest := he
    rw [List.cons_append, attempt, hs, hes]
    simp [ih hrest]

theorem attempt_append_eq_some {step : σ → ι → Option (σ × List ε)} {s : σ} {is js : List ι}
    {result : σ × List ε} (h : attempt step s (is ++ js) = some result) :
    ∃ s' es rest, attempt step s is = some (s', es) ∧ attempt step s' js = some (result.1, rest) ∧
      result.2 = es ++ rest := by
  induction is generalizing s result with
  | nil => exact ⟨s, [], result.2, rfl, h, rfl⟩
  | cons i is ih =>
    obtain ⟨s1, es1, rest1, hs, hrest, he⟩ := attempt_cons_eq_some h
    obtain ⟨s', es, rest, his, hjs, heq⟩ := ih hrest
    refine ⟨s', es1 ++ es, rest, ?_, hjs, ?_⟩
    · rw [attempt, hs]
      simp [his]
    · rw [he, List.append_assoc, ← show rest1 = es ++ rest from heq]

/-- What every successful step keeps, a successful burst keeps. -/
theorem attempt_keeps {step : σ → ι → Option (σ × List ε)} {P : List ε → σ → Prop} (is : List ι)
    (hstep : ∀ tr s s' es, ∀ i ∈ is, P tr s → step s i = some (s', es) → P (tr ++ es) s')
    {t : List ε} {s : σ} {result : σ × List ε} (h : P t s)
    (hr : attempt step s is = some result) : P (t ++ result.2) result.1 := by
  induction is generalizing t s result with
  | nil =>
    cases hr
    simpa using h
  | cons i is ih =>
    obtain ⟨s', es, rest, hs, hrest, he⟩ := attempt_cons_eq_some hr
    have hnext := ih (fun tr s s' es j hj => hstep tr s s' es j (List.mem_cons_of_mem _ hj))
      (hstep t s s' es i List.mem_cons_self h hs) hrest
    rw [he, ← List.append_assoc]
    exact hnext

/-- The most recent answer a reading of the trace gives. -/
def latest {α β : Type} (g : α → Option β) (tr : List α) : Option β := tr.reverse.findSome? g

section Latest
variable {α β : Type} (g : α → Option β)

@[simp] theorem latest_nil : latest g [] = none := rfl

theorem latest_append (xs ys : List α) : latest g (xs ++ ys) = (latest g ys).or (latest g xs) := by
  rw [latest, List.reverse_append, List.findSome?_append]
  rfl

@[simp] theorem latest_singleton (x : α) : latest g [x] = g x := by
  cases h : g x <;> simp [latest, h]

theorem latest_cons (x : α) (xs : List α) : latest g (x :: xs) = (latest g xs).or (g x) := by
  rw [← List.singleton_append, latest_append, latest_singleton]

theorem latest_eq_none_iff (xs : List α) : latest g xs = none ↔ ∀ x ∈ xs, g x = none := by
  simp [latest, List.findSome?_eq_none_iff]

variable {g} in
theorem exists_of_latest {b : β} {xs : List α} (h : latest g xs = some b) : ∃ x ∈ xs, g x = some b := by
  obtain ⟨x, hx, hb⟩ := List.exists_of_findSome?_eq_some h
  exact ⟨x, List.mem_reverse.mp hx, hb⟩

variable {g} in
/-- A reading that can only give one answer gives it as soon as something is read. -/
theorem latest_eq_some {b : β} {xs : List α} (hb : ∀ x ∈ xs, ∀ b', g x = some b' → b' = b)
    {x : α} (hx : x ∈ xs) (hg : g x = some b) : latest g xs = some b := by
  cases h : latest g xs with
  | none =>
    rw [(latest_eq_none_iff g xs).mp h x hx] at hg
    cases hg
  | some b' =>
    obtain ⟨y, hy, hgy⟩ := exists_of_latest h
    rw [hb y hy b' hgy]

theorem latest_filterMap {ε : Type} (m : ε → Option α) (es : List ε) :
    latest g (es.filterMap m) = latest (fun e => (m e).bind g) es := by
  induction es with
  | nil => rfl
  | cons e es ih =>
    rw [latest_cons, ← ih]
    cases h : m e <;> simp [h, latest_cons]

end Latest

/-- Every entry of a trace is justified by what came before it. -/
def Throughout (P : List ε → ε → Prop) (tr : List ε) : Prop :=
  ∀ pre e post, tr = pre ++ e :: post → P pre e

theorem Throughout.nil (P : List ε → ε → Prop) : Throughout P [] := by
  intro pre e post h
  simp at h

theorem Throughout.snoc {P : List ε → ε → Prop} {tr : List ε} (h : Throughout P tr) {e : ε} (hnew : P tr e) :
    Throughout P (tr ++ [e]) := by
  intro pre e' post heq
  rcases List.eq_nil_or_concat post with rfl | ⟨post, last, rfl⟩
  · obtain ⟨rfl, he⟩ := List.append_inj' heq rfl
    cases he
    exact hnew
  · rw [List.concat_eq_append, ← List.cons_append, ← List.append_assoc] at heq
    exact h pre e' post (List.append_inj_left' heq rfl)

/-- New entries justified by the old trace extend it, if justification persists. -/
theorem Throughout.append {P : List ε → ε → Prop} (hmono : ∀ pre es e, P pre e → P (pre ++ es) e)
    {tr es : List ε} (h : Throughout P tr) (hnew : ∀ e ∈ es, P tr e) : Throughout P (tr ++ es) := by
  intro pre e post heq
  rcases List.append_eq_append_iff.mp heq with ⟨mid, hpre, hes⟩ | ⟨mid, htr, hpost⟩
  · rw [hpre]
    exact hmono tr mid e (hnew e (by simp [hes]))
  · cases mid with
    | nil =>
      rw [List.append_nil] at htr
      rw [List.nil_append] at hpost
      exact htr ▸ hnew e (hpost ▸ List.mem_cons_self)
    | cons e' mid =>
      cases hpost
      exact h pre e mid htr

/-- Runs from a start state, with everything emitted so far. -/
inductive Run (step : σ → ι → Option (σ × List ε)) (ok : List ε → σ → ι → Prop) (start : σ) :
    List ε → σ → Prop
  | init : Run step ok start [] start
  | next {tr : List ε} {s : σ} (i : ι) {s' : σ} {es : List ε} :
      Run step ok start tr s → ok tr s i → step s i = some (s', es) →
        Run step ok start (tr ++ es) s'

/-- Every input succeeds and is admitted when its turn comes. -/
def Permitted (step : σ → ι → Option (σ × List ε)) (ok : List ε → σ → ι → Prop) :
    List ε → σ → List ι → Prop
  | _, _, [] => True
  | tr, s, i :: is => ok tr s i ∧
    match step s i with
    | none => False
    | some (s', es) => Permitted step ok (tr ++ es) s' is

instance Permitted.decide (step : σ → ι → Option (σ × List ε)) (ok : List ε → σ → ι → Prop)
    [∀ tr s i, Decidable (ok tr s i)] :
    (tr : List ε) → (s : σ) → (is : List ι) → Decidable (Permitted step ok tr s is)
  | _, _, [] => .isTrue trivial
  | tr, s, i :: is =>
    match hs : step s i with
    | none => .isFalse (by simp [Permitted, hs])
    | some (s', es) =>
      have := Permitted.decide step ok (tr ++ es) s' is
      decidable_of_iff (ok tr s i ∧ Permitted step ok (tr ++ es) s' is) (by simp [Permitted, hs])

theorem Permitted.of_forall {step : σ → ι → Option (σ × List ε)} {ok : List ε → σ → ι → Prop}
    {is : List ι} (hok : ∀ i ∈ is, ∀ tr s, ok tr s i) (tr : List ε) {s : σ}
    (h : (attempt step s is).isSome) : Permitted step ok tr s is := by
  induction is generalizing tr s with
  | nil => trivial
  | cons i is ih =>
    obtain ⟨result, hresult⟩ := Option.isSome_iff_exists.mp h
    obtain ⟨s', es, rest, hs, hrest, -⟩ := attempt_cons_eq_some hresult
    rw [Permitted, hs]
    refine ⟨hok i List.mem_cons_self tr s, ih (fun j hj => hok j (List.mem_cons_of_mem _ hj)) _ ?_⟩
    rw [hrest]
    rfl

/-- The guard admits each of the inputs when its turn comes. -/
def Allowed (f : σ → ι → σ × List ε) (ok : List ε → σ → ι → Prop) : List ε → σ → List ι → Prop
  | _, _, [] => True
  | tr, s, i :: is => ok tr s i ∧ Allowed f ok (tr ++ (f s i).2) (f s i).1 is

theorem Allowed.of_forall {f : σ → ι → σ × List ε} {ok : List ε → σ → ι → Prop} {is : List ι}
    (h : ∀ i ∈ is, ∀ tr s, ok tr s i) (tr : List ε) (s : σ) : Allowed f ok tr s is := by
  induction is generalizing tr s with
  | nil => trivial
  | cons i is ih =>
    exact ⟨h i List.mem_cons_self tr s, ih (fun j hj => h j (List.mem_cons_of_mem _ hj)) _ _⟩

theorem Allowed.append {f : σ → ι → σ × List ε} {ok : List ε → σ → ι → Prop} {is js : List ι}
    {tr : List ε} {s : σ} (h : Allowed f ok tr s is)
    (h' : Allowed f ok (tr ++ (drive f s is).2) (drive f s is).1 js) : Allowed f ok tr s (is ++ js) := by
  induction is generalizing tr s with
  | nil => simpa using h'
  | cons i is ih =>
    refine ⟨h.1, ih h.2 ?_⟩
    rwa [drive_cons, ← List.append_assoc] at h'

namespace Run
variable {step : σ → ι → Option (σ × List ε)} {ok ok' : List ε → σ → ι → Prop} {start : σ}

/-- A property of trace and state that holds at the start and survives each
guarded step from a reachable state holds all along. -/
theorem invariant {P : List ε → σ → Prop} (h0 : P [] start)
    (hstep : ∀ tr s i s' es, Run step ok start tr s → P tr s → ok tr s i →
      step s i = some (s', es) → P (tr ++ es) s')
    {tr : List ε} {s : σ} (h : Run step ok start tr s) : P tr s := by
  induction h with
  | init => exact h0
  | next i hr hok hs ih => exact hstep _ _ i _ _ hr ih hok hs

/-- The rule for steps that always succeed. -/
theorem invariant_total {f : σ → ι → σ × List ε} {P : List ε → σ → Prop} (h0 : P [] start)
    (hstep : ∀ tr s i, P tr s → ok tr s i → P (tr ++ (f s i).2) (f s i).1)
    {tr : List ε} {s : σ} (h : Run (fun s i => some (f s i)) ok start tr s) : P tr s := by
  refine invariant h0 ?_ h
  intro tr s i s' es _ hP hok hs
  have hf : f s i = (s', es) := Option.some.inj hs
  have hnext := hstep tr s i hP hok
  rwa [hf] at hnext

theorem append_allowed {f : σ → ι → σ × List ε} {is : List ι} {tr : List ε} {s : σ}
    (hr : Run (fun s i => some (f s i)) ok start tr s) (ha : Allowed f ok tr s is) :
    Run (fun s i => some (f s i)) ok start (tr ++ (drive f s is).2) (drive f s is).1 := by
  induction is generalizing tr s with
  | nil => simpa using hr
  | cons i is ih =>
    rw [drive_cons, ← List.append_assoc]
    exact ih (.next i hr ha.1 rfl) ha.2

theorem append_permitted {is : List ι} {tr : List ε} {s : σ} {result : σ × List ε}
    (hr : Run step ok start tr s) (hp : Permitted step ok tr s is)
    (ha : attempt step s is = some result) : Run step ok start (tr ++ result.2) result.1 := by
  induction is generalizing tr s result with
  | nil =>
    cases ha
    simpa using hr
  | cons i is ih =>
    obtain ⟨s', es, rest, hs, hrest, he⟩ := attempt_cons_eq_some ha
    rw [Permitted, hs] at hp
    rw [he, ← List.append_assoc]
    exact ih (.next i hr hp.1 hs) hp.2 hrest

/-- A burst of admitted and successful inputs is a run. -/
theorem of_permitted (is : List ι) (hp : Permitted step ok [] start is)
    (h : (attempt step start is).isSome) :
    Run step ok start ((attempt step start is).get h).2 ((attempt step start is).get h).1 := by
  simpa using append_permitted .init hp (Option.some_get h).symm

/-- A run goes on with inputs that succeed and are always admitted. -/
theorem extend {tr : List ε} {s : σ} (hr : Run step ok start tr s) (is : List ι)
    (hok : ∀ i ∈ is, ∀ tr s, ok tr s i) (h : (attempt step s is).isSome) :
    Run step ok start (tr ++ ((attempt step s is).get h).2) ((attempt step s is).get h).1 :=
  hr.append_permitted (Permitted.of_forall hok tr h) (Option.some_get h).symm

/-- One run after the other, where the guard admits everything. -/
theorem trans (hok : ∀ tr s i, ok tr s i) {tr tr' : List ε} {s s' : σ} (h : Run step ok start tr s)
    (h' : Run step ok s tr' s') : Run step ok start (tr ++ tr') s' := by
  induction h' with
  | init => simpa using h
  | next i _ _ hs ih =>
    rw [← List.append_assoc]
    exact .next i ih (hok _ _ i) hs

/-- A weaker guard admits every run of a stronger one. -/
theorem mono (hw : ∀ tr s i, ok tr s i → ok' tr s i) {tr : List ε} {s : σ}
    (h : Run step ok start tr s) : Run step ok' start tr s := by
  induction h with
  | init => exact .init
  | next i _ hok hs ih => exact .next i ih (hw _ _ _ hok) hs

end Run
end ZeroMasque.Foundation
