import ZeroMasque.Foundation.Traces

/-! Runs that remember every step they took: the state before it, its input, the
state after it and what it emitted. -/
namespace ZeroMasque.Foundation
variable {σ ι ε : Type}

structure Turn (σ ι ε : Type) where
  before : σ
  input : ι
  after : σ
  emitted : List ε

/-- The same step, emitting the record of itself. -/
def logged (step : σ → ι → Option (σ × List ε)) (s : σ) (i : ι) : Option (σ × List (Turn σ ι ε)) :=
  (step s i).map fun done => (done.1, [⟨s, i, done.1, done.2⟩])

theorem logged_eq_some {step : σ → ι → Option (σ × List ε)} {s s' : σ} {i : ι}
    {log : List (Turn σ ι ε)} (h : logged step s i = some (s', log)) :
    ∃ es, step s i = some (s', es) ∧ log = [⟨s, i, s', es⟩] := by
  obtain ⟨⟨t, es⟩, hs, heq⟩ := Option.map_eq_some_iff.mp h
  cases heq
  exact ⟨es, hs, rfl⟩

/-- Everything emitted along a log. -/
def effects (log : List (Turn σ ι ε)) : List ε := log.flatMap Turn.emitted

@[simp] theorem effects_append (log log' : List (Turn σ ι ε)) :
    effects (log ++ log') = effects log ++ effects log' := List.flatMap_append

@[simp] theorem effects_singleton (t : Turn σ ι ε) : effects [t] = t.emitted := by
  simp [effects]

/-- A list is cut in one way only at the first entry with a property. -/
theorem first_unique {α : Type} {P : α → Prop} {xs ys xs' ys' : List α} {z z' : α}
    (h : xs ++ z :: ys = xs' ++ z' :: ys') (hx : ∀ x ∈ xs, ¬ P x) (hz : P z) (hx' : ∀ x ∈ xs', ¬ P x)
    (hz' : P z') : xs = xs' ∧ ys = ys' := by
  rcases List.append_eq_append_iff.mp h with ⟨mid, hpre, hpost⟩ | ⟨mid, hpre, hpost⟩
  · cases mid with
    | nil =>
      cases hpost
      exact ⟨by simp [hpre], rfl⟩
    | cons m mid =>
      cases hpost
      exact absurd hz (hx' z (by simp [hpre]))
  · cases mid with
    | nil =>
      cases hpost
      exact ⟨by simp [hpre], rfl⟩
    | cons m mid =>
      cases hpost
      exact absurd hz' (hx z' (by simp [hpre]))

namespace Run
variable {step : σ → ι → Option (σ × List ε)} {start : σ}

/-- Forgetting the records gives an ordinary run. -/
theorem of_log {ok : List ε → σ → ι → Prop} {log : List (Turn σ ι ε)} {s : σ}
    (h : Run (logged step) (fun log s i => ok (effects log) s i) start log s) :
    Run step ok start (effects log) s := by
  induction h with
  | init => exact .init
  | next i _ hok hs ih =>
    obtain ⟨es, hstep, rfl⟩ := logged_eq_some hs
    rw [effects_append, effects_singleton]
    exact .next i ih hok hstep

/-- Every beginning of a log is the log of a run. -/
theorem log_take {ok : List (Turn σ ι ε) → σ → ι → Prop} {log pre post : List (Turn σ ι ε)} {s : σ}
    (h : Run (logged step) ok start log s) (heq : log = pre ++ post) :
    ∃ s', Run (logged step) ok start pre s' := by
  induction h generalizing post with
  | init =>
    obtain ⟨rfl, -⟩ := List.append_eq_nil_iff.mp heq.symm
    exact ⟨start, .init⟩
  | next i hr hok hs ih =>
    obtain ⟨es, hstep, rfl⟩ := logged_eq_some hs
    rcases List.eq_nil_or_concat post with rfl | ⟨post, t, rfl⟩
    · rw [List.append_nil] at heq
      rw [← heq]
      exact ⟨_, .next i hr hok hs⟩
    · rw [List.concat_eq_append, ← List.append_assoc] at heq
      exact ih (List.append_inj_left' heq rfl)

/-- An entry of a log is a guarded step from the state its run had reached. -/
theorem turn {ok : List (Turn σ ι ε) → σ → ι → Prop} {log pre post : List (Turn σ ι ε)} {s : σ}
    {t : Turn σ ι ε} (h : Run (logged step) ok start log s) (heq : log = pre ++ t :: post) :
    Run (logged step) ok start pre t.before ∧ ok pre t.before t.input ∧
      step t.before t.input = some (t.after, t.emitted) := by
  have hcut : log = (pre ++ [t]) ++ post := by simpa using heq
  obtain ⟨s', hpre⟩ := h.log_take hcut
  generalize hlog : pre ++ [t] = log' at hpre
  cases hpre with
  | init => simp at hlog
  | next i hr hok hs =>
    obtain ⟨es, hstep, rfl⟩ := logged_eq_some hs
    obtain ⟨rfl, ht⟩ := List.append_inj' hlog rfl
    cases ht
    exact ⟨hr, hok, hstep⟩

/-- A run ends in the state its last step reached. -/
theorem last {ok : List (Turn σ ι ε) → σ → ι → Prop} {pre : List (Turn σ ι ε)} {t : Turn σ ι ε} {s : σ}
    (h : Run (logged step) ok start (pre ++ [t]) s) : s = t.after := by
  generalize hlog : pre ++ [t] = log at h
  cases h with
  | init => simp at hlog
  | next i hr hok hs =>
    obtain ⟨es, hstep, rfl⟩ := logged_eq_some hs
    obtain ⟨-, ht⟩ := List.append_inj' hlog rfl
    cases ht
    rfl

/-- The log determines where a run ends. -/
theorem log_end {ok : List (Turn σ ι ε) → σ → ι → Prop} {log : List (Turn σ ι ε)} {s s' : σ}
    (h : Run (logged step) ok start log s) (h' : Run (logged step) ok start log s') : s = s' := by
  rcases List.eq_nil_or_concat log with rfl | ⟨pre, t, rfl⟩
  · have hnil {s : σ} (h : Run (logged step) ok start [] s) : s = start := by
      generalize hlog : ([] : List (Turn σ ι ε)) = log at h
      cases h with
      | init => rfl
      | next i hr hok hs =>
        obtain ⟨es, hstep, rfl⟩ := logged_eq_some hs
        simp at hlog
    rw [hnil h, hnil h']
  · rw [List.concat_eq_append] at h h'
    rw [h.last, h'.last]

end Run
end ZeroMasque.Foundation
