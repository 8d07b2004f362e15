import ZeroMasque.Foundation.Traces

/-! Words read off a trace, and the order law of a run: what came out, followed by
what is still in stock, is a part of what went in, in the same order. -/
namespace ZeroMasque.Foundation
open scoped List
variable {σ ι ε β : Type}

/-- A reading that sees no more than another one reads a part of its word. -/
theorem filterMap_sublist {g g' : ε → Option β} {es : List ε} (h : ∀ e ∈ es, ∀ b, g e = some b → g' e = some b) :
    es.filterMap g <+ es.filterMap g' := by
  induction es with
  | nil => exact .slnil
  | cons e es ih =>
    have hrest := ih fun e' he' => h e' (List.mem_cons_of_mem _ he')
    cases hg : g e with
    | none =>
      rw [List.filterMap_cons_none hg]
      cases hg' : g' e with
      | none => rwa [List.filterMap_cons_none hg']
      | some b => exact (List.filterMap_cons_some hg' ▸ hrest.cons b)
    | some b =>
      rw [List.filterMap_cons_some hg, List.filterMap_cons_some (h e List.mem_cons_self b hg)]
      exact hrest.cons_cons b

/-- What passes through two stages in a row, in order, passes through both in order. -/
theorem relay_trans {stock mid stock' into into' out out' : List β} (h : out ++ mid <+ stock ++ into)
    (h' : out' ++ stock' <+ mid ++ into') : (out ++ out') ++ stock' <+ stock ++ (into ++ into') := by
  rw [List.append_assoc, ← List.append_assoc stock]
  calc out ++ (out' ++ stock')
      <+ out ++ (mid ++ into') := h'.append_left out
    _ = (out ++ mid) ++ into' := (List.append_assoc ..).symm
    _ <+ (stock ++ into) ++ into' := h.append_right into'

/-- If every step puts out and keeps a part of its stock and of what it takes in, in
that order, so does every run. -/
theorem Run.ordered {step : σ → ι → Option (σ × List ε)} {ok : List ε → σ → ι → Prop} {start : σ}
    {out into : ε → List β} (stock : σ → List β) (h0 : stock start = [])
    (hstep : ∀ tr s i s' es, Run step ok start tr s → ok tr s i → step s i = some (s', es) →
      es.flatMap out ++ stock s' <+ stock s ++ es.flatMap into)
    {tr : List ε} {s : σ} (h : Run step ok start tr s) : tr.flatMap out ++ stock s <+ tr.flatMap into := by
  refine Run.invariant (P := fun tr s => tr.flatMap out ++ stock s <+ tr.flatMap into) ?_ ?_ h
  · simp [h0]
  · intro tr s i s' es hr ih hok hs
    rw [List.flatMap_append, List.flatMap_append]
    have hold : tr.flatMap out ++ stock s <+ [] ++ tr.flatMap into := ih
    exact relay_trans hold (hstep tr s i s' es hr hok hs)

/-- If every step loses nothing, no run does. -/
theorem Run.lossless {step : σ → ι → Option (σ × List ε)} {ok : List ε → σ → ι → Prop} {start : σ}
    {out into : ε → List β} (stock : σ → List β) (h0 : stock start = [])
    (hstep : ∀ tr s i s' es, Run step ok start tr s → ok tr s i → step s i = some (s', es) →
      es.flatMap out ++ stock s' = stock s ++ es.flatMap into)
    {tr : List ε} {s : σ} (h : Run step ok start tr s) : tr.flatMap out ++ stock s = tr.flatMap into := by
  refine Run.invariant (P := fun tr s => tr.flatMap out ++ stock s = tr.flatMap into) ?_ ?_ h
  · simp [h0]
  · intro tr s i s' es hr ih hok hs
    rw [List.flatMap_append, List.flatMap_append, List.append_assoc, hstep tr s i s' es hr hok hs,
      ← List.append_assoc, ih]

end ZeroMasque.Foundation
