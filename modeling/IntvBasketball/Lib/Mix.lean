/-
  Folds that lose nothing.

  A round mixes when it takes good states to good states and can be undone from either
  side: the value from the result and the state, the state from the result and the value.
  The fold of a mixing round over a list then shows a change of any one element.
-/
import Mathlib.Data.List.Nodup
import Mathlib.Tactic.Common

namespace IntvBasketball.Lib

/-- The round `f` on states of `S` and values of `V` is one to one in each argument. -/
structure Mixes {σ β : Type} (f : σ → β → σ) (S : σ → Prop) (V : β → Prop) : Prop where
  closed : ∀ r v, S r → S (f r v)
  state : ∀ r r' v, S r → S r' → f r v = f r' v → r = r'
  value : ∀ r v v', S r → V v → V v' → f r v = f r v' → v = v'

namespace Mixes
variable {σ β : Type} {f : σ → β → σ} {S : σ → Prop} {V : β → Prop}

theorem foldl_closed (h : Mixes f S V) (l : List β) {r : σ} (hr : S r) : S (l.foldl f r) := by
  induction l generalizing r with
  | nil => exact hr
  | cons v l ih => exact ih (h.closed r v hr)

/-- Two starts that end alike are one. -/
theorem foldl_state (h : Mixes f S V) (l : List β) {r r' : σ} (hr : S r) (hr' : S r')
    (he : l.foldl f r = l.foldl f r') : r = r' := by
  induction l generalizing r r' with
  | nil => exact he
  | cons v l ih =>
    rw [List.foldl_cons, List.foldl_cons] at he
    exact h.state r r' v hr hr' (ih (h.closed r v hr) (h.closed r' v hr') he)

/-- Two lists that differ in one element and end alike are one. -/
theorem foldl_value (h : Mixes f S V) (l l' : List β) {r : σ} {v v' : β} (hr : S r) (hv : V v)
    (hv' : V v') (he : (l ++ v :: l').foldl f r = (l ++ v' :: l').foldl f r) : v = v' := by
  rw [List.foldl_append, List.foldl_append, List.foldl_cons, List.foldl_cons] at he
  have hl := h.foldl_closed l hr
  exact h.value _ v v' hl hv hv' (h.foldl_state l' (h.closed _ v hl) (h.closed _ v' hl) he)

/-- Distinct places, a value at each: changing the value at one place shows. -/
theorem foldl_update {α : Type} (h : Mixes f S V) {l : List α} (hnd : l.Nodup) {g g' : α → β}
    {a : α} (ha : a ∈ l) (hv : V (g a)) (hv' : V (g' a)) (hne : g' a ≠ g a)
    (hrest : ∀ b ∈ l, b ≠ a → g' b = g b) {r : σ} (hr : S r) :
    (l.map g').foldl f r ≠ (l.map g).foldl f r := by
  intro he
  obtain ⟨l1, l2, rfl⟩ := List.append_of_mem ha
  rw [List.nodup_append, List.nodup_cons] at hnd
  obtain ⟨-, ⟨hna2, -⟩, hdis⟩ := hnd
  have h1 : l1.map g' = l1.map g := by
    refine List.map_congr_left (fun b hb => hrest b (List.mem_append_left _ hb) ?_)
    exact hdis b hb a List.mem_cons_self
  have h2 : l2.map g' = l2.map g := by
    refine List.map_congr_left (fun b hb => hrest b ?_ ?_)
    · exact List.mem_append_right _ (List.mem_cons_of_mem _ hb)
    · exact fun hba => hna2 (hba ▸ hb)
  rw [List.map_append, List.map_append, List.map_cons, List.map_cons, h1, h2] at he
  exact hne (h.foldl_value _ _ hr hv' hv he)

end Mixes

end IntvBasketball.Lib
