/-
  Circular buffers.

  A buffer of `N` cells with a read index holds a list when the cells from the read
  index on, wrapping at `N`, are its elements. Pushing stores past the last element,
  popping moves the read index; neither disturbs the rest as long as the buffer is
  not full.
-/
import Mathlib.Data.Nat.ModEq
import Mathlib.Tactic.Common

namespace IntvBasketball.Lib

/-- The cells from `rd` on hold `xs`, with at least one cell to spare. -/
structure RingHolds {α : Type} (N : Nat) (cell : Nat → α) (rd : Nat) (xs : List α) : Prop where
  room : xs.length < N
  at_ : ∀ i (h : i < xs.length), cell ((rd + i) % N) = xs[i]

namespace RingHolds
variable {α : Type} {N : Nat} {cell cell' : Nat → α} {rd : Nat} {x : α} {xs : List α}

theorem nil (cell : Nat → α) (rd : Nat) (h : 0 < N) : RingHolds N cell rd [] :=
  ⟨h, fun i hi => absurd hi (Nat.not_lt_zero i)⟩

theorem congr (h : RingHolds N cell rd xs) (hc : ∀ i < N, cell' i = cell i) :
    RingHolds N cell' rd xs :=
  ⟨h.room, fun i hi => by
    rw [hc _ (Nat.mod_lt _ (Nat.lt_of_le_of_lt (Nat.zero_le _) h.room)), h.at_ i hi]⟩

/-- Store one element past the last. -/
theorem push (h : RingHolds N cell rd xs) (hroom : xs.length + 1 < N)
    (hnew : cell' ((rd + xs.length) % N) = x)
    (hold : ∀ i < N, i ≠ (rd + xs.length) % N → cell' i = cell i) :
    RingHolds N cell' rd (xs ++ [x]) := by
  refine ⟨by rw [List.length_append]; exact hroom, fun i hi => ?_⟩
  have hN : 0 < N := by omega
  rw [List.length_append, List.length_singleton] at hi
  by_cases hlast : i = xs.length
  · subst hlast
    rw [hnew, List.getElem_append_right (Nat.le_refl _)]
    simp
  · have hne : (rd + i) % N ≠ (rd + xs.length) % N := by
      intro he
      have := Nat.ModEq.add_left_cancel' rd he
      rw [Nat.ModEq, Nat.mod_eq_of_lt (by omega), Nat.mod_eq_of_lt (by omega)] at this
      exact hlast this
    rw [hold _ (Nat.mod_lt _ hN) hne, List.getElem_append_left (by omega), h.at_ i (by omega)]

theorem head (h : RingHolds N cell rd (x :: xs)) : cell (rd % N) = x :=
  h.at_ 0 (Nat.succ_pos _)

/-- Move the read index past the first element. -/
theorem pop (h : RingHolds N cell rd (x :: xs)) : RingHolds N cell ((rd + 1) % N) xs := by
  refine ⟨Nat.lt_of_succ_lt h.room, fun i hi => ?_⟩
  have := h.at_ (i + 1) (Nat.succ_lt_succ hi)
  rw [Nat.mod_add_mod, Nat.add_assoc, Nat.add_comm 1 i]
  exact this

end RingHolds

end IntvBasketball.Lib
