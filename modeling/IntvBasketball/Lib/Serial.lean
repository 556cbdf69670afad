/-
  Serial numbers: counters that only go up, of which only the value modulo `M` is at hand.

  `ahead M w t` is how far `t` is ahead of `w` on the circle. It gives back the difference
  of two counters that are less than `M` apart (`ahead_true`), and added to one counter it
  is a counter again (`add_ahead`).
-/
import Mathlib.Data.Nat.ModEq

namespace IntvBasketball.Lib

/-- The distance from `w` forward to `t`. -/
def ahead (M w t : Nat) : Nat := (t + M - w % M) % M

theorem add_ahead {M : Nat} (hM : 0 < M) (w t : Nat) : (w + ahead M w t) % M = t % M := by
  have hw := Nat.mod_lt w hM
  have hsum : w % M + (t + M - w % M) = t + M := by omega
  rw [ahead, Nat.add_mod, Nat.mod_mod, ← Nat.add_mod, ← Nat.mod_add_mod, hsum, Nat.add_mod_right]

theorem ahead_lt {M : Nat} (hM : 0 < M) (w t : Nat) : ahead M w t < M := Nat.mod_lt _ hM

theorem ahead_true {M w t : Nat} (h : w ≤ t) (hlt : t - w < M) : ahead M w (t % M) = t - w := by
  have hM : 0 < M := by omega
  have hmod : (w + ahead M w (t % M)) % M = (w + (t - w)) % M := by
    rw [add_ahead hM, Nat.mod_mod, Nat.add_sub_cancel' h]
  have heq : ahead M w (t % M) % M = (t - w) % M := Nat.ModEq.add_left_cancel' w hmod
  rwa [Nat.mod_eq_of_lt (ahead_lt hM _ _), Nat.mod_eq_of_lt hlt] at heq

/-- One behind is all but one of the way around. -/
theorem ahead_pred {M w : Nat} (hM : 0 < M) : ahead M (w + 1) (w % M) = M - 1 := by
  have h := ahead_true (M := M) (w := w + 1) (t := w + M) (by omega) (by omega)
  rw [Nat.add_mod_right] at h
  rw [h]
  omega

end IntvBasketball.Lib
