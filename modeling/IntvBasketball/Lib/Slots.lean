/-
  A ring of `n` slots written in the order of a clock.

  `I t` is what is written at time `t`, if anything; it goes to slot `t % n`. `ringAt`
  is the ring once every time below a bound has passed. As long as the bound is at most
  `n` past `t`, slot `t % n` still shows time `t` (`ringAt_window`), so two rings that
  have seen the same writes up to `t` agree there.
-/
import Mathlib.Logic.Function.Basic
import Mathlib.Tactic.Common

namespace IntvBasketball.Lib

/-- The ring after all times below the bound. -/
def ringAt {α : Type} (n : Nat) (idle : α) (I : Nat → Option α) : Nat → Nat → α
  | 0, _ => idle
  | t + 1, s => if s = t % n then (I t).getD (ringAt n idle I t s) else ringAt n idle I t s

section
variable {α : Type} {n : Nat} {idle : α} {I J : Nat → Option α} {t t' s : Nat}

theorem ringAt_succ (n : Nat) (idle : α) (I : Nat → Option α) (t s : Nat) :
    ringAt n idle I (t + 1) s =
      if s = t % n then (I t).getD (ringAt n idle I t s) else ringAt n idle I t s := rfl

/-- Times that do not write to a slot leave it alone. -/
theorem ringAt_keep (h : t ≤ t') (hs : ∀ u, t ≤ u → u < t' → s = u % n → I u = none) :
    ringAt n idle I t' s = ringAt n idle I t s := by
  induction t' with
  | zero => rw [Nat.le_zero.mp h]
  | succ k ih =>
    by_cases hk : t = k + 1
    · rw [hk]
    · have hle : t ≤ k := by omega
      have hrec := ih hle (fun u h1 h2 => hs u h1 (by omega))
      rw [ringAt_succ]
      split
      · next hsk => rw [hs k hle (by omega) hsk, Option.getD_none, hrec]
      · exact hrec

/-- A stretch of time in which nothing is written. -/
theorem ringAt_skip (h : t ≤ t') (hs : ∀ u, t ≤ u → u < t' → I u = none) :
    ringAt n idle I t' = ringAt n idle I t := by
  funext s
  exact ringAt_keep h (fun u h1 h2 _ => hs u h1 h2)

theorem ringAt_idle (h : ∀ u, u < t → I u = none) : ringAt n idle I t = fun _ => idle :=
  ringAt_skip (Nat.zero_le t) (fun u _ hu => h u hu)

theorem ringAt_congr (h : ∀ u, u < t → I u = J u) :
    ringAt n idle I t = ringAt n idle J t := by
  induction t with
  | zero => rfl
  | succ t ih =>
    funext s
    rw [ringAt_succ, ringAt_succ, ih (fun u hu => h u (by omega)), h t (by omega)]

theorem ringAt_put {c : α} (h : I t = some c) :
    ringAt n idle I (t + 1) = Function.update (ringAt n idle I t) (t % n) c := by
  funext s
  rw [ringAt_succ, Function.update_apply]
  split
  · rw [h, Option.getD_some]
  · rfl

/-- Two times less than `n` apart have different slots. -/
theorem slot_ne {u : Nat} (h : u ≠ t) (h1 : u < t + n) (h2 : t < u + n) : u % n ≠ t % n := by
  intro he
  rcases Nat.lt_or_gt_of_ne h with hlt | hlt
  · have hd : (t - u) % n = 0 := Nat.sub_mod_eq_zero_of_mod_eq he.symm
    rw [Nat.mod_eq_of_lt (by omega)] at hd
    omega
  · have hd : (u - t) % n = 0 := Nat.sub_mod_eq_zero_of_mod_eq he
    rw [Nat.mod_eq_of_lt (by omega)] at hd
    omega

/-- Up to `n` past time `t`, its slot still shows it. -/
theorem ringAt_window (h : t < t') (h' : t' ≤ t + n) :
    ringAt n idle I t' (t % n) = ringAt n idle I (t + 1) (t % n) := by
  refine ringAt_keep h (fun u h1 h2 hs => ?_)
  exact absurd hs.symm (slot_ne (by omega) (by omega) (by omega))

end

end IntvBasketball.Lib
