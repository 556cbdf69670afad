/-
  How far apart the consoles get, and where an epoch ends.

  The host ends an epoch by a push, 16 ticks before the tick the next one begins with; the
  guest stays in it until the end of the push arrives. In every epoch, ended or not, either
  has run at most `d + 1` ticks more than the other.
-/
import IntvBasketball.Duel.Agree

namespace IntvBasketball.Duel

open Lib Console

structure Level (d : Nat) (y : Sys) : Prop where
  ends : ∀ e < y.h.ep, y.base e + (y.logH e).length + 16 = y.base (e + 1)
  near : ∀ e, (y.logH e).length ≤ (y.logG e).length + d + 1 ∧
    (y.logG e).length ≤ (y.logH e).length + d + 1

section
variable {d : Nat} {y y' : Sys}

theorem Played.length_eq {I J : Nat → Option Cell} {b n : Nat} {l : List Beat}
    (h : Played I J b n l) : l.length = n := by
  have := congrArg List.length h
  rwa [List.length_map, List.length_map, List.length_range'] at this

namespace Logs

/-- Where the host is in its epoch. -/
theorem host_at (h : Logs d y) : y.base y.h.ep + (y.logH y.h.ep).length = y.h.t := by
  obtain ⟨n, hn, hr⟩ := h.host _ (Nat.le_refl _)
  rw [hn.length_eq]
  exact hr.1 rfl

theorem guest_at (h : Logs d y) : y.base y.g.ep + (y.logG y.g.ep).length = y.g.t := by
  obtain ⟨n, hn, ht⟩ := h.guest _ (Nat.le_refl _)
  rw [hn.length_eq]
  exact ht rfl

end Logs

/-- In the host's epoch. -/
theorem near_host (hi : Inv d y) (hl : Logs d y) :
    (y.logH y.h.ep).length ≤ (y.logG y.h.ep).length + d + 1 := by
  have hH := hl.host_at
  have hle := hi.core.ep_le
  by_cases he : y.g.ep = y.h.ep
  · have hG := hl.guest_at
    have hlevel := (hi.level he).1
    rw [he] at hG
    omega
  · have hfresh := hi.core.fresh (by omega)
    have ht := hi.core.clockH.t_le
    omega

/-- In the guest's. -/
theorem near_guest (hi : Inv d y) (hl : Logs d y)
    (hends : ∀ e < y.h.ep, y.base e + (y.logH e).length + 16 = y.base (e + 1)) :
    (y.logG y.g.ep).length ≤ (y.logH y.g.ep).length + d + 1 := by
  have hG := hl.guest_at
  have hle := hi.core.ep_le
  by_cases he : y.g.ep = y.h.ep
  · have hH := hl.host_at
    have hlevel := (hi.level he).2.1
    rw [← he] at hH
    omega
  · have hlt : y.g.ep < y.h.ep := by omega
    have hbehind := hi.core.behind hlt
    have ht := hi.core.clockG.t_le
    have hend := hends _ hlt
    omega

namespace Level

theorem runH (h : Level d y) (v : Nat) (hi : Inv d (y.runH v)) (hl : Logs d (y.runH v)) :
    Level d (y.runH v) := by
  have hgrow : ∀ e, e ≠ y.h.ep → (y.runH v).logH e = y.logH e := fun e he => putBeat_ne _ _ he
  have hlen : ((y.runH v).logH y.h.ep).length = (y.logH y.h.ep).length + 1 := by
    change (putBeat y.logH y.h.ep _ y.h.ep).length = _
    rw [putBeat_self, List.length_append]
    rfl
  refine ⟨fun e he => ?_, fun e => ?_⟩
  · change e < y.h.ep at he
    rw [hgrow e (by omega)]
    exact h.ends e he
  · obtain ⟨h1, h2⟩ := h.near e
    by_cases he : e = y.h.ep
    · subst he
      refine ⟨near_host hi hl, ?_⟩
      rw [hlen]
      exact Nat.le_trans h2 (by omega)
    · rw [hgrow e he]
      exact ⟨h1, h2⟩

theorem runG (h : Level d y) (v : Nat) (hi : Inv d (y.runG v)) (hl : Logs d (y.runG v)) :
    Level d (y.runG v) := by
  have hgrow : ∀ e, e ≠ y.g.ep → (y.runG v).logG e = y.logG e := fun e he => putBeat_ne _ _ he
  have hlen : ((y.runG v).logG y.g.ep).length = (y.logG y.g.ep).length + 1 := by
    change (putBeat y.logG y.g.ep _ y.g.ep).length = _
    rw [putBeat_self, List.length_append]
    rfl
  refine ⟨h.ends, fun e => ?_⟩
  obtain ⟨h1, h2⟩ := h.near e
  by_cases he : e = y.g.ep
  · subst he
    refine ⟨?_, near_guest hi hl h.ends⟩
    rw [hlen]
    exact Nat.le_trans h1 (by omega)
  · rw [hgrow e he]
    exact ⟨h1, h2⟩

theorem pushH (h : Level d y) (hl : Logs d y) (fs : List (List Byte)) :
    Level d (y.pushH d fs) := by
  have hat := hl.host_at
  have hold : ∀ e ≤ y.h.ep, Function.update y.base (y.h.ep + 1) (y.h.t + 16) e = y.base e :=
    fun e he => Function.update_of_ne (by omega) _ _
  refine ⟨fun e he => ?_, h.near⟩
  change e < y.h.ep + 1 at he
  change Function.update y.base (y.h.ep + 1) (y.h.t + 16) e + (y.logH e).length + 16 =
    Function.update y.base (y.h.ep + 1) (y.h.t + 16) (e + 1)
  rw [hold e (by omega)]
  by_cases hcur : e = y.h.ep
  · subst hcur
    rw [Function.update_self, hat]
  · rw [hold (e + 1) (by omega)]
    exact h.ends e (by omega)

end Level

theorem Reach.level (h : Reach d y) (hd : 1 ≤ d) (hd' : d ≤ 15) : Level d y := by
  induction h with
  | start =>
    exact ⟨fun e he => absurd he (Nat.not_lt_zero e), fun e => ⟨Nat.zero_le _, Nat.zero_le _⟩⟩
  | step hr hs ih =>
    have hi := (Reach.step hr hs).inv hd hd'
    have hl := (Reach.step hr hs).logs hd hd'
    cases hs with
    | recvH hq =>
      obtain ⟨hep, -⟩ := (hr.inv hd hd').core.recv_host hq
      refine ⟨fun e he => ih.ends e ?_, ih.near⟩
      change e < (Party.recv d true _ _).ep at he
      rwa [hep] at he
    | recvG hq => exact ⟨ih.ends, ih.near⟩
    | captureH c hc => exact ⟨ih.ends, ih.near⟩
    | captureG c hc => exact ⟨ih.ends, ih.near⟩
    | runH v hc hw => exact ih.runH v hi hl
    | runG v hc hw => exact ih.runG v hi hl
    | pushH fs hc hp => exact ih.pushH (hr.logs hd hd') fs

end

end IntvBasketball.Duel
