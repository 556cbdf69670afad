/-
  Two consoles and the bytes between them.

  A `Move` is what one console does up to its next pump or return, with the bytes it read;
  the pieces are those of a pass, the START that begins the match, and the screens and
  pumps before the first pass. In the pair the bytes a console sends wait for the other,
  in order, and are read in pieces cut anywhere. Neither console gives up on the other.
-/
import IntvBasketball.Duel.Act

namespace IntvBasketball.Duel

open Lib Console
open Mach (Within Does Only)
open Relation (ReflTransGen)

/-! ## One console -/

/-- A move of seat `s`, from the logs of `m`: it reads `got`. -/
inductive Move (k : Cart) (d s : Nat) : Option Con → Mach → List Byte → Con → Prop where
  /-- START, and what was read behind it. -/
  | start {p m : Mach} {got : List Byte} {fuel : Nat} (hs : Starts d s p) (ha : Acc p got)
      (hl : ppLoop fuel (sesOnframe p) = some m) : Move k d s none p got ⟨m, .top⟩
  | screen {m m' : Mach} (hw : Within menuCell m m') :
      Move k d s (some ⟨m, .top⟩) m [] ⟨m', .top⟩
  | pump {m m1 : Mach} {got : List Byte} (hlen : got.length ≤ 64) (hp : sesPump m got = some m1) :
      Move k d s (some ⟨m, .top⟩) m got ⟨m1, .top⟩
  | exec (m : Mach) (f : Mem → Nat → Nat) : Move k d s (some ⟨m, .top⟩) m [] ⟨m.game f, .top⟩
  | turn {m m1 : Mach} {got : List Byte} (hlen : got.length ≤ 64) (hd : lsDue m = true)
      (hp : sesPump m got = some m1) : Move k d s (some ⟨m, .top⟩) m got ⟨lsCapture m1, .gate⟩
  | wait {m m1 : Mach} {got : List Byte} (hlen : got.length ≤ 64) (hd : m.rd netDropped = 0)
      (ho : lsOpen m = false) (hp : sesPump (lsFreeze m) got = some m1) :
      Move k d s (some ⟨m, .gate⟩) m got ⟨lsWaitRound m1, .gate⟩
  | run {m : Mach} (ho : m.rd netDropped ≠ 0 ∨ lsOpen m = true) :
      Move k d s (some ⟨m, .gate⟩) m [] ⟨lsRun k m, .top⟩
  | hold {m m1 : Mach} {got : List Byte} (hlen : got.length ≤ 64) (hs : m.rd peerScr = 0)
      (hd : m.rd netDropped = 0) (hh : m.rd resyncHold ≠ 0)
      (hp : sesPump (lsFreeze m) got = some m1) :
      Move k d s (some ⟨m, .top⟩) m got ⟨lsHoldRound m1, .top⟩

/-- Moves in a match, with all the bytes they read. -/
inductive Moves (k : Cart) (d s : Nat) : Con → List Byte → Con → Prop where
  | refl (c : Con) : Moves k d s c [] c
  | head {c c1 c2 : Con} {got bs : List Byte} (hm : Move k d s (some c) c.m got c1)
      (h : Moves k d s c1 bs c2) : Moves k d s c (got ++ bs) c2

section
variable {k : Cart} {d s : Nat}

theorem Moves.single {c c' : Con} {got : List Byte} (hm : Move k d s (some c) c.m got c') :
    Moves k d s c got c' := by
  have h := Moves.head hm (.refl c')
  rwa [List.append_nil] at h

theorem Moves.trans {c c1 c2 : Con} {bs bs' : List Byte} (h : Moves k d s c bs c1)
    (h' : Moves k d s c1 bs' c2) : Moves k d s c (bs ++ bs') c2 := by
  induction h with
  | refl c => exact h'
  | head hm _ ih =>
    rw [List.append_assoc]
    exact .head hm (ih h')

/-- The gate: it uses reads up to the one that opens it. -/
theorem lsGate_moves (reads : List (List Byte)) (hlen : ∀ got ∈ reads, got.length ≤ 64)
    {m m' : Mach} (hg : lsGate reads m = some m') : ∃ used, used <+: reads ∧
      Moves k d s ⟨m, .gate⟩ used.flatten ⟨m', .gate⟩ ∧
        (m'.rd netDropped ≠ 0 ∨ lsOpen m' = true) := by
  induction reads generalizing m with
  | nil =>
    simp only [lsGate, Option.ite_none_right_eq_some, Option.some.injEq] at hg
    exact ⟨[], List.nil_prefix, hg.2 ▸ .refl _, hg.2 ▸ hg.1⟩
  | cons got reads ih =>
    simp only [lsGate] at hg
    split_ifs at hg with ho
    · cases hg
      exact ⟨[], List.nil_prefix, .refl _, ho⟩
    · cases hp : sesPump (lsFreeze m) got with
      | none => simp [hp] at hg
      | some m1 =>
        simp only [hp] at hg
        simp only [ne_eq, not_or, not_not, Bool.not_eq_true] at ho
        obtain ⟨used, hpre, hmoves, hopen⟩ :=
          ih (fun g hg => hlen g (List.mem_cons_of_mem _ hg)) hg
        refine ⟨got :: used, (List.prefix_cons_inj got).mpr hpre, ?_, hopen⟩
        exact .head (.wait (hlen got List.mem_cons_self) ho.1 ho.2 hp) hmoves

/-- LS_PASS that returns is a sequence of moves, which read what it read. -/
theorem lsPass_moves {reads : List (List Byte)} (hlen : ∀ got ∈ reads, got.length ≤ 64)
    {m m' : Mach} (hb : lsPass k reads m = .back m') : ∃ used, used <+: reads ∧
      Moves k d s ⟨m, .top⟩ used.flatten ⟨m', .top⟩ := by
  unfold lsPass at hb
  split_ifs at hb with h1 h2 h3
  · cases hb
    exact ⟨[], List.nil_prefix, .refl _⟩
  · cases reads with
    | nil => simp at hb
    | cons got reads =>
      cases hp : sesPump (lsFreeze m) got with
      | none => simp [hp] at hb
      | some m1 =>
        simp only [hp, LsEnd.back.injEq] at hb
        have hmove : Move k d s (some ⟨m, .top⟩) m got ⟨lsHoldRound m1, .top⟩ :=
          .hold (hlen got List.mem_cons_self) (not_not.mp h1) (not_not.mp h2) h3 hp
        refine ⟨[got], (List.prefix_cons_inj got).mpr List.nil_prefix, ?_⟩
        rw [List.flatten_singleton, ← hb]
        exact .single hmove
  · have hdue : lsDue m = true := by
      simp only [lsDue, not_not.mp h1, not_not.mp h2, not_not.mp h3]
      rfl
    cases reads with
    | nil => simp [lsTurn] at hb
    | cons got reads =>
      simp only [lsTurn] at hb
      cases hp : sesPump m got with
      | none => simp [hp] at hb
      | some m1 =>
        simp only [hp] at hb
        cases hg : lsGate reads (lsCapture m1) with
        | none => simp [hg] at hb
        | some m2 =>
          simp only [hg, LsEnd.back.injEq] at hb
          obtain ⟨used, hpre, hmoves, hopen⟩ := lsGate_moves (k := k) (d := d) (s := s) reads
            (fun g hg => hlen g (List.mem_cons_of_mem _ hg)) hg
          have hturn : Move k d s (some ⟨m, .top⟩) m got ⟨lsCapture m1, .gate⟩ :=
            .turn (hlen got List.mem_cons_self) hdue hp
          have hrun : Move k d s (some ⟨m2, .gate⟩) m2 [] ⟨m', .top⟩ := hb ▸ .run hopen
          refine ⟨got :: used, (List.prefix_cons_inj got).mpr hpre, ?_⟩
          rw [List.flatten_cons]
          have hpass := hmoves.trans (.single hrun)
          rw [List.append_nil] at hpass
          exact .head hturn hpass

end

/-! ## The pair -/

structure Duo where
  con : Nat → Option Con      -- by seat; `none` before START
  box : Nat → List Byte       -- the bytes on their way to the seat
  tale : Nat → List Ev        -- its events since START

namespace Duo

def start : Duo where
  con := fun _ => none
  box := fun _ => []
  tale := fun _ => []

/-- Seat `s` becomes `c`: `rest` is still to be read, and it has sent `out`. -/
def next (u : Duo) (s : Nat) (c : Con) (rest out : List Byte) (evs : List Ev) : Duo where
  con := Function.update u.con s (some c)
  box := Function.update (Function.update u.box s rest) (1 - s) (u.box (1 - s) ++ out)
  tale := Function.update u.tale s (u.tale s ++ evs)

inductive Step (k : Cart) (d : Nat) : Duo → Duo → Prop where
  | move {u : Duo} {s : Nat} {m : Mach} {c : Con} {got rest out : List Byte} {evs : List Ev}
      (hs : s < 2) (hb : u.box s = got ++ rest) (hm : Move k d s (u.con s) m got c)
      (htx : c.m.tx = m.tx ++ out) (hev : c.m.ev = m.ev ++ evs) (hd : c.m.rd netDropped = 0) :
      Step k d u (u.next s c rest out evs)

/-- Runs of the pair from before START. -/
abbrev Runs (k : Cart) (d : Nat) (u : Duo) : Prop := ReflTransGen (Step k d) Duo.start u

section
variable (u : Duo) {s : Nat} (c : Con) (rest out : List Byte) (evs : List Ev)

theorem next_self (hs : s < 2) : (u.next s c rest out evs).con s = some c ∧
    (u.next s c rest out evs).box s = rest ∧
      (u.next s c rest out evs).tale s = u.tale s ++ evs := by
  have hne : s ≠ 1 - s := by omega
  refine ⟨Function.update_self _ _ _, ?_, Function.update_self _ _ _⟩
  exact (Function.update_of_ne hne _ _).trans (Function.update_self _ _ _)

theorem next_peer (hs : s < 2) : (u.next s c rest out evs).con (1 - s) = u.con (1 - s) ∧
    (u.next s c rest out evs).box (1 - s) = u.box (1 - s) ++ out ∧
      (u.next s c rest out evs).tale (1 - s) = u.tale (1 - s) := by
  have hne : 1 - s ≠ s := by omega
  exact ⟨Function.update_of_ne hne _ _, Function.update_self _ _ _, Function.update_of_ne hne _ _⟩

end

end Duo

end IntvBasketball.Duel
