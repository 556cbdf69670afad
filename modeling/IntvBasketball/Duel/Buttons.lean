/-
  The buttons as the game sees them.

  LS_VDISPATCH finds the edges of a seat's buttons by comparing the keypad cells of two
  neighbouring ring slots. The second cell of a tick is the first of the tick before it
  (`heardCells_pair`), and none is down before the first capture of an epoch, so on both
  consoles the calls for a button are presses, held re-fires and releases in the one order
  that makes sense (`Presses`).
-/
import IntvBasketball.Duel.Inputs

namespace IntvBasketball.Duel

open Lib Console

/-! ## Calls -/

/-- R0 of the calls of one button: 1 for the press, 0 while it is held, -1 for the release.
    The button is down at the start or not. -/
inductive Presses : Bool → List Nat → Prop where
  | nil (down : Bool) : Presses down []
  | press {l : List Nat} (h : Presses true l) : Presses false (1 :: l)
  | hold {l : List Nat} (h : Presses true l) : Presses true (0 :: l)
  | release {l : List Nat} (h : Presses false l) : Presses true (0xFFFF :: l)

/-- R0 of a call of this slot for this side. -/
def callOf (side slot : Nat) : Ev → Option Nat
  | .vcall side' slot' r0 => if side' = side ∧ slot' = slot then some r0 else none
  | _ => none

def callsOn (side slot : Nat) (l : List Ev) : List Nat := l.filterMap (callOf side slot)

/-- The calls of one tick for a button. -/
def edges (was now : Bool) : List Nat :=
  if now then [if was then 0 else 1] else if was then [0xFFFF] else []

theorem Presses.edges {was now : Bool} {l : List Nat} (h : Presses now l) :
    Presses was (edges was now ++ l) := by
  cases was with
  | false =>
    cases now with
    | false => exact h
    | true => exact .press h
  | true =>
    cases now with
    | false => exact .release h
    | true => exact .hold h

section
variable {side slot b : Nat} {c : SeatCells}

theorem callsOn_append (l l' : List Ev) :
    callsOn side slot (l ++ l') = callsOn side slot l ++ callsOn side slot l' :=
  List.filterMap_append ..

/-- LS_VDISPATCH calls for its own side only. -/
theorem callsOn_other {r : Nat} (h : r ≠ side) (slot : Nat) (c : SeatCells) :
    callsOn side slot (vdCalls r c) = [] := by
  refine List.filterMap_eq_nil_iff.mpr (fun e he => ?_)
  have hcall : ∃ sl r0, e = .vcall r sl r0 := by
    unfold vdCalls releaseCalls pressCalls discCalls at he
    rw [List.mem_append, List.mem_append] at he
    rcases he with (he | he) | he
    all_goals
      split_ifs at he
      all_goals first
        | exact absurd he List.not_mem_nil
        | exact ⟨_, _, List.mem_singleton.mp he⟩
  obtain ⟨sl, r0, rfl⟩ := hcall
  exact if_neg (fun hx => h hx.1)

theorem callsOn_one (side slot sl r0 : Nat) :
    callsOn side slot [.vcall side sl r0] = if sl = slot then [r0] else [] := by
  by_cases h : sl = slot
  · rw [if_pos h]
    exact List.filterMap_cons_some (if_pos ⟨rfl, h⟩)
  · rw [if_neg h]
    exact List.filterMap_cons_none (if_neg (fun hx => h hx.2))

theorem callsOn_release (hb : 1 ≤ b) (hb3 : b ≤ 3) :
    callsOn side (b * 2 + 2) (releaseCalls side c) =
      if c.kppre = b ∧ c.kp ≠ b then [0xFFFF] else [] := by
  by_cases h : c.kppre = 0 ∨ 3 < c.kppre ∨ c.kppre = c.kp
  · rw [releaseCalls, if_pos h, if_neg (by omega)]
    rfl
  · rw [releaseCalls, if_neg h, callsOn_one]
    refine if_congr ?_ rfl rfl
    omega

theorem callsOn_press (hb : 1 ≤ b) (hb3 : b ≤ 3) : callsOn side (b * 2 + 2) (pressCalls side c) =
    if c.kp = b then [if c.kppre = b then 0 else 1] else [] := by
  by_cases h : c.kp = 0 ∨ 3 < c.kp
  · rw [pressCalls, if_pos h, if_neg (by omega)]
    rfl
  · rw [pressCalls, if_neg h, callsOn_one]
    by_cases hk : c.kp = b
    · rw [if_pos (by omega), if_pos hk, hk]
      simp only [eq_comm]
    · rw [if_neg (by omega), if_neg hk]

/-- Slots 0 and 2 are the disc's and the keypad's. -/
theorem callsOn_disc (hb : 1 ≤ b) : callsOn side (b * 2 + 2) (discCalls side c) = [] := by
  unfold discCalls
  split_ifs
  · rfl
  · rw [callsOn_one, if_neg (by omega)]
  · rw [callsOn_one, if_neg (by omega)]
  · rw [callsOn_one, if_neg (by omega)]
  · rfl

/-- A tick makes at most one call for a button. -/
theorem callsOn_vdCalls (hb : 1 ≤ b) (hb3 : b ≤ 3) (side : Nat) (c : SeatCells) :
    callsOn side (b * 2 + 2) (vdCalls side c) = edges (c.kppre = b) (c.kp = b) := by
  rw [vdCalls, callsOn_append, callsOn_append, callsOn_release hb hb3, callsOn_press hb hb3,
    callsOn_disc hb, List.append_nil]
  by_cases hk : c.kp = b
  · simp [edges, hk]
  · by_cases hp : c.kppre = b
    · simp [edges, hk, hp]
    · simp [edges, hk, hp]

/-- A tick of both seats. -/
theorem callsOn_playEvs (hb : 1 ≤ b) (hb3 : b ≤ 3) (x : Nat × SeatCells × SeatCells)
    (hs : side < 2) : callsOn side (b * 2 + 2) (playEvs x) =
      edges ((seatOf side x).kppre = b) ((seatOf side x).kp = b) := by
  have htick : callsOn side (b * 2 + 2) (playEvs x) =
      callsOn side (b * 2 + 2) (vdCalls 0 x.2.1) ++ callsOn side (b * 2 + 2) (vdCalls 1 x.2.2) :=
    (List.filterMap_cons_none rfl).trans List.filterMap_append
  rcases seat_cases hs with rfl | rfl
  · rw [htick, callsOn_other (r := 1) (by decide), List.append_nil, callsOn_vdCalls hb hb3]
    rfl
  · rw [htick, callsOn_other (r := 0) (by decide), List.nil_append, callsOn_vdCalls hb hb3]
    rfl

end

/-! ## Neighbouring ticks -/

section
variable {I : Nat → Option Cell} {t : Nat}

/-- A tick's second cells are the first of the tick before it. -/
theorem heardCells_pair (I : Nat → Option Cell) (t : Nat) :
    (heardCells I (t + 1)).prev = (heardCells I t).cur ∧
      (heardCells I (t + 1)).kppre = (heardCells I t).kp := by
  have hslot : (t + 1 + 255) % 256 = t % 256 := by omega
  simp only [heardCells, hslot]
  exact ⟨trivial, trivial⟩

theorem heardCells_first (h : ∀ v < t, I v = none) : (heardCells I t).kppre = 0 := by
  rw [heardCells, ringAt_idle h]
  rfl

theorem presses_heard (I : Nat → Option Cell) (b t n : Nat) :
    Presses ((heardCells I t).kppre = b) ((List.range' t n).flatMap
      (fun v => edges ((heardCells I v).kppre = b) ((heardCells I v).kp = b))) := by
  induction n generalizing t with
  | zero => exact .nil _
  | succ n ih =>
    rw [List.range'_succ, List.flatMap_cons]
    apply Presses.edges
    rw [← (heardCells_pair I t).2]
    exact ih (t + 1)

end

/-! ## Every run -/

section
variable {k : Cart} {d s side b : Nat} {u : Duo}

theorem callsOn_play (side slot : Nat) (l : List Ev) :
    callsOn side slot (l.filter Ev.play) = callsOn side slot l := by
  induction l with
  | nil => rfl
  | cons e l ih =>
    cases e with
    | tick t c0 c1 => exact ih
    | vcall side' sl r0 =>
      rw [List.filter_cons_of_pos rfl]
      simp only [callsOn, List.filterMap_cons] at ih ⊢
      rw [ih]
    | _ => exact ih

/-- For each button of each seat, the calls of an epoch are presses, held re-fires and
    releases: a release or a re-fire only of a button that is down, a press only of one that
    is not. -/
theorem buttons_paired (hd : 1 ≤ d) (hd' : d ≤ 15) (h : Duo.Runs k d u) (hs : s < 2)
    (hside : side < 2) (hb : 1 ≤ b) (hb3 : b ≤ 3) (e : Nat) :
    Presses false (callsOn side (b * 2 + 2) (epochOf e (u.tale s))) := by
  obtain ⟨y, hy⟩ := h.sim hd hd'
  obtain ⟨n, hn⟩ := (hy.reach.logs hd hd').cells hs side e
  have hcalls : callsOn side (b * 2 + 2) (epochOf e (u.tale s)) =
      ((y.log s e).map (fun x => seatOf side x.run)).flatMap
        (fun c => edges (c.kppre = b) (c.kp = b)) := by
    rw [← callsOn_play, hy.play hd hd' hs, callsOn, List.filterMap_flatMap, List.flatMap_map,
      List.flatMap_map]
    apply List.flatMap_congr
    intro x _
    exact callsOn_playEvs hb hb3 x.run hside
  have hfirst : (heardCells (y.input side e) (y.base e)).kppre = 0 :=
    heardCells_first (fun v hv => hy.reach.input_first hd hd' hside (by omega))
  have h := presses_heard (y.input side e) b (y.base e) n
  rw [hfirst] at h
  rw [hcalls, hn, List.flatMap_map]
  have hup : decide (0 = b) = false := decide_eq_false (by omega)
  rwa [hup] at h

theorem buttons_paired_pushed : 1 ∈ callsOn 0 4 (epochOf 0 (pushed.tale 0)) ∧
    Presses false (callsOn 0 4 (epochOf 0 (pushed.tale 0))) := by
  obtain ⟨-, -, -, -, -, -, -, -, hpress⟩ := opening_facts
  constructor
  · exact List.mem_filterMap.mpr ⟨_, hpress, rfl⟩
  · exact buttons_paired (b := 1) (by decide) (by decide) pushed_runs (by decide) (by decide)
      (by decide) (by decide) 0

end

end IntvBasketball.Duel
