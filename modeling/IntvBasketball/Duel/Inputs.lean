/-
  The inputs as the game gets them.

  No console captures twice for one tick of an epoch (`Step.input`). So the cells a seat's
  tick is run on, at either console, are the two bytes its scanner had left when it captured
  for that tick, `d` ticks before; the first `d` ticks of an epoch are idle.
-/
import IntvBasketball.Duel.Match

namespace IntvBasketball.Duel

open Lib Console
open Relation (ReflTransGen)

/-- The inputs of a seat. -/
def Sys.input (y : Sys) (s : Nat) : Nat → Nat → Option Cell := if s = 0 then y.inH else y.inG

/-- A console has captured for tick `t` of epoch `e`, or never will. -/
def Past (d : Nat) (p : Party) (e t : Nat) : Prop := e < p.ep ∨ (e = p.ep ∧ t < p.nt d)

/-! ## One capture for a tick -/

section
variable {d e t : Nat} {p p' : Party} {y y' : Sys}

theorem Past.mono (h : Past d p e t) (hep : p'.ep = p.ep) (hnt : p.nt d ≤ p'.nt d) :
    Past d p' e t := by
  unfold Past at *
  omega

theorem Past.below (h : Past d p e t) {t' : Nat} (ht : t' ≤ t) : Past d p e t' := by
  unfold Past at *
  omega

theorem Past.next (h : Past d p e t) (hep : p'.ep = p.ep + 1) : Past d p' e t := by
  unfold Past at *
  omega

theorem recv_ep (host : Bool) (p : Party) (m : Msg) : p.ep ≤ (p.recv d host m).ep := by
  by_cases hf : m = .fin
  · subst hf
    rw [Party.recv]
    split
    · exact Nat.le_succ _
    · exact Nat.le_refl _
  · exact Nat.le_of_eq (recv_clock host p hf).1.symm

theorem Past.recv (h : Past d p e t) (host : Bool) (m : Msg) : Past d (p.recv d host m) e t := by
  by_cases hf : m = .fin
  · subst hf
    rw [Party.recv]
    split
    · exact h.next rfl
    · exact h
  · obtain ⟨hep, ht, hcap, -⟩ := recv_clock (d := d) host p hf
    refine h.mono hep (Nat.le_of_eq ?_)
    rw [Party.nt, Party.nt, hcap, ht]

theorem Past.capture (h : Past d p e t) (hc : p.cap = false) (c : Cell) :
    Past d (p.capture d c) e t := by
  refine h.mono rfl ?_
  rw [Party.nt, hc]
  exact Nat.le_succ _

theorem Past.run (h : Past d p e t) (hc : p.cap = true) (v : Nat) : Past d (p.run v) e t := by
  refine h.mono rfl ?_
  rw [Party.nt, hc]
  change p.t + d + 1 ≤ p.t + 1 + d
  omega

/-- A capture is for a tick that is not past. -/
theorem Past.put (h : Past d p e t) (hc : p.cap = false) (I : Nat → Nat → Option Cell) (c : Cell) :
    putItem I p.ep (p.t + d) c e t = I e t := by
  have hnt : p.nt d = p.t + d := by
    rw [Party.nt, hc]
    rfl
  refine putItem_ne c ?_
  unfold Past at h
  omega

/-- What is past stays past, and the input for it stays what it is. -/
theorem Step.input (hs : Step d y y') {r : Nat} (hr : r < 2) (h : Past d (y.party r) e t) :
    Past d (y'.party r) e t ∧ y'.input r e t = y.input r e t := by
  rcases seat_cases hr with rfl | rfl
  · cases hs with
    | recvH hq => exact ⟨h.recv true _, rfl⟩
    | recvG hq => exact ⟨h, rfl⟩
    | captureH c hc => exact ⟨h.capture hc c, h.put hc y.inH c⟩
    | captureG c hc => exact ⟨h, rfl⟩
    | runH v hc hw => exact ⟨h.run hc v, rfl⟩
    | runG v hc hw => exact ⟨h, rfl⟩
    | pushH fs hc hp => exact ⟨h.next rfl, rfl⟩
  · cases hs with
    | recvH hq => exact ⟨h, rfl⟩
    | recvG hq => exact ⟨h.recv false _, rfl⟩
    | captureH c hc => exact ⟨h, rfl⟩
    | captureG c hc => exact ⟨h.capture hc c, h.put hc y.inG c⟩
    | runH v hc hw => exact ⟨h, rfl⟩
    | runG v hc hw => exact ⟨h.run hc v, rfl⟩
    | pushH fs hc hp => exact ⟨h, rfl⟩

theorem input_kept {r : Nat} (hr : r < 2) (hs : ReflTransGen (Step d) y y')
    (h : Past d (y.party r) e t) : Past d (y'.party r) e t ∧ y'.input r e t = y.input r e t := by
  induction hs with
  | refl => exact ⟨h, rfl⟩
  | tail _ hstep ih =>
    obtain ⟨h1, h2⟩ := hstep.input hr ih.1
    exact ⟨h1, h2.trans ih.2⟩

/-- Where an epoch begins is settled once the host is in it. -/
theorem Step.base (hs : Step d y y') (h : e ≤ y.h.ep) : e ≤ y'.h.ep ∧ y'.base e = y.base e := by
  cases hs with
  | recvH hq => exact ⟨Nat.le_trans h (recv_ep true _ _), rfl⟩
  | pushH fs hc hp =>
    refine ⟨Nat.le_succ_of_le h, Function.update_of_ne ?_ _ _⟩
    omega
  | _ => exact ⟨h, rfl⟩

theorem base_kept (hs : ReflTransGen (Step d) y y') (h : e ≤ y.h.ep) : y'.base e = y.base e := by
  have hboth : e ≤ y'.h.ep ∧ y'.base e = y.base e := by
    induction hs with
    | refl => exact ⟨h, rfl⟩
    | tail _ hstep ih =>
      obtain ⟨h1, h2⟩ := hstep.base ih.1
      exact ⟨h1, h2.trans ih.2⟩
  exact hboth.2

end

/-! ## The cells of the ticks -/

/-- The cells of a seat in a tick. -/
def seatOf (r : Nat) (x : Nat × SeatCells × SeatCells) : SeatCells := if r = 0 then x.2.1 else x.2.2

def cellsAt (r : Nat) : Ev → Option SeatCells
  | .tick t c0 c1 => some (seatOf r (t, c0, c1))
  | _ => none

/-- The cells seat `r` is played on. -/
def cellsIn (r : Nat) (l : List Ev) : List SeatCells := l.filterMap (cellsAt r)

section
variable {d s r : Nat} {u : Duo} {y : Sys}

theorem cellsIn_told (r : Nat) (l : List Ev) : cellsIn r (l.filterMap Ev.told) = cellsIn r l := by
  apply filterMap_kept
  intro e
  cases e <;> rfl

theorem Sim.cells (h : Sim d u y) (hd : 1 ≤ d) (hd' : d ≤ 15) (hs : s < 2) (r e : Nat) :
    cellsIn r (epochOf e (u.tale s)) = (y.log s e).map (fun b => seatOf r b.run) := by
  rw [← cellsIn_told, h.epoch hd hd' hs, cellsIn,
    filterMap_epochEvs (fun _ _ _ => rfl) (fun _ _ _ _ => rfl)]
  exact congrFun List.filterMap_eq_map' _

theorem Played.cells {I J : Nat → Option Cell} {b n : Nat} {l : List Beat} (h : Played I J b n l)
    (r : Nat) : l.map (fun b => seatOf r b.run) =
      (List.range' b n).map (heardCells (if r = 0 then I else J)) := by
  have := congrArg (List.map (seatOf r)) h
  rw [List.map_map, List.map_map] at this
  refine this.trans (List.map_congr_left (fun t _ => ?_))
  change (if r = 0 then heardCells I t else heardCells J t) = _
  split <;> rfl

/-- Either console's ticks are run on what the seat captured. -/
theorem Logs.cells (hl : Logs d y) (hs : s < 2) (r e : Nat) : ∃ n,
    (y.log s e).map (fun b => seatOf r b.run) =
      (List.range' (y.base e) n).map (heardCells (y.input r e)) := by
  have hin : (if r = 0 then y.inH e else y.inG e) = y.input r e := by
    unfold Sys.input
    split <;> rfl
  by_cases he : e ≤ (y.party s).ep
  · rcases seat_cases hs with rfl | rfl
    · obtain ⟨n, hn, -⟩ := hl.host e he
      exact ⟨n, hin ▸ hn.cells r⟩
    · obtain ⟨n, hn, -⟩ := hl.guest e he
      exact ⟨n, hin ▸ hn.cells r⟩
  · rw [hl.next hs (by omega)]
    exact ⟨0, rfl⟩

/-- Nothing is captured for the first `d` ticks of an epoch. -/
theorem Reach.input_first (hr : Reach d y) (hd : 1 ≤ d) (hd' : d ≤ 15) (hr2 : r < 2) {e t : Nat}
    (ht : t < y.base e + d) : y.input r e t = none := by
  have hc := (hr.inv hd hd').core
  cases hin : y.input r e t with
  | none => rfl
  | some c =>
    rcases seat_cases hr2 with rfl | rfl
    · have := hc.linkG.first e t c hin
      unfold starts at this
      omega
    · have := hc.linkH.first e t c hin
      unfold starts at this
      omega

theorem Sim.cell_at (h : Sim d u y) (hd : 1 ≤ d) (hd' : d ≤ 15) (hs : s < 2) {e i : Nat}
    {x : SeatCells} (hx : (cellsIn r (epochOf e (u.tale s)))[i]? = some x) :
    x = heardCells (y.input r e) (y.base e + i) := by
  obtain ⟨n, hn⟩ := (h.reach.logs hd hd').cells hs r e
  rw [h.cells hd hd' hs, hn] at hx
  obtain ⟨hi, hx⟩ := List.getElem?_eq_some_iff.mp hx
  rw [List.getElem_map, List.getElem_range', Nat.one_mul] at hx
  exact hx.symm

/-- The ring of a console that has captured from `m`. -/
theorem captured_own {m : Mach} {p : Party} (h : Mirrors d s p (lsCapture m))
    (hm : m.rd netSeat = s) : p.own ((p.t + d) % 256) = ⟨m.rd execInL, m.rd execKpL⟩ := by
  have hs4 : s < 4 := Nat.lt_trans h.setup.two (by decide)
  have hdoes := does_lsCapture hm hs4 rfl
  have harea := area_dec hs4 (lsTick m + m.rd netDelay)
  have harea' := area_kp hs4 (lsTick m + m.rd netDelay)
  have hkeep : ∀ a ∈ [tickLo, tickHi, netDelay], (lsCapture m).rd a = m.rd a := by
    intro a ha
    apply hdoes.keep
    simp only [area, seatRing] at harea harea'
    simp only [List.mem_cons, List.not_mem_nil, or_false, tickLo, tickHi, netDelay] at ha
    simp only [lsTmpb, lsTmpb2]
    omega
  have htick : lsTick m = p.t % 65536 :=
    (lsTick_congr (fun a ha => hkeep a (by revert ha; simp; tauto))).symm.trans h.tick
  have hdelay : m.rd netDelay = d := (hkeep _ (by decide)).symm.trans h.setup.delay
  obtain ⟨h1, h2⟩ := lsCapture_cells (t := p.t + d) hm hs4 (by rw [htick, hdelay]; omega)
  obtain ⟨h3, h4⟩ := h.own ((p.t + d) % 256) (Nat.mod_lt _ (by decide))
  rw [decCell, Nat.mod_mod] at h3
  rw [kpCell, Nat.mod_mod] at h4
  have hcell : ∀ c : Cell, c.dec = m.rd execInL → c.kp = m.rd execKpL →
      c = ⟨m.rd execInL, m.rd execKpL⟩ := by
    intro c hdec hkp
    rw [← hdec, ← hkp]
  exact hcell _ (h3.symm.trans h1) (h4.symm.trans h2)

/-- Its ring holds what it has captured so far. -/
theorem Reach.own_ring (hr : Reach d y) (hd : 1 ≤ d) (hd' : d ≤ 15) (hs : s < 2) :
    (y.party s).own = ringAt 256 idleCell (y.input s (y.party s).ep) ((y.party s).nt d) := by
  have hc := (hr.inv hd hd').core
  rcases seat_cases hs with rfl | rfl
  · exact hc.clockH.own
  · exact hc.clockG.own

theorem Reach.ep_le (hr : Reach d y) (hd : 1 ≤ d) (hd' : d ≤ 15) (hs : s < 2) :
    (y.party s).ep ≤ y.h.ep := by
  rcases seat_cases hs with rfl | rfl
  · exact Nat.le_refl _
  · exact (hr.inv hd hd').core.ep_le

theorem Logs.at_tick (hl : Logs d y) (hs : s < 2) :
    y.base (y.party s).ep + (y.log s (y.party s).ep).length = (y.party s).t := by
  rcases seat_cases hs with rfl | rfl
  · exact hl.host_at
  · exact hl.guest_at

end

/-! ## Every run -/

section
variable {k : Cart} {d s r : Nat} {u u' : Duo}

/-- The first `d` ticks of an epoch are run on idle cells for both seats. -/
theorem opening_idle (hd : 1 ≤ d) (hd' : d ≤ 15) (h : Duo.Runs k d u) (hs : s < 2) (hr : r < 2)
    (e : Nat) : ∀ x ∈ (cellsIn r (epochOf e (u.tale s))).take d, x = ⟨0x40, 0x40, 0, 0⟩ := by
  obtain ⟨y, hy⟩ := h.sim hd hd'
  intro x hx
  obtain ⟨i, hi⟩ := List.mem_iff_getElem?.mp hx
  rw [List.getElem?_take] at hi
  split at hi
  · next hlt =>
    have hnone : ∀ t < y.base e + d, y.input r e t = none := fun t ht =>
      hy.reach.input_first hd hd' hr ht
    have h1 : ringAt 256 idleCell (y.input r e) (y.base e + i + 1) = fun _ => idleCell :=
      ringAt_idle (fun v hv => hnone v (by omega))
    have h2 : ringAt 256 idleCell (y.input r e) (y.base e + i) = fun _ => idleCell :=
      ringAt_idle (fun v hv => hnone v (by omega))
    rw [hy.cell_at hd hd' hs hi, heardCells, h1, h2]
    rfl
  · cases hi

theorem opening_idle_pushed : ((cellsIn 1 (epochOf 0 (pushed.tale 0))).take 1).all
    (fun x => decide (x = ⟨0x40, 0x40, 0, 0⟩)) = true := by
  refine List.all_eq_true.mpr (fun x hx => decide_eq_true ?_)
  exact opening_idle (by decide) (by decide) pushed_runs (by decide) (by decide) 0 x hx

/-- A console that has just captured from `m` stands before the tick its epoch has come to.
    The tick `d` later, if it is played in that epoch, is played on the two bytes `m`'s
    scanner had left, at both consoles. -/
theorem inputs_played (hd : 1 ≤ d) (hd' : d ≤ 15) (h : Duo.Runs k d u) (hs : s < 2) {m : Mach}
    (hu : u.con s = some ⟨lsCapture m, .gate⟩) (hm : m.rd netSeat = s)
    (h' : ReflTransGen (Duo.Step k d) u u') (hr : r < 2) {e n : Nat}
    (he : e = (resumes (u.tale s)).length) (hn : n = (ticks (epochOf e (u.tale s))).length)
    {x : SeatCells} (hx : (cellsIn s (epochOf e (u'.tale r)))[n + d]? = some x) :
    x.cur = m.rd execInL ∧ x.kp = m.rd execKpL := by
  obtain ⟨y, hy⟩ := h.sim hd hd'
  obtain ⟨y', hy', hpath⟩ := hy.runs hd hd' h'
  have hl := (hy.awake s hs _ hu).1
  have hlogs := hy.reach.logs hd hd'
  -- the party's own ring shows the two bytes
  have hown := captured_own hl.mirrors hm
  have hnt : (y.party s).nt d = (y.party s).t + d + 1 := by
    rw [Party.nt, hl.gate]
    rfl
  have hnow : heardCells (y.input s (y.party s).ep) ((y.party s).t + d) =
      cellsOf (y.party s).own ((y.party s).t + d) := by
    rw [hy.reach.own_ring hd hd' hs, hnt]
    exact (cellsOf_ringAt _ (Nat.lt_succ_self _) (by omega)).symm
  -- and they are the input for that tick from now on
  have hep : e = (y.party s).ep := by
    rw [he, hy.resumes hs, List.length_map, List.length_range]
  have hpast : Past d (y.party s) e ((y.party s).t + d) := Or.inr ⟨hep, by omega⟩
  have hlast : ∀ t ≤ (y.party s).t + d, y'.input s e t = y.input s e t := fun t ht =>
    (input_kept hs hpath (hpast.below ht)).2
  have hn' : y.base e + n = (y.party s).t := by
    rw [hn, hy.ticks hd hd' hs, List.length_map, hep]
    exact hlogs.at_tick hs
  have hle : e ≤ y.h.ep := by
    rw [hep]
    exact hy.reach.ep_le hd hd' hs
  rw [hy'.cell_at hd hd' hr hx, base_kept hpath hle, ← Nat.add_assoc, hn',
    heardCells_congr hlast, hep, hnow, cellsOf, hown]
  exact ⟨rfl, rfl⟩

theorem inputs_played_pushed : 0xC0 = (ready 0 0xC0).rd execInL ∧
    1 = (ready 0 0xC0).rd execKpL := by
  have hu : (kickoff.catch 0 0xC0).con 0 = some ⟨lsCapture (ready 0 0xC0), .gate⟩ := rfl
  have hpath : ReflTransGen (Duo.Step stillCart 1) (kickoff.catch 0 0xC0) pushed :=
    ((tipped_path sound_host sound_guest).trans opening_path).trans pushed_path
  have hx : (cellsIn 0 (epochOf 0 (pushed.tale 0)))[0 + 1]? = some ⟨0xC0, 0x40, 1, 0⟩ := by
    decide +kernel
  exact inputs_played (by decide) (by decide) (catch_runs sound_host) (by decide) hu
    (by decide +kernel) hpath (by decide) (by decide +kernel) (by decide +kernel) hx

end

end IntvBasketball.Duel
