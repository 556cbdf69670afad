/-
  What a tick does, exactly, and the invariant rule for whole runs.

  `vdCalls` are the handler calls LS_VDISPATCH attempts for one seat: a function of the four
  ring cells it reads. `lsRun_calls` takes the tick apart with them. `Steady` is the rule for
  runs with resyncs in them: a property of the cells of `watchCell` and of the events is an
  invariant if the frames, the capture, the tick, a push and giving up on the peer keep it.
-/
import IntvBasketball.Console.Gate

namespace IntvBasketball.Console

open Mach (Within Does Only)
open Relation (ReflTransGen)

/-! ## Handler calls -/

/-- The release of a button: slot 4, 6 or 8 with R0 = -1. -/
def releaseCalls (side : Nat) (c : SeatCells) : List Ev :=
  if c.kppre = 0 ∨ 3 < c.kppre ∨ c.kppre = c.kp then []
  else [.vcall side (c.kppre * 2 + 2) 0xFFFF]

/-- Its press (R0 = 1) or held re-fire (R0 = 0). -/
def pressCalls (side : Nat) (c : SeatCells) : List Ev :=
  if c.kp = 0 ∨ 3 < c.kp then []
  else [.vcall side (c.kp * 2 + 2) (if c.kp = c.kppre then 0 else 1)]

/-- Keypad, disc and disc settle: slots 2 and 0. -/
def discCalls (side : Nat) (c : SeatCells) : List Ev :=
  if c.cur = c.prev then []
  else if c.cur / 64 % 2 = 0 then
    [.vcall side (if c.cur / 128 % 2 = 0 then 0 else 2) (c.cur % 128)]
  else if c.cur / 128 % 2 = 0 then [.vcall side 0 0xFFFF]
  else []

/-- All calls for one seat. -/
def vdCalls (side : Nat) (c : SeatCells) : List Ev :=
  releaseCalls side c ++ pressCalls side c ++ discCalls side c

/-- Cells of a handler call. -/
def callCell (a : Nat) : Prop := gameCell a ∨ a = vdTmp

instance (a : Nat) : Decidable (callCell a) := by unfold callCell; infer_instance

/-- The seat and its four cells are in VD_SIDE and VD_CUR .. VD_KPPRE. -/
structure Loaded (m : Mach) (side : Nat) (c : SeatCells) : Prop where
  side_eq : m.rd vdSide = side
  cur : m.rd vdCur = c.cur
  prev : m.rd vdPrev = c.prev
  kp : m.rd vdKp = c.kp
  kppre : m.rd vdKppre = c.kppre

section
variable {m m' : Mach} {side : Nat} {c : SeatCells} {tx : List Byte} {ev : List Ev}

theorem Loaded.keep (h : Loaded m side c) (hd : Does callCell tx ev m m') : Loaded m' side c where
  side_eq := (hd.keep _ (by decide)).trans h.side_eq
  cur := (hd.keep _ (by decide)).trans h.cur
  prev := (hd.keep _ (by decide)).trans h.prev
  kp := (hd.keep _ (by decide)).trans h.kp
  kppre := (hd.keep _ (by decide)).trans h.kppre

theorem does_lsVcall (k : Cart) (m : Mach) (r0 : Nat) :
    Does callCell [] [.vcall (m.rd vdSide) (m.rd vdTmp) r0] m (lsVcall k m r0) := by
  have h0 := (Does.refl callCell m).log (.vcall (m.rd vdSide) (m.rd vdTmp) r0)
  unfold lsVcall
  dsimp only
  split_ifs
  · exact h0
  · exact h0
  · exact h0.game _ (fun _ => Or.inl)

/-- LS_VCALL with slot `v` in VD_TMP. -/
theorem does_vcall_at (k : Cart) (h : m.rd vdSide = side) {v : Nat} (hv : v < 256) (r0 : Nat) :
    Does callCell [] [.vcall side v r0] m (lsVcall k (m.st vdTmp v) r0) := by
  have h0 : Within callCell m (m.st vdTmp v) := (Does.refl _ m).st _ (Or.inr rfl)
  have h1 := h0.trans (does_lsVcall k (m.st vdTmp v) r0)
  rwa [Mach.rd_st_ne _ _ (by decide), h, Mach.rd_st_self, cellMod_cart (by decide),
    Nat.mod_eq_of_lt hv] at h1

theorem does_vdRelease (k : Cart) (h : Loaded m side c) :
    Does callCell [] (releaseCalls side c) m (vdRelease k m) := by
  unfold vdRelease releaseCalls
  dsimp only
  rw [h.kppre, h.kp]
  split_ifs with hc
  · exact Does.refl _ m
  · exact does_vcall_at k h.side_eq (by omega) _

theorem does_vdPress (k : Cart) (h : Loaded m side c) :
    Does callCell [] (pressCalls side c) m (vdPress k m) := by
  unfold vdPress pressCalls
  dsimp only
  rw [h.kp, Mach.rd_st_ne _ _ (by decide), Mach.rd_st_ne _ _ (by decide), h.kp, h.kppre]
  split_ifs with hc
  · exact Does.refl _ m
  · exact does_vcall_at k h.side_eq (by omega) _
  · exact does_vcall_at k h.side_eq (by omega) _

theorem does_vdDisc (k : Cart) (h : Loaded m side c) :
    Does callCell [] (discCalls side c) m (vdDisc k m) := by
  unfold vdDisc discCalls
  dsimp only
  rw [h.cur, h.prev, Mach.rd_st_ne _ _ (by decide), h.cur]
  split_ifs
  · exact Does.refl _ m
  · exact does_vcall_at k h.side_eq (by decide) _
  · exact does_vcall_at k h.side_eq (by decide) _
  · exact does_vcall_at k h.side_eq (by decide) _
  · exact Does.refl _ m

end

/-- Cells of LS_VDISPATCH. -/
def vdCell (a : Nat) : Prop := callCell a ∨ a ∈ [vdCur, vdPrev, vdKp, vdKppre, vdSide, vdCtrl]

instance (a : Nat) : Decidable (vdCell a) := by unfold vdCell; infer_instance

theorem seatCells_lt (m : Mach) (s t : Nat) : (seatCells m s t).cur < 256 ∧
    (seatCells m s t).prev < 256 ∧ (seatCells m s t).kp < 256 ∧ (seatCells m s t).kppre < 256 := by
  have hprev : ∀ b, 0x8400 ≤ b → 0x8000 ≤ prevSlot b t := by
    intro b hb
    unfold prevSlot
    split_ifs
    · omega
    · omega
  refine ⟨m.rd_lt_cart ?_, m.rd_lt_cart ?_, m.rd_lt_cart ?_, m.rd_lt_cart ?_⟩
  · simp only [seatRing]
    omega
  · exact hprev _ (by simp only [seatRing]; omega)
  · simp only [seatKp]
    omega
  · exact hprev _ (by simp only [seatKp]; omega)

theorem loaded_vdLoad (m : Mach) :
    Loaded (vdLoad m) (m.rd vdSide) (seatCells m (m.rd vdSide) (m.rd tickLo)) := by
  obtain ⟨h1, h2, h3, h4⟩ := seatCells_lt m (m.rd vdSide) (m.rd tickLo)
  unfold vdLoad
  dsimp only
  constructor
  · simp only [Mach.rd_st_ne, vdSide, vdCur, vdPrev, vdKp, vdKppre, ne_eq,
      not_false_eq_true, Nat.reduceEqDiff]
  · rw [Mach.rd_st_ne _ _ (by decide), Mach.rd_st_ne _ _ (by decide), Mach.rd_st_ne _ _ (by decide),
      Mach.rd_st_self, cellMod_cart (by decide), Nat.mod_eq_of_lt h1]
  · rw [Mach.rd_st_ne _ _ (by decide), Mach.rd_st_ne _ _ (by decide), Mach.rd_st_self,
      cellMod_cart (by decide), Nat.mod_eq_of_lt h2]
  · rw [Mach.rd_st_ne _ _ (by decide), Mach.rd_st_self, cellMod_cart (by decide),
      Nat.mod_eq_of_lt h3]
  · rw [Mach.rd_st_self, cellMod_cart (by decide), Nat.mod_eq_of_lt h4]

/-- LS_VDISPATCH attempts the calls of its cells. -/
theorem does_lsVdispatch (k : Cart) (m : Mach) : Does vdCell []
    (vdCalls (m.rd vdSide) (seatCells m (m.rd vdSide) (m.rd tickLo))) m (lsVdispatch k m) := by
  have hload : Within vdCell m (vdLoad m) :=
    ((((Does.refl _ m).st _ (by decide)).st _ (by decide)).st _ (by decide)).st _ (by decide)
  have h0 := loaded_vdLoad m
  have h1 := does_vdRelease k h0
  have h2 := does_vdPress k (h0.keep h1)
  have h3 := does_vdDisc k ((h0.keep h1).keep h2)
  have hcalls := ((h1.trans h2).trans h3).mono (T := vdCell) (fun _ => Or.inl)
  exact hload.trans hcalls

/-! ## The tick -/

theorem seatCells_congr {m m' : Mach} (hk : ∀ a, area seatRing 2048 a → m'.rd a = m.rd a) {s t : Nat}
    (hs : s < 4) (ht : t < 256) : seatCells m' s t = seatCells m s t := by
  have hcur : ∀ b, area seatRing 1793 b → m'.rd (b + t) = m.rd (b + t) := by
    intro b hb
    refine hk _ ?_
    simp only [area, seatRing] at *
    omega
  have hprev : ∀ b, area seatRing 1793 b → m'.rd (prevSlot b t) = m.rd (prevSlot b t) := by
    intro b hb
    refine hk _ ?_
    unfold prevSlot
    simp only [area, seatRing] at *
    split_ifs
    · omega
    · omega
  have hring : area seatRing 1793 (seatRing + s * 256) := by
    simp only [area]
    omega
  have hkp : area seatRing 1793 (seatKp + s * 256) := by
    simp only [area, seatRing, seatKp]
    omega
  rw [seatCells, seatCells, hcur _ hring, hcur _ hkp, hprev _ hring, hprev _ hkp]

theorem vdCell_out {a : Nat} (h : area seatRing 2048 a) : ¬ vdCell a := by
  simp only [area, seatRing] at h
  simp only [vdCell, callCell, gameCell, rngLo, rngHi, vdTmp, vdCur, vdPrev, vdKp, vdKppre, vdSide,
    vdCtrl, List.mem_cons, List.not_mem_nil, or_false]
  omega

theorem does_lsReplay (k : Cart) (m : Mach) {s : Nat} (hs : s < 4) :
    Does vdCell [] (vdCalls s (seatCells m s (m.rd tickLo))) m (lsReplay k m s) := by
  have h0 : Within vdCell m ((m.st vdSide s).st vdCtrl s) :=
    ((Does.refl _ m).st _ (by decide)).st _ (by decide)
  have h1 := h0.trans (does_lsVdispatch k ((m.st vdSide s).st vdCtrl s))
  have hside : ((m.st vdSide s).st vdCtrl s).rd vdSide = s := by
    rw [Mach.rd_st_ne _ _ (by decide), Mach.rd_st_self, cellMod_cart (by decide),
      Nat.mod_eq_of_lt (by omega)]
  rw [hside, h0.keep tickLo (by decide),
    seatCells_congr (fun a ha => h0.keep a (vdCell_out ha)) hs (m.rd_lt_cart (by decide))] at h1
  exact h1

/-- The calls of a tick: both seats, seat 0 first. -/
def tickCalls (m : Mach) : List Ev :=
  vdCalls 0 (seatCells m 0 (m.rd tickLo)) ++ vdCalls 1 (seatCells m 1 (m.rd tickLo))

theorem vdCalls_vcall {side : Nat} {c : SeatCells} {e : Ev} (he : e ∈ vdCalls side c) :
    ∃ slot r0, e = .vcall side slot r0 := by
  rw [vdCalls, List.mem_append, List.mem_append] at he
  unfold releaseCalls pressCalls discCalls at he
  rcases he with (he | he) | he
  · split_ifs at he
    · cases he
    · exact ⟨_, _, List.mem_singleton.mp he⟩
  · split_ifs at he
    · cases he
    · exact ⟨_, _, List.mem_singleton.mp he⟩
    · exact ⟨_, _, List.mem_singleton.mp he⟩
  · split_ifs at he
    · cases he
    · exact ⟨_, _, List.mem_singleton.mp he⟩
    · exact ⟨_, _, List.mem_singleton.mp he⟩
    · exact ⟨_, _, List.mem_singleton.mp he⟩
    · cases he

theorem tickCalls_vcall {m : Mach} {e : Ev} (he : e ∈ tickCalls m) :
    ∃ side slot r0, e = .vcall side slot r0 := by
  rcases List.mem_append.mp he with he | he
  · obtain ⟨slot, r0, rfl⟩ := vdCalls_vcall he
    exact ⟨_, _, _, rfl⟩
  · obtain ⟨slot, r0, rfl⟩ := vdCalls_vcall he
    exact ⟨_, _, _, rfl⟩

/-- Cells of a tick, the checksum record, the counter and RS_PENDING apart. -/
def playedCell (a : Nat) : Prop :=
  vdCell a ∨ area scCnt2 8 a ∨
    a ∈ [lsFroze, lsWaitcLo, lsWaitcHi, shadowCtrl, shadowCtrlR, gameTblLo, gameTblHi]

instance (a : Nat) : Decidable (playedCell a) := by unfold playedCell; infer_instance

theorem playedCell_out {a : Nat} (h : area seatRing 2048 a) : ¬ playedCell a := by
  have hv := vdCell_out h
  simp only [area, seatRing] at h
  intro hp
  refine hp.elim hv (fun hp => ?_)
  simp only [area, scCnt2, lsFroze, lsWaitcLo, lsWaitcHi, shadowCtrl, shadowCtrlR, gameTblLo,
    gameTblHi, List.mem_cons, List.not_mem_nil, or_false] at hp
  omega

theorem does_lsPlay (k : Cart) (m : Mach) :
    Does playedCell [] (lsTickEv m :: tickCalls m) m (lsPlay k m) := by
  have h0 := (Does.refl vdCell m).log (lsTickEv m)
  have h1 := h0.trans (does_lsReplay k (m.log (lsTickEv m)) (s := 0) (by decide))
  have h2 := h1.trans (does_lsReplay k (lsReplay k (m.log (lsTickEv m)) 0) (s := 1) (by decide))
  rw [h1.keep tickLo (by decide), seatCells_congr (fun a ha => h1.keep a (vdCell_out ha)) (by decide)
    (m.rd_lt_cart (by decide))] at h2
  have h3 := (h2.mono (T := playedCell) (fun _ => Or.inl)).game k.nbTick1
    (fun _ ha => Or.inl (Or.inl (Or.inl ha)))
  have hcopy : ∀ b, scCnt2 ≤ b → b < scCnt2 + 8 → playedCell b :=
    fun b hb1 hb2 => Or.inr (Or.inl ⟨hb1, hb2⟩)
  exact h3.copy hcopy

/-- `@@ls_run` up to the checksum report. -/
def lsPlayed (k : Cart) (m : Mach) : Mach := lsNull k (lsPlay k (lsRunHead k m))

theorem lsRun_eq (k : Cart) (m : Mach) :
    lsRun k m = rsPending (lsTickInc (lsCrc (lsPlayed k m))) := rfl

theorem within_lsTblAdopt (k : Cart) (m : Mach) : Within playedCell m (lsTblAdopt k m) := by
  unfold lsTblAdopt
  dsimp only
  split_ifs
  · exact Does.refl _ m
  · exact ((Does.refl _ m).st _ (by decide)).st _ (by decide)

theorem within_lsRunHead (k : Cart) (m : Mach) : Within playedCell m (lsRunHead k m) := by
  have hun : Within playedCell m (lsUnfreeze m) := by
    unfold lsUnfreeze
    split_ifs
    · exact Does.refl _ m
    · exact ((((Does.refl _ m).st _ (by decide)).st _ (by decide)).st _ (by decide)).st _ (by decide)
  have hsh : Within playedCell (lsUnfreeze m) (shadowFromRings (lsUnfreeze m)) :=
    ((Does.refl _ _).st _ (by decide)).st _ (by decide)
  have hinst : ∀ m, Within playedCell m (lsInstall m) := by
    intro m
    unfold lsInstall
    dsimp only
    split_ifs
    · exact Does.refl _ m
    · exact (Does.refl _ m).st _ (by decide)
  exact ((hun.within hsh).within (within_lsTblAdopt k _)).within (hinst _)

/-- The tick plays the cells it finds. -/
theorem does_lsPlayed (k : Cart) (m : Mach) :
    Does playedCell [] (lsTickEv m :: tickCalls m) m (lsPlayed k m) := by
  have h0 := within_lsRunHead k m
  have h1 := h0.trans (does_lsPlay k (lsRunHead k m))
  have hcells : ∀ s < 4, seatCells (lsRunHead k m) s (m.rd tickLo) = seatCells m s (m.rd tickLo) :=
    fun s hs => seatCells_congr (fun a ha => h0.keep a (playedCell_out ha)) hs
      (m.rd_lt_cart (by decide))
  have hlo := h0.keep tickLo (by decide)
  have hhi := h0.keep tickHi (by decide)
  have hev : lsTickEv (lsRunHead k m) = lsTickEv m := by
    rw [lsTickEv, lsTickEv, lsTick, lsTick, hlo, hhi, hcells 0 (by decide), hcells 1 (by decide)]
  have hcalls : tickCalls (lsRunHead k m) = tickCalls m := by
    rw [tickCalls, tickCalls, hlo, hcells 0 (by decide), hcells 1 (by decide)]
  rw [hev, hcalls] at h1
  exact (h1.within (within_lsTblAdopt k _)).st _ (by decide)

/-! ## The invariant rule -/

/-- The match set-up, the tick, the watermarks, the rings and the checksum records. -/
def watchCell (a : Nat) : Prop :=
  a ∈ [netSeat, netCount, netDelay, netDropped, tickLo, tickHi] ∨ area seatWm 8 a ∨
    area seatRing 2048 a ∨ area ownCrc 32 a

instance (a : Nat) : Decidable (watchCell a) := by unfold watchCell; infer_instance

/-- Stores to other cells, and slips. -/
def Aside (m m' : Mach) : Prop :=
  ∃ tx ev, Does (fun a => ¬ watchCell a) tx ev m m' ∧ ∀ e ∈ ev, e = .slip

theorem aside_of_within {S : Nat → Prop} {m m' : Mach} (h : Within S m m')
    (hS : ∀ a, S a → ¬ watchCell a) : Aside m m' := ⟨[], [], h.mono hS, nofun⟩

/-- What keeps a property of these cells and of the events along runs. -/
structure Steady (k : Cart) (ok P : Mach → Prop) : Prop where
  aside {m m' : Mach} : Aside m m' → P m → P m'
  frame {m : Mach} : ok m → P m → P (sesOnframe m)
  capture {m : Mach} : P m → P (lsCapture m)
  drop {m m' : Mach} : Within (fun a => ¬ watchCell a ∨ a = netDropped) m m' →
    m'.rd netDropped ≠ 0 → P m → P (lsIdleRmt m')
  tick {m : Mach} : m.rd netDropped ≠ 0 ∨ lsOpen m = true → P m →
    P (lsTickInc (lsCrc (lsPlayed k m)))
  push {m : Mach} : P m → P (rsPush m)

section
variable {k : Cart} {ok P : Mach → Prop} {m m' : Mach}

theorem watchCell_high {a : Nat} (h : watchCell a) : 0x8000 ≤ a := by
  simp only [watchCell, area, List.mem_cons, List.not_mem_nil, or_false, netSeat, netCount, netDelay,
    netDropped, tickLo, tickHi, seatWm, seatRing, ownCrc] at h
  omega

theorem pumpCell_aside {a : Nat} (h : pumpCell a) : ¬ watchCell a := by
  intro hw
  simp only [watchCell, area, List.mem_cons, List.not_mem_nil, or_false, netSeat, netCount, netDelay,
    netDropped, tickLo, tickHi, seatWm, seatRing, ownCrc] at hw
  simp only [pumpCell, parserCell, area, rxWr, rxRd, diagSlip, rxAcc, frmBuf] at h
  omega

theorem aside_ppCp (m : Mach) (got : List Byte) : Aside m (ppCp m got) := by
  refine aside_of_within (within_ppCp m got) (fun a ha => pumpCell_aside ?_)
  rcases ha with ha | ha
  · exact Or.inl (Or.inl ha)
  · exact Or.inl (Or.inr (Or.inr (Or.inr ha)))

theorem aside_ppSlip (m : Mach) : Aside m (ppSlip m) := by
  refine ⟨_, _, (does_ppSlip m).mono (fun a ha => pumpCell_aside ?_), by simp⟩
  rcases ha with ha | ha
  · exact Or.inl (Or.inr (Or.inl ha))
  · exact Or.inl (Or.inr (Or.inr (Or.inl ha)))

theorem aside_ppX (m : Mach) {n : Nat} (hn : n ≤ 100) : Aside m (ppX m frmBuf n) := by
  refine aside_of_within (within_ppX m frmBuf n) (fun a ha => pumpCell_aside ?_)
  rcases ha with ha | ha
  · exact Or.inl (Or.inr (Or.inl ha))
  · exact Or.inr ⟨ha.1, Nat.lt_of_lt_of_le ha.2 (Nat.add_le_add_left hn _)⟩

/-- A whole pump. -/
theorem Steady.pump (h : Steady k ok P) {got : List Byte}
    (hf : ∀ me ∈ ppEntries ppFuel (ppCp m got), ok me) (hm : P m) :
    (∀ me ∈ ppEntries ppFuel (ppCp m got), P me) ∧ ∀ m', sesPump m got = some m' → P m' :=
  ppLoop_rule (fun m => h.aside (aside_ppSlip m)) (fun m _ hn => h.aside (aside_ppX m hn)) ppFuel _
    (fun me hme => h.frame (hf me hme)) (h.aside (aside_ppCp m got) hm)

theorem Steady.freeze (h : Steady k ok P) (hm : P m) : P (lsFreeze m) := by
  have hout : ∀ a ∈ [lsFroze, lsSave102, isrPhase], ¬ watchCell a := by decide
  exact h.aside (aside_of_within (within_lsFreeze_own m) hout) hm

/-- A round of the gate or of a hold. -/
theorem Steady.countRound (h : Steady k ok P) {lo hi limit : Nat} {giveUp : Mach → Mach}
    (hlo : lo ∈ [lsWaitcLo, rsToLo]) (hhi : hi ∈ [lsWaitcHi, rsToHi])
    (hg : ∀ m, P m → P (giveUp m)) (hm : P m) : P (countRound lo hi limit giveUp m) := by
  have hcount : ∀ m', Within (fun a => a = lo ∨ a = hi) m m' → P m' := by
    intro m' hw
    have hin : ∀ a ∈ [lsWaitcLo, rsToLo, lsWaitcHi, rsToHi], ¬ watchCell a := by decide
    refine h.aside (aside_of_within hw (fun a ha => hin a ?_)) hm
    simp only [List.mem_cons, List.not_mem_nil, or_false] at hlo hhi ⊢
    rcases ha with rfl | rfl
    · tauto
    · tauto
  rcases countRound_cases lo hi limit giveUp m with hw | ⟨m1, hw, he⟩
  · exact hcount _ hw
  · rw [he]
    exact hg m1 (hcount _ hw)

theorem Steady.waitRound (h : Steady k ok P) (hm : P m) : P (lsWaitRound m) := by
  refine h.countRound (by decide) (by decide) (fun m hm => h.drop ?_ ?_ hm) hm
  · exact ((Does.refl _ m).st _ (Or.inl (by decide))).st _ (Or.inr rfl)
  · rw [Mach.rd_st_self]
    decide

theorem Steady.holdRound (h : Steady k ok P) (hm : P m) : P (lsHoldRound m) := by
  refine h.countRound (by decide) (by decide) (fun m hm => h.drop ?_ ?_ hm) hm
  · exact (((Does.refl _ m).st _ (Or.inl (by decide))).st _ (Or.inr rfl)).st _ (Or.inl (by decide))
  · rw [Mach.rd_st_ne _ _ (by decide), Mach.rd_st_self]
    decide

/-- RS_PENDING counts, or pushes. -/
theorem Steady.pending (h : Steady k ok P) (hm : P m) : P (rsPending m) := by
  have hin : ∀ a ∈ [rsPtmo, rsGate, rsWaited], ¬ watchCell a := by decide
  have hst : ∀ v, P (((m.st rsPtmo (m.rd rsPtmo + 1)).st rsGate v).st rsWaited
      (((m.st rsPtmo (m.rd rsPtmo + 1)).st rsGate v).rd rsPtmo)) := by
    intro v
    refine h.aside (aside_of_within (S := (· ∈ [rsPtmo, rsGate, rsWaited])) ?_ hin) hm
    exact (((Does.refl _ m).st _ (by decide)).st _ (by decide)).st _ (by decide)
  unfold rsPending
  dsimp only
  split_ifs
  · exact hm
  · exact h.push (hst 1)
  · refine h.aside (aside_of_within (S := (· = rsPtmo)) ((Does.refl _ m).st _ rfl) ?_) hm
    rintro a rfl
    decide
  · exact h.push (hst 2)

theorem Steady.run (h : Steady k ok P) (ho : m.rd netDropped ≠ 0 ∨ lsOpen m = true) (hm : P m) :
    P (lsRun k m) := h.pending (h.tick ho hm)

variable {c c' : Con}

/-- One step. -/
theorem Steady.step (h : Steady k ok P) (hm : P c.m) (hs : Step k ok c c') : P c'.m := by
  cases hs with
  | exec m f =>
    have hw : Within gameCell m (m.game f) := (Does.refl _ m).game f (fun _ ha => ha)
    refine h.aside (aside_of_within hw (fun a ha hc => ?_)) hm
    have hhigh := watchCell_high hc
    have hout : ∀ a ∈ [rngLo, rngHi], ¬ watchCell a := by decide
    rcases ha with ha | rfl | rfl
    · omega
    · exact hout _ (by simp) hc
    · exact hout _ (by simp) hc
  | turn hd hpu hf => exact h.capture ((h.pump hf hm).2 _ hpu)
  | wait hd ho hpu hf => exact h.waitRound ((h.pump hf (h.freeze hm)).2 _ hpu)
  | run ho => exact h.run ho hm
  | hold hs hd hh hpu hf => exact h.holdRound ((h.pump hf (h.freeze hm)).2 _ hpu)
  | @park m hs hd =>
    refine h.aside (aside_of_within (within_park m) (fun a ha hc => ?_)) hm
    have hhigh := watchCell_high hc
    have hout : ∀ a ∈ [uiColor, ppTmp, peerScr, lsFroze, lsSave102], ¬ watchCell a := by decide
    rcases ha with ha | ha
    · omega
    · exact hout a ha hc

/-- What START establishes holds at the first pass. -/
theorem Steady.began (h : Steady k ok P) {p : Mach} (hm : P (sesOnframe p)) (h0 : Began ok p m) :
    P m := by
  have hslip : ∀ m, P m → P (ppSlip m) := fun m hm => h.aside (aside_ppSlip m) hm
  have hx : ∀ m, ∀ n ≤ 100, P m → P (ppX m frmBuf n) := fun m n hn hm => h.aside (aside_ppX m hn) hm
  induction h0 with
  | start hl hf => exact (ppLoop_rule hslip hx _ _ (fun me hme => h.frame (hf me hme)) hm).2 _ hl
  | screen _ hw ih =>
    refine h.aside (aside_of_within hw (fun a ha hc => ?_)) ih
    have hhigh := watchCell_high hc
    have hout : ∀ a ∈ [uiColor, ppTmp, sesTmrLo, 0x32, isrPhase], ¬ watchCell a := by decide
    rcases ha with (ha | ha | ha) | ha
    · exact hout a (by simp [ha]) hc
    · exact hout a (by simp [ha]) hc
    · simp only [area, backtab] at ha
      omega
    · refine hout a ?_ hc
      simp only [List.mem_cons, List.not_mem_nil, or_false] at ha ⊢
      tauto
  | pump _ hp hf ih => exact (h.pump hf ih).2 _ hp

/-- So it is an invariant. -/
theorem Steady.steps (h : Steady k ok P) (hm : P c.m) (hs : Steps k ok c c') : P c'.m := by
  induction hs with
  | refl => exact hm
  | tail _ hstep ih => exact h.step ih hstep

end

end IntvBasketball.Console
