/-
  The checksum records of OWN_CRC.

  RS_RECORD_CRC and RS_ON_CRC take a tick's slot from bits 6 and up of TICK_LO, an 8-bit
  cell: two bits are left, so the ring has four slots and not the eight it has room for.
  `RingKept` says what the ring holds in every run: the newest record of each of these slots
  since the last RS_CLR_CRC. So of eight records in a row the four newest are found
  (`found_iff`).
-/
import Mathlib.Data.List.Induction
import IntvBasketball.Console.Calls

namespace IntvBasketball.Console

open Mach (Within Does Only)
open Relation (ReflTransGen)

/-! ## What was recorded -/

structure CrcRec where
  tick : Nat
  crc : Nat
deriving DecidableEq, Repr

/-- RS_RECORD_CRC appends; RS_ENTER_HOLD, RS_REBASE and START clear. -/
def crcStep (l : List CrcRec) : Ev → List CrcRec
  | .record t c _ _ => l ++ [⟨t, c⟩]
  | .hold => []
  | .rebase _ => []
  | .frame f => if byteAt f 1 = ftStart ∧ 38 ≤ byteAt f 0 then [] else l
  | _ => l

/-- The records since the last RS_CLR_CRC. -/
def recorded (ev : List Ev) : List CrcRec := ev.foldl crcStep []

theorem recorded_append (ev l : List Ev) : recorded (ev ++ l) = l.foldl crcStep (recorded ev) :=
  List.foldl_append

/-- Events that record and clear nothing. -/
def CrcIdle (l : List Ev) : Prop := ∀ e ∈ l, ∀ rs, crcStep rs e = rs

theorem CrcIdle.foldl {l : List Ev} (h : CrcIdle l) (rs : List CrcRec) :
    l.foldl crcStep rs = rs := by
  induction l with
  | nil => rfl
  | cons e l ih =>
    rw [List.foldl_cons, h e List.mem_cons_self]
    exact ih (fun e' he' => h e' (List.mem_cons_of_mem _ he'))

/-- The slot of a tick. -/
def slotOf (t : Nat) : Nat := t % 256 / 64

/-- The newest record for slot `s`. -/
def newest (rs : List CrcRec) (s : Nat) : Option CrcRec :=
  rs.reverse.find? (fun r => slotOf r.tick = s)

theorem newest_snoc (rs : List CrcRec) (r : CrcRec) (s : Nat) :
    newest (rs ++ [r]) s = if slotOf r.tick = s then some r else newest rs s := by
  rw [newest, List.reverse_append, List.reverse_singleton, List.singleton_append,
    List.find?_cons]
  by_cases h : slotOf r.tick = s
  · simp [h]
  · simp [h, newest]

theorem newest_append (old last : List CrcRec) (s : Nat) :
    newest (old ++ last) s = (newest last s).or (newest old s) := by
  rw [newest, List.reverse_append, List.find?_append]
  rfl

/-! ## What the ring holds -/

/-- The four cells of a slot. -/
def slotCells (m : Mach) (s : Nat) : List Nat :=
  [m.rd (ownCrc + 4 * s), m.rd (ownCrc + 4 * s + 1), m.rd (ownCrc + 4 * s + 2),
    m.rd (ownCrc + 4 * s + 3)]

/-- A record as RS_RECORD_CRC stores it; a slot that was cleared. -/
def recCells : Option CrcRec → List Nat
  | some r => [r.tick % 256, r.tick / 256, r.crc % 256, r.crc / 256]
  | none => [0xFF, 0xFF, 0xFF, 0xFF]

/-- Every slot holds its newest record. -/
def RingKept (m : Mach) : Prop := ∀ s < 4, slotCells m s = recCells (newest (recorded m.ev) s)

section
variable {m m' : Mach}

theorem slotCells_congr (hk : ∀ a, area ownCrc 32 a → m'.rd a = m.rd a) {s : Nat} (hs : s < 8) :
    slotCells m' s = slotCells m s := by
  have hcell : ∀ i < 4, m'.rd (ownCrc + 4 * s + i) = m.rd (ownCrc + 4 * s + i) := by
    intro i hi
    refine hk _ ?_
    simp only [area]
    omega
  have h0 := hcell 0 (by decide)
  rw [Nat.add_zero] at h0
  rw [slotCells, slotCells, h0, hcell 1 (by decide), hcell 2 (by decide), hcell 3 (by decide)]

theorem RingKept.congr (h : RingKept m) (hk : ∀ a, area ownCrc 32 a → m'.rd a = m.rd a) {l : List Ev}
    (hev : m'.ev = m.ev ++ l) (hl : CrcIdle l) : RingKept m' := by
  intro s hs
  rw [slotCells_congr hk (by omega), hev, recorded_append, hl.foldl, h s hs]

/-- RS_CLR_CRC. -/
theorem kept_cleared (hff : ∀ a, area ownCrc 32 a → m.rd a = 0xFF) (hev : recorded m.ev = []) :
    RingKept m := by
  intro s hs
  have hcell : ∀ i < 4, m.rd (ownCrc + 4 * s + i) = 0xFF := by
    intro i hi
    refine hff _ ?_
    simp only [area]
    omega
  have h0 := hcell 0 (by decide)
  rw [Nat.add_zero] at h0
  rw [hev, slotCells, h0, hcell 1 (by decide), hcell 2 (by decide), hcell 3 (by decide)]
  rfl

theorem rd_rsClrCrc (m : Mach) {a : Nat} (ha : area ownCrc 32 a) : (rsClrCrc m).rd a = 0xFF := by
  have hhigh : 0x8000 ≤ a := by
    simp only [area, ownCrc] at ha
    omega
  rw [rsClrCrc, Mach.rd_fill, if_pos ⟨ha.1, ha.2⟩, cellMod_cart hhigh]

theorem rd_rsRebase_crc (m : Mach) {a : Nat} (ha : area ownCrc 32 a) : (rsRebase m).rd a = 0xFF := by
  have hout : a ∉ [resyncHold, rsToLo, rsToHi, lsWaitcLo, lsWaitcHi] := by
    simp only [area, ownCrc] at ha
    simp only [List.mem_cons, List.not_mem_nil, or_false, resyncHold, rsToLo, rsToHi, lsWaitcLo,
      lsWaitcHi]
    omega
  rw [Mach.rd, rsRebase_eq]
  show (rbRelease (rbMiddle ((m.st rsPend 0).st rsPtmo 0))).rd a = 0xFF
  rw [(within_rbRelease_own _).keep a hout, rbMiddle, rd_rsClrCrc _ ha]

/-- The record RS_RECORD_CRC makes. -/
def nowRec (m : Mach) : CrcRec :=
  ⟨word (m.rd tickLo) (m.rd tickHi), word (m.rd lsTmpb) (m.rd lsTmpb2)⟩

theorem rsRecordCrc_eq (m : Mach) : rsRecordCrc m =
    (m.stList (ownCrc + 4 * (m.rd tickLo / 64))
      [m.rd tickLo, m.rd tickHi, m.rd lsTmpb, m.rd lsTmpb2]).log
      (.record (nowRec m).tick (nowRec m).crc (m.rd rsPend) (m.rd resyncHold)) := by
  have hlo := m.rd_lt_cart (a := tickLo) (by decide)
  have hslot : crcSlot (m.rd tickLo) = ownCrc + 4 * (m.rd tickLo / 64) := by
    unfold crcSlot
    omega
  have hne : ∀ a ∈ [tickLo, tickHi, lsTmpb, lsTmpb2, rsPend, resyncHold],
      ∀ i, a ≠ ownCrc + 4 * (m.rd tickLo / 64) + i := by
    intro a ha i
    have hlt : ∀ a ∈ [tickLo, tickHi, lsTmpb, lsTmpb2, rsPend, resyncHold], a < ownCrc := by decide
    have := hlt a ha
    omega
  have h0 : ∀ a ∈ [tickLo, tickHi, lsTmpb, lsTmpb2, rsPend, resyncHold],
      a ≠ ownCrc + 4 * (m.rd tickLo / 64) := fun a ha => hne a ha 0
  have hrd : ∀ a ∈ [tickLo, tickHi, lsTmpb, lsTmpb2, rsPend, resyncHold], ∀ (m' : Mach) (i v : Nat),
      (m'.st (ownCrc + 4 * (m.rd tickLo / 64) + i) v).rd a = m'.rd a :=
    fun a ha m' i v => Mach.rd_st_ne _ _ (hne a ha i)
  have hrd0 : ∀ a ∈ [tickLo, tickHi, lsTmpb, lsTmpb2, rsPend, resyncHold], ∀ (m' : Mach) (v : Nat),
      (m'.st (ownCrc + 4 * (m.rd tickLo / 64)) v).rd a = m'.rd a :=
    fun a ha m' v => Mach.rd_st_ne _ _ (h0 a ha)
  unfold rsRecordCrc
  dsimp only
  rw [hslot]
  simp only [hrd tickLo (by simp), hrd tickHi (by simp), hrd lsTmpb (by simp), hrd lsTmpb2 (by simp),
    hrd rsPend (by simp), hrd resyncHold (by simp), hrd0 tickLo (by simp), hrd0 tickHi (by simp),
    hrd0 lsTmpb (by simp), hrd0 lsTmpb2 (by simp), hrd0 rsPend (by simp), hrd0 resyncHold (by simp)]
  rfl

theorem slotOf_nowRec (m : Mach) : slotOf (nowRec m).tick = m.rd tickLo / 64 := by
  have hlo := m.rd_lt_cart (a := tickLo) (by decide)
  unfold slotOf nowRec word
  dsimp only
  omega

/-- Its slot holds the new record, the others what they held. -/
theorem slotCells_rsRecordCrc (m : Mach) {s : Nat} :
    slotCells (rsRecordCrc m) s =
      if slotOf (nowRec m).tick = s then recCells (some (nowRec m)) else slotCells m s := by
  have hlo := m.rd_lt_cart (a := tickLo) (by decide)
  have hhi := m.rd_lt_cart (a := tickHi) (by decide)
  have hb := m.rd_lt_cart (a := lsTmpb) (by decide)
  have hb2 := m.rd_lt_cart (a := lsTmpb2) (by decide)
  have hcart : ∀ i, cellMod (ownCrc + 4 * s + i) = 256 := by
    intro i
    refine cellMod_cart ?_
    simp only [ownCrc]
    omega
  rw [rsRecordCrc_eq, slotOf_nowRec]
  split_ifs with hs
  · subst hs
    have hget : ∀ (i : Nat) (hi : i < 4), ((m.stList (ownCrc + 4 * (m.rd tickLo / 64))
        [m.rd tickLo, m.rd tickHi, m.rd lsTmpb, m.rd lsTmpb2]).rd
        (ownCrc + 4 * (m.rd tickLo / 64) + i)) =
        [m.rd tickLo, m.rd tickHi, m.rd lsTmpb, m.rd lsTmpb2].get ⟨i, hi⟩ % 256 := by
      intro i hi
      rw [Mach.rd_stList _ _ hi, hcart]
      rfl
    have h0 := hget 0 (by decide)
    rw [Nat.add_zero] at h0
    rw [slotCells, Mach.rd_log, Mach.rd_log, Mach.rd_log, Mach.rd_log, h0, hget 1 (by decide),
      hget 2 (by decide), hget 3 (by decide)]
    simp only [recCells, nowRec, word, List.get_eq_getElem, List.getElem_cons_zero,
      List.getElem_cons_succ, List.cons.injEq, and_true]
    omega
  · have hget : ∀ i < 4, (m.stList (ownCrc + 4 * (m.rd tickLo / 64))
        [m.rd tickLo, m.rd tickHi, m.rd lsTmpb, m.rd lsTmpb2]).rd (ownCrc + 4 * s + i) =
        m.rd (ownCrc + 4 * s + i) := by
      intro i hi
      refine Mach.rd_stList_of_lt _ ?_
      simp only [List.length_cons, List.length_nil]
      omega
    have h0 := hget 0 (by decide)
    rw [Nat.add_zero] at h0
    rw [slotCells, Mach.rd_log, Mach.rd_log, Mach.rd_log, Mach.rd_log, h0, hget 1 (by decide),
      hget 2 (by decide), hget 3 (by decide), slotCells]

/-- RS_RECORD_CRC. -/
theorem kept_rsRecordCrc (h : RingKept m) : RingKept (rsRecordCrc m) := by
  intro s hs
  have hev : (rsRecordCrc m).ev = m.ev ++
      [.record (nowRec m).tick (nowRec m).crc (m.rd rsPend) (m.rd resyncHold)] := by
    rw [rsRecordCrc_eq, Mach.ev_log, ((Does.refl (fun _ => True) m).stList (fun _ _ _ => trivial)).ev_eq,
      List.append_nil]
  rw [slotCells_rsRecordCrc, hev, recorded_append, List.foldl_cons, List.foldl_nil]
  show _ = recCells (newest (recorded m.ev ++ [nowRec m]) s)
  rw [newest_snoc]
  split_ifs
  · rfl
  · exact h s hs

end

/-! ## In every run -/

/-- A START is for one of at most four seats. -/
def SmallStart (m : Mach) : Prop :=
  m.rd (frmBuf + 1) = ftStart → m.rd (frmBuf + 2) < 4 ∧ m.rd (frmBuf + 3) ≤ 4

instance (m : Mach) : Decidable (SmallStart m) := by unfold SmallStart; infer_instance

/-- One of at most four seats, and the ring kept. -/
structure Recording (m : Mach) : Prop where
  seat : m.rd netSeat < 4
  count : m.rd netCount ≤ 4
  ring : RingKept m

section
variable {m m' : Mach} {l : List Ev}

/-- Nothing happens to the seats and the ring. -/
theorem Recording.congr (h : Recording m)
    (hk : ∀ a, a = netSeat ∨ a = netCount ∨ area ownCrc 32 a → m'.rd a = m.rd a)
    (hev : m'.ev = m.ev ++ l) (hl : CrcIdle l) : Recording m' where
  seat := by
    rw [hk _ (Or.inl rfl)]
    exact h.seat
  count := by
    rw [hk _ (Or.inr (Or.inl rfl))]
    exact h.count
  ring := h.ring.congr (fun a ha => hk a (Or.inr (Or.inr ha))) hev hl

theorem Recording.only {S : Nat → Prop} {tx : List Byte} (h : Recording m) (hd : Does S tx l m m')
    (hS : ∀ a, a = netSeat ∨ a = netCount ∨ area ownCrc 32 a → ¬ S a) (hl : CrcIdle l) :
    Recording m' := h.congr (fun a ha => hd.keep a (hS a ha)) hd.ev_eq hl

/-- A clear. -/
theorem Recording.cleared (h : Recording m) (hk : ∀ a ∈ [netSeat, netCount], m'.rd a = m.rd a)
    (hff : ∀ a, area ownCrc 32 a → m'.rd a = 0xFF) (hev : recorded m'.ev = []) : Recording m' where
  seat := by
    rw [hk _ (by simp)]
    exact h.seat
  count := by
    rw [hk _ (by simp)]
    exact h.count
  ring := kept_cleared hff hev

theorem recorded_end (ev l : List Ev) {e : Ev} (he : ∀ rs, crcStep rs e = []) :
    recorded (ev ++ (l ++ [e])) = [] := by
  rw [recorded_append, List.foldl_append, List.foldl_cons, List.foldl_nil, he]

theorem recording_watch {a : Nat} (h : a = netSeat ∨ a = netCount ∨ area ownCrc 32 a) :
    watchCell a := by
  rcases h with rfl | rfl | h
  · decide
  · decide
  · exact Or.inr (Or.inr (Or.inr h))

theorem recording_rsOnState (h : Recording m) : Recording (rsOnState m) := by
  have hin : ∀ a ∈ [netSeat, netCount], ¬ stateCell a := by
    unfold stateCell dlCell
    decide
  obtain ⟨ev, hd, -⟩ := does_rsOnState m
  have hseats : ∀ a ∈ [netSeat, netCount], (rsOnState m).rd a = m.rd a :=
    fun a ha => hd.keep a (hin a ha)
  by_cases hc : IsCtl m
  · rw [rsOnState_ctl hc] at hseats ⊢
    unfold rsCtl at hseats ⊢
    split_ifs at hseats ⊢
    · refine h.only (within_diagBump m diagRej) ?_ nofun
      rintro a ha rfl
      revert ha
      unfold area
      decide
    · refine h.cleared hseats (fun a ha => ?_) ?_
      · have hne : a ≠ rsRLo ∧ a ≠ rsRHi := by
          simp only [area, ownCrc, rsRLo, rsRHi] at *
          omega
        rw [Mach.rd_st_ne _ _ hne.2, Mach.rd_st_ne _ _ hne.1, rsEnterHold, Mach.rd_log,
          rd_rsClrCrc _ ha]
      · rw [Mach.ev_st, Mach.ev_st, (does_rsEnterHold m).ev_eq]
        exact recorded_end m.ev [] (fun _ => rfl)
    · exact h
    · exact h
    · refine h.cleared hseats (fun a ha => rd_rsRebase_crc m ha) ?_
      rw [(does_rsRebase m).ev_eq]
      exact recorded_end m.ev [] (fun _ => rfl)
  · refine h.only (within_rsOnState_data hc) (fun a ha hcell => ?_) nofun
    have hhigh : a = netSeat ∨ a = netCount ∨ area ownCrc 32 a := ha
    rcases hcell with (hi | hs) | hr
    · have := imgCell_lt_of_mem hi
      rcases ha with rfl | rfl | ha
      · revert hi
        decide
      · revert hi
        decide
      · simp only [area, ownCrc] at ha
        omega
    · simp only [dlScratch, area, ownCrc, netSeat, netCount, List.mem_cons, List.not_mem_nil,
        or_false, rsTmp2, rsPosLo, rsPosHi, rsTmp] at ha hs
      omega
    · simp only [area, ownCrc, netSeat, netCount, diagRej] at ha hr
      omega

/-- Handlers other than START and STATE record and clear nothing. -/
theorem ev_sesDispatch_idle (hs : m.rd (frmBuf + 1) ≠ ftStart) (ht : m.rd (frmBuf + 1) ≠ ftState) :
    ∃ l, (sesDispatch m).ev = m.ev ++ l ∧ CrcIdle l := by
  have hnone : ∀ m' : Mach, m'.ev = m.ev ++ [] → ∃ l, m'.ev = m.ev ++ l ∧ CrcIdle l :=
    fun m' he => ⟨[], he, nofun⟩
  unfold sesDispatch
  dsimp only
  split_ifs
  · exact hnone _ (within_ofInput m).ev_eq
  · exact hnone _ (within_ofLobby m).ev_eq
  · exact hnone _ (within_ofPl m).ev_eq
  · exact hnone _ (within_ofRoom m).ev_eq
  · obtain ⟨tx, ev, hd, hev⟩ := does_rsOnCrc m
    refine ⟨ev, hd.ev_eq, ?_⟩
    rcases hev with rfl | rfl <;> simp [CrcIdle, crcEvent, crcStep]
  · obtain ⟨ev, hd, hev⟩ := does_rsOnReq m
    refine ⟨ev, hd.ev_eq, ?_⟩
    rcases hev with rfl | rfl <;> simp [CrcIdle, crcStep]
  · exact hnone _ (List.append_nil _).symm

/-- A frame that is not a START leaves the records of the history alone. -/
theorem crcIdle_frame (h : ¬ IsStart m) : CrcIdle [.frame (frameBytes m)] := by
  intro e he rs
  rw [List.mem_singleton.mp he]
  refine if_neg (fun hc => h ?_)
  have hlen := byteAt_frameBytes (m := m) (Nat.zero_le _)
  rw [Nat.add_zero] at hlen
  rw [hlen] at hc
  rw [byteAt_frameBytes (by omega)] at hc
  exact hc

/-- No frame but START and STATE gets at the ring. -/
theorem crc_not_reach {a : Nat} (ha : area ownCrc 32 a) : ¬ reachCell a := by
  have hlow : a < 0x8000 ∨ a = uiColor ∨ a = ppTmp → False := by
    simp only [area, ownCrc, uiColor, ppTmp] at *
    omega
  rintro (h | h | h | h | h | ⟨r, hr, h⟩)
  · simp only [inputArea, area, ownCrc, seatRing, seatWm] at *
    omega
  · simp only [roomArea, screenArea, area, ownCrc, roomCnt, roomHost, nameTbl, uiColor, ppTmp,
      backtab] at *
    omega
  · simp only [lobbyArea, screenArea, area, ownCrc, lobbyCnt, menuSel, lobbyCache, uiColor, ppTmp,
      backtab] at *
    omega
  · simp only [leftArea, area, ownCrc, List.mem_cons, List.not_mem_nil, or_false, leftSeat, peerWhy,
      netDropped, leftName, seatRing, seatWm] at *
    omega
  · simp only [pendCell, area, ownCrc, rsPend, rsPtmo] at *
    omega
  · have := rows_low hr h
    tauto

theorem recording_sesOnframe (hok : SmallStart m) (h : Recording m) : Recording (sesOnframe m) := by
  unfold sesOnframe
  by_cases hst : IsStart m
  · rw [sesDispatch_start (m := m.log _) hst.1]
    have ha := armed_ofStart (m := m.log (.frame (frameBytes m))) hst.2
    obtain ⟨h1, h2⟩ := hok hst.1
    refine ⟨ha.seat ▸ h1, ha.count ▸ h2, kept_cleared ha.crc ?_⟩
    rw [(within_ofStart _).ev_eq, List.append_nil, Mach.ev_log]
    refine recorded_end m.ev [] (fun rs => if_pos ?_)
    have hlen := byteAt_frameBytes (m := m) (Nat.zero_le _)
    rw [Nat.add_zero] at hlen
    rw [hlen, byteAt_frameBytes (by have := hst.2; omega)]
    exact hst
  · have hlog : Recording (m.log (.frame (frameBytes m))) :=
      h.congr (fun _ _ => rfl) rfl (crcIdle_frame hst)
    by_cases ht : m.rd (frmBuf + 1) = ftStart
    · rw [sesDispatch_shortStart (m := m.log _) ht hst]
      exact hlog
    · by_cases hs : m.rd (frmBuf + 1) = ftState
      · rw [sesDispatch_state (m := m.log _) hs]
        exact recording_rsOnState hlog
      · obtain ⟨l, hev, hl⟩ := ev_sesDispatch_idle (m := m.log (.frame (frameBytes m))) ht hs
        refine hlog.congr (fun a ha => ?_) hev hl
        refine sesDispatch_keep hlog.count ?_ (fun h => absurd h ht) (fun h => absurd h hs)
        rcases ha with rfl | rfl | ha
        · exact not_reachCell (by decide)
        · exact not_reachCell (by decide)
        · exact crc_not_reach ha

theorem recording_lsCapture (h : Recording m) : Recording (lsCapture m) := by
  have ho := only_lsCapture_own h.seat
  have hs := h.seat
  have hx : (lsTick m + m.rd netDelay) % 256 < 256 := Nat.mod_lt _ (by decide)
  have hev : (lsCapture m).ev = m.ev ++ [] := (List.append_nil _).symm
  refine h.congr (fun a ha => ho.keep ?_) hev nofun
  simp only [area, ownCrc, netSeat, netCount] at ha hs
  simp only [lsTmpb, lsTmpb2, seatRing, seatKp, netSeat]
  omega

/-- The checksum report. -/
theorem recording_lsCrc (h : Recording m) : Recording (lsCrc m) := by
  have hw : ∀ a, a = netSeat ∨ a = netCount ∨ area ownCrc 32 a →
      ¬ (a = 0x32 ∨ area 0x28 5 a) ∧ a ≠ lsTmpb ∧ a ≠ lsTmpb2 := by
    intro a ha
    simp only [area, ownCrc, netSeat, netCount, lsTmpb, lsTmpb2] at *
    omega
  unfold lsCrc
  split_ifs
  · exact h
  · have hd : Recording (rsDisplayReset m) :=
      h.only (within_rsDisplayReset m) (fun a ha => (hw a ha).1) (fun _ h => absurd h List.not_mem_nil)
    have hck : Recording (((rsDisplayReset m).st lsTmpb (lsCksum (rsDisplayReset m))).st lsTmpb2
        (lsCksum (rsDisplayReset m) / 256)) := by
      refine hd.congr (fun a ha => ?_) (List.append_nil _).symm (fun _ h => absurd h List.not_mem_nil)
      rw [Mach.rd_st_ne _ _ (hw a ha).2.2, Mach.rd_st_ne _ _ (hw a ha).2.1]
    obtain ⟨tx, ev, hrec⟩ := within_rsRecordCrc (m := ((rsDisplayReset m).st lsTmpb
      (lsCksum (rsDisplayReset m))).st lsTmpb2 (lsCksum (rsDisplayReset m) / 256))
    have hkeep : ∀ m : Mach, ∀ a ∈ [netSeat, netCount], (rsRecordCrc m).rd a = m.rd a := by
      intro m a ha
      have hlt : ∀ a ∈ [netSeat, netCount], a < ownCrc := by decide
      rw [rsRecordCrc_eq, Mach.rd_log]
      exact Mach.rd_stList_of_lt _ (Or.inl (Nat.lt_of_lt_of_le (hlt a ha) (Nat.le_add_right _ _)))
    refine ⟨?_, ?_, ?_⟩
    · rw [Mach.rd_netWrite, hkeep _ _ (by simp)]
      exact hck.seat
    · rw [Mach.rd_netWrite, hkeep _ _ (by simp)]
      exact hck.count
    · exact (kept_rsRecordCrc hck.ring).congr (fun _ _ => rfl) (List.append_nil _).symm (fun _ h => absurd h List.not_mem_nil)

theorem recording_tick (k : Cart) (h : Recording m) :
    Recording (lsTickInc (lsCrc (lsPlayed k m))) := by
  have hplay : Recording (lsPlayed k m) := by
    refine h.only (does_lsPlayed k m) (fun a ha hc => ?_) (fun e he rs => ?_)
    · simp only [area, ownCrc, netSeat, netCount] at ha
      simp only [playedCell, vdCell, callCell, gameCell, area, List.mem_cons, List.not_mem_nil,
        or_false, rngLo, rngHi, vdTmp, vdCur, vdPrev, vdKp, vdKppre, vdSide, vdCtrl, scCnt2, lsFroze,
        lsWaitcLo, lsWaitcHi, shadowCtrl, shadowCtrlR, gameTblLo, gameTblHi] at hc
      omega
    · rcases List.mem_cons.mp he with rfl | he
      · rfl
      · obtain ⟨side, slot, r0, rfl⟩ := tickCalls_vcall he
        rfl
  have hcrc := recording_lsCrc hplay
  obtain ⟨tx, ev, hd, hq⟩ := mute_lsTickInc (lsCrc (lsPlayed k m))
  refine hcrc.congr (fun a ha => hd.keep a ?_) (l := []) ?_ (fun _ h => absurd h List.not_mem_nil)
  · simp only [area, ownCrc, netSeat, netCount, tickLo, tickHi] at *
    omega
  · unfold lsTickInc
    dsimp only
    split_ifs
    · exact (List.append_nil _).symm
    · exact (List.append_nil _).symm

theorem recording_rsPush (h : Recording m) : Recording (rsPush m) := by
  have hout : ∀ a ∈ [netSeat, netCount], ¬ sentCell a := by decide
  obtain ⟨r, r', hev⟩ := ev_rsPush m
  refine h.cleared (fun a ha => (only_rsPush m).keep (hout a ha)) (fun a ha => ?_) ?_
  · exact rd_rsRebase_crc _ ha
  · rw [hev]
    exact recorded_end m.ev [_, _] (fun _ => rfl)

/-- So the ring is kept in every run. -/
theorem steady_recording (k : Cart) : Steady k SmallStart Recording where
  aside h hm := by
    obtain ⟨tx, ev, hd, hev⟩ := h
    refine hm.only hd (fun a ha hn => hn (recording_watch ha)) (fun e he rs => ?_)
    rw [hev e he]
    rfl
  frame := recording_sesOnframe
  capture := recording_lsCapture
  drop {m m'} hw _ hm := by
    have hne : ∀ a, a = netSeat ∨ a = netCount ∨ area ownCrc 32 a → a ≠ netDropped := by
      intro a ha
      simp only [area, ownCrc, netSeat, netCount, netDropped] at *
      omega
    have hm' : Recording m' := by
      refine hm.only hw (fun a ha hn => ?_) (fun _ h => absurd h List.not_mem_nil)
      rcases hn with hn | hn
      · exact hn (recording_watch ha)
      · exact hne a ha hn
    refine hm'.only (within_lsIdleRmt m') (fun a ha hn => ?_) (fun _ h => absurd h List.not_mem_nil)
    simp only [area, ownCrc, netSeat, netCount, seatRing, seatWm] at ha hn
    omega
  tick _ := recording_tick k
  push := recording_rsPush

end

/-! ## Which records are found -/

/-- RS_ON_CRC is entered with a peer's checksum for tick `t` in FRMBUF, the records of `m`, and
    no resync pending or held. -/
structure CrcFrame (m me : Mach) (t : Nat) : Prop where
  ring : ∀ a, area ownCrc 32 a → me.rd a = m.rd a
  len : 6 ≤ me.rd frmBuf
  tick : frameTick me = t
  hold : me.rd resyncHold = 0
  pend : me.rd rsPend = 0

/-- The checksum it carries. -/
def frameCrc (m : Mach) : Nat := word (m.rd (frmBuf + 5)) (m.rd (frmBuf + 6))

/-- It finds the record and compares. -/
def Compares (m : Mach) (r : CrcRec) : Prop :=
  ∀ me, CrcFrame m me r.tick → crcVerdict me = if frameCrc me = r.crc then .agree else .bad

section
variable {m me : Mach} {r : CrcRec} {rs : List CrcRec}

/-- What RS_ON_CRC makes of the cells of the slot. -/
theorem crcVerdict_slot {t : Nat} (h : CrcFrame m me t) {r : Option CrcRec}
    (hr : slotCells m (slotOf t) = recCells r) : crcVerdict me =
      match r with
      | some r => if r.tick ≠ t then .noRecord else if frameCrc me = r.crc then .agree else .bad
      | none => if t = 0xFFFF then (if frameCrc me = 0xFFFF then .agree else .bad) else .noRecord := by
  have h3 := me.rd_lt_cart (a := frmBuf + 3) (by decide)
  have h4 := me.rd_lt_cart (a := frmBuf + 4) (by decide)
  have h5 := me.rd_lt_cart (a := frmBuf + 5) (by decide)
  have h6 := me.rd_lt_cart (a := frmBuf + 6) (by decide)
  have ht := h.tick
  unfold frameTick word at ht
  have hslot : crcSlot (me.rd (frmBuf + 3)) = ownCrc + 4 * slotOf t := by
    unfold crcSlot slotOf
    omega
  have hcell : slotCells me (slotOf t) = recCells r := by
    rw [← hr]
    refine slotCells_congr h.ring ?_
    unfold slotOf
    omega
  unfold crcVerdict
  dsimp only
  rw [hslot, if_neg (by have := h.len; omega), if_neg (not_not.mpr h.hold),
    if_neg (not_not.mpr h.pend)]
  unfold frameCrc word
  cases r with
  | some r =>
    simp only [slotCells, recCells, List.cons.injEq, and_true] at hcell
    obtain ⟨c0, c1, c2, c3⟩ := hcell
    rw [c0, c1, c2, c3]
    dsimp only
    split_ifs
    all_goals first | rfl | (exfalso; omega)
  | none =>
    simp only [slotCells, recCells, List.cons.injEq, and_true] at hcell
    obtain ⟨c0, c1, c2, c3⟩ := hcell
    rw [c0, c1, c2, c3]
    dsimp only
    split_ifs
    all_goals first | rfl | (exfalso; omega)

/-- Some console gets such a frame. -/
theorem crcFrame_exists (m : Mach) {t : Nat} (ht : t < 65536) : ∃ me, CrcFrame m me t := by
  refine ⟨((m.st resyncHold 0).st rsPend 0).stList frmBuf [6, ftCrc, 1, t, t / 256], ?_⟩
  have hrd : ∀ a, a < frmBuf ∨ frmBuf + 5 ≤ a → (((m.st resyncHold 0).st rsPend 0).stList frmBuf
      [6, ftCrc, 1, t, t / 256]).rd a = ((m.st resyncHold 0).st rsPend 0).rd a :=
    fun a ha => Mach.rd_stList_of_lt _ ha
  have hget : ∀ (i : Nat) (hi : i < 5), (((m.st resyncHold 0).st rsPend 0).stList frmBuf
      [6, ftCrc, 1, t, t / 256]).rd (frmBuf + i) =
      [6, ftCrc, 1, t, t / 256].get ⟨i, hi⟩ % 256 := by
    intro i hi
    rw [Mach.rd_stList _ _ hi, cellMod_cart (Nat.le_trans (by decide) (Nat.le_add_right _ _))]
    rfl
  constructor
  · intro a ha
    have hne : frmBuf + 5 ≤ a ∧ a ≠ rsPend ∧ a ≠ resyncHold := by
      simp only [area, ownCrc, frmBuf, rsPend, resyncHold] at *
      omega
    rw [hrd a (Or.inr hne.1), Mach.rd_st_ne _ _ hne.2.1, Mach.rd_st_ne _ _ hne.2.2]
  · have h0 := hget 0 (by decide)
    rw [Nat.add_zero] at h0
    rw [h0]
    exact Nat.le_refl 6
  · rw [frameTick, hget 3 (by decide), hget 4 (by decide)]
    simp only [word, List.get_eq_getElem, List.getElem_cons_succ, List.getElem_cons_zero]
    omega
  · rw [hrd _ (by decide), Mach.rd_st_ne _ _ (by decide), Mach.rd_st_self, Nat.zero_mod]
  · rw [hrd _ (by decide), Mach.rd_st_self, Nat.zero_mod]

theorem newest_get {i : Nat} (hi : i < rs.length)
    (hlater : ∀ j (hj : j < rs.length), i < j → slotOf (rs[j]).tick ≠ slotOf (rs[i]).tick) :
    newest rs (slotOf (rs[i]).tick) = some rs[i] := by
  induction rs using List.reverseRecOn with
  | nil => exact absurd hi (Nat.not_lt_zero i)
  | append_singleton rs r ih =>
    rw [newest_snoc]
    by_cases hlast : i = rs.length
    · subst hlast
      simp
    · have hlt : i < rs.length := by
        rw [List.length_append, List.length_singleton] at hi
        omega
      have hget : (rs ++ [r])[i] = rs[i] := List.getElem_append_left hlt
      have hr := hlater rs.length (by simp) hlt
      rw [List.getElem_concat_length rfl] at hr
      rw [if_neg hr, hget]
      refine ih hlt (fun j hj hij => ?_)
      have := hlater j (by rw [List.length_append]; omega) hij
      rwa [List.getElem_append_left hj, hget] at this

/-- A record that is the newest of its slot is found. -/
theorem compares_newest (h : RingKept m) (hr : newest (recorded m.ev) (slotOf r.tick) = some r) :
    Compares m r := by
  intro me hme
  have hslot : slotOf r.tick < 4 := by
    unfold slotOf
    omega
  have hv := crcVerdict_slot hme ((h _ hslot).trans (congrArg recCells hr))
  rw [hv]
  exact if_neg (not_not.mpr rfl)

/-- One that another tick's has replaced is not. -/
theorem not_compares_replaced (h : RingKept m) (ht : r.tick < 65536) {r' : CrcRec}
    (hr : newest (recorded m.ev) (slotOf r.tick) = some r') (hne : r'.tick ≠ r.tick) :
    ¬ Compares m r := by
  intro hc
  obtain ⟨me, hme⟩ := crcFrame_exists m ht
  have hslot : slotOf r.tick < 4 := by
    unfold slotOf
    omega
  have hv := crcVerdict_slot hme ((h _ hslot).trans (congrArg recCells hr))
  have hn : crcVerdict me = .noRecord := hv.trans (if_pos hne)
  rw [hc me hme] at hn
  split_ifs at hn

end

/-- Eight CRC ticks in a row, from `64 * n` on. -/
def eightTicks (n : Nat) : List Nat := (List.range 8).map (fun i => 64 * (n + i) % 65536)

/-- The four newest of eight records in a row are found, the four older ones are not. -/
theorem eight_records {m : Mach} (h : RingKept m) {old last : List CrcRec} {n : Nat}
    (hrec : recorded m.ev = old ++ last) (hlast : last.map CrcRec.tick = eightTicks n) {i : Nat}
    (hi : i < last.length) : Compares m last[i] ↔ 4 ≤ i := by
  have hlen : last.length = 8 := by
    have := congrArg List.length hlast
    rwa [List.length_map] at this
  have htick : ∀ j (hj : j < last.length), (last[j]).tick = 64 * (n + j) % 65536 := by
    intro j hj
    have := List.getElem_of_eq hlast (i := j) (by rwa [List.length_map])
    rw [List.getElem_map] at this
    rw [this]
    simp only [eightTicks, List.getElem_map, List.getElem_range]
  -- from the fourth on, each is the newest of its slot
  have hnewest : ∀ j (hj : j < last.length), 4 ≤ j →
      newest (recorded m.ev) (slotOf (last[j]).tick) = some last[j] := by
    intro j hj h4
    rw [hrec, newest_append, newest_get hj (fun k hk hjk => ?_), Option.some_or]
    rw [htick k hk, htick j hj]
    unfold slotOf
    omega
  constructor
  · intro hc
    by_contra h4
    have hi4 : i + 4 < last.length := by omega
    have hslot : slotOf (last[i + 4]).tick = slotOf (last[i]).tick := by
      rw [htick _ hi4, htick i hi]
      unfold slotOf
      omega
    have hrep := hnewest (i + 4) hi4 (by omega)
    rw [hslot] at hrep
    have ht : (last[i]).tick < 65536 := by
      rw [htick i hi]
      omega
    refine not_compares_replaced h ht hrep ?_ hc
    rw [htick _ hi4, htick i hi]
    omega
  · intro h4
    exact compares_newest h (hnewest i hi h4)

theorem recording_start {p : Mach} (hp : IsStart p) (hs : SmallStart p) :
    Recording (sesOnframe p) := by
  have ha := armed_ofStart (m := p.log (.frame (frameBytes p))) hp.2
  obtain ⟨h1, h2⟩ := hs hp.1
  rw [sesOnframe, sesDispatch_start (m := p.log _) hp.1]
  refine ⟨ha.seat ▸ h1, ha.count ▸ h2, kept_cleared ha.crc ?_⟩
  rw [(within_ofStart _).ev_eq, List.append_nil, Mach.ev_log]
  refine recorded_end p.ev [] (fun rs => if_pos ?_)
  have hlen := byteAt_frameBytes (m := p) (Nat.zero_le _)
  rw [Nat.add_zero] at hlen
  rw [hlen, byteAt_frameBytes (by have := hp.2; omega)]
  exact hp

/-! ## A match that goes on -/

/-- A read that is one whole frame, from an empty accumulator. -/
theorem sesPump_frame {m : Mach} {f : List Byte} (h : Acc m []) (hlen : f.length < 256)
    (hf : sesPeek f = .emit (.frame f) f.length) : ∃ me, Within pumpCell m me ∧
      (∀ i (hi : i < f.length), me.rd (frmBuf + i) = f[i].toNat) ∧ frameBytes me = f ∧
      (PumpSafe me → sesPump m f = some (sesOnframe me) ∧ ppEntries ppFuel (ppCp m f) = [me] ∧
        Acc (sesOnframe me) []) := by
  have hcp : Acc (ppCp m f) f := by
    have := ppCp_acc h f (by rwa [List.length_nil, Nat.zero_add])
    rwa [List.nil_append] at this
  obtain ⟨me, hr, ha, hw, hbytes, -, hbuf⟩ := ppRound_frame_acc hcp hf
  rw [List.drop_length] at ha
  have hwcp : Within pumpCell m (ppCp m f) := by
    refine (within_ppCp m f).mono (fun a ha => ?_)
    rcases ha with ha | ha
    · exact Or.inl (Or.inl ha)
    · exact Or.inl (Or.inr (Or.inr (Or.inr ha)))
  have hwx : Within pumpCell (ppCp m f) me := by
    refine hw.mono (fun a ha => ?_)
    rcases ha with ha | ha
    · exact Or.inl (Or.inr (Or.inl ha))
    · exact Or.inr ha
  refine ⟨me, hwcp.within hwx, hbuf, hbytes, fun hsafe => ?_⟩
  have hacc : Acc (sesOnframe me) [] := ha.congr (sesOnframe_keeps hsafe).1
  have hdone : ppRound (sesOnframe me) = .done := ppRound_more hacc rfl
  refine ⟨?_, ?_, hacc⟩
  · rw [sesPump, ppFuel, ppLoop, hr]
    dsimp only
    rw [ppLoop, hdone]
  · rw [ppFuel, ppEntries, hr]
    dsimp only
    rw [ppEntries, hdone]

/-- INPUT of seat 1 for tick `t`, nothing pressed. -/
def idleInput (t : Nat) : List Byte := [6, 6, 1, UInt8.ofNat t, UInt8.ofNat (t / 256), 0x40, 0]

/-- A host due tick `n` of a match of two, with seat 1's inputs up to tick `w`. -/
structure InStep (n w : Nat) (m : Mach) : Prop where
  acc : Acc m []
  due : lsDue m = true
  pend : m.rd rsPend = 0
  seat : m.rd netSeat = 0
  count : m.rd netCount = 2
  tick : lsTick m = n
  mark : seatMark m 1 = w

/-- The cells of it. -/
def stepCell (a : Nat) : Prop :=
  parserCell a ∨ area seatWm 8 a ∨
    a ∈ [peerScr, netDropped, resyncHold, rsPend, netSeat, netCount, tickLo, tickHi]

instance (a : Nat) : Decidable (stepCell a) := by unfold stepCell; infer_instance

section
variable {k : Cart} {n w : Nat} {m m' : Mach}

theorem lsDue_congr (hk : ∀ a ∈ [peerScr, netDropped, resyncHold], m'.rd a = m.rd a) :
    lsDue m' = lsDue m := by
  rw [lsDue, lsDue, hk peerScr (by simp), hk netDropped (by simp), hk resyncHold (by simp)]

theorem InStep.congr (h : InStep n w m) (hk : ∀ a, stepCell a → m'.rd a = m.rd a) :
    InStep n w m' where
  acc := h.acc.congr (fun a ha => hk a (Or.inl ha))
  due := by
    have hsub : ∀ a ∈ [peerScr, netDropped, resyncHold], stepCell a := by decide
    exact (lsDue_congr (fun a ha => hk a (hsub a ha))).trans h.due
  pend := (hk _ (by decide)).trans h.pend
  seat := (hk _ (by decide)).trans h.seat
  count := (hk _ (by decide)).trans h.count
  tick := by
    rw [lsTick, hk _ (by decide), hk _ (by decide)]
    exact h.tick
  mark := by
    rw [seatMark, hk _ (by decide), hk _ (by decide)]
    exact h.mark

theorem sesPeek_idleInput (t : Nat) :
    sesPeek (idleInput t) = .emit (.frame (idleInput t)) (idleInput t).length := rfl

/-- The next input comes in and is taken. -/
theorem InStep.input (h : InStep n w m) (hw : w + 1 < 32768) : ∃ m1,
    sesPump m (idleInput (w + 1)) = some m1 ∧
      (∀ me ∈ ppEntries ppFuel (ppCp m (idleInput (w + 1))), SmallStart me) ∧
      InStep n (w + 1) m1 ∧ recorded m1.ev = recorded m.ev := by
  obtain ⟨me, hwi, hbuf, -, hpump⟩ := sesPump_frame (f := idleInput (w + 1)) h.acc
    (show 7 < 256 by decide) (sesPeek_idleInput (w + 1))
  have hrd : ∀ i (hi : i < 7), me.rd (frmBuf + i) = (idleInput (w + 1))[i].toNat := hbuf
  have htype : me.rd (frmBuf + 1) = ftInput := hrd 1 (by decide)
  have hcount : me.rd netCount = 2 := (hwi.keep _ (by decide)).trans h.count
  have hseat : me.rd netSeat = 0 := (hwi.keep _ (by decide)).trans h.seat
  have hmark : seatMark me 1 = w := by
    rw [seatMark, hwi.keep _ (by decide), hwi.keep _ (by decide)]
    exact h.mark
  have htick : frameTick me = w + 1 := by
    have h3 := hrd 3 (by decide)
    have h4 := hrd 4 (by decide)
    simp only [idleInput, List.getElem_cons_succ, List.getElem_cons_zero, UInt8.toNat_ofNat'] at h3 h4
    rw [frameTick, h3, h4, word]
    omega
  have hr : me.rd (frmBuf + 2) = 1 := hrd 2 (by decide)
  have hlen : me.rd frmBuf = 6 := hrd 0 (by decide)
  have hacc : inputAccepted me = true := by
    have hnext : sub16 (w + 1) w = 1 := by
      unfold sub16
      omega
    rw [inputAccepted_tests, hr, hseat, hcount, htick, hmark, hlen, hnext]
    decide
  have hsafe : PumpSafe me := pumpSafe_of_count (by omega)
  obtain ⟨hp, hent, hacc'⟩ := hpump hsafe
  have hdisp : sesOnframe me = ofInput (me.log (.frame (frameBytes me))) := by
    rw [sesOnframe, sesDispatch_input (m := me.log _) htype]
  have hsmall : SmallStart me := fun ht => by
    rw [htype] at ht
    cases ht
  -- what is not a ring cell or a watermark stays
  have hkeep : ∀ a, a ∈ [peerScr, netDropped, resyncHold, rsPend, netSeat, netCount, tickLo, tickHi] →
      (sesOnframe me).rd a = m.rd a := by
    intro a ha
    have hout : ∀ a ∈ [peerScr, netDropped, resyncHold, rsPend, netSeat, netCount, tickLo, tickHi],
        ¬ inputArea a ∧ ¬ pumpCell a := by
      unfold inputArea
      decide
    rw [hdisp, ofInput_keep (m := me.log _) (by rw [Mach.rd_log]; omega) (hout a ha).1, Mach.rd_log,
      hwi.keep a (hout a ha).2]
  refine ⟨sesOnframe me, hp, ?_, ⟨hacc', ?_, ?_, ?_, ?_, ?_, ?_⟩, ?_⟩
  · rw [hent]
    intro me' hme'
    rw [List.mem_singleton.mp hme']
    exact hsmall
  · have hsub : ∀ a ∈ [peerScr, netDropped, resyncHold], a ∈ [peerScr, netDropped, resyncHold, rsPend,
        netSeat, netCount, tickLo, tickHi] := by decide
    exact (lsDue_congr (fun a ha => hkeep a (hsub a ha))).trans h.due
  · exact (hkeep _ (by simp)).trans h.pend
  · exact (hkeep _ (by simp)).trans h.seat
  · exact (hkeep _ (by simp)).trans h.count
  · rw [lsTick, hkeep _ (by simp), hkeep _ (by simp)]
    exact h.tick
  · have hseat1 := seatMark_ofInput (m := me.log (.frame (frameBytes me))) hacc
      (by rw [Mach.rd_log, hr]; decide)
    rw [Mach.rd_log, hr] at hseat1
    rw [hdisp, hseat1]
    exact htick
  · have hidle := crcIdle_frame (m := me) (fun hst => by
      have := hst.1
      rw [htype] at this
      cases this)
    rw [hdisp, (within_ofInput _).ev_eq, List.append_nil, Mach.ev_log, recorded_append, hidle.foldl,
      hwi.ev_eq, List.append_nil]

/-- The capture changes none of it. -/
theorem InStep.capture (h : InStep n w m) : InStep n w (lsCapture m) := by
  have ho := only_lsCapture_own (m := m) (by rw [h.seat]; decide)
  have hx : (lsTick m + m.rd netDelay) % 256 < 256 := Nat.mod_lt _ (by decide)
  refine h.congr (fun a ha => ho.keep ?_)
  rw [h.seat]
  simp only [stepCell, parserCell, area, List.mem_cons, List.not_mem_nil, or_false, rxWr, rxRd,
    diagSlip, rxAcc, seatWm, peerScr, netDropped, resyncHold, rsPend, netSeat, netCount, tickLo,
    tickHi] at ha
  simp only [lsTmpb, lsTmpb2, seatRing, seatKp]
  omega

theorem InStep.open (h : InStep n w m) (hn : n ≤ w) (hw : w < 32768) : lsOpen m = true := by
  have hslack : lsSlack m 1 = w - n := by
    show sub16 (seatMark m 1) (lsTick m) = w - n
    rw [h.mark, h.tick]
    unfold sub16
    omega
  rw [lsOpen, h.count]
  refine List.all_eq_true.mpr (fun r hr => ?_)
  have hr2 : r = 0 ∨ r = 1 := by
    have := List.mem_range.mp hr
    omega
  rcases hr2 with rfl | rfl
  · rw [h.seat]
    rfl
  · rw [hslack]
    simp only [neg16, Bool.or_eq_true, Bool.not_eq_true', decide_eq_false_iff_not]
    exact Or.inr (by omega)

theorem ev_lsTickInc (m : Mach) : (lsTickInc m).ev = m.ev := by
  unfold lsTickInc
  dsimp only
  split_ifs
  · rfl
  · rfl

/-- The report of a CRC tick leaves its record. -/
theorem recorded_lsCrc (m : Mach) : (recorded (lsCrc m).ev).map CrcRec.tick =
    (recorded m.ev).map CrcRec.tick ++ (if lsTick m % 64 = 0 then [lsTick m] else []) := by
  have hmod : lsTick m % 64 = m.rd tickLo % 64 := by
    have := lsTick_mod m
    omega
  rw [hmod, lsCrc]
  split_ifs with h
  · rw [List.append_nil]
  · have hd := within_rsDisplayReset m
    have hlo : (nowRec (((rsDisplayReset m).st lsTmpb (lsCksum (rsDisplayReset m))).st lsTmpb2
        (lsCksum (rsDisplayReset m) / 256))).tick = lsTick m := by
      have hout : ∀ a ∈ [tickLo, tickHi], ¬ (a = 0x32 ∨ area 0x28 5 a) := by
        unfold area
        decide
      rw [nowRec, Mach.rd_st_ne _ _ (by decide), Mach.rd_st_ne _ _ (by decide),
        Mach.rd_st_ne _ _ (by decide), Mach.rd_st_ne _ _ (by decide), hd.keep _ (hout _ (by simp)),
        hd.keep _ (hout _ (by simp))]
      rfl
    dsimp only
    rw [Mach.ev_netWrite, rsRecordCrc_eq, Mach.ev_log,
      ((Does.refl (fun _ => True) _).stList (fun _ _ _ => trivial)).ev_eq, List.append_nil,
      Mach.ev_st, Mach.ev_st, hd.ev_eq, List.append_nil, recorded_append, List.foldl_cons,
      List.foldl_nil, hlo]
    show (recorded m.ev ++ [_]).map _ = _
    rw [List.map_append]
    rfl
  · omega

theorem stepCell_out {a : Nat} (h : stepCell a) : ¬ playedCell a ∧ ¬ beatCell a := by
  simp only [stepCell, parserCell, area, List.mem_cons, List.not_mem_nil, or_false, rxWr, rxRd,
    diagSlip, rxAcc, seatWm, peerScr, netDropped, resyncHold, rsPend, netSeat, netCount, tickLo,
    tickHi] at h
  simp only [playedCell, vdCell, callCell, beatCell, actCell, gameCell, area, ownCrc, List.mem_cons,
    List.not_mem_nil, or_false, rngLo, rngHi, scCnt2, vdTmp, vdSide, vdCur, vdPrev, vdKp, vdKppre,
    vdCtrl, shadowCtrl, shadowCtrlR, gameTblLo, gameTblHi, lsTmpb, lsTmpb2, lsFroze, lsWaitcLo,
    lsWaitcHi]
  omega

/-- The tick, with its record if it is a CRC tick. -/
theorem InStep.run (h : InStep n w m) (hn : n < 65535) : InStep (n + 1) w (lsRun k m) ∧
    (recorded (lsRun k m).ev).map CrcRec.tick =
      (recorded m.ev).map CrcRec.tick ++ (if n % 64 = 0 then [n] else []) := by
  have hplay := does_lsPlayed k m
  have hcrc := (mute_lsCrc (lsPlayed k m)).only
  have hinc := (mute_lsTickInc (lsCrc (lsPlayed k m))).only
  have hkeep : ∀ a, stepCell a → (lsCrc (lsPlayed k m)).rd a = m.rd a := by
    intro a ha
    have hout := stepCell_out ha
    rw [hcrc.keep hout.2, hplay.keep a hout.1]
  have htick : lsTick (lsCrc (lsPlayed k m)) = n := (h.congr hkeep).tick
  have hstep : InStep (n + 1) w (lsTickInc (lsCrc (lsPlayed k m))) := by
    have hk : ∀ a, stepCell a → a ≠ tickLo → a ≠ tickHi →
        (lsTickInc (lsCrc (lsPlayed k m))).rd a = m.rd a := by
      intro a ha hlo hhi
      rw [hinc.keep (fun hc => hc.elim hlo hhi), hkeep a ha]
    have hfix : ∀ a ∈ [peerScr, netDropped, resyncHold, rsPend, netSeat, netCount],
        stepCell a ∧ a ≠ tickLo ∧ a ≠ tickHi := by decide
    have hfix' : ∀ a ∈ [peerScr, netDropped, resyncHold, rsPend, netSeat, netCount],
        (lsTickInc (lsCrc (lsPlayed k m))).rd a = m.rd a := fun a ha =>
      hk a (hfix a ha).1 (hfix a ha).2.1 (hfix a ha).2.2
    have hparser : ∀ a, parserCell a → a ≠ tickLo ∧ a ≠ tickHi := by
      intro a ha
      simp only [parserCell, area, rxWr, rxRd, diagSlip, rxAcc, tickLo, tickHi] at *
      omega
    constructor
    · exact h.acc.congr (fun a ha => hk a (Or.inl ha) (hparser a ha).1 (hparser a ha).2)
    · have hsub : ∀ a ∈ [peerScr, netDropped, resyncHold],
          a ∈ [peerScr, netDropped, resyncHold, rsPend, netSeat, netCount] := by decide
      exact (lsDue_congr (fun a ha => hfix' a (hsub a ha))).trans h.due
    · exact (hfix' _ (by simp)).trans h.pend
    · exact (hfix' _ (by simp)).trans h.seat
    · exact (hfix' _ (by simp)).trans h.count
    · rw [lsTick_lsTickInc, htick]
      omega
    · rw [seatMark, hk _ (by decide) (by decide) (by decide), hk _ (by decide) (by decide) (by decide)]
      exact h.mark
  have hrun : lsRun k m = lsTickInc (lsCrc (lsPlayed k m)) := by
    rw [lsRun_eq, rsPending, if_pos (Or.inl hstep.pend)]
  refine ⟨hrun ▸ hstep, ?_⟩
  have hidle : CrcIdle (lsTickEv m :: tickCalls m) := by
    intro e he rs
    rcases List.mem_cons.mp he with rfl | he
    · rfl
    · obtain ⟨side, slot, r0, rfl⟩ := tickCalls_vcall he
      rfl
  rw [hrun, ev_lsTickInc, recorded_lsCrc, hplay.ev_eq, recorded_append, hidle.foldl]
  have hsame : lsTick (lsPlayed k m) = n := by
    rw [lsTick, hplay.keep _ (by decide), hplay.keep _ (by decide)]
    exact h.tick
  rw [hsame]

/-- One pass. -/
theorem InStep.pass (h : InStep n w m) (hn : n ≤ w + 1) (hw : w + 1 < 32768) : ∃ m',
    Steps k SmallStart ⟨m, .top⟩ ⟨m', .top⟩ ∧ InStep (n + 1) (w + 1) m' ∧
      (recorded m'.ev).map CrcRec.tick =
        (recorded m.ev).map CrcRec.tick ++ (if n % 64 = 0 then [n] else []) := by
  obtain ⟨m1, hp, hf, h1, hrec⟩ := h.input hw
  have h2 := h1.capture
  obtain ⟨h3, hrec3⟩ := h2.run (k := k) (by omega)
  refine ⟨lsRun k (lsCapture m1), ?_, h3, ?_⟩
  · exact (ReflTransGen.single (.turn h.due hp hf)).tail (.run (Or.inr (h2.open hn hw)))
  · have hcap : (lsCapture m1).ev = m1.ev := rfl
    rw [hrec3, hcap, hrec]

/-- Many. -/
theorem InStep.passes (h : InStep n w m) (hn : n ≤ w + 1) {j : Nat} (hw : w + j < 32768) : ∃ m',
    Steps k SmallStart ⟨m, .top⟩ ⟨m', .top⟩ ∧ InStep (n + j) (w + j) m' ∧
      (recorded m'.ev).map CrcRec.tick =
        (recorded m.ev).map CrcRec.tick ++ (List.range' n j).filter (· % 64 = 0) := by
  induction j with
  | zero => exact ⟨m, .refl, h, by simp⟩
  | succ j ih =>
    obtain ⟨m1, hs1, h1, hrec1⟩ := ih (by omega)
    obtain ⟨m2, hs2, h2, hrec2⟩ := h1.pass (k := k) (by omega) (by omega)
    refine ⟨m2, hs1.trans hs2, h2, ?_⟩
    rw [hrec2, hrec1, List.range'_concat, List.filter_append, List.append_assoc, Nat.one_mul,
      List.filter_singleton]
    by_cases hz : (n + j) % 64 = 0
    · simp [hz]
    · simp [hz]

end

/-- The match of `hostFrame`, with delay 3. -/
theorem start_host : IsStart (hostFrame 3) ∧ SmallStart (hostFrame 3) := by
  decide +kernel

theorem inStep_start : InStep 0 2 (sesOnframe (hostFrame 3)) := by
  refine ⟨Acc.nil (by decide +kernel), by decide +kernel, by decide +kernel, by decide +kernel,
    by decide +kernel, by decide +kernel, by decide +kernel⟩

theorem began_start : Began SmallStart (hostFrame 3) (sesOnframe (hostFrame 3)) := by
  have hempty : (sesOnframe (hostFrame 3)).rd rxWr = (sesOnframe (hostFrame 3)).rd rxRd := by
    decide +kernel
  exact .start (ppLoop_idle hempty 0).1 (by rw [(ppLoop_idle hempty 0).2]; nofun)

/-- After 449 passes eight checksums in a row are recorded, those of ticks 0, 64, .., 448. -/
theorem eight_recorded : ∃ m', Steps stillCart SmallStart ⟨sesOnframe (hostFrame 3), .top⟩ ⟨m', .top⟩ ∧
    (recorded m'.ev).map CrcRec.tick = eightTicks 0 := by
  obtain ⟨m', hs, -, hrec⟩ :=
    inStep_start.passes (k := stillCart) (j := 449) (by decide) (by decide)
  refine ⟨m', hs, hrec.trans ?_⟩
  have hnone : recorded (sesOnframe (hostFrame 3)).ev = [] := by decide +kernel
  rw [hnone]
  decide +kernel

/-- In every run of a match: of the last eight records, if they are those of eight CRC ticks in
    a row, exactly the four newest are found and compared. -/
theorem found_iff {k : Cart} {p m0 : Mach} {c : Con} (hp : IsStart p) (hs : SmallStart p)
    (h0 : Began SmallStart p m0) (h : Steps k SmallStart ⟨m0, .top⟩ c) {old last : List CrcRec}
    {n : Nat} (hrec : recorded c.m.ev = old ++ last) (hlast : last.map CrcRec.tick = eightTicks n)
    {i : Nat} (hi : i < last.length) : Compares c.m last[i] ↔ 4 ≤ i := by
  have hm0 := (steady_recording k).began (recording_start hp hs) h0
  exact eight_records ((steady_recording k).steps hm0 h).ring hrec hlast hi

theorem found_iff_first : ∃ m', (recorded m'.ev).map CrcRec.tick = eightTicks 0 ∧
    ∀ (i : Nat) (hi : i < (recorded m'.ev).length), Compares m' (recorded m'.ev)[i] ↔ 4 ≤ i := by
  obtain ⟨hp, hsm⟩ := start_host
  obtain ⟨m', hs, hrec⟩ := eight_recorded
  refine ⟨m', hrec, fun i hi => ?_⟩
  exact found_iff hp hsm began_start hs (List.nil_append _).symm hrec hi

/-- The record of tick 0 is gone once tick 256 is recorded. -/
theorem oldest_not_found : ¬ ∀ (k : Cart) (p m0 : Mach) (c : Con) (old last : List CrcRec) (n : Nat),
    IsStart p → SmallStart p → Began SmallStart p m0 → Steps k SmallStart ⟨m0, .top⟩ c →
    recorded c.m.ev = old ++ last → last.map CrcRec.tick = eightTicks n →
    ∀ r ∈ last, Compares c.m r := by
  intro hall
  obtain ⟨hp, hsm⟩ := start_host
  obtain ⟨m', hs, hrec⟩ := eight_recorded
  have hring := ((steady_recording stillCart).steps (recording_start hp hsm) hs).ring
  have hpos : 0 < (recorded m'.ev).length := by
    have hlen := congrArg List.length hrec
    rw [List.length_map] at hlen
    rw [hlen]
    decide
  have hfound := hall stillCart _ _ _ [] _ 0 hp hsm began_start hs rfl hrec _ (List.getElem_mem hpos)
  exact absurd ((eight_records hring (List.nil_append _).symm hrec hpos).mp hfound) (by decide)

end IntvBasketball.Console
