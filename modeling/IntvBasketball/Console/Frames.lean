/-
  What each frame does to the cells that steer a match: the flags LS_PASS branches on,
  the input rings, the watermarks and the tick.

  `matchCell` names the flags. Only PEER_LEFT, STATE control frames, RESYNC and CRC touch
  them (`sesDispatch_flags`). PEER_LEFT, START and RS_REBASE leave every ring cell idle
  (`AllIdle`).
-/
import IntvBasketball.Console.StateFrame
import IntvBasketball.Console.Pump

namespace IntvBasketball.Console

open Mach (Within Does Only)

/-! ## Rings and watermarks -/

/-- Every ring cell of the four seats is idle: decoded input $40, keypad 0. -/
def AllIdle (m : Mach) : Prop :=
  ∀ a, (area seatRing 1024 a → m.rd a = 0x40) ∧ (area seatKp 1024 a → m.rd a = 0)

theorem AllIdle.only {S : Nat → Prop} {m m' : Mach} (h : AllIdle m) (ho : Only S m m')
    (hS : ∀ a, area seatRing 2048 a → ¬ S a) : AllIdle m' := by
  intro a
  refine ⟨fun ha => ?_, fun ha => ?_⟩
  · have ha' : area seatRing 2048 a := by
      simp only [area, seatRing] at *
      omega
    rw [ho.keep (hS a ha')]
    exact (h a).1 ha
  · have ha' : area seatRing 2048 a := by
      simp only [area, seatKp, seatRing] at *
      omega
    rw [ho.keep (hS a ha')]
    exact (h a).2 ha

theorem allIdle_lsRingInit (m : Mach) : AllIdle (lsRingInit m) := by
  intro a
  refine ⟨fun ha => ?_, fun ha => ?_⟩
  · have hlt : a < seatKp := by
      simp only [area, seatKp, seatRing] at *
      omega
    rw [lsRingInit, Mach.rd_fill_of_lt _ (Or.inl hlt), Mach.rd_fill, if_pos ⟨ha.1, ha.2⟩]
    simp only [area, seatRing] at ha
    rw [cellMod_cart (by omega)]
  · rw [lsRingInit, Mach.rd_fill, if_pos ⟨ha.1, ha.2⟩, Nat.zero_mod]

/-- The watermarks behind a fill. -/
theorem rd_wmLoop (lo hi : Nat) (m : Mach) {a n i : Nat} (hi' : i < n) (ha : 0x8000 ≤ a) :
    (wmLoop lo hi m a n).rd (a + 2 * i) = lo % 256 ∧
      (wmLoop lo hi m a n).rd (a + 2 * i + 1) = hi % 256 := by
  induction n generalizing m a i with
  | zero => omega
  | succ n ih =>
    rw [wmLoop]
    cases i with
    | zero =>
      have hkeep : ∀ b, b < a + 2 → (wmLoop lo hi ((m.st a lo).st (a + 1) hi) (a + 2) n).rd b =
          ((m.st a lo).st (a + 1) hi).rd b := by
        intro b hb
        refine (within_wmLoop lo hi _ (a + 2) n).keep b ?_
        unfold area
        omega
      simp only [Nat.mul_zero, Nat.add_zero]
      rw [hkeep a (by omega), hkeep (a + 1) (by omega),
        Mach.rd_st_self, Mach.rd_st_ne _ _ (by omega), Mach.rd_st_self, cellMod_cart ha,
        cellMod_cart (by omega)]
      exact ⟨rfl, rfl⟩
    | succ i =>
      have := ih ((m.st a lo).st (a + 1) hi) (a := a + 2) (i := i) (by omega) (by omega)
      rwa [show a + 2 + 2 * i = a + 2 * (i + 1) by omega] at this

/-! ## The flags -/

/-- The flags and counters LS_PASS and the resync code branch on. -/
def flagCells : List Nat :=
  [netDropped, peerScr, resyncHold, rsPend, rsPtmo, lsFroze, rsToLo, rsToHi, lsWaitcLo, lsWaitcHi]

/-- These, and who and how many we are. -/
def matchCell (a : Nat) : Prop := a ∈ flagCells ∨ a = netSeat ∨ a = netCount

instance (a : Nat) : Decidable (matchCell a) := by unfold matchCell; infer_instance

/-- The types whose handlers look at the flags. -/
def flagTypes : List Nat := [ftStart, ftPeerLeft, ftCrc, ftState, ftResync]

/-- These, the match set-up, the tick, the rings and the watermarks. -/
def steerCell (a : Nat) : Prop :=
  matchCell a ∨ a ∈ [netDelay, netActive, tickLo, tickHi, lsSave102] ∨ area seatRing 2048 a ∨
    area seatWm 8 a

instance (a : Nat) : Decidable (steerCell a) := by unfold steerCell; infer_instance

theorem steerCell_high {a : Nat} (h : steerCell a) : 0x8000 ≤ a := by
  simp only [steerCell, matchCell, flagCells, area, List.mem_cons, List.not_mem_nil, or_false,
    netDropped, peerScr, resyncHold, rsPend, rsPtmo, lsFroze, rsToLo, rsToHi, lsWaitcLo, lsWaitcHi,
    netSeat, netCount, netDelay, netActive, tickLo, tickHi, lsSave102, seatRing, seatWm] at h
  omega

/-- No screen, lobby or roster handler stores to one. -/
theorem steer_out {a : Nat} (ha : steerCell a) :
    ¬ roomArea a ∧ ¬ lobbyArea a ∧ ∀ r < 256, ¬ listCell r a ∧ ¬ rowCell r a := by
  have hhigh := steerCell_high ha
  have hne : a ≠ uiColor ∧ a ≠ ppTmp ∧ a ≠ roomCnt ∧ a ≠ roomHost ∧ a ≠ lobbyCnt ∧ a ≠ menuSel ∧
      ¬ area nameTbl 36 a ∧ ¬ area lobbyCache 73 a := by
    simp only [steerCell, matchCell, flagCells, area, List.mem_cons, List.not_mem_nil, or_false,
      netDropped, peerScr, resyncHold, rsPend, rsPtmo, lsFroze, rsToLo, rsToHi, lsWaitcLo,
      lsWaitcHi, netSeat, netCount, netDelay, netActive, tickLo, tickHi, lsSave102, seatRing,
      seatWm] at ha
    simp only [area, uiColor, ppTmp, roomCnt, roomHost, lobbyCnt, menuSel, nameTbl, lobbyCache]
    omega
  obtain ⟨h1, h2, h3, h4, h5, h6, h7, h8⟩ := hne
  have hscr : ¬ screenArea a := by
    rintro (h | h | h)
    · exact h1 h
    · exact h2 h
    · simp only [area, backtab] at h
      omega
  have hrow : ∀ r < 256, ¬ (listCell r a ∨ rowCell r a) := by
    intro r hr h
    rcases rows_low hr h with h | h | h
    · exact h1 h
    · exact h2 h
    · omega
  refine ⟨?_, ?_, fun r hr => ⟨fun h => hrow r hr (Or.inl h), fun h => hrow r hr (Or.inr h)⟩⟩
  · rintro (h | h | h | h)
    exacts [h3 h, h4 h, h7 h, hscr h]
  · rintro (h | h | h | h)
    exacts [h5 h, h6 h, h8 h, hscr h]

/-- LOBBY, ROOM and what SES_ONFRAME ignores leave them alone. -/
theorem sesDispatch_other {m : Mach} (ht : m.rd (frmBuf + 1) ∉ ftInput :: flagTypes) {a : Nat}
    (ha : steerCell a) : (sesDispatch m).rd a = m.rd a := by
  obtain ⟨hroom, hlob, hrows⟩ := steer_out ha
  simp only [flagTypes, List.mem_cons, List.not_mem_nil, or_false, not_or] at ht
  obtain ⟨t0, t1, t2, t3, t4, t5⟩ := ht
  have hscreen : ¬ screenArea a := fun h => hroom (roomArea_screen h)
  unfold sesDispatch
  dsimp only
  rw [if_neg t0, if_neg t1, if_neg t2, if_neg t3, if_neg t4, if_neg t5]
  split_ifs
  · exact (within_ofLobby m).keep a hlob
  · have hlc := m.rd_lt_cart (a := lobbyCnt) (by decide)
    have hb := m.rd_lt_cart (a := frmBuf + 2) (by decide)
    refine (within_ofRoom m).keep a ?_
    rintro (h | (h | ⟨r, hr, h⟩) | ⟨-, -, h | ⟨r, hr, h⟩⟩)
    · exact hroom h
    · exact hscreen h
    · exact (hrows r (by omega)).1 h
    · exact hscreen h
    · exact (hrows r (by omega)).2 h
  · rfl

theorem sesDispatch_input {m : Mach} (h : m.rd (frmBuf + 1) = ftInput) :
    sesDispatch m = ofInput m := by
  rw [sesDispatch, h]
  rfl

theorem sesDispatch_peerLeft {m : Mach} (h : m.rd (frmBuf + 1) = ftPeerLeft) :
    sesDispatch m = ofPl m := by
  rw [sesDispatch, h]
  rfl

theorem sesDispatch_crc {m : Mach} (h : m.rd (frmBuf + 1) = ftCrc) : sesDispatch m = rsOnCrc m := by
  rw [sesDispatch, h]
  rfl

theorem sesDispatch_state {m : Mach} (h : m.rd (frmBuf + 1) = ftState) :
    sesDispatch m = rsOnState m := by
  rw [sesDispatch, h]
  rfl

theorem sesDispatch_resync {m : Mach} (h : m.rd (frmBuf + 1) = ftResync) :
    sesDispatch m = rsOnReq m := by
  rw [sesDispatch, h]
  rfl

/-- INPUT stores to the rings and the watermarks. -/
theorem ofInput_keep {m : Mach} (hc : m.rd netCount ≤ 4) {a : Nat} (ha : ¬ inputArea a) :
    (ofInput m).rd a = m.rd a := by
  refine (within_ofInput m).keep a ?_
  rintro ⟨hacc, h⟩
  simp only [inputAccepted, Bool.and_eq_true, decide_eq_true_eq] at hacc
  exact ha (inputCells_inputArea (by omega) a h)

/-- Frames of any other type leave the flags alone. -/
theorem sesDispatch_flags {m : Mach} (hc : m.rd netCount ≤ 4)
    (ht : m.rd (frmBuf + 1) ∉ flagTypes) {a : Nat} (ha : matchCell a) :
    (sesDispatch m).rd a = m.rd a := by
  by_cases hi : m.rd (frmBuf + 1) = ftInput
  · rw [sesDispatch_input hi]
    refine ofInput_keep hc ?_
    simp only [matchCell, flagCells, List.mem_cons, List.not_mem_nil, or_false, netDropped, peerScr,
      resyncHold, rsPend, rsPtmo, lsFroze, rsToLo, rsToHi, lsWaitcLo, lsWaitcHi, netSeat,
      netCount] at ha
    simp only [inputArea, area, seatRing, seatWm]
    omega
  · refine sesDispatch_other ?_ (Or.inl ha)
    rw [List.mem_cons, not_or]
    exact ⟨hi, ht⟩

/-- Where a frame can store in a match of at most four. -/
def frameArea (a : Nat) : Prop := reachCell a ∨ startArea a ∨ stateCell a

theorem only_sesOnframe {m : Mach} (hc : m.rd netCount ≤ 4) : Only frameArea m (sesOnframe m) := by
  have hlog : Only frameArea m (m.log (.frame (frameBytes m))) :=
    ((Does.refl frameArea m).log _).only
  refine hlog.trans ?_
  unfold sesOnframe
  generalize hm : m.log (.frame (frameBytes m)) = me
  replace hc : me.rd netCount ≤ 4 := by rw [← hm]; exact hc
  unfold sesDispatch
  dsimp only
  split_ifs
  · refine (within_ofInput me).only.mono ?_
    rintro a ⟨hacc, h⟩
    simp only [inputAccepted, Bool.and_eq_true, decide_eq_true_eq] at hacc
    exact Or.inl (Or.inl (inputCells_inputArea (by omega) a h))
  · exact (within_ofLobby me).only.mono (fun a h => Or.inl (Or.inr (Or.inr (Or.inl h))))
  · exact (within_ofStart me).only.mono (fun a h => Or.inr (Or.inl h))
  · exact (within_ofPl me).only.mono (fun a h => Or.inl (Or.inr (Or.inr (Or.inr (Or.inl h)))))
  · have hlc := me.rd_lt_cart (a := lobbyCnt) (by decide)
    have hb := me.rd_lt_cart (a := frmBuf + 2) (by decide)
    refine (within_ofRoom me).only.mono ?_
    have hr : ∀ a, roomArea a → frameArea a := fun a h => Or.inl (Or.inr (Or.inl h))
    have hrow : ∀ a, (∃ r < 256, listCell r a ∨ rowCell r a) → frameArea a := fun a h =>
      Or.inl (Or.inr (Or.inr (Or.inr (Or.inr (Or.inr h)))))
    rintro a (h | (h | ⟨r, hlt, h⟩) | ⟨-, -, h | ⟨r, hlt, h⟩⟩)
    · exact hr a h
    · exact hr a (roomArea_screen h)
    · exact hrow a ⟨r, by omega, Or.inl h⟩
    · exact hr a (roomArea_screen h)
    · exact hrow a ⟨r, by omega, Or.inr h⟩
  · obtain ⟨tx, ev, h, -⟩ := does_rsOnCrc me
    exact h.only.mono (fun a h => Or.inl (Or.inr (Or.inr (Or.inr (Or.inr (Or.inl h))))))
  · obtain ⟨ev, h, -⟩ := does_rsOnState me
    exact h.only.mono (fun a h => Or.inr (Or.inr h))
  · obtain ⟨ev, h, -⟩ := does_rsOnReq me
    exact h.only.mono (fun a h => Or.inl (Or.inr (Or.inr (Or.inr (Or.inr (Or.inl h))))))
  · exact (Does.refl _ me).only

/-! ## PEER_LEFT -/

theorem ofPl_dropped (m : Mach) : (ofPl m).rd netDropped = 1 := by
  rw [ofPl, (within_lsIdleRmt _).keep _ (by decide), Mach.rd_st_self, cellMod_cart (by decide)]

theorem allIdle_lsIdleRmt (m : Mach) : AllIdle (lsIdleRmt m) := by
  unfold lsIdleRmt
  dsimp only
  refine (allIdle_lsRingInit m).only (within_wmLoop _ _ _ seatWm 4).only ?_
  intro a ha
  simp only [area, seatRing, seatWm] at *
  omega

theorem allIdle_ofPl (m : Mach) : AllIdle (ofPl m) := by
  unfold ofPl
  exact allIdle_lsIdleRmt _

/-! ## RS_REBASE -/

theorem rbRelease_zero (m : Mach) :
    ∀ a ∈ [resyncHold, rsToLo, rsToHi, lsWaitcLo, lsWaitcHi], (rbRelease m).rd a = 0 := by
  intro a ha
  simp only [List.mem_cons, List.not_mem_nil, or_false] at ha
  unfold rbRelease
  rcases ha with rfl | rfl | rfl | rfl | rfl <;> simp [Mach.rd_st]

theorem within_rbRelease_own (m : Mach) :
    Within (· ∈ [resyncHold, rsToLo, rsToHi, lsWaitcLo, lsWaitcHi]) m (rbRelease m) :=
  (((((Does.refl _ m).st _ (by decide)).st _ (by decide)).st _ (by decide)).st _
    (by decide)).st _ (by decide)

/-- RS_REBASE between its first and its last stores. -/
def rbMiddle (m : Mach) : Mach :=
  rsClrCrc (rbWm (lsRingInit (rbTick (nbRebaseHook (rsClampIsr (rsDisplayReset m))))))

/-- Cells of that part. -/
def rbMidCell (a : Nat) : Prop :=
  a ∈ [tickLo, tickHi, 0x32, 0x100, 0x101, scIsrSave, scIsrSave + 1] ∨ area 0x28 5 a ∨
    area countdown 8 a ∨ area seatRing 2048 a ∨ area seatWm 8 a ∨ area ownCrc 32 a

instance (a : Nat) : Decidable (rbMidCell a) := by unfold rbMidCell; infer_instance

theorem rsRebase_eq (m : Mach) :
    (rsRebase m).mem = (rbRelease (rbMiddle ((m.st rsPend 0).st rsPtmo 0))).mem := rfl

theorem within_rbHead (m : Mach) : Within rbMidCell m
    (lsRingInit (rbTick (nbRebaseHook (rsClampIsr (rsDisplayReset m))))) := by
  have htick : ∀ m, Within rbMidCell m (rbTick m) := fun m =>
    ((Does.refl _ m).st _ (by decide)).st _ (by decide)
  have hisr : ∀ m, Within rbMidCell m (rsClampIsr m) := fun m =>
    ((((Does.refl _ m).st _ (by decide)).st _ (by decide)).st _ (by decide)).st _ (by decide)
  refine Does.within ?_ ((within_lsRingInit _).mono
    (fun _ h => Or.inr (Or.inr (Or.inr (Or.inl h)))))
  refine Does.within ?_ (htick _)
  refine Does.within ?_ ((within_nbRebaseHook _).mono (fun _ h => Or.inr (Or.inr (Or.inl h))))
  refine Does.within ?_ (hisr _)
  refine (within_rsDisplayReset m).mono ?_
  rintro a (rfl | h)
  · decide
  · exact Or.inr (Or.inl h)

theorem within_rbMiddle (m : Mach) : Within rbMidCell m (rbMiddle m) := by
  unfold rbMiddle
  refine Does.within ?_ ((within_rsClrCrc _).mono
    (fun _ h => Or.inr (Or.inr (Or.inr (Or.inr (Or.inr h))))))
  exact (within_rbHead m).within ((within_rbWm _).mono
    (fun _ h => Or.inr (Or.inr (Or.inr (Or.inr (Or.inl h))))))

/-- What RS_REBASE releases. -/
theorem rsRebase_zero (m : Mach) : ∀ a ∈ [rsPend, rsPtmo, resyncHold, rsToLo, rsToHi, lsWaitcLo,
    lsWaitcHi], (rsRebase m).rd a = 0 := by
  have hpend : ∀ a ∈ [rsPend, rsPtmo], (rsRebase m).rd a = 0 := by
    have hout : ∀ a ∈ [rsPend, rsPtmo],
        a ∉ [resyncHold, rsToLo, rsToHi, lsWaitcLo, lsWaitcHi] ∧ ¬ rbMidCell a := by decide
    intro a ha
    rw [Mach.rd, rsRebase_eq]
    show (rbRelease (rbMiddle ((m.st rsPend 0).st rsPtmo 0))).rd a = 0
    rw [(within_rbRelease_own _).keep a (hout a ha).1, (within_rbMiddle _).keep a (hout a ha).2]
    simp only [List.mem_cons, List.not_mem_nil, or_false] at ha
    rcases ha with rfl | rfl <;> simp [Mach.rd_st]
  intro a ha
  rw [List.mem_cons, List.mem_cons] at ha
  rcases ha with rfl | rfl | ha
  · exact hpend _ (by decide)
  · exact hpend _ (by decide)
  · rw [Mach.rd, rsRebase_eq]
    exact rbRelease_zero _ a ha

theorem allIdle_rsRebase (m : Mach) : AllIdle (rsRebase m) := by
  have hwm : ∀ m, Within (area seatWm 8) m (rbWm m) := within_rbWm
  have hcrc : ∀ m, Within (area ownCrc 32) m (rsClrCrc m) := within_rsClrCrc
  have hlog : ∀ (m : Mach) (e : Ev), Only (fun _ => False) m (m.log e) := fun m e =>
    ((Does.refl _ m).log e).only
  unfold rsRebase
  dsimp only
  refine AllIdle.only ?_ (hlog _ _) (fun _ _ h => h)
  refine AllIdle.only ?_ (within_rbRelease_own _).only ?_
  · refine AllIdle.only ?_ (hcrc _).only ?_
    · refine AllIdle.only (allIdle_lsRingInit _) (hwm _).only ?_
      intro a ha
      simp only [area, seatRing, seatWm] at *
      omega
    · intro a ha
      simp only [area, seatRing, ownCrc] at *
      omega
  · intro a ha
    simp only [area, seatRing, List.mem_cons, List.not_mem_nil, or_false, resyncHold, rsToLo,
      rsToHi, lsWaitcLo, lsWaitcHi] at *
    omega

/-! ## START -/

/-- A START long enough to be acted on. -/
def IsStart (m : Mach) : Prop := m.rd (frmBuf + 1) = ftStart ∧ 38 ≤ m.rd frmBuf

instance (m : Mach) : Decidable (IsStart m) := by unfold IsStart; infer_instance

theorem sesDispatch_shortStart {m : Mach} (ht : m.rd (frmBuf + 1) = ftStart) (h : ¬ IsStart m) :
    sesDispatch m = m := by
  have hlen : m.rd frmBuf < 38 := Nat.lt_of_not_le (fun hl => h ⟨ht, hl⟩)
  rw [sesDispatch_start ht, ofStart, if_pos hlen]

/-- `@@of_start` behind the roster copy. -/
def stTail (m : Mach) : Mach :=
  ((((stWm (rsClrCrc (lsRingInit m))).st tickLo 0).st tickHi 0).st netActive 1)

theorem ofStart_eq {m : Mach} (h : 38 ≤ m.rd frmBuf) :
    ofStart m = stTail (sesCprGo (stHeader m) (frmBuf + 7)) := by
  rw [ofStart, if_neg (by omega)]
  rfl

theorem netDelay_ofStart {m : Mach} (h : 38 ≤ m.rd frmBuf) :
    (ofStart m).rd netDelay = m.rd (frmBuf + 6) ∧
      (sesCprGo (stHeader m) (frmBuf + 7)).rd netDelay = m.rd (frmBuf + 6) := by
  have hb := m.rd_lt_cart (a := frmBuf + 6) (by decide)
  have hd : (stHeader m).rd netDelay = m.rd (frmBuf + 6) := by
    have hkeep : Within (· ∈ [netSeat, netCount, rngLo, rngHi]) m
        ((((m.st netSeat (m.rd (frmBuf + 2))).st netCount
          ((m.st netSeat (m.rd (frmBuf + 2))).rd (frmBuf + 3))).st rngLo
          (((m.st netSeat (m.rd (frmBuf + 2))).st netCount
          ((m.st netSeat (m.rd (frmBuf + 2))).rd (frmBuf + 3))).rd (frmBuf + 4))).st rngHi
          ((((m.st netSeat (m.rd (frmBuf + 2))).st netCount
          ((m.st netSeat (m.rd (frmBuf + 2))).rd (frmBuf + 3))).st rngLo
          (((m.st netSeat (m.rd (frmBuf + 2))).st netCount
          ((m.st netSeat (m.rd (frmBuf + 2))).rd (frmBuf + 3))).rd (frmBuf + 4))).rd
            (frmBuf + 5))) :=
      ((((Does.refl _ m).st _ (by decide)).st _ (by decide)).st _ (by decide)).st _ (by decide)
    unfold stHeader
    dsimp only
    rw [Mach.rd_st_self, cellMod_cart (by decide), hkeep.keep _ (by decide), Nat.mod_eq_of_lt hb]
  have hroster : (sesCprGo (stHeader m) (frmBuf + 7)).rd netDelay = m.rd (frmBuf + 6) := by
    rw [(within_sesCprGo _ _).keep _ (by decide), hd]
  refine ⟨?_, hroster⟩
  rw [ofStart_eq h, stTail, Mach.rd_st_ne _ _ (by decide), Mach.rd_st_ne _ _ (by decide),
    Mach.rd_st_ne _ _ (by decide), stWm, (within_wmLoop _ _ _ _ _).keep _ (by decide),
    (within_rsClrCrc _).keep _ (by decide), (within_lsRingInit _).keep _ (by decide), hroster]

/-- A match as START sets it up for the payload in FRMBUF of `p`. -/
structure Armed (p m : Mach) : Prop where
  seat : m.rd netSeat = p.rd (frmBuf + 2)
  count : m.rd netCount = p.rd (frmBuf + 3)
  delay : m.rd netDelay = p.rd (frmBuf + 6)
  rings : AllIdle m
  crc : ∀ a, area ownCrc 32 a → m.rd a = 0xFF
  wm : ∀ r < 4, m.rd (seatWm + 2 * r) = (p.rd (frmBuf + 6) + 255) % 256 ∧
    m.rd (seatWm + 2 * r + 1) = 0
  tick : m.rd tickLo = 0 ∧ m.rd tickHi = 0
  active : m.rd netActive = 1

theorem armed_ofStart {m : Mach} (h : 38 ≤ m.rd frmBuf) : Armed m (ofStart m) := by
  obtain ⟨hseat, hcount, hact⟩ := ofStart_header h
  obtain ⟨hdelay, hroster⟩ := netDelay_ofStart h
  have hb := m.rd_lt_cart (a := frmBuf + 6) (by decide)
  generalize hm1 : sesCprGo (stHeader m) (frmBuf + 7) = m1 at hroster
  have hofs : ofStart m = stTail m1 := by rw [ofStart_eq h, hm1]
  have hlast : ∀ m, Within (· ∈ [tickLo, tickHi, netActive]) m
      (((m.st tickLo 0).st tickHi 0).st netActive 1) := fun m =>
    (((Does.refl _ m).st _ (by decide)).st _ (by decide)).st _ (by decide)
  have hwm : ∀ m, Within (area seatWm 8) m (stWm m) := fun m => within_wmLoop _ _ _ seatWm 4
  have hcrc : ∀ m, Within (area ownCrc 32) m (rsClrCrc m) := within_rsClrCrc
  refine ⟨hseat, hcount, hdelay, ?_, ?_, ?_, ?_, hact⟩
  · rw [hofs]
    refine AllIdle.only (AllIdle.only (AllIdle.only (allIdle_lsRingInit _) (hcrc _).only ?_)
      (hwm _).only ?_) (hlast _).only ?_
    all_goals
      intro a ha
      simp only [area, seatRing, ownCrc, seatWm, List.mem_cons, List.not_mem_nil, or_false, tickLo,
        tickHi, netActive] at *
      omega
  · intro a ha
    have hout : a ∉ [tickLo, tickHi, netActive] ∧ ¬ area seatWm 8 a ∧ 0x8000 ≤ a := by
      simp only [area, ownCrc, seatWm, List.mem_cons, List.not_mem_nil, or_false, tickLo, tickHi,
        netActive] at *
      omega
    rw [hofs, stTail, (hlast _).keep a hout.1, (hwm _).keep a hout.2.1, rsClrCrc, Mach.rd_fill,
      if_pos ⟨ha.1, ha.2⟩, cellMod_cart hout.2.2]
  · intro r hr
    have hout : ∀ b, b = seatWm + 2 * r ∨ b = seatWm + 2 * r + 1 →
        b ∉ [tickLo, tickHi, netActive] := by
      intro b hb
      simp only [seatWm, List.mem_cons, List.not_mem_nil, or_false, tickLo, tickHi, netActive] at *
      omega
    have hd : (rsClrCrc (lsRingInit m1)).rd netDelay = m.rd (frmBuf + 6) := by
      rw [(hcrc _).keep _ (by decide), (within_lsRingInit _).keep _ (by decide), hroster]
    obtain ⟨hlo, hhi⟩ := rd_wmLoop (sub16 ((rsClrCrc (lsRingInit m1)).rd netDelay) 1) 0
      (rsClrCrc (lsRingInit m1)) (a := seatWm) hr (by decide)
    rw [hofs, stTail, (hlast _).keep _ (hout _ (Or.inl rfl)),
      (hlast _).keep _ (hout _ (Or.inr rfl)), stWm, hlo, hhi, hd]
    unfold sub16
    omega
  · rw [hofs, stTail]
    constructor
    · rw [Mach.rd_st_ne _ _ (by decide), Mach.rd_st_ne _ _ (by decide), Mach.rd_st_self,
        Nat.zero_mod]
    · rw [Mach.rd_st_ne _ _ (by decide), Mach.rd_st_self, Nat.zero_mod]

end IntvBasketball.Console
