/-
  Where the frame handlers store (PORTING.md 7.2: a wire value must never index a
  memory writer).

  `handlerArea` is each handler's own area. START, LOBBY and PEER_LEFT stay inside it
  whatever the frame holds. INPUT and ROOM do so exactly when the wire value they
  index with is small enough (`wildInput`, `wildRoom`): INPUT trusts NET_COUNT, which
  START takes from an unchecked byte, and SES_ROSTER runs as many rows as ROOM says.
-/
import IntvBasketball.Console.Parser
import IntvBasketball.Console.ImageRound

namespace IntvBasketball.Console

open Mach (Within Does)

/-! ## The areas -/

def inputArea (a : Nat) : Prop := area seatRing 2048 a ∨ area seatWm 8 a

def startArea (a : Nat) : Prop :=
  a ∈ [netSeat, netCount, rngLo, rngHi, netDelay, tickLo, tickHi, netActive] ∨
  area nameTbl 36 a ∨ area seatRing 2048 a ∨ area ownCrc 32 a ∨ area seatWm 8 a

def screenArea (a : Nat) : Prop := a = uiColor ∨ a = ppTmp ∨ area backtab 240 a

def roomArea (a : Nat) : Prop :=
  a = roomCnt ∨ a = roomHost ∨ area nameTbl 36 a ∨ screenArea a

def lobbyArea (a : Nat) : Prop :=
  a = lobbyCnt ∨ a = menuSel ∨ area lobbyCache 73 a ∨ screenArea a

def leftArea (a : Nat) : Prop :=
  a ∈ [leftSeat, peerWhy, netDropped] ∨ area leftName 9 a ∨ area seatRing 2048 a ∨
  area seatWm 8 a

instance (a : Nat) : Decidable (startArea a) := by unfold startArea; infer_instance
instance (a : Nat) : Decidable (screenArea a) := by unfold screenArea; infer_instance
instance (a : Nat) : Decidable (leftArea a) := by unfold leftArea; infer_instance

/-- The own area of the handler of a frame type. -/
def handlerArea (type a : Nat) : Prop :=
  (type = ftInput ∧ inputArea a) ∨ (type = ftStart ∧ startArea a) ∨
  (type = ftRoom ∧ roomArea a) ∨ (type = ftLobby ∧ lobbyArea a) ∨
  (type = ftPeerLeft ∧ leftArea a)

/-! ## Rosters and idle rings -/

theorem within_sesCprGo (m : Mach) (r4 : Nat) : Within (area nameTbl 36) m (sesCprGo m r4) := by
  have hslot : ∀ (m : Mach) (i : Nat), i < 4 →
      Within (area nameTbl 36) m
        ((m.copy (r4 + 8 * i) (nameTbl + 9 * i) 8).st (nameTbl + 9 * i + 8) 0) := by
    intro m i hi
    refine ((Does.refl _ m).copy ?_).st _ ⟨by omega, by omega⟩
    exact fun b h1 h2 => ⟨by omega, by omega⟩
  exact (((hslot m 0 (by omega)).within (hslot _ 1 (by omega))).within
    (hslot _ 2 (by omega))).within (hslot _ 3 (by omega))

theorem within_lsIdleRmt (m : Mach) :
    Within (fun a => area seatRing 2048 a ∨ area seatWm 8 a) m (lsIdleRmt m) := by
  unfold lsIdleRmt
  refine Does.within ?_ ((within_wmLoop _ _ _ seatWm 4).mono (fun _ => Or.inr))
  exact (within_lsRingInit m).mono (fun _ => Or.inl)

/-! ## START, PEER_LEFT -/

theorem within_stHeader (m : Mach) : Within startArea m (stHeader m) :=
  (((((Does.refl _ m).st _ (by decide)).st _ (by decide)).st _ (by decide)).st _
    (by decide)).st _ (by decide)

theorem within_ofStart (m : Mach) : Within startArea m (ofStart m) := by
  unfold ofStart
  split
  · exact Does.refl _ m
  · refine Does.st (Does.st (Does.st ?_ _ (by decide)) _ (by decide)) _ (by decide)
    refine Does.within ?_ ((within_wmLoop _ _ _ seatWm 4).mono
      (fun _ h => Or.inr (Or.inr (Or.inr (Or.inr h)))))
    refine Does.within ?_ ((within_rsClrCrc _).mono
      (fun _ h => Or.inr (Or.inr (Or.inr (Or.inl h)))))
    refine Does.within ?_ ((within_lsRingInit _).mono (fun _ h => Or.inr (Or.inr (Or.inl h))))
    refine Does.within ?_ ((within_sesCprGo _ _).mono (fun _ h => Or.inr (Or.inl h)))
    exact within_stHeader m

theorem within_ofPl (m : Mach) : Within leftArea m (ofPl m) := by
  unfold ofPl
  refine Does.within (Does.st (Does.st ?_ _ (by decide)) _ (by decide))
    ((within_lsIdleRmt _).mono (fun _ h => Or.inr (Or.inr h)))
  split
  · exact Does.refl _ m
  · refine Does.st (Does.copy (Does.st (Does.refl _ m) _ (by decide)) ?_) _ (by decide)
    exact fun b h1 h2 => Or.inr (Or.inl ⟨h1, by omega⟩)

/-! ## Screens -/

theorem within_uiPrint_screen (m : Mach) (off : Nat) (str : List Nat)
    (h : off + str.length ≤ 240) : Within screenArea m (uiPrint m off str) := by
  refine (within_uiPrint m off str).mono (fun a ha => Or.inr (Or.inr ?_))
  simp only [area, backtab] at *
  omega

theorem within_uiPrintN_screen (m : Mach) (off src n : Nat) (h : off + n ≤ 240) :
    Within screenArea m (uiPrintN m off src n) := by
  refine (within_uiPrintN m off src n).mono (fun a ha => Or.inr (Or.inr ?_))
  simp only [area, backtab] at *
  omega

theorem within_uiCls_screen (m : Mach) : Within screenArea m (uiCls m) :=
  (within_uiCls m).mono (by
    rintro a (h | h)
    · exact Or.inl h
    · exact Or.inr (Or.inr h))

theorem screenArea_backtab {a : Nat} (h : 0x200 ≤ a) (h' : a < 0x2F0) : screenArea a :=
  Or.inr (Or.inr ⟨h, by simp only [backtab]; omega⟩)

theorem rd_ppTmp (m : Mach) (v : Nat) : (m.st ppTmp v).rd ppTmp = v % 256 := by
  rw [Mach.rd_st_self, cellMod_cart (by decide)]

/-- The cells row `r3` of SES_RENDER stores to: name, member count, cursor. -/
def listCell (r3 a : Nat) : Prop :=
  a = uiColor ∨ a = ppTmp ∨ (0x1FE ≤ a ∧ a = (20 * r3 + 82) % 256 - 2 + 0x200) ∨
  area (0x200 + (20 * r3 + 82) % 256) 10 a

theorem within_srRow (m : Mach) (r3 : Nat) : Within (listCell r3) m (srRow m r3) := by
  have hoff : (m.st ppTmp (20 * (4 + r3) + 2)).rd ppTmp = (20 * r3 + 82) % 256 := by
    rw [rd_ppTmp]
    omega
  unfold srRow
  simp only [hoff]
  refine Does.skip (Does.skip ?_ fun h => h.st _ ?_) fun h => h.st _ ?_
  · refine Does.within (Does.st (Does.st (Does.refl _ m) _ (Or.inr (Or.inl rfl))) _ (Or.inl rfl))
      ((within_uiPrintN _ _ _ _).mono (fun a ha => Or.inr (Or.inr (Or.inr ?_))))
    simp only [area, backtab] at *
    omega
  · exact Or.inr (Or.inr (Or.inr ⟨by omega, by omega⟩))
  · exact Or.inr (Or.inr (Or.inl ⟨by omega, rfl⟩))

theorem listCell_screen {r a : Nat} (hr : r < 8) (h : listCell r a) : screenArea a := by
  unfold listCell at h
  rw [Nat.mod_eq_of_lt (by omega)] at h
  rcases h with h | h | h | h
  · exact Or.inl h
  · exact Or.inr (Or.inl h)
  · exact screenArea_backtab (by omega) (by omega)
  · simp only [area] at h
    exact screenArea_backtab (by omega) (by omega)

/-- Whatever the row, its cells are the text scratch or below the netcode's RAM. -/
theorem listCell_low {r a : Nat} (h : listCell r a) : a = uiColor ∨ a = ppTmp ∨ a < 0x8000 := by
  rcases h with h | h | h | h
  · exact Or.inl h
  · exact Or.inr (Or.inl h)
  · exact Or.inr (Or.inr (by omega))
  · simp only [area] at h
    exact Or.inr (Or.inr (by omega))

theorem within_srRows (m : Mach) (r3 n : Nat) :
    Within (fun a => ∃ r < r3 + n, listCell r a) m (srRows m r3 n) := by
  induction n generalizing m r3 with
  | zero => exact Does.refl _ m
  | succ n ih =>
    refine Does.within ((within_srRow m r3).mono (fun a h => ⟨r3, by omega, h⟩))
      ((ih _ (r3 + 1)).mono ?_)
    rintro a ⟨r, hr, h⟩
    exact ⟨r, by omega, h⟩

/-- SES_RENDER, whatever the number of entries. -/
theorem within_sesRender (m : Mach) :
    Within (fun a => screenArea a ∨ ∃ r < m.rd lobbyCnt, listCell r a) m (sesRender m) := by
  have h1 : Within screenArea m ((uiPrint (m.st uiColor cWhite) 60 strPick).fill
      (0x200 + 20 * 4) 160 0) := by
    refine Does.fill (Does.within ((Does.refl _ m).st _ (by decide))
      (within_uiPrint_screen _ _ _ (by decide))) _ ?_
    exact fun b h1 h2 => screenArea_backtab (by omega) (by omega)
  unfold sesRender
  refine Does.st (Does.within (h1.mono (fun _ => Or.inl)) ((within_srRows _ 0 _).mono ?_)) _
    (Or.inl (by decide))
  rintro a ⟨r, hr, h⟩
  rw [h1.keep lobbyCnt (by decide), Nat.zero_add] at hr
  exact Or.inr ⟨r, hr, h⟩

theorem within_sesRender_screen (m : Mach) (h : m.rd lobbyCnt ≤ 8) :
    Within screenArea m (sesRender m) := by
  refine (within_sesRender m).mono ?_
  rintro a (ha | ⟨r, hr, ha⟩)
  · exact ha
  · exact listCell_screen (by omega) ha

/-! ## LOBBY -/

theorem lbCount_le (m : Mach) : lbCount m ≤ 8 := by
  unfold lbCount
  split <;> omega

theorem lbCache_spec (m : Mach) {r2 : Nat} (hr : r2 ≤ 8) :
    Within (fun a => a = lobbyCnt ∨ a = menuSel ∨ area lobbyCache 73 a) m (lbCache m r2) ∧
    (lbCache m r2).rd lobbyCnt = r2 := by
  have hcnt : (m.st lobbyCnt r2).rd lobbyCnt = r2 := by
    rw [Mach.rd_st_self, cellMod_cart (by decide)]
    omega
  have hsel : Within (fun a => a = menuSel ∨ area lobbyCache 73 a) (m.st lobbyCnt r2)
      (lbCache m r2) := by
    refine Does.copy (Does.skip (Does.refl _ _) fun h => h.st _ (Or.inl rfl)) ?_
    exact fun b h1 h2 => Or.inr ⟨h1, by omega⟩
  have hst : Within (fun a => a = lobbyCnt ∨ a = menuSel ∨ area lobbyCache 73 a) m
      (m.st lobbyCnt r2) := (Does.refl _ m).st _ (Or.inl rfl)
  exact ⟨hst.within (hsel.mono (fun _ => Or.inr)),
    by rw [hsel.keep lobbyCnt (by unfold area; decide), hcnt]⟩

theorem within_ofLobby (m : Mach) : Within lobbyArea m (ofLobby m) := by
  refine Does.skip (Does.refl _ m) fun h0 => Does.skip h0 fun h0 => Does.skip h0 fun _ => ?_
  obtain ⟨hw, hcnt⟩ := lbCache_spec m (lbCount_le m)
  refine Does.skip (hw.mono (fun a ha => ?_)) fun h => h.within
    ((within_sesRender_screen _ (by rw [hcnt]; exact lbCount_le m)).mono
      (fun a ha => Or.inr (Or.inr (Or.inr ha))))
  rcases ha with ha | ha | ha
  · exact Or.inl ha
  · exact Or.inr (Or.inl ha)
  · exact Or.inr (Or.inr (Or.inl ha))

theorem ofLobby_lobbyCnt (m : Mach) (hl : m.rd lobbyCnt ≤ 8) : (ofLobby m).rd lobbyCnt ≤ 8 := by
  obtain ⟨-, hcnt⟩ := lbCache_spec m (lbCount_le m)
  have hle := lbCount_le m
  unfold ofLobby
  dsimp only
  split_ifs
  · exact hl
  · exact hl
  · exact hl
  · omega
  · rw [(within_sesRender_screen _ (by omega)).keep lobbyCnt (by decide)]
    omega

/-! ## ROOM -/

/-- The cells row `r3` of SES_ROSTER stores to: digit, name, marker. -/
def rowCell (r3 a : Nat) : Prop :=
  a = 20 * r3 + 574 ∨ area (0x200 + (20 * r3 + 64) % 256) 8 a ∨ a = (20 * r3 + 64) % 256 + 0x1FC

theorem within_roName (m : Mach) {off r3 : Nat} (hoff : off = (20 * r3 + 64) % 256) :
    Within (rowCell r3) m (roName m off r3) := by
  refine Does.skip ((within_uiPrintN _ _ _ _).mono (fun a ha => Or.inr (Or.inl ?_)))
    fun h => Does.skip h fun h => h.st _ (Or.inr (Or.inr ?_))
  · simp only [area, backtab] at *
    omega
  · omega

theorem within_roRow (m : Mach) (r3 : Nat) :
    Within (fun a => a = uiColor ∨ a = ppTmp ∨ rowCell r3 a) m (roRow m r3) := by
  have hoff : (roStart m r3).rd ppTmp = (20 * r3 + 64) % 256 := by
    rw [roStart, rd_ppTmp]
    omega
  refine Does.within (Does.st (Does.st (Does.st (Does.refl _ m) _ (Or.inl rfl)) _
    (Or.inr (Or.inl rfl))) _ (Or.inr (Or.inr (Or.inl (by omega)))))
    ((within_roName _ hoff).mono (fun _ h => Or.inr (Or.inr h)))

theorem within_roRows (m : Mach) (r3 n : Nat) :
    Within (fun a => a = uiColor ∨ a = ppTmp ∨ ∃ r, r3 ≤ r ∧ r < r3 + n ∧ rowCell r a) m
      (roRows m r3 n) := by
  induction n generalizing m r3 with
  | zero => exact Does.refl _ m
  | succ n ih =>
    refine Does.within ((within_roRow m r3).mono ?_) ((ih _ (r3 + 1)).mono ?_)
    · rintro a (h | h | h)
      · exact Or.inl h
      · exact Or.inr (Or.inl h)
      · exact Or.inr (Or.inr ⟨r3, by omega, by omega, h⟩)
    · rintro a (h | h | ⟨r, h1, h2, h⟩)
      · exact Or.inl h
      · exact Or.inr (Or.inl h)
      · exact Or.inr (Or.inr ⟨r, by omega, by omega, h⟩)

/-- Row 8 is the last whose cells are in BACKTAB. -/
theorem rowCell_backtab {r a : Nat} (hr : r ≤ 8) (h : rowCell r a) : area backtab 240 a := by
  unfold rowCell at h
  rw [Nat.mod_eq_of_lt (by omega)] at h
  simp only [area, backtab] at *
  omega

/-- Whatever the row, its cells are below the netcode's RAM. -/
theorem rowCell_low {r a : Nat} (hr : r < 256) (h : rowCell r a) : a < 0x8000 := by
  simp only [rowCell, area] at *
  omega

/-- SES_ROSTER, whatever the count. -/
theorem within_sesRoster (m : Mach) :
    Within (fun a => a = uiColor ∨ a = ppTmp ∨
      ∃ r, r < max (if m.rd netActive = 0 then m.rd roomCnt else m.rd netCount) 1 ∧ rowCell r a)
      m (sesRoster m) := by
  refine Does.st ((within_roRows m 0 _).mono ?_) _ (Or.inl rfl)
  rintro a (h | h | ⟨r, -, h2, h⟩)
  · exact Or.inl h
  · exact Or.inr (Or.inl h)
  · exact Or.inr (Or.inr ⟨r, by omega, h⟩)

/-- The cells ROOM's waiting-room screen stores to, for a room of `n` members. -/
def roomScreen (n a : Nat) : Prop := screenArea a ∨ ∃ r < max n 1, rowCell r a

theorem within_rsHead (m : Mach) : Within screenArea m (rsHead m) := by
  refine Does.st (Does.within (Does.within (within_uiCls_screen m)
    (within_uiPrint_screen _ _ _ (by decide))) (within_uiPrint_screen _ _ _ (by decide))) _ ?_
  exact screenArea_backtab (by decide) (by decide)

theorem within_sesRoomscr (m : Mach) (h : m.rd netActive = 0) :
    Within (roomScreen (m.rd roomCnt)) m (sesRoomscr m) := by
  have h1 := within_rsHead m
  have h2 := within_sesRoster (rsHead m)
  rw [h1.keep netActive (by decide), h1.keep roomCnt (by decide), if_pos h] at h2
  refine Does.within (Does.within (h1.mono (fun _ => Or.inl)) (h2.mono ?_))
    ((within_uiPrint_screen _ _ _ ?_).mono (fun _ => Or.inl))
  · rintro a (h | h | ⟨r, hr, h⟩)
    · exact Or.inl (Or.inl h)
    · exact Or.inl (Or.inr (Or.inl h))
    · exact Or.inr ⟨r, hr, h⟩
  · split <;> decide

theorem roomArea_screen {a : Nat} (h : screenArea a) : roomArea a := Or.inr (Or.inr (Or.inr h))

/-- The cells the lobby list of `n` entries stores to. -/
def lobbyScreen (n a : Nat) : Prop := screenArea a ∨ ∃ r < n, listCell r a

theorem within_ofRmEnd (m : Mach) :
    Within (fun a => roomArea a ∨ lobbyScreen (m.rd lobbyCnt) a) m (ofRmEnd m) := by
  have h1 : Within roomArea m ((m.st roomCnt 0).st roomHost 0) :=
    ((Does.refl _ m).st _ (Or.inl rfl)).st _ (Or.inr (Or.inl rfl))
  have h2 : Within screenArea ((m.st roomCnt 0).st roomHost 0)
      (uiPrint (uiCls ((m.st roomCnt 0).st roomHost 0)) 0 strTitle) :=
    (within_uiCls_screen _).within (within_uiPrint_screen _ _ _ (by decide))
  have h3 := within_sesRender (uiPrint (uiCls ((m.st roomCnt 0).st roomHost 0)) 0 strTitle)
  rw [h2.keep lobbyCnt (by decide), Mach.rd_st_ne _ _ (by decide),
    Mach.rd_st_ne _ _ (by decide)] at h3
  exact ((h1.mono (fun _ => Or.inl)).within
    (h2.mono (fun _ h => Or.inl (roomArea_screen h)))).within (h3.mono (fun _ => Or.inr))

theorem within_rmRoster (m : Mach) :
    Within (fun a => a = roomHost ∨ area nameTbl 36 a) m (rmRoster m) :=
  ((within_sesCprGo m _).mono (fun _ => Or.inr)).st _ (Or.inl rfl)

theorem within_ofRm2 (m : Mach) (hact : m.rd netActive = 0) :
    Within (fun a => roomArea a ∨ roomScreen (m.rd roomCnt) a) m (ofRm2 m) := by
  have h1 := within_rmRoster m
  have h2 := within_sesRoomscr (rmRoster m) (by rw [h1.keep netActive (by unfold area; decide), hact])
  rw [h1.keep roomCnt (by unfold area; decide)] at h2
  exact (h1.mono (fun a h => Or.inl (Or.inr (h.imp_right Or.inl)))).within
    (h2.mono (fun _ => Or.inr))

/-- ROOM, whatever count it carries. -/
theorem within_ofRoom (m : Mach) :
    Within (fun a => roomArea a ∨ lobbyScreen (m.rd lobbyCnt) a ∨
      (m.rd netActive = 0 ∧ 34 ≤ m.rd frmBuf ∧ roomScreen (m.rd (frmBuf + 2)) a)) m (ofRoom m) := by
  by_cases hact : m.rd netActive = 0
  · by_cases hlen : m.rd frmBuf < 34
    · rw [ofRoom, if_neg (not_not.mpr hact), if_pos hlen]
      exact Does.refl _ m
    · rw [ofRoom, if_neg (not_not.mpr hact), if_neg hlen]
      have hcnt : Within roomArea m (m.st roomCnt (m.rd (frmBuf + 2))) :=
        (Does.refl _ m).st _ (Or.inl rfl)
      have hroom : (m.st roomCnt (m.rd (frmBuf + 2))).rd roomCnt = m.rd (frmBuf + 2) := by
        rw [Mach.rd_st_self, cellMod_cart (by decide)]
        exact Nat.mod_eq_of_lt (m.rd_lt_cart (by decide))
      dsimp only
      split
      · have h2 := within_ofRmEnd (m.st roomCnt (m.rd (frmBuf + 2)))
        rw [Mach.rd_st_ne _ _ (by decide)] at h2
        exact (hcnt.mono (fun _ => Or.inl)).within (h2.mono (fun _ => Or.imp_right Or.inl))
      · have h2 := within_ofRm2 (m.st roomCnt (m.rd (frmBuf + 2)))
          (by rwa [Mach.rd_st_ne _ _ (by decide)])
        rw [hroom] at h2
        exact (hcnt.mono (fun _ => Or.inl)).within
          (h2.mono (fun _ => Or.imp_right (fun h => Or.inr ⟨hact, by omega, h⟩)))
  · rw [ofRoom, if_pos hact]
    exact Does.refl _ m

/-! ## INPUT -/

/-- The cells `@@of_input` stores to for the frame in FRMBUF. -/
def inputCells (m : Mach) : List Nat :=
  let r2 := m.rd (frmBuf + 2)
  let r4 := inputAddr r2 (m.rd (frmBuf + 3))
  [r4, (r4 + (seatKp - seatRing)) % 65536, seatWm + 2 * r2, seatWm + 2 * r2 + 1]

theorem within_ofInput (m : Mach) :
    Within (fun a => inputAccepted m = true ∧ a ∈ inputCells m) m (ofInput m) := by
  unfold ofInput
  by_cases hacc : inputAccepted m = true
  · rw [if_neg (by simp [hacc])]
    refine Does.st (Does.st (Does.st (Does.st (Does.refl _ m) _ ⟨hacc, ?_⟩) _ ⟨hacc, ?_⟩) _
      ⟨hacc, ?_⟩) _ ⟨hacc, ?_⟩ <;> simp [inputCells]
  · rw [if_pos (by simpa using hacc)]
    exact Does.refl _ m

/-- An accepted INPUT stores to each of its cells. -/
theorem stores_ofInput {m : Mach} (hacc : inputAccepted m = true) :
    (ofInput m).stores = (inputCells m).reverse ++ m.stores := by
  unfold ofInput
  rw [if_neg (by simp [hacc])]
  rfl

/-- The wire value INPUT indexes with is too large. -/
def wildInput (m : Mach) : Prop := inputAccepted m = true ∧ 4 ≤ m.rd (frmBuf + 2)

instance (m : Mach) : Decidable (wildInput m) := by unfold wildInput; infer_instance

theorem inputCells_inputArea {m : Mach} (h : m.rd (frmBuf + 2) < 4) :
    ∀ a ∈ inputCells m, inputArea a := by
  have ht := m.rd_lt_cart (a := frmBuf + 3) (by decide)
  intro a ha
  simp only [inputCells, inputAddr, List.mem_cons, List.not_mem_nil, or_false] at ha
  simp only [inputArea, area, seatRing, seatKp, seatWm] at *
  omega

/-- The watermark of a seat from 4 on is outside SEAT_WM. -/
theorem wild_inputCells {m : Mach} (h : 4 ≤ m.rd (frmBuf + 2)) :
    ∃ a ∈ inputCells m, ¬ inputArea a := by
  have hs := m.rd_lt_cart (a := frmBuf + 2) (by decide)
  refine ⟨seatWm + 2 * m.rd (frmBuf + 2), by simp [inputCells], ?_⟩
  simp only [inputArea, area, seatRing, seatWm]
  omega

/-! ## One dispatched frame -/

/-- The wire value ROOM's screen indexes with is too large. -/
def wildRoom (m : Mach) : Prop :=
  m.rd netActive = 0 ∧ 34 ≤ m.rd frmBuf ∧ 10 ≤ m.rd (frmBuf + 2)

instance (m : Mach) : Decidable (wildRoom m) := by unfold wildRoom; infer_instance

/-- The frame in FRMBUF makes its handler leave its area. -/
def wild (m : Mach) : Prop :=
  (m.rd (frmBuf + 1) = ftInput ∧ wildInput m) ∨ (m.rd (frmBuf + 1) = ftRoom ∧ wildRoom m)

instance (m : Mach) : Decidable (wild m) := by unfold wild; infer_instance

/-- The types of the handlers in question. -/
def boundedTypes : List Nat := [ftStart, ftInput, ftRoom, ftLobby, ftPeerLeft]

/-- Every store made while handling the frame in FRMBUF is in the handler's own area. -/
def Bounded (m : Mach) : Prop :=
  m.rd (frmBuf + 1) ∈ boundedTypes →
    ∃ l, (sesOnframe m).stores = l ++ m.stores ∧ ∀ a ∈ l, handlerArea (m.rd (frmBuf + 1)) a

theorem handlerArea_of {type a : Nat} (h : type ∈ boundedTypes) :
    handlerArea type a ↔
      (if type = ftInput then inputArea a else if type = ftStart then startArea a
       else if type = ftRoom then roomArea a else if type = ftLobby then lobbyArea a
       else leftArea a) := by
  simp only [boundedTypes, List.mem_cons, List.not_mem_nil, or_false] at h
  rcases h with rfl | rfl | rfl | rfl | rfl <;> simp [handlerArea]

/-! ### Row 9 of a roster -/

theorem puts_roRow (m : Mach) (r3 : Nat) : Mach.Puts (20 * r3 + 574) m (roRow m r3) := by
  have hoff : (roStart m r3).rd ppTmp = (20 * r3 + 64) % 256 := by
    rw [roStart, rd_ppTmp]
    omega
  have hdig := Mach.puts_st (roStart m r3) (20 * (3 + r3) + 4 + 0x200 - 2)
    (digitCard (49 + r3) ((roStart m r3).rd uiColor))
  have hstart : Within (fun _ => True) m (roStart m r3) :=
    ((Does.refl _ m).st _ trivial).st _ trivial
  rw [show 20 * r3 + 574 = 20 * (3 + r3) + 4 + 0x200 - 2 by omega]
  exact (hstart.puts hdig).after (within_roName _ hoff)

theorem puts_roRows (m : Mach) {r3 n r : Nat} (h1 : r3 ≤ r) (h2 : r < r3 + n) :
    Mach.Puts (20 * r + 574) m (roRows m r3 n) := by
  induction n generalizing m r3 with
  | zero => omega
  | succ n ih =>
    by_cases hr : r = r3
    · subst hr
      exact (puts_roRow m r).after (within_roRows _ _ n)
    · exact (within_roRow m r3).puts (ih _ (by omega) (by omega))

theorem puts_sesRoomscr (m : Mach) (hact : m.rd netActive = 0) {r : Nat} (h : r < m.rd roomCnt) :
    Mach.Puts (20 * r + 574) m (sesRoomscr m) := by
  have h1 := within_rsHead m
  have hrows : Mach.Puts (20 * r + 574) (rsHead m) (sesRoster (rsHead m)) := by
    rw [sesRoster, h1.keep netActive (by decide), if_pos hact, h1.keep roomCnt (by decide)]
    exact (puts_roRows _ (Nat.zero_le r) (by omega)).after (S := fun _ => True)
      ((Does.refl _ _).st _ trivial)
  exact (h1.puts hrows).after (within_uiPrint _ _ _)

theorem wildRoom_puts {m : Mach} (h : wildRoom m) : Mach.Puts 0x2F2 m (ofRoom m) := by
  obtain ⟨hact, hlen, hcnt⟩ := h
  have hroom : (m.st roomCnt (m.rd (frmBuf + 2))).rd roomCnt = m.rd (frmBuf + 2) := by
    rw [Mach.rd_st_self, cellMod_cart (by decide)]
    exact Nat.mod_eq_of_lt (m.rd_lt_cart (by decide))
  rw [ofRoom, if_neg (not_not.mpr hact), if_neg (by omega)]
  dsimp only
  rw [if_neg (by rw [Mach.rd_st_ne _ _ (by decide)]; omega)]
  have h0 : Within (fun a => a = roomCnt) m (m.st roomCnt (m.rd (frmBuf + 2))) :=
    (Does.refl _ m).st _ rfl
  have h1 := within_rmRoster (m.st roomCnt (m.rd (frmBuf + 2)))
  refine h0.puts (h1.puts (puts_sesRoomscr _ ?_ (r := 9) ?_))
  · rw [h1.keep netActive (by unfold area; decide), h0.keep netActive (by decide), hact]
  · rw [h1.keep roomCnt (by unfold area; decide), hroom]
    omega

/-! ### The verdict on one frame -/

/-- A frame that is not wild is handled inside its handler's area. -/
theorem within_sesDispatch {m : Mach} (hl : m.rd lobbyCnt ≤ 8) (h : ¬ wild m)
    (ht : m.rd (frmBuf + 1) ∈ boundedTypes) :
    Within (handlerArea (m.rd (frmBuf + 1))) m (sesDispatch m) := by
  have hA := fun a => handlerArea_of (a := a) ht
  rw [wild, not_or, not_and, not_and] at h
  simp only [boundedTypes, List.mem_cons, List.not_mem_nil, or_false] at ht
  unfold sesDispatch
  rcases ht with ht | ht | ht | ht | ht <;> simp only [ht] at hA ⊢
  · exact (within_ofStart m).mono (fun a ha => (hA a).mpr ha)
  · refine (within_ofInput m).mono (fun a ha => (hA a).mpr (inputCells_inputArea ?_ a ha.2))
    exact Nat.lt_of_not_le (fun h4 => h.1 ht ⟨ha.1, h4⟩)
  · refine (within_ofRoom m).mono (fun a ha => (hA a).mpr ?_)
    rcases ha with ha | (ha | ⟨r, hr, ha⟩) | ⟨hact, hlen, ha⟩
    · exact ha
    · exact roomArea_screen ha
    · exact roomArea_screen (listCell_screen (by omega) ha)
    · have hcnt : m.rd (frmBuf + 2) < 10 :=
        Nat.lt_of_not_le (fun h10 => h.2 ht ⟨hact, hlen, h10⟩)
      rcases ha with ha | ⟨r, hr, ha⟩
      · exact roomArea_screen ha
      · exact roomArea_screen (Or.inr (Or.inr (rowCell_backtab (by omega) ha)))
  · exact (within_ofLobby m).mono (fun a ha => (hA a).mpr ha)
  · exact (within_ofPl m).mono (fun a ha => (hA a).mpr ha)

theorem bounded_of_tame {m : Mach} (hl : m.rd lobbyCnt ≤ 8) (h : ¬ wild m) : Bounded m :=
  fun ht => (within_sesDispatch (m := m.log (.frame (frameBytes m))) hl h ht).stores

theorem not_roomArea_row9 : ¬ roomArea 0x2F2 := by
  unfold roomArea area
  decide

/-- A wild frame is not. -/
theorem not_bounded_of_wild {m : Mach} (h : wild m) : ¬ Bounded m := by
  intro hb
  rcases h with ⟨ht, hw⟩ | ⟨ht, hw⟩
  · obtain ⟨l, hl, hin⟩ := hb (by rw [ht]; decide)
    obtain ⟨a, ha, hout⟩ := wild_inputCells hw.2
    have hdisp : sesOnframe m = ofInput (m.log (.frame (frameBytes m))) := by
      rw [sesOnframe, sesDispatch, Mach.rd_log, if_pos ht]
    rw [hdisp, stores_ofInput (m := m.log (.frame (frameBytes m))) hw.1, Mach.stores_log,
      List.append_cancel_right_eq] at hl
    have := hin a (by rw [← hl]; exact List.mem_reverse.mpr ha)
    rw [ht, handlerArea_of (by decide), if_pos rfl] at this
    exact hout this
  · obtain ⟨l, hl, hin⟩ := hb (by rw [ht]; decide)
    have hdisp : sesOnframe m = ofRoom (m.log (.frame (frameBytes m))) := by
      rw [sesOnframe, sesDispatch, Mach.rd_log, ht]
      rfl
    obtain ⟨l', hl', hmem⟩ := wildRoom_puts (m := m.log (.frame (frameBytes m))) hw
    rw [hdisp, hl', Mach.stores_log, List.append_cancel_right_eq] at hl
    have := hin 0x2F2 (hl ▸ hmem)
    rw [ht, handlerArea_of (by decide)] at this
    exact not_roomArea_row9 (by simpa using this)

/-- The verdict on one frame: its handler stays in its area exactly when it is not wild. -/
theorem bounded_iff {m : Mach} (hl : m.rd lobbyCnt ≤ 8) : Bounded m ↔ ¬ wild m :=
  ⟨fun hb hw => not_bounded_of_wild hw hb, bounded_of_tame hl⟩

/-! ## LOBBY_CNT stays in range -/

/-- RS_ON_CRC, RS_ON_STATE and RS_ON_REQ. -/
theorem does_sesDispatch_rs {m : Mach} (ht : m.rd (frmBuf + 1) ∉ boundedTypes) :
    ∃ tx ev, Does (fun a => pendCell a ∨ stateCell a) tx ev m (sesDispatch m) ∧
      ev.filterMap Ev.item = [] := by
  simp only [boundedTypes, List.mem_cons, List.not_mem_nil, or_false, not_or] at ht
  obtain ⟨h1, h2, h3, h4, h5⟩ := ht
  rw [sesDispatch, if_neg h2, if_neg h4, if_neg h1, if_neg h5, if_neg h3]
  split_ifs
  · obtain ⟨tx, ev, h, hev⟩ := does_rsOnCrc m
    refine ⟨tx, ev, h.mono (fun _ => Or.inl), ?_⟩
    rcases hev with rfl | rfl <;> rfl
  · obtain ⟨ev, h, hev⟩ := does_rsOnState m
    refine ⟨[], ev, h.mono (fun _ => Or.inr), ?_⟩
    rcases hev with rfl | rfl | ⟨r, rfl⟩ <;> rfl
  · obtain ⟨ev, h, hev⟩ := does_rsOnReq m
    refine ⟨[], ev, h.mono (fun _ => Or.inl), ?_⟩
    rcases hev with rfl | rfl <;> rfl
  · exact ⟨[], [], Does.refl _ m, rfl⟩

theorem sesDispatch_lobbyCnt {m : Mach} (hl : m.rd lobbyCnt ≤ 8) (h : ¬ wild m) :
    (sesDispatch m).rd lobbyCnt ≤ 8 := by
  by_cases ht : m.rd (frmBuf + 1) ∈ boundedTypes
  · by_cases hlob : m.rd (frmBuf + 1) = ftLobby
    · have : sesDispatch m = ofLobby m := by
        rw [sesDispatch, hlob]
        rfl
      rw [this]
      exact ofLobby_lobbyCnt m hl
    · rw [(within_sesDispatch hl h ht).keep lobbyCnt]
      · exact hl
      · rw [handlerArea_of ht]
        split_ifs
        · unfold inputArea area; decide
        · decide
        · unfold roomArea area; decide
        · decide
  · obtain ⟨tx, ev, hd, -⟩ := does_sesDispatch_rs ht
    rw [hd.keep lobbyCnt]
    · exact hl
    · unfold stateCell dlCell
      decide

/-- Along one pump: if no frame is wild, every handler stays in its area. -/
theorem bounded_ppEntries (fuel : Nat) (m : Mach) (hl : m.rd lobbyCnt ≤ 8)
    (h : ∀ me ∈ ppEntries fuel m, ¬ wild me) :
    (∀ me ∈ ppEntries fuel m, Bounded me) ∧
      ∀ m', ppLoop fuel m = some m' → m'.rd lobbyCnt ≤ 8 := by
  have hcell : ∀ m m', Mach.Only pumpCell m m' → m.rd lobbyCnt ≤ 8 → m'.rd lobbyCnt ≤ 8 := by
    intro m m' ho hm
    rw [ho.keep (by decide)]
    exact hm
  obtain ⟨hent, hend⟩ := ppLoop_ind hcell fuel m
    (fun me hme hm => sesDispatch_lobbyCnt (m := me.log (.frame (frameBytes me))) hm (h me hme)) hl
  exact ⟨fun me hme => bounded_of_tame (hent me hme) (h me hme), hend⟩

/-- Over any run of SES_PUMP on any byte stream: every START, INPUT, ROOM, LOBBY and
    PEER_LEFT handler stays in its own area exactly when no dispatched frame is wild,
    that is an INPUT accepted for a seat of 4 or more, or a ROOM of 10 or more members
    before the match. -/
theorem handlers_bounded_iff (m : Mach) (reads : List (List Byte)) (hl : m.rd lobbyCnt ≤ 8) :
    (∀ me ∈ pumpEntries m reads, Bounded me) ↔ ∀ me ∈ pumpEntries m reads, ¬ wild me := by
  refine ⟨fun h me hme hw => not_bounded_of_wild hw (h me hme), fun h => ?_⟩
  induction reads generalizing m with
  | nil => exact fun _ hm => absurd hm List.not_mem_nil
  | cons got reads ih =>
    simp only [pumpEntries, List.mem_append] at h ⊢
    have hl1 : (ppCp m got).rd lobbyCnt ≤ 8 := by
      rw [(within_ppCp m got).keep lobbyCnt (by unfold area; decide)]
      exact hl
    obtain ⟨hb, hend⟩ := bounded_ppEntries ppFuel (ppCp m got) hl1 (fun me hme => h me (Or.inl hme))
    rintro me (hme | hme)
    · exact hb me hme
    · cases hp : sesPump m got with
      | none => simp [hp] at hme
      | some m1 =>
        simp only [hp] at hme h
        exact ih m1 (hend m1 hp) (fun me' hme' => h me' (Or.inr hme')) me hme

/-- A ROOM frame that announces ten members, before the match. -/
def roomOfTen : List Byte := [34, 0x0E, 10] ++ List.replicate 32 0x41

theorem handlers_bounded_iff_roomOfTen :
    (∀ me ∈ pumpEntries Mach.zero [roomOfTen], Bounded me) ↔
      ∀ me ∈ pumpEntries Mach.zero [roomOfTen], ¬ wild me :=
  handlers_bounded_iff Mach.zero [roomOfTen] (by decide)

/-- Its roster runs past the last row of BACKTAB. -/
theorem roomOfTen_leaves_backtab : ∃ me ∈ pumpEntries Mach.zero [roomOfTen], ¬ Bounded me := by
  have hacc : Acc (ppCp Mach.zero roomOfTen) roomOfTen :=
    ppCp_acc (Acc.nil (m := Mach.zero) rfl) roomOfTen (by decide)
  have hpeek : sesPeek roomOfTen = .emit (.frame roomOfTen) 35 := by decide
  obtain ⟨me, hround, -, hw, -, -, hbuf⟩ := ppRound_frame_acc hacc hpeek
  refine ⟨me, ?_, not_bounded_of_wild (Or.inr ⟨hbuf 1 (by decide), ?_, ?_, ?_⟩)⟩
  · rw [pumpEntries, ppFuel, ppEntries, hround]
    exact List.mem_append_left _ List.mem_cons_self
  · rw [hw.keep netActive (by decide), (within_ppCp _ _).keep netActive (by unfold area; decide)]
    rfl
  · exact Nat.le_of_eq (hbuf 0 (by decide)).symm
  · exact Nat.le_of_eq (hbuf 2 (by decide)).symm

end IntvBasketball.Console
