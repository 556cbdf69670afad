/-
  What a console does by itself is what its party does.

  Capture, the tick, the checksum report, the push and START, each as a `Did`; the
  freeze, the round counters and the EXEC leave the party as it is. A tick shows as
  `beatEvs`: the tick with its cells, the handler calls, and the checksum if it is one to
  report.
-/
import IntvBasketball.Duel.Arrive
import IntvBasketball.Console.Fresh

namespace IntvBasketball.Duel

open Lib Console
open Mach (Within Does Only)

/-- What there is to see of a tick. -/
def beatEvs (b : Beat) : List Ev :=
  .tick (b.t % 65536) b.seat0 b.seat1 :: (vdCalls 0 b.seat0 ++ vdCalls 1 b.seat1 ++
    if b.t % 64 = 0 then [.record (b.t % 65536) b.sum 0 0] else [])

/-- The tick due, with checksum `v`, as seat `s` runs it. -/
def Party.beat (s : Nat) (p : Party) (v : Nat) : Beat :=
  if s = 0 then ⟨p.t, cellsOf p.own p.t, cellsOf p.rmt p.t, v⟩
  else ⟨p.t, cellsOf p.rmt p.t, cellsOf p.own p.t, v⟩

theorem ofNat_congr {a b : Nat} (h : a % 256 = b % 256) : UInt8.ofNat a = UInt8.ofNat b := by
  rw [← ofNat_mod a, h, ofNat_mod]

section
variable {d s : Nat} {p : Party} {m m' : Mach}

theorem Mirrors.tick_bytes (h : Mirrors d s p m) :
    m.rd tickLo = p.t % 256 ∧ m.rd tickHi = p.t / 256 % 256 := by
  have hlo := m.rd_lt_cart (a := tickLo) (by decide)
  have hhi := m.rd_lt_cart (a := tickHi) (by decide)
  have ht := h.tick
  unfold lsTick word at ht
  omega

/-! ## Around the gate -/

theorem did_freeze (h : Mirrors d s p m) : Did d s p [] [] m (lsFreeze m) := by
  refine Did.still h (within_lsFreeze_own m) (fun a ha => ?_) rfl
  revert ha
  simp only [mirrorCell, setupCells, lossCell, area, List.mem_cons, List.not_mem_nil, or_false,
    netSeat, netCount, netDelay, peerScr, tickLo, tickHi, resyncHold, rsPend, rsRLo, rsRHi, seatWm,
    seatRing, ownCrc, lsFroze, lsSave102, isrPhase, diagSlip, diagRej]
  omega

/-- The EXEC stores to the game's cells only. -/
theorem did_game (h : Mirrors d s p m) (f : Mem → Nat → Nat) : Did d s p [] [] m (m.game f) := by
  refine Did.still h ((Does.refl gameCell m).game f (fun _ hg => hg)) (fun a ha => ?_) rfl
  revert ha
  simp only [mirrorCell, setupCells, lossCell, area, List.mem_cons, List.not_mem_nil, or_false,
    netSeat, netCount, netDelay, peerScr, tickLo, tickHi, resyncHold, rsPend, rsRLo, rsRHi, seatWm,
    seatRing, ownCrc, gameCell, rngLo, rngHi, diagSlip, diagRej]
  omega

/-- A screen of SES_HOLD. -/
theorem did_screen (h : Mirrors d s p m) (hw : Within menuCell m m') : Did d s p [] [] m m' := by
  refine Did.still h hw (fun a ha => ?_) rfl
  revert ha
  simp only [mirrorCell, setupCells, lossCell, menuCell, screenArea, area, List.mem_cons,
    List.not_mem_nil, or_false, netSeat, netCount, netDelay, peerScr, tickLo, tickHi, resyncHold,
    rsPend, rsRLo, rsRHi, seatWm, seatRing, ownCrc, diagSlip, diagRej, sesTmrLo, isrPhase, uiColor,
    ppTmp, backtab]
  omega

/-- A round that does not give up only counts. -/
theorem did_countRound (h : Mirrors d s p m) {lo hi limit : Nat} {giveUp : Mach → Mach}
    (hlo : lo ∈ [lsWaitcLo, rsToLo]) (hhi : hi ∈ [lsWaitcHi, rsToHi])
    (hg : ∀ m, (giveUp m).rd netDropped ≠ 0)
    (hd : (countRound lo hi limit giveUp m).rd netDropped = 0) :
    Did d s p [] [] m (countRound lo hi limit giveUp m) := by
  rcases countRound_cases lo hi limit giveUp m with hw | ⟨m1, -, heq⟩
  · refine Did.still h hw (fun a ha => ?_) rfl
    revert ha hlo hhi
    simp only [mirrorCell, setupCells, lossCell, area, List.mem_cons, List.not_mem_nil, or_false,
      netSeat, netCount, netDelay, peerScr, tickLo, tickHi, resyncHold, rsPend, rsRLo, rsRHi,
      seatWm, seatRing, ownCrc, diagSlip, diagRej, lsWaitcLo, lsWaitcHi, rsToLo, rsToHi]
    omega
  · rw [heq] at hd
    exact absurd hd (hg m1)

theorem idleRmt_dropped (m : Mach) : (lsIdleRmt m).rd netDropped = m.rd netDropped :=
  (within_lsIdleRmt m).keep _ (by unfold area; decide)

theorem did_waitRound (h : Mirrors d s p m) (hd : (lsWaitRound m).rd netDropped = 0) :
    Did d s p [] [] m (lsWaitRound m) := by
  refine did_countRound h (by decide) (by decide) (fun m => ?_) hd
  rw [idleRmt_dropped, Mach.rd_st_self]
  decide

theorem did_holdRound (h : Mirrors d s p m) (hd : (lsHoldRound m).rd netDropped = 0) :
    Did d s p [] [] m (lsHoldRound m) := by
  refine did_countRound h (by decide) (by decide) (fun m => ?_) hd
  rw [idleRmt_dropped, Mach.rd_st_ne _ _ (by decide), Mach.rd_st_self]
  decide

/-- The gate is open when the peer's watermark has reached the tick. -/
theorem Mirrors.open_iff (h : Mirrors d s p m) (h1 : p.t ≤ p.wm + 1) (h2 : p.wm ≤ p.t + 32) :
    lsOpen m = true ↔ p.t ≤ p.wm := by
  have hs := h.setup.two
  have hslack : lsSlack m (1 - s) = sub16 (p.wm % 65536) (p.t % 65536) := by
    rw [← h.mark, ← h.tick]
    rfl
  have hpeer : neg16 (lsSlack m (1 - s)) = false ↔ p.t ≤ p.wm := by
    rw [hslack]
    unfold neg16 sub16
    rw [decide_eq_false_iff_not]
    omega
  rw [← hpeer, lsOpen, h.setup.count, h.setup.seat]
  simp only [List.all_eq_true, List.mem_range, Bool.or_eq_true, decide_eq_true_eq,
    Bool.not_eq_true']
  constructor
  · intro hall
    refine (hall (1 - s) (by omega)).resolve_left ?_
    omega
  · intro hp r hr
    by_cases hrs : r = s
    · exact Or.inl hrs
    · have hr' : r = 1 - s := by omega
      rw [hr']
      exact Or.inr hp

/-! ## Capture -/

/-- The two bytes the scanner left, staged. -/
def staged (m : Mach) : Mach :=
  (m.st lsTmpb (m.rd execInL)).st lsTmpb2 ((m.st lsTmpb (m.rd execInL)).rd execKpL)

section
variable {t : Nat}

theorem exec_lt (m : Mach) : m.rd execInL < 256 ∧ m.rd execKpL < 256 := by
  have hin := m.rd_lt execInL
  have hkp := m.rd_lt execKpL
  rw [cellMod_scratch (by decide) (by decide)] at hin hkp
  exact ⟨hin, hkp⟩

theorem within_staged (m : Mach) : Within (fun a => a = lsTmpb ∨ a = lsTmpb2) m (staged m) :=
  ((Does.refl _ m).st _ (Or.inl rfl)).st _ (Or.inr rfl)

theorem staged_bytes (m : Mach) :
    (staged m).rd lsTmpb = m.rd execInL ∧ (staged m).rd lsTmpb2 = m.rd execKpL := by
  obtain ⟨hin, hkp⟩ := exec_lt m
  constructor
  · rw [staged, Mach.rd_st_ne _ _ (by decide), Mach.rd_st_self, cellMod_cart (by decide),
      Nat.mod_eq_of_lt hin]
  · rw [staged, Mach.rd_st_self, Mach.rd_st_ne _ _ (by decide), cellMod_cart (by decide),
      Nat.mod_eq_of_lt hkp]

/-- A store to the pages leaves the staged bytes and the seat. -/
theorem rd_st_page {a v : Nat} (ha : area seatRing 2048 a) : (m.st a v).rd lsTmpb = m.rd lsTmpb ∧
    (m.st a v).rd lsTmpb2 = m.rd lsTmpb2 ∧ (m.st a v).rd netSeat = m.rd netSeat := by
  unfold area at ha
  refine ⟨Mach.rd_st_ne _ _ ?_, Mach.rd_st_ne _ _ ?_, Mach.rd_st_ne _ _ ?_⟩
  all_goals
    simp only [lsTmpb, lsTmpb2, netSeat, seatRing] at ha ⊢
    omega

/-- The capture for tick `t`: the two cells of the rings, and the frame. -/
theorem lsCapture_eq (hs : m.rd netSeat = s) (hs4 : s < 4)
    (ht : (lsTick m + m.rd netDelay) % 256 = t % 256) :
    lsCapture m = (((staged m).st (decCell s t) (m.rd execInL)).st (kpCell s t)
      (m.rd execKpL)).netWrite [6, ftInput, s, lsTick m + m.rd netDelay,
        (lsTick m + m.rd netDelay) / 256, m.rd execInL, m.rd execKpL] := by
  have hdec : inputAddr s ((lsTick m + m.rd netDelay) % 256) = decCell s t := by
    rw [ht]
    simp only [inputAddr, decCell, seatRing]
    omega
  have hkp : (decCell s t + (seatKp - seatRing)) % 65536 = kpCell s t := by
    simp only [kpCell, decCell, seatRing, seatKp]
    omega
  have hseat : (staged m).rd netSeat = s := ((within_staged m).keep _ (by decide)).trans hs
  obtain ⟨hb1, hb2⟩ := staged_bytes m
  obtain ⟨-, h2, h3⟩ := rd_st_page (m := staged m) (v := m.rd execInL) (area_dec hs4 t)
  obtain ⟨h4, h5, h6⟩ := rd_st_page (m := (staged m).st (decCell s t) (m.rd execInL))
    (v := m.rd execKpL) (area_kp hs4 t)
  have h7 : ((staged m).st (decCell s t) (m.rd execInL)).rd lsTmpb = m.rd execInL :=
    (rd_st_page (area_dec hs4 t)).1.trans hb1
  have hstores : ∀ a, inputAddr ((staged m).rd netSeat) ((lsTick m + m.rd netDelay) % 256) = a →
      lsCapture m =
        let m3 := (staged m).st a ((staged m).rd lsTmpb)
        let m4 := m3.st ((a + (seatKp - seatRing)) % 65536) (m3.rd lsTmpb2)
        m4.netWrite [6, ftInput, m4.rd netSeat, lsTick m + m.rd netDelay,
          (lsTick m + m.rd netDelay) / 256, m4.rd lsTmpb, m4.rd lsTmpb2] := by
    rintro _ rfl
    rfl
  rw [hstores _ ((congrArg (fun r => inputAddr r _) hseat).trans hdec)]
  dsimp only
  rw [hkp, hb1, h2, hb2, h4, h5, h6, h7, h2, hb2, h3, hseat]

theorem does_lsCapture (hs : m.rd netSeat = s) (hs4 : s < 4)
    (ht : (lsTick m + m.rd netDelay) % 256 = t % 256) :
    Does (fun a => a = lsTmpb ∨ a = lsTmpb2 ∨ a = decCell s t ∨ a = kpCell s t)
      (wire [6, ftInput, s, lsTick m + m.rd netDelay, (lsTick m + m.rd netDelay) / 256,
        m.rd execInL, m.rd execKpL]) [] m (lsCapture m) := by
  rw [lsCapture_eq hs hs4 ht]
  have h := (within_staged m).mono (T := fun a => a = lsTmpb ∨ a = lsTmpb2 ∨ a = decCell s t ∨
    a = kpCell s t) (fun a ha => ha.imp_right Or.inl)
  exact ((h.st _ (Or.inr (Or.inr (Or.inl rfl)))).st _ (Or.inr (Or.inr (Or.inr rfl)))).netWrite
    [6, ftInput, s, lsTick m + m.rd netDelay, (lsTick m + m.rd netDelay) / 256, m.rd execInL,
      m.rd execKpL]

theorem lsCapture_cells (hs : m.rd netSeat = s) (hs4 : s < 4)
    (ht : (lsTick m + m.rd netDelay) % 256 = t % 256) :
    (lsCapture m).rd (decCell s t) = m.rd execInL ∧
      (lsCapture m).rd (kpCell s t) = m.rd execKpL := by
  obtain ⟨hin, hkp⟩ := exec_lt m
  have hdec := area_dec hs4 t
  have hpage := area_kp hs4 t
  have hcart : ∀ a, area seatRing 2048 a → 0x8000 ≤ a := fun a ha => Nat.le_trans (by decide) ha.1
  rw [lsCapture_eq hs hs4 ht, Mach.rd_netWrite, Mach.rd_netWrite,
    Mach.rd_st_ne _ _ (dec_ne_kp hs4 _ _), Mach.rd_st_self, Mach.rd_st_self,
    cellMod_cart (hcart _ hdec), cellMod_cart (hcart _ hpage), Nat.mod_eq_of_lt hin,
    Nat.mod_eq_of_lt hkp]
  exact ⟨rfl, rfl⟩

end

theorem did_capture (h : Mirrors d s p m) :
    Msg.Fits (.input (p.t + d) ⟨m.rd execInL, m.rd execKpL⟩) ∧
      Did d s (p.capture d ⟨m.rd execInL, m.rd execKpL⟩)
        [.input (p.t + d) ⟨m.rd execInL, m.rd execKpL⟩] [] m (lsCapture m) := by
  have hs := h.setup.two
  have hs4 : s < 4 := by omega
  have ht : (lsTick m + m.rd netDelay) % 256 = (p.t + d) % 256 := by
    rw [h.tick, h.setup.delay]
    omega
  refine ⟨exec_lt m, ?_⟩
  have hdoes := does_lsCapture h.setup.seat hs4 ht
  have hcell := lsCapture_cells h.setup.seat hs4 ht
  have hpage : ∀ a, area seatRing 2048 a → a ≠ decCell s (p.t + d) → a ≠ kpCell s (p.t + d) →
      (lsCapture m).rd a = m.rd a := by
    intro a ha h1 h2
    apply hdoes.keep
    simp only [area, seatRing, lsTmpb, lsTmpb2] at ha ⊢
    omega
  have hlow : ∀ a, ¬ area seatRing 2048 a → a ≠ lsTmpb → a ≠ lsTmpb2 →
      (lsCapture m).rd a = m.rd a := by
    intro a ha h1 h2
    apply hdoes.keep
    rintro (h3 | h3 | rfl | rfl)
    · exact h1 h3
    · exact h2 h3
    · exact ha (area_dec hs4 _)
    · exact ha (area_kp hs4 _)
  have hfix : ∀ a ∈ setupCells ++ [tickLo, tickHi, resyncHold, rsPend, rsRLo, rsRHi],
      ¬ area seatRing 2048 a ∧ a ≠ lsTmpb ∧ a ≠ lsTmpb2 := by
    unfold area
    decide
  have hflags : Flags p (lsCapture m) := h.flags.congr (fun a ha => by
    obtain ⟨h1, h2, h3⟩ := hfix a (List.mem_append_right _ (List.mem_append_right
      [tickLo, tickHi] ha))
    exact hlow a h1 h2 h3)
  refine ⟨⟨h.setup.congr (fun a ha => ?_), ?_, ?_, h.own.put (by omega) hcell.1 hcell.2 hpage,
    h.rmt.other (by omega) (by omega) (by omega) hpage, ⟨hflags.hold, hflags.pend, hflags.resume⟩,
    h.recs.congr (fun a ha => ?_)⟩, loss_cases ?_, ?_, ?_, _, hdoes.ev_eq.symm⟩
  · obtain ⟨h1, h2, h3⟩ := hfix a (List.mem_append_left _ ha)
    exact hlow a h1 h2 h3
  · refine (lsTick_congr (fun a ha => ?_)).trans h.tick
    obtain ⟨h1, h2, h3⟩ := hfix a (List.mem_append_right _
      (List.mem_append_left [resyncHold, rsPend, rsRLo, rsRHi] ha))
    exact hlow a h1 h2 h3
  · refine (seatMark_congr (by omega) (fun a ha => ?_)).trans h.mark
    apply hlow a
    all_goals
      simp only [area, seatRing, seatWm, lsTmpb, lsTmpb2] at ha ⊢
      omega
  · apply hlow a
    all_goals
      simp only [area, seatRing, ownCrc, lsTmpb, lsTmpb2] at ha ⊢
      omega
  · exact ⟨hlow _ (by unfold area; decide) (by decide) (by decide),
      hlow _ (by unfold area; decide) (by decide) (by decide)⟩
  · have hlo : UInt8.ofNat (p.t % 65536 + d) = UInt8.ofNat (p.t + d) := ofNat_congr (by omega)
    have hhi : UInt8.ofNat ((p.t % 65536 + d) / 256) = UInt8.ofNat ((p.t + d) / 256) :=
      ofNat_congr (by omega)
    rw [hdoes.tx_eq, List.flatMap_singleton, Msg.bytes, h.tick, h.setup.delay]
    simp only [wire, List.map_cons, List.map_nil, hlo, hhi]
  · rw [hdoes.ev_eq, List.append_nil, List.append_nil]

/-! ## The tick -/

/-- The cells LS_VDISPATCH reads of a seat's pages. -/
theorem Pages.cells {r t : Nat} {f : Nat → Cell} (h : Pages r f m) (ht : m.rd tickLo = t % 256) :
    seatCells m r (m.rd tickLo) = cellsOf f t := by
  have hprev : ∀ b, prevSlot b (t % 256) = b + (t + 255) % 256 := by
    intro b
    unfold prevSlot
    split <;> omega
  have hcur := h (t % 256) (Nat.mod_lt _ (by decide))
  have hbefore := h ((t + 255) % 256) (Nat.mod_lt _ (by decide))
  simp only [decCell, kpCell, Nat.mod_mod] at hcur hbefore
  simp only [seatCells, cellsOf, ht, hprev, hcur, hbefore]

theorem mirror_not_played {a : Nat} (ha : mirrorCell a ∨ lossCell a) : ¬ playedCell a := by
  revert ha
  simp only [mirrorCell, setupCells, lossCell, area, List.mem_cons, List.not_mem_nil, or_false,
    netSeat, netCount, netDelay, peerScr, tickLo, tickHi, resyncHold, rsPend, rsRLo, rsRHi, seatWm,
    seatRing, ownCrc, diagSlip, diagRej, playedCell, vdCell, callCell, gameCell, rngLo, rngHi,
    vdTmp, vdCur, vdPrev, vdKp, vdKppre, vdSide, vdCtrl, scCnt2, lsFroze, lsWaitcLo, lsWaitcHi,
    shadowCtrl, shadowCtrlR, gameTblLo, gameTblHi]
  omega

theorem seen_vcalls {l : List Ev} (h : ∀ e ∈ l, ∃ side sl r0, e = .vcall side sl r0) :
    l.filterMap Ev.seen = l := by
  induction l with
  | nil => rfl
  | cons e l ih =>
    obtain ⟨side, sl, r0, rfl⟩ := h e List.mem_cons_self
    rw [List.filterMap_cons]
    exact congrArg _ (ih (fun e' he' => h e' (List.mem_cons_of_mem _ he')))

/-- The replay and the game's tick. -/
theorem did_played (k : Cart) (h : Mirrors d s p m) : Did d s p []
    (.tick (p.t % 65536) (p.beat s 0).seat0 (p.beat s 0).seat1 ::
      (vdCalls 0 (p.beat s 0).seat0 ++ vdCalls 1 (p.beat s 0).seat1)) m (lsPlayed k m) := by
  have hs := h.setup.two
  have hdoes := does_lsPlayed k m
  have hlo := h.tick_bytes.1
  have hown := h.own.cells hlo
  have hrmt := h.rmt.cells hlo
  have hcells : seatCells m 0 (m.rd tickLo) = (p.beat s 0).seat0 ∧
      seatCells m 1 (m.rd tickLo) = (p.beat s 0).seat1 := by
    unfold Party.beat
    by_cases h0 : s = 0
    · rw [h0] at hown hrmt
      rw [if_pos h0]
      exact ⟨hown, hrmt⟩
    · have h1 : s = 1 := by omega
      rw [h1] at hown hrmt
      rw [if_neg h0]
      exact ⟨hrmt, hown⟩
  refine Did.of_does (h.within hdoes (fun a ha => mirror_not_played (Or.inl ha))) hdoes
    (fun a ha => mirror_not_played (Or.inr ha)) rfl ?_
  rw [List.filterMap_cons]
  change lsTickEv m :: (tickCalls m).filterMap Ev.seen = _
  rw [seen_vcalls (fun e he => tickCalls_vcall he), lsTickEv, tickCalls, h.tick, hcells.1, hcells.2]

/-- The checksum records after a tick. -/
def Party.filed (p : Party) (v : Nat) : Nat → Option (Nat × Nat) :=
  if p.t % 64 = 0 then Function.update p.recs (slot p.t) (some (p.t, v)) else p.recs

theorem does_rsRecordCrc (m : Mach) : Does (area ownCrc 32) []
    [.record (nowRec m).tick (nowRec m).crc (m.rd rsPend) (m.rd resyncHold)] m (rsRecordCrc m) := by
  have hlo := m.rd_lt_cart (a := tickLo) (by decide)
  rw [rsRecordCrc_eq]
  refine Does.log (Does.stList (Does.refl _ m) (fun b h1 h2 => ?_)) _
  simp only [List.length_cons, List.length_nil] at h2
  unfold area
  omega

/-- RS_RECORD_CRC files the checksum in LS_TMPB and LS_TMPB2. -/
theorem did_record (h : Mirrors d s p m) (hz : p.t % 64 = 0) {v : Nat}
    (hv : word (m.rd lsTmpb) (m.rd lsTmpb2) = v) :
    Did d s { p with recs := p.filed v } [] [.record (p.t % 65536) v 0 0] m (rsRecordCrc m) := by
  have hs := h.setup.two
  have hdoes := does_rsRecordCrc m
  have hnow : nowRec m = stored (p.t, v) := by
    have htick : word (m.rd tickLo) (m.rd tickHi) = p.t % 65536 := h.tick
    rw [nowRec, stored, htick, hv]
  have hring : ∀ a, area seatRing 2048 a → (rsRecordCrc m).rd a = m.rd a := by
    intro a ha
    apply hdoes.keep
    simp only [area, seatRing, ownCrc] at ha ⊢
    omega
  have hout : ∀ a ∈ setupCells ++ [tickLo, tickHi, resyncHold, rsPend, rsRLo, rsRHi],
      ¬ area ownCrc 32 a := by
    unfold area
    decide
  have hflags : Flags p (rsRecordCrc m) := h.flags.congr (fun a ha =>
    hdoes.keep a (hout a (List.mem_append_right _ (List.mem_append_right [tickLo, tickHi] ha))))
  rw [hnow] at hdoes
  refine Did.of_does ⟨h.setup.congr (fun a ha => hdoes.keep a (hout a (List.mem_append_left _ ha))),
    ?_, ?_, h.own.congr (by omega) hring, h.rmt.congr (by omega) hring,
    ⟨hflags.hold, hflags.pend, hflags.resume⟩, fun i hi => ?_⟩ hdoes
    (loss_cases (by unfold area; decide)) rfl rfl
  · exact (lsTick_congr (fun a ha => hdoes.keep a (hout a (List.mem_append_right _
      (List.mem_append_left [resyncHold, rsPend, rsRLo, rsRHi] ha))))).trans h.tick
  · refine (seatMark_congr (by omega) (fun a ha => hdoes.keep a ?_)).trans h.mark
    simp only [area, seatWm, ownCrc] at ha ⊢
    omega
  · have hslot : slotOf (nowRec m).tick = slot p.t := by
      rw [hnow]
      simp only [stored, slotOf, slot]
      omega
    rw [slotCells_rsRecordCrc, hslot, hnow]
    change _ = recCells ((p.filed v i).map stored)
    rw [Party.filed, if_pos hz, Function.update_apply]
    by_cases hi' : i = slot p.t
    · rw [if_pos hi'.symm, if_pos hi']
      rfl
    · rw [if_neg (fun hx => hi' hx.symm), if_neg hi']
      exact h.recs i hi

/-- The report, every 64 ticks. -/
theorem did_lsCrc (h : Mirrors d s p m) : ∃ v < 65536, Did d s { p with recs := p.filed v }
    (p.report v) (if p.t % 64 = 0 then [.record (p.t % 65536) v 0 0] else []) m (lsCrc m) := by
  have hlo := h.tick_bytes.1
  by_cases hz : p.t % 64 = 0
  · simp only [if_pos hz]
    rw [lsCrc, if_neg (by omega)]
    dsimp only
    -- the checksum is staged in LS_TMPB and LS_TMPB2
    generalize hr : lsCksum (rsDisplayReset m) = r0
    have hwide : ∀ a, mirrorCell a ∨ lossCell a →
        ¬ ((a = 0x32 ∨ area 0x28 5 a) ∨ a = lsTmpb ∨ a = lsTmpb2) := by
      intro a ha
      revert ha
      simp only [mirrorCell, setupCells, lossCell, area, List.mem_cons, List.not_mem_nil, or_false,
        netSeat, netCount, netDelay, peerScr, tickLo, tickHi, resyncHold, rsPend, rsRLo, rsRHi,
        seatWm, seatRing, ownCrc, diagSlip, diagRej, lsTmpb, lsTmpb2]
      omega
    have hreset : Within (fun a => (a = 0x32 ∨ area 0x28 5 a) ∨ a = lsTmpb ∨ a = lsTmpb2) m
        (rsDisplayReset m) := (within_rsDisplayReset m).mono (fun _ => Or.inl)
    have hstage := (hreset.st (a := lsTmpb) r0 (Or.inr (Or.inl rfl))).st (a := lsTmpb2) (r0 / 256)
      (Or.inr (Or.inr rfl))
    have hd1 := Did.still h hstage hwide rfl
    generalize hm2 : ((rsDisplayReset m).st lsTmpb r0).st lsTmpb2 (r0 / 256) = m2 at hd1
    have hl := hd1.mirrors
    have h1 := m2.rd_lt_cart (a := lsTmpb) (by decide)
    have h2 := m2.rd_lt_cart (a := lsTmpb2) (by decide)
    refine ⟨word (m2.rd lsTmpb) (m2.rd lsTmpb2), by unfold word; omega, ?_⟩
    have hd2 := did_record hl hz rfl
    have hdoes := does_rsRecordCrc m2
    have hkeep : ∀ a ∈ [netSeat, tickLo, tickHi, lsTmpb, lsTmpb2],
        (rsRecordCrc m2).rd a = m2.rd a := by
      have hout : ∀ a ∈ [netSeat, tickLo, tickHi, lsTmpb, lsTmpb2], ¬ area ownCrc 32 a := by
        unfold area
        decide
      exact fun a ha => hdoes.keep a (hout a ha)
    obtain ⟨hlo2, hhi2⟩ := hl.tick_bytes
    have hd3 := hd1.trans hd2
    refine ⟨hd3.mirrors.congr (fun _ _ => rfl), hd3.loss, ?_, hd3.seen, hd3.log⟩
    rw [Mach.tx_netWrite, hd3.sent, Party.report, if_pos hz, hkeep _ (by decide),
      hkeep _ (by decide), hkeep _ (by decide), hkeep _ (by decide), hkeep _ (by decide),
      hl.setup.seat, hlo2, hhi2, List.flatMap_singleton, Msg.bytes]
    have hb1 : UInt8.ofNat (word (m2.rd lsTmpb) (m2.rd lsTmpb2)) = UInt8.ofNat (m2.rd lsTmpb) :=
      ofNat_congr (by unfold word; omega)
    have hb2 : UInt8.ofNat (word (m2.rd lsTmpb) (m2.rd lsTmpb2) / 256) =
        UInt8.ofNat (m2.rd lsTmpb2) := ofNat_congr (by unfold word; omega)
    simp only [List.flatMap_nil, List.append_nil, wire, List.map_cons, List.map_nil,
      ofNat_mod, hb1, hb2]
  · have hrecs : p.filed 0 = p.recs := if_neg hz
    have hreport : p.report 0 = [] := if_neg hz
    refine ⟨0, by decide, ?_⟩
    rw [hrecs, hreport, if_neg hz, lsCrc, if_pos (by omega)]
    exact Did.refl h

/-- tick++ -/
theorem did_tickInc (h : Mirrors d s p m) :
    Did d s { p with t := p.t + 1, cap := false } [] [] m (lsTickInc m) := by
  obtain ⟨tx, ev, hdoes, -⟩ := mute_lsTickInc m
  have hs := h.setup.two
  have heq : (lsTickInc m).tx = m.tx ∧ (lsTickInc m).ev = m.ev := by
    unfold lsTickInc
    dsimp only
    split <;> exact ⟨rfl, rfl⟩
  have hout : ∀ a ∈ setupCells ++ [resyncHold, rsPend, rsRLo, rsRHi],
      ¬ (a = tickLo ∨ a = tickHi) := by decide
  have hring : ∀ a, area seatRing 2048 a → (lsTickInc m).rd a = m.rd a := by
    intro a ha
    apply hdoes.keep
    simp only [area, seatRing, tickLo, tickHi] at ha ⊢
    omega
  have hflags : Flags p (lsTickInc m) :=
    h.flags.congr (fun a ha => hdoes.keep a (hout a (List.mem_append_right _ ha)))
  refine ⟨⟨h.setup.congr (fun a ha => hdoes.keep a (hout a (List.mem_append_left _ ha))), ?_, ?_,
    h.own.congr (by omega) hring, h.rmt.congr (by omega) hring,
    ⟨hflags.hold, hflags.pend, hflags.resume⟩, h.recs.congr (fun a ha => hdoes.keep a ?_)⟩,
    loss_cases ⟨hdoes.keep _ (by decide), hdoes.keep _ (by decide)⟩, ?_, ?_, _, hdoes.ev_eq.symm⟩
  · rw [lsTick_lsTickInc, h.tick]
    exact Nat.mod_add_mod _ _ _
  · refine (seatMark_congr (by omega) (fun a ha => hdoes.keep a ?_)).trans h.mark
    simp only [area, seatWm, tickLo, tickHi] at ha ⊢
    omega
  · simp only [area, ownCrc, tickLo, tickHi] at ha ⊢
    omega
  · rw [heq.1]
    exact (List.append_nil _).symm
  · rw [heq.2]
    exact (List.append_nil _).symm

/-- The whole tick, up to the push. -/
theorem did_run (k : Cart) (h : Mirrors d s p m) : ∃ v < 65536, Did d s (p.run v) (p.report v)
    (beatEvs (p.beat s v)) m (lsTickInc (lsCrc (lsPlayed k m))) := by
  have hd1 := did_played k h
  obtain ⟨v, hv, hd2⟩ := did_lsCrc hd1.mirrors
  refine ⟨v, hv, ?_⟩
  have hd3 := (hd1.trans hd2).trans (did_tickInc hd2.mirrors)
  have hbeat : ∀ v, (p.beat s v).seat0 = (p.beat s 0).seat0 ∧
      (p.beat s v).seat1 = (p.beat s 0).seat1 ∧ (p.beat s v).t = p.t ∧ (p.beat s v).sum = v := by
    intro v
    unfold Party.beat
    split <;> exact ⟨rfl, rfl, rfl, rfl⟩
  obtain ⟨h1, h2, h3, h4⟩ := hbeat v
  rw [beatEvs, h1, h2, h3, h4]
  rw [List.nil_append, List.append_nil, List.append_nil] at hd3
  exact hd3

/-! ## The push -/

theorem flatMap_chunks (s : Nat) (fs : List (List Byte)) :
    (fs.map Msg.chunk).flatMap (Msg.bytes s) = fs.flatten := by
  induction fs with
  | nil => rfl
  | cons f fs ih =>
    rw [List.map_cons, List.flatMap_cons, ih, List.flatten_cons]
    rfl

/-- RS_PUSH: BEGIN, the image, END, and the re-base to 16 ticks on. -/
theorem did_push (hd : 1 ≤ d) (h : Mirrors d s p m) : ∃ fs, (∀ f ∈ fs, Msg.Fits (.chunk f)) ∧
    Did d s (p.rebase d (p.t + 16)) (pushMsgs p.t fs) [.rebase ((p.t + 16) % 65536)] m
      (rsPush m) := by
  refine ⟨chunkFrames m, fun f hf => ?_, ?_⟩
  · obtain ⟨q, n, heq, hn, hn', hq⟩ := mem_chunksFrom m (Nat.zero_le _) hf
    exact ⟨m, q, n, heq, hn, hn', hq⟩
  have hhold := does_rsEnterHold m
  obtain ⟨hbegin, hword⟩ := psBegin_spec (rsEnterHold m)
  have hsent := tx_rsPush m
  have hr : (word ((rsEnterHold m).rd tickLo) ((rsEnterHold m).rd tickHi) + 16) % 65536 =
      (p.t + 16) % 65536 := by
    rw [hhold.keep tickLo (by decide), hhold.keep tickHi (by decide)]
    have htick : word (m.rd tickLo) (m.rd tickHi) = p.t % 65536 := h.tick
    rw [htick]
    omega
  have himage := does_psImage (psBegin (rsEnterHold m))
  -- up to the re-base
  have hpre : Does sentCell _ [.hold, .push _] m
      ((psImage (psBegin (rsEnterHold m))).netWrite [3, ftState, 1, 0xFF]) :=
    (((hhold.mono (T := sentCell) (fun _ h => Or.inl (Or.inl h))).trans
      (hbegin.mono (fun _ h => Or.inr (Or.inr h)))).trans
      (himage.mono (fun _ h => Or.inr (Or.inl h)))).netWrite [3, ftState, 1, 0xFF]
  generalize hm3 : (psImage (psBegin (rsEnterHold m))).netWrite [3, ftState, 1, 0xFF] = m3 at hpre
  have hsetup : Setup d s m3 := by
    have hout : ∀ a ∈ setupCells, ¬ sentCell a := by decide
    exact h.setup.congr (fun a ha => hpre.keep a (hout a ha))
  have hresume : word (m3.rd rsRLo) (m3.rd rsRHi) = (p.t + 16) % 65536 := by
    rw [← hm3, Mach.rd_netWrite, Mach.rd_netWrite, himage.keep rsRLo (by decide),
      himage.keep rsRHi (by decide), hword, hr]
  have hdid := did_rebase (p := p) hd hsetup hresume
  have hpush : rsPush m = rsRebase m3 := by
    rw [rsPush]
    exact congrArg rsRebase hm3
  refine ⟨?_, ?_, ?_, ?_, ?_⟩
  · rw [hpush]
    exact hdid.mirrors
  · rw [hpush]
    exact loss_cases ⟨(hdid.loss _ (Or.inl rfl)).trans (hpre.keep _ (by decide)),
      (hdid.loss _ (Or.inr rfl)).trans (hpre.keep _ (by decide))⟩
  · have hframe : beginFrame (p.t % 65536 + 16) = beginFrame (p.t + 16) := by
      have h1 : UInt8.ofNat (p.t % 65536 + 16) = UInt8.ofNat (p.t + 16) := ofNat_congr (by omega)
      have h2 : UInt8.ofNat ((p.t % 65536 + 16) / 256) = UInt8.ofNat ((p.t + 16) / 256) :=
        ofNat_congr (by omega)
      simp only [beginFrame, wire, List.map_cons, List.map_nil, h1, h2]
    have htick : word (m.rd tickLo) (m.rd tickHi) = p.t % 65536 := h.tick
    rw [hsent, htick, hframe, pushMsgs, List.flatMap_cons, List.flatMap_append, flatMap_chunks,
      List.flatMap_singleton, List.append_assoc, List.append_assoc]
    rfl
  · rw [hpush, hdid.seen, hpre.ev_eq, List.filterMap_append]
    exact congrArg (· ++ _) (List.append_nil _)
  · rw [hpush]
    exact List.IsPrefix.trans ⟨_, hpre.ev_eq.symm⟩ hdid.log

/-- RS_PENDING: nothing to be seen, or the push of a host that wants one. -/
theorem did_pending (hd : 1 ≤ d) (h : Mirrors d s p m) : Did d s p [] [] m (rsPending m) ∨
    s = 0 ∧ p.pend = true ∧ ∃ fs, (∀ f ∈ fs, Msg.Fits (.chunk f)) ∧
      Did d s (p.rebase d (p.t + 16)) (pushMsgs p.t fs) [.rebase ((p.t + 16) % 65536)] m
        (rsPending m) := by
  by_cases hout : m.rd rsPend = 0 ∨ m.rd netSeat ≠ 0 ∨ m.rd resyncHold ≠ 0
  · left
    rw [rsPending, if_pos hout]
    exact Did.refl h
  have hpend : p.pend = true := by
    by_contra hp
    rw [Bool.not_eq_true] at hp
    have := h.flags.pend
    rw [hp] at this
    exact hout (Or.inl this)
  have hs : s = 0 := by
    have := h.setup.seat
    omega
  -- the counters of the push are no part of the party
  have hcount : ∀ (v w u : Nat), Did d s p [] [] m ((m.st rsPtmo v)) ∧
      Did d s p [] [] m (((m.st rsPtmo v).st rsGate w).st rsWaited u) := by
    intro v w u
    have hw : Within (· ∈ [rsPtmo, rsGate, rsWaited]) m (m.st rsPtmo v) :=
      (Does.refl _ m).st _ (by decide)
    have hno : ∀ a, mirrorCell a ∨ lossCell a → a ∉ [rsPtmo, rsGate, rsWaited] := by
      intro a ha hm
      revert ha
      have hall : ∀ a ∈ [rsPtmo, rsGate, rsWaited], ¬ (mirrorCell a ∨ lossCell a) := by decide
      exact hall a hm
    exact ⟨Did.still h hw hno rfl, Did.still h ((hw.st _ (by decide)).st _ (by decide)) hno rfl⟩
  have hgo : ∀ v w u, ∃ fs, (∀ f ∈ fs, Msg.Fits (.chunk f)) ∧
      Did d s (p.rebase d (p.t + 16)) (pushMsgs p.t fs) [.rebase ((p.t + 16) % 65536)] m
        (rsPush (((m.st rsPtmo v).st rsGate w).st rsWaited u)) := by
    intro v w u
    have h1 := (hcount v w u).2
    obtain ⟨fs, hfs, h2⟩ := did_push hd h1.mirrors
    exact ⟨fs, hfs, h1.trans h2⟩
  rw [rsPending, if_neg hout]
  dsimp only
  split_ifs
  · exact Or.inr ⟨hs, hpend, hgo _ _ _⟩
  · exact Or.inl (hcount _ 0 0).1
  · exact Or.inr ⟨hs, hpend, hgo _ _ _⟩

/-! ## START -/

/-- A START for seat `s` of two in FRMBUF. It finds the flag cells zero: nothing is left of an
    earlier match or of the lobby. -/
structure Starts (d s : Nat) (m : Mach) : Prop where
  two : s < 2
  start : IsStart m
  seat : m.rd (frmBuf + 2) = s
  count : m.rd (frmBuf + 3) = 2
  delay : m.rd (frmBuf + 6) = d
  zero : ∀ a ∈ flagCells, m.rd a = 0

theorem did_start (hd : 1 ≤ d) (h : Starts d s m) :
    Did d s (Party.start d) [] [] m (sesOnframe m) := by
  have hs := h.two
  have hdel := m.rd_lt_cart (a := frmBuf + 6) (by decide)
  rw [h.delay] at hdel
  have harm := armed_ofStart (m := m.log (.frame (frameBytes m))) h.start.2
  have hlog : Within startArea m m := Does.refl _ m
  have hdoes := (hlog.log (.frame (frameBytes m))).trans
    (within_ofStart (m.log (.frame (frameBytes m))))
  rw [← sesOnframe_start h.start] at harm hdoes
  have hflag : ∀ a ∈ flagCells, (sesOnframe m).rd a = 0 := by
    intro a ha
    rw [sesOnframe_start h.start, flag_ofStart _ ha, Mach.rd_log]
    exact h.zero a ha
  have hcrc : ∀ a, area ownCrc 32 a → (sesOnframe m).rd a = 0xFF := harm.crc
  have hwm := harm.wm (1 - s) (by omega)
  rw [Mach.rd_log, h.delay] at hwm
  refine Did.of_does ⟨⟨hs, harm.seat.trans h.seat, harm.count.trans h.count,
    harm.delay.trans h.delay, hflag _ (by decide)⟩, ?_, ?_, Pages.of_idle harm.rings (by omega),
    Pages.of_idle harm.rings (by omega),
    ⟨hflag _ (by decide), hflag _ (by decide), fun hh => absurd hh Bool.false_ne_true⟩,
    Recs.of_cleared hcrc⟩ hdoes (loss_cases (by decide)) rfl rfl
  · rw [lsTick, harm.tick.1, harm.tick.2]
    rfl
  · rw [seatMark, hwm.1, hwm.2]
    change word ((d + 255) % 256) 0 = (d - 1) % 65536
    unfold word
    omega

end

end IntvBasketball.Duel
