/-
  The end of a match.

  NET_DROPPED goes to 1 when PEER_LEFT is handled, in any pump, and when the gate or a
  hold has waited too long. Each time LS_IDLE_RMT makes every ring idle. The gate then
  opens at once, one tick runs on idle cells, and the next pass parks (`drop_is_final`).

  @@of_input does not look at NET_DROPPED: an INPUT behind PEER_LEFT in the same pump, for
  a tick beyond the pinned watermarks, is still stored. `DropOk` leaves that frame out.

  `Hist` remembers the value $0102 had when LS_FROZE last went up; LS_SAVE102 holds it as
  long as LS_FROZE stays up, and it is what the tick puts back.
-/
import IntvBasketball.Console.Frames
import IntvBasketball.Console.Round
import IntvBasketball.Console.Isolation

namespace IntvBasketball.Console

open Mach (Within Does Only Mute)
open Relation (ReflTransGen)

/-! ## The frames -/

/-- A START for one of at most four seats, with a delay. -/
def FairStart (m : Mach) : Prop :=
  m.rd (frmBuf + 1) = ftStart →
    m.rd (frmBuf + 2) < 4 ∧ m.rd (frmBuf + 3) ≤ 4 ∧ 1 ≤ m.rd (frmBuf + 6)

/-- And no INPUT is taken once the peer is gone. -/
def DropOk (m : Mach) : Prop :=
  FairStart m ∧
    (m.rd netDropped ≠ 0 → m.rd (frmBuf + 1) = ftInput → inputAccepted m = false)

/-- One of at most four seats, with a delay. -/
structure Seated (m : Mach) : Prop where
  seat : m.rd netSeat < 4
  count : m.rd netCount ≤ 4
  delay : 1 ≤ m.rd netDelay

theorem Seated.only {S : Nat → Prop} {m m' : Mach} (h : Seated m) (ho : Only S m m')
    (hS : ∀ a ∈ [netSeat, netCount, netDelay], ¬ S a) : Seated m' where
  seat := by rw [ho.keep (hS _ (by decide))]; exact h.seat
  count := by rw [ho.keep (hS _ (by decide))]; exact h.count
  delay := by rw [ho.keep (hS _ (by decide))]; exact h.delay

/-- What the pumps of a match keep: once the peer is gone, every ring is idle. -/
structure Pumped (m : Mach) : Prop extends Seated m where
  scr : m.rd peerScr = 0
  idle : m.rd netDropped ≠ 0 → AllIdle m

/-- Cells `Pumped` is about. -/
def pumpedCell (a : Nat) : Prop :=
  a ∈ [netSeat, netCount, netDelay, peerScr, netDropped] ∨ area seatRing 2048 a

theorem pumpedCell_out {P : Nat → Prop}
    (h : ∀ a ∈ [netSeat, netCount, netDelay, peerScr, netDropped], P a)
    (h' : ∀ a, area seatRing 2048 a → P a) : ∀ a, pumpedCell a → P a := by
  rintro a (ha | ha)
  · exact h a ha
  · exact h' a ha

theorem Pumped.congr {m m' : Mach} (h : Pumped m) (hk : ∀ a, pumpedCell a → m'.rd a = m.rd a) :
    Pumped m' := by
  have hfix : ∀ a ∈ [netSeat, netCount, netDelay, peerScr, netDropped], m'.rd a = m.rd a :=
    fun a ha => hk a (Or.inl ha)
  refine ⟨⟨?_, ?_, ?_⟩, ?_, fun hd a => ?_⟩
  · rw [hfix _ (by decide)]
    exact h.seat
  · rw [hfix _ (by decide)]
    exact h.count
  · rw [hfix _ (by decide)]
    exact h.delay
  · rw [hfix _ (by decide), h.scr]
  · rw [hfix _ (by decide)] at hd
    have hi := h.idle hd a
    have hring : area seatRing 1024 a ∨ area seatKp 1024 a → m'.rd a = m.rd a := by
      intro ha
      refine hk a (Or.inr ?_)
      simp only [area, seatRing, seatKp] at *
      omega
    exact ⟨fun ha => (hring (Or.inl ha)).trans (hi.1 ha),
      fun ha => (hring (Or.inr ha)).trans (hi.2 ha)⟩

theorem Pumped.only {S : Nat → Prop} {m m' : Mach} (h : Pumped m) (ho : Only S m m')
    (hS : ∀ a, pumpedCell a → ¬ S a) : Pumped m' := h.congr (fun a ha => ho.keep (hS a ha))

/-- The set-up cells are kept and the rings are made idle. -/
theorem Pumped.wiped {m m' : Mach} (h : Pumped m)
    (hk : ∀ a ∈ [netSeat, netCount, netDelay, peerScr], m'.rd a = m.rd a) (hi : AllIdle m') :
    Pumped m' := by
  refine ⟨⟨?_, ?_, ?_⟩, ?_, fun _ => hi⟩
  · rw [hk _ (by decide)]
    exact h.seat
  · rw [hk _ (by decide)]
    exact h.count
  · rw [hk _ (by decide)]
    exact h.delay
  · rw [hk _ (by decide), h.scr]

theorem pumped_pump {m m' : Mach} (ho : Mute pumpCell m m') (h : Pumped m) : Pumped m' := by
  refine h.only ho.only (pumpedCell_out (by decide) (fun a ha hc => ?_))
  simp only [pumpCell, parserCell, area, seatRing, rxWr, rxRd, diagSlip, rxAcc, frmBuf] at ha hc
  omega

theorem pumped_rsOnState {m : Mach} (h : Pumped m) : Pumped (rsOnState m) := by
  by_cases hc : IsCtl m
  · have hfix : ∀ a ∈ [netSeat, netCount, netDelay, peerScr, netDropped], ¬ ctlCell a := by
      unfold ctlCell
      decide
    obtain ⟨ev, hd⟩ := does_rsOnState_ctl hc
    have hk : ∀ a ∈ [netSeat, netCount, netDelay, peerScr, netDropped],
        (rsOnState m).rd a = m.rd a := fun a ha => hd.keep a (hfix a ha)
    rw [rsOnState_ctl hc] at hk ⊢
    unfold rsCtl at hk ⊢
    split_ifs at hk ⊢
    · refine h.only (within_diagBump m diagRej).only (pumpedCell_out (by decide) (fun a ha hc => ?_))
      rw [hc] at ha
      revert ha
      unfold area
      decide
    · refine h.congr (pumpedCell_out hk (fun a ha => ?_))
      have hne : a ≠ rsRLo ∧ a ≠ rsRHi ∧ ¬ holdCell a := by
        simp only [area, seatRing] at ha
        simp only [holdCell, area, List.mem_cons, List.not_mem_nil, or_false, rsRLo, rsRHi,
          resyncHold, rsToLo, rsToHi, ownCrc]
        omega
      rw [Mach.rd_st_ne _ _ hne.2.1, Mach.rd_st_ne _ _ hne.1,
        (does_rsEnterHold m).keep a hne.2.2]
    · exact h
    · exact h
    · exact h.wiped (fun a ha => hk a (by
        simp only [List.mem_cons, List.not_mem_nil, or_false] at ha ⊢
        tauto)) (allIdle_rsRebase m)
  · refine h.only (within_rsOnState_data hc).only (pumpedCell_out ?_ (fun a ha hcell => ?_))
    · unfold dlCell
      decide
    · rcases hcell with (hi | hs) | hr
      · have := imgCell_lt_of_mem hi
        simp only [area, seatRing] at ha
        omega
      · simp only [area, seatRing, dlScratch, List.mem_cons, List.not_mem_nil, or_false, rsTmp2,
          rsPosLo, rsPosHi, rsTmp] at ha hs
        omega
      · simp only [area, seatRing, diagRej] at ha hr
        omega

theorem pumped_pend {m m' : Mach} (h : Pumped m) (ho : Only pendCell m m') : Pumped m' := by
  refine h.only ho (pumpedCell_out (by decide) (fun a ha hc => ?_))
  simp only [area, seatRing, pendCell, rsPend, rsPtmo] at ha hc
  omega

theorem pumped_ofStart {m : Mach} (h : Pumped m) (ht : m.rd (frmBuf + 1) = ftStart)
    (hf : FairStart m) : Pumped (ofStart m) := by
  by_cases hlen : 38 ≤ m.rd frmBuf
  · obtain ⟨h1, h2, h3⟩ := hf ht
    have ha := armed_ofStart hlen
    refine ⟨⟨?_, ?_, ?_⟩, ?_, fun _ => ha.rings⟩
    · rw [ha.seat]
      exact h1
    · rw [ha.count]
      exact h2
    · rw [ha.delay]
      exact h3
    · rw [(within_ofStart m).keep _ (by decide), h.scr]
  · rw [ofStart, if_pos (by omega)]
    exact h

/-- One frame. -/
theorem pumped_sesOnframe {m : Mach} (h : Pumped m) (hok : DropOk m) : Pumped (sesOnframe m) := by
  have hlog : Pumped (m.log (.frame (frameBytes m))) := h.congr (fun _ _ => rfl)
  unfold sesOnframe
  by_cases hi : m.rd (frmBuf + 1) = ftInput
  · rw [sesDispatch_input (m := m.log _) hi]
    by_cases hd : m.rd netDropped = 0
    · have hk : ∀ a ∈ [netSeat, netCount, netDelay, peerScr, netDropped],
          (ofInput (m.log (.frame (frameBytes m)))).rd a = m.rd a := by
        intro a ha
        have hout : ∀ a ∈ [netSeat, netCount, netDelay, peerScr, netDropped],
            ¬ (area seatRing 2048 a ∨ area seatWm 8 a) := by decide
        exact ofInput_keep (m := m.log _) h.count (hout a ha)
      refine ⟨⟨?_, ?_, ?_⟩, ?_, fun hne => absurd ((hk _ (by decide)).trans hd) hne⟩
      · rw [hk _ (by decide)]
        exact h.seat
      · rw [hk _ (by decide)]
        exact h.count
      · rw [hk _ (by decide)]
        exact h.delay
      · rw [hk _ (by decide), h.scr]
    · have hacc : inputAccepted (m.log (.frame (frameBytes m))) = false := hok.2 hd hi
      rw [ofInput, hacc]
      exact hlog
  · by_cases ht : m.rd (frmBuf + 1) ∈ flagTypes
    · simp only [flagTypes, List.mem_cons, List.not_mem_nil, or_false] at ht
      rcases ht with ht | ht | ht | ht | ht
      · rw [sesDispatch_start (m := m.log _) ht]
        exact pumped_ofStart hlog ht hok.1
      · rw [sesDispatch_peerLeft (m := m.log _) ht]
        have hout : ∀ a ∈ [netSeat, netCount, netDelay, peerScr], ¬ leftArea a := by decide
        exact hlog.wiped (fun a ha => (within_ofPl _).keep a (hout a ha)) (allIdle_ofPl _)
      · rw [sesDispatch_crc (m := m.log _) ht]
        obtain ⟨tx, ev, hd, -⟩ := does_rsOnCrc (m.log (.frame (frameBytes m)))
        exact pumped_pend hlog hd.only
      · rw [sesDispatch_state (m := m.log _) ht]
        exact pumped_rsOnState hlog
      · rw [sesDispatch_resync (m := m.log _) ht]
        obtain ⟨ev, hd, -⟩ := does_rsOnReq (m.log (.frame (frameBytes m)))
        exact pumped_pend hlog hd.only
    · have hno : (m.log (.frame (frameBytes m))).rd (frmBuf + 1) ∉ ftInput :: flagTypes := by
        rw [List.mem_cons, not_or]
        exact ⟨hi, ht⟩
      refine hlog.congr (fun a ha => sesDispatch_other hno ?_)
      rcases ha with ha | ha
      · have hin : ∀ a ∈ [netSeat, netCount, netDelay, peerScr, netDropped], steerCell a := by
          decide
        exact hin a ha
      · exact Or.inr (Or.inr (Or.inl ha))

theorem pumped_sesPump {m m' : Mach} {got : List Byte} (h : Pumped m)
    (hf : ∀ me ∈ ppEntries ppFuel (ppCp m got), DropOk me) (hp : sesPump m got = some m') :
    Pumped m' :=
  sesPump_mute (P := Pumped) (fun _ _ ho h => pumped_pump ho h)
    (fun me hme h => pumped_sesOnframe h (hf me hme)) h hp

/-! ## Rounds and capture -/

theorem pumped_countRound {lo hi limit : Nat} {giveUp : Mach → Mach} (hlo : ¬ pumpedCell lo)
    (hhi : ¬ pumpedCell hi) (hg : ∀ m, Pumped m → Pumped (giveUp m)) {m : Mach} (h : Pumped m) :
    Pumped (countRound lo hi limit giveUp m) := by
  have hst : ∀ {m : Mach} {a : Nat} (v : Nat), ¬ pumpedCell a → Pumped m → Pumped (m.st a v) := by
    intro m a v ha h
    refine h.congr (fun b hb => Mach.rd_st_ne _ _ ?_)
    rintro rfl
    exact ha hb
  unfold countRound
  dsimp only
  split_ifs
  · exact hst _ hlo h
  · exact hst _ hhi (hst _ hlo h)
  · exact hg _ (hst _ hhi (hst _ hlo h))

instance (a : Nat) : Decidable (pumpedCell a) := by unfold pumpedCell; infer_instance

/-- Giving up wipes the rings. -/
theorem pumped_lsIdleRmt {m m' : Mach} (h : Pumped m)
    (hk : ∀ a ∈ [netSeat, netCount, netDelay, peerScr], m'.rd a = m.rd a) :
    Pumped (lsIdleRmt m') := by
  have hout : ∀ a ∈ [netSeat, netCount, netDelay, peerScr],
      ¬ (area seatRing 2048 a ∨ area seatWm 8 a) := by decide
  exact h.wiped (fun a ha => ((within_lsIdleRmt m').keep a (hout a ha)).trans (hk a ha))
    (allIdle_lsIdleRmt m')

theorem pumped_lsWaitRound {m : Mach} (h : Pumped m) : Pumped (lsWaitRound m) := by
  refine pumped_countRound (by decide) (by decide) (fun m h => pumped_lsIdleRmt h ?_) h
  intro a ha
  have hne : ∀ a ∈ [netSeat, netCount, netDelay, peerScr], a ≠ netDropped ∧ a ≠ peerWhy := by decide
  rw [Mach.rd_st_ne _ _ (hne a ha).1, Mach.rd_st_ne _ _ (hne a ha).2]

theorem pumped_lsHoldRound {m : Mach} (h : Pumped m) : Pumped (lsHoldRound m) := by
  refine pumped_countRound (by decide) (by decide) (fun m h => pumped_lsIdleRmt h ?_) h
  intro a ha
  have hne : ∀ a ∈ [netSeat, netCount, netDelay, peerScr],
      a ≠ resyncHold ∧ a ≠ netDropped ∧ a ≠ peerWhy := by decide
  rw [Mach.rd_st_ne _ _ (hne a ha).1, Mach.rd_st_ne _ _ (hne a ha).2.1,
    Mach.rd_st_ne _ _ (hne a ha).2.2]

/-- The ring cells of the current tick are idle. -/
def IdleNow (m : Mach) : Prop :=
  ∀ s < 4, m.rd (seatRing + s * 256 + m.rd tickLo) = 0x40 ∧
    m.rd (seatKp + s * 256 + m.rd tickLo) = 0

theorem idleNow_of_allIdle {m : Mach} (h : AllIdle m) : IdleNow m := by
  intro s hs
  have ht := m.rd_lt_cart (a := tickLo) (by decide)
  refine ⟨(h _).1 ?_, (h _).2 ?_⟩
  · simp only [area]
    omega
  · simp only [area]
    omega

theorem lsTick_mod (m : Mach) : lsTick m % 256 = m.rd tickLo := by
  have ht := m.rd_lt_cart (a := tickLo) (by decide)
  unfold lsTick word
  omega

/-- The capture touches our own two ring cells of tick T + d. -/
theorem only_lsCapture_own {m : Mach} (hs : m.rd netSeat < 4) :
    Only (fun a => a = lsTmpb ∨ a = lsTmpb2 ∨
      a = seatRing + m.rd netSeat * 256 + (lsTick m + m.rd netDelay) % 256 ∨
      a = seatKp + m.rd netSeat * 256 + (lsTick m + m.rd netDelay) % 256) m (lsCapture m) := by
  have hx : (lsTick m + m.rd netDelay) % 256 < 256 := Nat.mod_lt _ (by decide)
  have h0 : Within (fun a => a = lsTmpb ∨ a = lsTmpb2 ∨
      a = seatRing + m.rd netSeat * 256 + (lsTick m + m.rd netDelay) % 256 ∨
      a = seatKp + m.rd netSeat * 256 + (lsTick m + m.rd netDelay) % 256) m
      ((m.st lsTmpb (m.rd execInL)).st lsTmpb2 ((m.st lsTmpb (m.rd execInL)).rd execKpL)) :=
    ((Does.refl _ m).st _ (Or.inl rfl)).st _ (Or.inr (Or.inl rfl))
  have hseat : ((m.st lsTmpb (m.rd execInL)).st lsTmpb2
      ((m.st lsTmpb (m.rd execInL)).rd execKpL)).rd netSeat = m.rd netSeat := by
    rw [Mach.rd_st_ne _ _ (by decide), Mach.rd_st_ne _ _ (by decide)]
  refine Does.only (Does.netWrite (Does.st (Does.st h0 _ (Or.inr (Or.inr (Or.inl ?_)))) _
    (Or.inr (Or.inr (Or.inr ?_)))) _)
  all_goals
    rw [hseat]
    simp only [inputAddr, seatRing, seatKp]
    omega

/-- At the gate: once the peer is gone, the tick about to run is idle. -/
structure Gated (m : Mach) : Prop extends Seated m where
  scr : m.rd peerScr = 0
  idle : m.rd netDropped ≠ 0 → IdleNow m

theorem Pumped.gated {m : Mach} (h : Pumped m) : Gated m :=
  ⟨h.toSeated, h.scr, fun hd => idleNow_of_allIdle (h.idle hd)⟩

theorem Gated.pumped {m : Mach} (h : Gated m) (hd : m.rd netDropped = 0) : Pumped m :=
  ⟨h.toSeated, h.scr, fun hne => absurd hd hne⟩

/-- With a delay, tick T + d has another slot than tick T. -/
theorem gated_lsCapture {m : Mach} (h : Pumped m) : Gated (lsCapture m) := by
  have ho := only_lsCapture_own h.seat
  have hd := h.delay
  have hdlt := m.rd_lt_cart (a := netDelay) (by decide)
  have ht := m.rd_lt_cart (a := tickLo) (by decide)
  have htick := lsTick_mod m
  have hs := h.seat
  generalize hx : (lsTick m + m.rd netDelay) % 256 = x at ho
  have hxne : x ≠ m.rd tickLo := by omega
  have hxlt : x < 256 := by omega
  have hfix : ∀ a ∈ [netSeat, netCount, netDelay, peerScr, netDropped, tickLo],
      (lsCapture m).rd a = m.rd a := by
    intro a ha
    refine ho.keep ?_
    simp only [List.mem_cons, List.not_mem_nil, or_false, netSeat, netCount, netDelay, peerScr,
      netDropped, tickLo] at ha
    simp only [lsTmpb, lsTmpb2, seatRing, seatKp]
    omega
  refine ⟨⟨?_, ?_, ?_⟩, ?_, fun hne s hs' => ?_⟩
  · rw [hfix _ (by decide)]
    exact h.seat
  · rw [hfix _ (by decide)]
    exact h.count
  · rw [hfix _ (by decide)]
    exact h.delay
  · rw [hfix _ (by decide), h.scr]
  · rw [hfix _ (by decide)] at hne
    obtain ⟨hin, hkp⟩ := idleNow_of_allIdle (h.idle hne) s hs'
    rw [hfix tickLo (by decide)]
    refine ⟨(ho.keep ?_).trans hin, (ho.keep ?_).trans hkp⟩
    · simp only [lsTmpb, lsTmpb2, seatRing, seatKp]
      omega
    · simp only [lsTmpb, lsTmpb2, seatRing, seatKp]
      omega

theorem within_lsFreeze_own (m : Mach) :
    Within (· ∈ [lsFroze, lsSave102, isrPhase]) m (lsFreeze m) := by
  unfold lsFreeze
  split
  · exact Does.refl _ m
  · exact (((Does.refl _ m).st _ (by decide)).st _ (by decide)).st _ (by decide)

theorem within_lsUnfreeze_own (m : Mach) :
    Within (· ∈ [lsFroze, lsWaitcLo, lsWaitcHi, isrPhase]) m (lsUnfreeze m) := by
  unfold lsUnfreeze
  split
  · exact Does.refl _ m
  · exact ((((Does.refl _ m).st _ (by decide)).st _ (by decide)).st _ (by decide)).st _ (by decide)

theorem pumped_lsFreeze {m : Mach} (h : Pumped m) : Pumped (lsFreeze m) := by
  refine h.only (within_lsFreeze_own m).only (pumpedCell_out (by decide) (fun a ha hc => ?_))
  simp only [area, seatRing, List.mem_cons, List.not_mem_nil, or_false, lsFroze, lsSave102,
    isrPhase] at ha hc
  omega

/-! ## The tick -/

/-- A game tick. -/
def Ev.isTick : Ev → Bool
  | .tick .. => true
  | _ => false

/-- On idle cells, if it is one: decoded input $40, keypad 0, for both seats. -/
def IdleTick : Ev → Prop
  | .tick _ s0 s1 => s0.cur = 0x40 ∧ s0.kp = 0 ∧ s1.cur = 0x40 ∧ s1.kp = 0
  | _ => True

theorem noTick_of_quiet {e : Ev} (h : e.quiet = true) : e.isTick = false := by
  cases e <;> first | rfl | cases h

theorem idleTick_of_noTick {e : Ev} (h : e.isTick = false) : IdleTick e := by
  cases e <;> trivial

/-- Events without a game tick. -/
def NoTicks (l : List Ev) : Prop := ∀ e ∈ l, e.isTick = false

theorem NoTicks.append {l l' : List Ev} (h : NoTicks l) (h' : NoTicks l') : NoTicks (l ++ l') := by
  intro e he
  rcases List.mem_append.mp he with he | he
  · exact h e he
  · exact h' e he

theorem NoTicks.countP {l : List Ev} (h : NoTicks l) : l.countP Ev.isTick = 0 := by
  rw [List.countP_eq_zero]
  intro e he
  rw [h e he]
  exact Bool.false_ne_true

theorem mute_noTicks {S : Nat → Prop} {m m' : Mach} (h : Mute S m m') :
    ∃ l, m'.ev = m.ev ++ l ∧ NoTicks l := by
  obtain ⟨tx, ev, hd, hq⟩ := h
  exact ⟨ev, hd.ev_eq, fun e he => noTick_of_quiet (hq e he)⟩

theorem rsPending_noTicks (m : Mach) : ∃ l, (rsPending m).ev = m.ev ++ l ∧ NoTicks l := by
  rcases rsPending_cases m with h | ⟨m1, h, he⟩
  · exact mute_noTicks h
  · obtain ⟨l, hl, hn⟩ := mute_noTicks h
    obtain ⟨r, r', hp⟩ := ev_rsPush m1
    refine ⟨l ++ [.hold, .push r, .rebase r'], ?_, hn.append ?_⟩
    · rw [he, hp, hl, List.append_assoc]
    · intro e he'
      simp only [List.mem_cons, List.not_mem_nil, or_false] at he'
      rcases he' with rfl | rfl | rfl <;> rfl

/-- The pass plays one tick; with the peer gone it is idle. -/
theorem lsRun_events (k : Cart) {m : Mach} : ∃ pre post e, (lsRun k m).ev = m.ev ++ pre ++ e :: post ∧
    NoTicks pre ∧ NoTicks post ∧ (IdleNow m → IdleTick e) := by
  obtain ⟨m1, m2, h1, h2, he⟩ := lsRun_parts k m
  obtain ⟨l1, hl1, hn1⟩ := mute_noTicks h1
  obtain ⟨l2, hl2, hn2⟩ := mute_noTicks h2
  obtain ⟨l3, hl3, hn3⟩ := mute_noTicks (mute_lsTickInc m2)
  obtain ⟨l4, hl4, hn4⟩ := rsPending_noTicks (lsTickInc m2)
  have hun : (lsUnfreeze m).ev = m.ev := by
    rw [(within_lsUnfreeze_own m).ev_eq, List.append_nil]
  refine ⟨l1, l2 ++ l3 ++ l4, lsTickEv m1, ?_, hn1, (hn2.append hn3).append hn4, fun hidle => ?_⟩
  · rw [he, hl4, hl3, hl2, Mach.ev_log, hl1, hun]
    simp only [List.append_assoc, List.cons_append, List.nil_append]
  · have hk : ∀ a, area seatRing 2048 a ∨ a = tickLo → m1.rd a = m.rd a := by
      intro a ha
      have hb : ¬ beatCell a ∧ a ∉ [lsFroze, lsWaitcLo, lsWaitcHi, isrPhase] := by
        simp only [area, seatRing, tickLo] at ha
        simp only [beatCell, actCell, gameCell, area, ownCrc, List.mem_cons, List.not_mem_nil,
          or_false, rngLo, rngHi, scCnt2, vdTmp, vdSide, vdCur, vdPrev, vdKp, vdKppre, vdCtrl,
          shadowCtrl, shadowCtrlR, gameTblLo, gameTblHi, lsTmpb, lsTmpb2, lsFroze, lsWaitcLo,
          lsWaitcHi, isrPhase]
        omega
      rw [h1.keep hb.1, (within_lsUnfreeze_own m).keep a hb.2]
    have ht := m.rd_lt_cart (a := tickLo) (by decide)
    obtain ⟨h0, h0'⟩ := hidle 0 (by decide)
    obtain ⟨h4, h4'⟩ := hidle 1 (by decide)
    have hcell : ∀ s < 2, m1.rd (seatRing + s * 256 + m.rd tickLo) =
        m.rd (seatRing + s * 256 + m.rd tickLo) ∧
        m1.rd (seatKp + s * 256 + m.rd tickLo) = m.rd (seatKp + s * 256 + m.rd tickLo) := by
      intro s hs
      refine ⟨hk _ (Or.inl ?_), hk _ (Or.inl ?_)⟩
      · simp only [area, seatRing]
        omega
      · simp only [area, seatRing, seatKp]
        omega
    have htl : m1.rd tickLo = m.rd tickLo := hk _ (Or.inr rfl)
    simp only [lsTickEv, IdleTick, seatCells, htl]
    rw [(hcell 0 (by decide)).1, (hcell 0 (by decide)).2, (hcell 1 (by decide)).1,
      (hcell 1 (by decide)).2]
    exact ⟨h0, h0', h4, h4'⟩

/-! ## Steps of a match -/

/-- What holds of a console in a match. -/
def Going (c : Con) : Prop :=
  match c.pos with
  | .top => Seated c.m ∧ c.m.rd peerScr = 0
  | .gate => Gated c.m
  | .parked => c.m.rd netDropped ≠ 0

/-- After START, before anything else. -/
structure Begun (m : Mach) : Prop extends Seated m where
  scr : m.rd peerScr = 0
  dropped : m.rd netDropped = 0
  froze : m.rd lsFroze = 0

theorem lsDue_spec {m : Mach} (h : lsDue m = true) :
    m.rd peerScr = 0 ∧ m.rd netDropped = 0 ∧ m.rd resyncHold = 0 := by
  simp only [lsDue, Bool.and_eq_true, decide_eq_true_eq] at h
  exact ⟨h.1.1, h.1.2, h.2⟩

theorem pumped_of_top {m : Mach} (h : Seated m ∧ m.rd peerScr = 0) (hd : m.rd netDropped = 0) :
    Pumped m := ⟨h.1, h.2, fun hne => absurd hd hne⟩

/-- Cells of the terminal screen. -/
theorem within_lsPeerLeft (m : Mach) :
    Within (fun a => a < 0x8000 ∨ a = uiColor ∨ a = ppTmp) m (lsPeerLeft m) := by
  have hscr : ∀ a, screenArea a → a < 0x8000 ∨ a = uiColor ∨ a = ppTmp := by
    rintro a (h | h | h)
    · exact Or.inr (Or.inl h)
    · exact Or.inr (Or.inr h)
    · simp only [area, backtab] at h
      exact Or.inl (by omega)
  have hdisp : Within (fun a => a < 0x8000 ∨ a = uiColor ∨ a = ppTmp) m (rsDisplayReset m) := by
    refine (within_rsDisplayReset m).mono ?_
    rintro a (h | h)
    · exact Or.inl (by omega)
    · simp only [area] at h
      exact Or.inl (by omega)
  have hcls := fun m => (within_uiCls_screen m).mono hscr
  have hprint : ∀ (m : Mach) (off : Nat) (str : List Nat), off + str.length ≤ 240 →
      Within (fun a => a < 0x8000 ∨ a = uiColor ∨ a = ppTmp) m (uiPrint m off str) :=
    fun m off str hle => (within_uiPrint_screen m off str hle).mono hscr
  have hprintN : ∀ (m : Mach) (off src n : Nat), off + n ≤ 240 →
      Within (fun a => a < 0x8000 ∨ a = uiColor ∨ a = ppTmp) m (uiPrintN m off src n) :=
    fun m off src n hle => (within_uiPrintN_screen m off src n hle).mono hscr
  have hhex : ∀ (m : Mach) (v off : Nat), off < 240 →
      Within (fun a => a < 0x8000 ∨ a = uiColor ∨ a = ppTmp) m (uiHex2 m v off) := by
    intro m v off hle
    refine (within_uiHex2 m v off).mono (fun a ha => Or.inl ?_)
    simp only [area, backtab] at ha
    omega
  have hwhy : Within (fun a => a < 0x8000 ∨ a = uiColor ∨ a = ppTmp) (uiCls (rsDisplayReset m))
      (if (uiCls (rsDisplayReset m)).rd peerWhy = 0
        then uiPrint (uiCls (rsDisplayReset m)) 82 strLost
        else uiPrint (uiCls (rsDisplayReset m)) 83 strGone) := by
    split
    · exact hprint _ _ _ (by decide)
    · exact hprint _ _ _ (by decide)
  have htext := (((hdisp.within (hcls _)).within hwhy).within
    (hprintN _ 126 leftName 8 (by decide))).within (hprint _ 184 strReset (by decide))
  have hdiag := htext.within (hprint _ 202 strDiag (by decide))
  exact (((hdiag.within (hhex _ _ 222 (by decide))).within (hhex _ _ 227 (by decide))).within
    (hhex _ _ 231 (by decide))).within (hhex _ _ 235 (by decide))

theorem within_park (m : Mach) :
    Within (fun a => a < 0x8000 ∨ a ∈ [uiColor, ppTmp, peerScr, lsFroze, lsSave102]) m
      ((lsPeerLeft (lsFreeze m)).st peerScr 1) := by
  refine Does.st (Does.within ((within_lsFreeze_own m).mono ?_) ((within_lsPeerLeft _).mono ?_)) _
    (by decide)
  · intro a ha
    simp only [List.mem_cons, List.not_mem_nil, or_false] at ha
    rcases ha with rfl | rfl | rfl
    · exact Or.inr (by decide)
    · exact Or.inr (by decide)
    · exact Or.inl (by decide)
  · rintro a (h | rfl | rfl)
    · exact Or.inl h
    · exact Or.inr (by decide)
    · exact Or.inr (by decide)

theorem lsRun_keep (k : Cart) (m : Mach) {a : Nat} (ha : a ∈ [netSeat, netCount, netDelay, peerScr,
    netDropped]) : (lsRun k m).rd a = m.rd a := by
  have hout : ∀ a ∈ [netSeat, netCount, netDelay, peerScr, netDropped],
      ¬ tickCell a ∧ a ∉ [lsFroze, lsWaitcLo, lsWaitcHi, isrPhase] := by decide
  rw [(only_lsRun k m).keep (hout a ha).1, (within_lsUnfreeze_own m).keep a (hout a ha).2]

section
variable {k : Cart} {c c' : Con}

theorem going_step (h : Going c) (hs : Step k DropOk c c') : Going c' := by
  cases hs with
  | exec m f =>
    have hk : ∀ a ∈ [netSeat, netCount, netDelay, peerScr], (m.game f).rd a = m.rd a := by
      intro a ha
      have hout : ∀ a ∈ [netSeat, netCount, netDelay, peerScr], ¬ gameCell a := by decide
      rw [Mach.rd_game, if_neg (hout a ha)]
    obtain ⟨hseat, hscr⟩ := h
    refine ⟨⟨?_, ?_, ?_⟩, (hk _ (by decide)).trans hscr⟩
    · rw [hk _ (by decide)]
      exact hseat.seat
    · rw [hk _ (by decide)]
      exact hseat.count
    · rw [hk _ (by decide)]
      exact hseat.delay
  | turn hd hp hf =>
    exact gated_lsCapture (pumped_sesPump (pumped_of_top h (lsDue_spec hd).2.1) hf hp)
  | wait hd ho hp hf =>
    exact (pumped_lsWaitRound
      (pumped_sesPump (pumped_lsFreeze (Gated.pumped h hd)) hf hp)).gated
  | @run m ho =>
    have hg : Gated m := h
    refine ⟨⟨?_, ?_, ?_⟩, ?_⟩
    · rw [lsRun_keep k m (by decide)]
      exact hg.seat
    · rw [lsRun_keep k m (by decide)]
      exact hg.count
    · rw [lsRun_keep k m (by decide)]
      exact hg.delay
    · rw [lsRun_keep k m (by decide), hg.scr]
  | hold hs hd hh hp hf =>
    have hq := pumped_lsHoldRound (pumped_sesPump (pumped_lsFreeze (pumped_of_top h hd)) hf hp)
    exact ⟨hq.toSeated, hq.scr⟩
  | @park m hs hd =>
    show ((lsPeerLeft (lsFreeze m)).st peerScr 1).rd netDropped ≠ 0
    rw [(within_park m).keep _ (by decide)]
    exact hd

/-- With NET_DROPPED set: it stays, and a step plays at most the one tick the gate was
    open for, on idle cells. -/
theorem dropped_step (h : Going c) (hd : c.m.rd netDropped ≠ 0) (hs : Step k DropOk c c') :
    c'.m.rd netDropped ≠ 0 ∧ c'.pos ≠ .gate ∧ ∃ new, c'.m.ev = c.m.ev ++ new ∧
      new.countP Ev.isTick ≤ (if c.pos = .gate then 1 else 0) ∧ ∀ e ∈ new, IdleTick e := by
  cases hs with
  | exec m f =>
    refine ⟨?_, nofun, [], (List.append_nil _).symm, Nat.zero_le _, nofun⟩
    rw [Mach.rd_game, if_neg (by decide)]
    exact hd
  | turn hdue hp hf => exact absurd (lsDue_spec hdue).2.1 hd
  | wait hz ho hp hf => exact absurd hz hd
  | @run m ho =>
    have hg : Gated m := h
    obtain ⟨pre, post, e, hev, hpre, hpost, hidle⟩ := lsRun_events k (m := m)
    refine ⟨by rw [lsRun_keep k m (by decide)]; exact hd, nofun, pre ++ e :: post, ?_, ?_, ?_⟩
    · rw [hev, List.append_assoc]
    · rw [List.countP_append, List.countP_cons, hpre.countP, hpost.countP]
      simp only [if_true]
      split <;> omega
    · intro e' he'
      rcases List.mem_append.mp he' with he' | he'
      · exact idleTick_of_noTick (hpre e' he')
      · rcases List.mem_cons.mp he' with rfl | he'
        · exact hidle (hg.idle hd)
        · exact idleTick_of_noTick (hpost e' he')
  | hold hs hz hh hp hf => exact absurd hz hd
  | @park m hs hz =>
    refine ⟨?_, nofun, [], ?_, Nat.zero_le _, nofun⟩
    · show ((lsPeerLeft (lsFreeze m)).st peerScr 1).rd netDropped ≠ 0
      rw [(within_park m).keep _ (by decide)]
      exact hd
    · exact (within_park m).ev_eq

/-- And so for any number of steps. -/
theorem dropped_steps (h : Going c) (hd : c.m.rd netDropped ≠ 0) (hs : Steps k DropOk c c') :
    Going c' ∧ c'.m.rd netDropped ≠ 0 ∧ ∃ new, c'.m.ev = c.m.ev ++ new ∧
      new.countP Ev.isTick ≤ (if c.pos = .gate then 1 else 0) ∧
      (c'.pos = .gate → c.pos = .gate ∧ new = []) ∧ ∀ e ∈ new, IdleTick e := by
  induction hs with
  | refl => exact ⟨h, hd, [], (List.append_nil _).symm, Nat.zero_le _, fun hp => ⟨hp, rfl⟩, nofun⟩
  | @tail b d _ hstep ih =>
    obtain ⟨hg, hb, new, hev, hcount, hgate, hidle⟩ := ih
    obtain ⟨hd', hpos, new', hev', hcount', hidle'⟩ := dropped_step hg hb hstep
    refine ⟨going_step hg hstep, hd', new ++ new', ?_, ?_, fun hp => absurd hp hpos, ?_⟩
    · rw [hev', hev, List.append_assoc]
    · rw [List.countP_append]
      by_cases hbg : b.pos = .gate
      · obtain ⟨hcg, hnil⟩ := hgate hbg
        rw [if_pos hbg] at hcount'
        rw [hnil, List.countP_nil, if_pos hcg]
        omega
      · rw [if_neg hbg] at hcount'
        omega
    · intro e he
      rcases List.mem_append.mp he with he | he
      · exact hidle e he
      · exact hidle' e he

end

/-! ## LS_FROZE and LS_SAVE102 -/

/-- Everything but the two. -/
def calmCell (a : Nat) : Prop := a ≠ lsFroze ∧ a ≠ lsSave102

theorem calm_pump {m m' : Mach} {got : List Byte} (h : Pumped m)
    (hf : ∀ me ∈ ppEntries ppFuel (ppCp m got), DropOk me) (hp : sesPump m got = some m') :
    Only calmCell m m' := by
  have hout : ∀ a, frameArea a → calmCell a := by
    intro a ha
    have hno : ∀ b, b = lsFroze ∨ b = lsSave102 → ¬ frameArea b := by
      intro b hb hfa
      have hst : steerCell b := by
        rcases hb with rfl | rfl
        · decide
        · decide
      obtain ⟨hroom, hlob, hrows⟩ := steer_out hst
      rcases hfa with (h | h | h | h | h | ⟨r, hr, h⟩) | h | h
      · unfold inputArea at h
        rcases hb with rfl | rfl <;> revert h <;> decide
      · exact hroom h
      · exact hlob h
      · rcases hb with rfl | rfl <;> revert h <;> decide
      · rcases hb with rfl | rfl <;> revert h <;> decide
      · exact h.elim (hrows r hr).1 (hrows r hr).2
      · rcases hb with rfl | rfl <;> revert h <;> decide
      · unfold stateCell dlCell at h
        rcases hb with rfl | rfl <;> revert h <;> decide
    exact ⟨fun he => hno a (Or.inl he) ha, fun he => hno a (Or.inr he) ha⟩
  have hpc : ∀ a, pumpCell a → calmCell a := by
    intro a ha
    simp only [pumpCell, parserCell, area, rxWr, rxRd, diagSlip, rxAcc, frmBuf] at ha
    simp only [calmCell, lsFroze, lsSave102]
    omega
  refine (sesPump_mute (P := fun x => Pumped x ∧ Only calmCell m x) ?_ ?_
    ⟨h, (Does.refl _ m).only⟩ hp).2
  · intro m1 m2 ho h1
    exact ⟨pumped_pump ho h1.1, h1.2.trans (ho.only.mono hpc)⟩
  · intro me hme h1
    exact ⟨pumped_sesOnframe h1.1 (hf me hme),
      h1.2.trans ((only_sesOnframe h1.1.count).mono hout)⟩

theorem calm_countRound {lo hi limit : Nat} {giveUp : Mach → Mach} (hlo : calmCell lo)
    (hhi : calmCell hi) (hg : ∀ m, Within calmCell m (giveUp m)) (m : Mach) :
    Within calmCell m (countRound lo hi limit giveUp m) := by
  have h1 : Within calmCell m (m.st lo (m.rd lo + 1)) := (Does.refl _ m).st _ hlo
  unfold countRound
  dsimp only
  split_ifs
  · exact h1
  · exact h1.st _ hhi
  · exact (h1.st _ hhi).within (hg _)

instance (a : Nat) : Decidable (calmCell a) := by unfold calmCell; infer_instance

theorem calm_lsIdleRmt (m : Mach) : Within calmCell m (lsIdleRmt m) := by
  refine (within_lsIdleRmt m).mono (fun a ha => ?_)
  simp only [area, seatRing, seatWm] at ha
  simp only [calmCell, lsFroze, lsSave102]
  omega

theorem calm_lsWaitRound (m : Mach) : Within calmCell m (lsWaitRound m) := by
  refine calm_countRound (by decide) (by decide) (fun m => ?_) m
  exact (((Does.refl _ m).st _ (by decide)).st _ (by decide)).within (calm_lsIdleRmt _)

theorem calm_lsHoldRound (m : Mach) : Within calmCell m (lsHoldRound m) := by
  refine calm_countRound (by decide) (by decide) (fun m => ?_) m
  exact ((((Does.refl _ m).st _ (by decide)).st _ (by decide)).st _ (by decide)).within
    (calm_lsIdleRmt _)

theorem lsFreeze_frozen {m : Mach} (h : m.rd lsFroze ≠ 0) : lsFreeze m = m := if_pos h

theorem lsFreeze_saves {m : Mach} (h : m.rd lsFroze = 0) :
    (lsFreeze m).rd lsFroze ≠ 0 ∧ (lsFreeze m).rd lsSave102 = m.rd isrPhase := by
  have hphase : m.rd isrPhase < 256 := by
    have := m.rd_lt isrPhase
    rwa [cellMod_scratch (by decide) (by decide)] at this
  unfold lsFreeze
  rw [if_neg (not_not.mpr h)]
  dsimp only
  constructor
  · rw [Mach.rd_st_ne _ _ (by decide), Mach.rd_st_ne _ _ (by decide), Mach.rd_st_self,
      cellMod_cart (by decide)]
    decide
  · rw [Mach.rd_st_ne _ _ (by decide), Mach.rd_st_self, Mach.rd_st_ne _ _ (by decide),
      cellMod_cart (by decide), Nat.mod_eq_of_lt hphase]

/-- The tick puts LS_SAVE102 back. -/
theorem lsUnfreeze_restores {m : Mach} (h : m.rd lsFroze ≠ 0) :
    (lsUnfreeze m).rd isrPhase = m.rd lsSave102 ∧ (lsUnfreeze m).rd lsFroze = 0 := by
  have hs := m.rd_lt_cart (a := lsSave102) (by decide)
  have hk : (((m.st lsFroze 0).st lsWaitcLo 0).st lsWaitcHi 0).rd lsSave102 = m.rd lsSave102 := by
    rw [Mach.rd_st_ne _ _ (by decide), Mach.rd_st_ne _ _ (by decide),
      Mach.rd_st_ne _ _ (by decide)]
  unfold lsUnfreeze
  rw [if_neg h]
  dsimp only
  rw [hk]
  constructor
  · rw [Mach.rd_st_self, cellMod_scratch (by decide) (by decide), Nat.mod_eq_of_lt hs]
  · rw [Mach.rd_st_ne _ _ (by decide), Mach.rd_st_ne _ _ (by decide),
      Mach.rd_st_ne _ _ (by decide), Mach.rd_st_self, Nat.zero_mod]

theorem lsUnfreeze_running {m : Mach} (h : m.rd lsFroze = 0) : lsUnfreeze m = m := if_pos h

/-- After the tick nothing is frozen. -/
theorem lsRun_unfrozen (k : Cart) (m : Mach) : (lsRun k m).rd lsFroze = 0 := by
  rw [(only_lsRun k m).keep (by decide)]
  by_cases h : m.rd lsFroze = 0
  · rw [lsUnfreeze_running h, h]
  · exact (lsUnfreeze_restores h).2

/-- The value $0102 had when LS_FROZE last went up, while it is up. -/
def frozenAt (c c' : Con) (v : Option Nat) : Option Nat :=
  if c'.m.rd lsFroze = 0 then none
  else if c.m.rd lsFroze = 0 then some (c.m.rd isrPhase) else v

/-- The runs of a match, with that value. -/
inductive Hist (k : Cart) (ok : Mach → Prop) (m0 : Mach) : Con → Option Nat → Prop where
  | start : Hist k ok m0 ⟨m0, .top⟩ none
  | step {c c' : Con} {v : Option Nat} (h : Hist k ok m0 c v) (hs : Step k ok c c') :
      Hist k ok m0 c' (frozenAt c c' v)

section
variable {k : Cart} {c c' : Con}

/-- With LS_FROZE up no step stores to LS_SAVE102; a step that brings it up saves $0102. -/
theorem save_step (h : Going c) (hs : Step k DropOk c c') :
    (c.m.rd lsFroze ≠ 0 → Only (· ≠ lsSave102) c.m c'.m) ∧
    (c.m.rd lsFroze = 0 → c'.m.rd lsFroze ≠ 0 → c'.m.rd lsSave102 = c.m.rd isrPhase) := by
  have hcalm : ∀ a, calmCell a → a ≠ lsSave102 := fun a ha => ha.2
  -- a pump behind LS_FREEZE, and a round
  have hround : ∀ {m m1 m2 : Mach} {got : List Byte}, Pumped (lsFreeze m) →
      sesPump (lsFreeze m) got = some m1 →
      (∀ me ∈ ppEntries ppFuel (ppCp (lsFreeze m) got), DropOk me) → Only calmCell m1 m2 →
      (m.rd lsFroze ≠ 0 → Only (· ≠ lsSave102) m m2) ∧
      (m.rd lsFroze = 0 → m2.rd lsFroze ≠ 0 → m2.rd lsSave102 = m.rd isrPhase) := by
    intro m m1 m2 got hpu hp hf h12
    have hall := (calm_pump hpu hf hp).trans h12
    refine ⟨fun hfr => ?_, fun hfr _ => ?_⟩
    · rw [lsFreeze_frozen hfr] at hall
      exact hall.mono hcalm
    · rw [hall.keep (by decide)]
      exact (lsFreeze_saves hfr).2
  cases hs with
  | exec m f =>
    refine ⟨fun _ => ((Does.refl _ m).game f (fun a ha => ?_)).only, fun h0 hne => ?_⟩
    · rintro rfl
      revert ha
      decide
    · rw [Mach.rd_game, if_neg (by decide)] at hne
      exact absurd h0 hne
  | turn hd hp hf =>
    have hpu := pumped_of_top h (lsDue_spec hd).2.1
    have hpm := pumped_sesPump hpu hf hp
    have hall := (calm_pump hpu hf hp).trans ((only_lsCapture_own hpm.seat).mono (T := calmCell)
      (fun a ha => by
        have hs := hpm.seat
        simp only [lsTmpb, lsTmpb2, seatRing, seatKp] at ha
        simp only [calmCell, lsFroze, lsSave102]
        omega))
    refine ⟨fun _ => hall.mono hcalm, fun h0 hne => ?_⟩
    rw [hall.keep (by decide)] at hne
    exact absurd h0 hne
  | wait hd ho hp hf =>
    exact hround (pumped_lsFreeze (Gated.pumped h hd)) hp hf (calm_lsWaitRound _).only
  | @run m ho =>
    refine ⟨fun _ => ?_, fun _ hne => absurd (lsRun_unfrozen k m) hne⟩
    refine ((within_lsUnfreeze_own m).only.mono ?_).trans ((only_lsRun k m).mono ?_)
    · intro a ha
      rintro rfl
      revert ha
      decide
    · intro a ha
      rintro rfl
      revert ha
      decide
  | hold hs hd hh hp hf =>
    exact hround (pumped_lsFreeze (pumped_of_top h hd)) hp hf (calm_lsHoldRound _).only
  | @park m hs hd =>
    have hpl : Within calmCell (lsFreeze m) ((lsPeerLeft (lsFreeze m)).st peerScr 1) := by
      refine ((within_lsPeerLeft _).mono ?_).st _ (by decide)
      intro a ha
      simp only [uiColor, ppTmp] at ha
      simp only [calmCell, lsFroze, lsSave102]
      omega
    refine ⟨fun hfr => ?_, fun hfr _ => ?_⟩
    · rw [lsFreeze_frozen hfr] at hpl ⊢
      exact hpl.only.mono hcalm
    · rw [hpl.keep _ (by decide)]
      exact (lsFreeze_saves hfr).2

end

theorem hist_steps {k : Cart} {ok : Mach → Prop} {m0 : Mach} {c : Con} {v : Option Nat}
    (h : Hist k ok m0 c v) : Steps k ok ⟨m0, .top⟩ c := by
  induction h with
  | start => exact .refl
  | step _ hs ih => exact ih.tail hs

theorem going_steps {k : Cart} {m0 : Mach} (h0 : Begun m0) {c : Con}
    (h : Steps k DropOk ⟨m0, .top⟩ c) : Going c := by
  induction h with
  | refl => exact ⟨h0.toSeated, h0.scr⟩
  | tail _ hs ih => exact going_step ih hs

/-- While LS_FROZE is up LS_SAVE102 holds what the freeze found in $0102. -/
theorem saved_hist {k : Cart} {m0 : Mach} (h0 : Begun m0) {c : Con} {v : Option Nat}
    (h : Hist k DropOk m0 c v) (hf : c.m.rd lsFroze ≠ 0) : v = some (c.m.rd lsSave102) := by
  induction h with
  | start => exact absurd h0.froze hf
  | @step b c v hb hs ih =>
    obtain ⟨hkeep, hnew⟩ := save_step (going_steps h0 (hist_steps hb)) hs
    unfold frozenAt
    rw [if_neg hf]
    by_cases hbf : b.m.rd lsFroze = 0
    · rw [if_pos hbf, hnew hbf hf]
    · rw [if_neg hbf, ih hbf, (hkeep hbf).keep (by simp)]

/-! ## The end of a match -/

/-- What a drop comes to, from `c` on. -/
structure Ends (k : Cart) (ok : Mach → Prop) (c c' : Con) : Prop where
  /-- NET_DROPPED is not cleared. -/
  stays : c'.m.rd netDropped ≠ 0
  /-- At most one tick, if the gate was still ahead, and on idle cells. -/
  ticks : ∃ new, c'.m.ev = c.m.ev ++ new ∧
    new.countP Ev.isTick ≤ (if c.pos = .gate then 1 else 0) ∧ ∀ e ∈ new, IdleTick e
  /-- The gate lets the tick run at once. -/
  opens : c'.pos = .gate → ∀ reads, lsGate reads c'.m = some c'.m
  /-- The next pass paints the terminal screen and parks. -/
  parks : c'.pos = .top → ∀ reads, ∃ m', lsPass k reads c'.m = .parked m'
  /-- And that is the end. -/
  last : c'.pos = .parked → ∀ c'', ¬ Step k ok c' c''

/-- In every run of a match with a delay in which no INPUT is taken once the peer is gone: from
    the moment NET_DROPPED is set the match ends for good, and $0102 only ever gets back
    what the freeze before found there. -/
theorem drop_is_final {k : Cart} {m0 : Mach} (h0 : Begun m0) {c : Con} {v : Option Nat}
    (h : Hist k DropOk m0 c v) :
    (c.m.rd netDropped ≠ 0 → ∀ c', Steps k DropOk c c' → Ends k DropOk c c') ∧
    (c.m.rd lsFroze ≠ 0 → v = some (c.m.rd lsSave102) ∧
      (lsUnfreeze c.m).rd isrPhase = c.m.rd lsSave102 ∧
      ∀ c', Step k DropOk c c' → ¬ Mach.Puts lsSave102 c.m c'.m) := by
  have hg := going_steps h0 (hist_steps h)
  refine ⟨fun hd c' hs => ?_, fun hf => ⟨saved_hist h0 h hf, (lsUnfreeze_restores hf).1, ?_⟩⟩
  · obtain ⟨hg', hd', new, hev, hcount, -, hidle⟩ := dropped_steps hg hd hs
    refine ⟨hd', ⟨new, hev, hcount, hidle⟩, fun _ reads => ?_, fun hp reads => ?_, ?_⟩
    · cases reads with
      | nil => rw [lsGate, if_pos (Or.inl hd')]
      | cons got reads => rw [lsGate, if_pos (Or.inl hd')]
    · have hscr : c'.m.rd peerScr = 0 := by
        unfold Going at hg'
        rw [hp] at hg'
        exact hg'.2
      exact ⟨_, lsPass_dropped hscr hd' reads⟩
    · intro hp c'' hstep
      cases hstep <;> cases hp
  · intro c' hs hput
    obtain ⟨tx, ev, hdoes⟩ := (save_step hg hs).1 hf
    obtain ⟨l, hl, hne⟩ := hdoes.stores
    obtain ⟨l', hl', hin⟩ := hput
    have heq : l' = l := List.append_cancel_right (hl'.symm.trans hl)
    exact hne lsSave102 (heq ▸ hin) rfl

instance (m : Mach) : Decidable (FairStart m) := by unfold FairStart; infer_instance
instance (m : Mach) : Decidable (DropOk m) := by unfold DropOk; infer_instance

/-- The host of a match of two with delay 3, as START leaves it. -/
def hostStart : Mach :=
  sesOnframe (Mach.zero.stList frmBuf ([38, ftStart, 0, 2, 0x34, 0x12, 3] ++ List.replicate 32 0x41))

theorem begun_hostStart : Begun hostStart :=
  ⟨⟨by decide +kernel, by decide +kernel, by decide +kernel⟩, by decide +kernel,
    by decide +kernel, by decide +kernel⟩

/-- PEER_LEFT for seat 1. -/
def peerLeftBytes : List Byte := 10 :: 0x0B :: List.replicate 9 1

/-- PEER_LEFT and, behind it, INPUT from seat 1 for tick $4100 with the disc held. -/
def leftThenInput : List Byte := peerLeftBytes ++ [6, 6, 1, 0, 0x41, 0x2E, 0]

/-- A first pass that reads `got`, up to the gate. -/
theorem turn_hostStart {ok : Mach → Prop} {got : List Byte} {m1 : Mach}
    (hp : sesPump hostStart got = some m1)
    (hf : ∀ me ∈ ppEntries ppFuel (ppCp hostStart got), ok me) :
    Step stillCart ok ⟨hostStart, .top⟩ ⟨lsCapture m1, .gate⟩ :=
  .turn (by decide +kernel) hp hf

theorem drop_is_final_peerLeft : ∃ c, c.m.rd netDropped ≠ 0 ∧ c.pos = .gate ∧
    ∀ c', Steps stillCart DropOk c c' → Ends stillCart DropOk c c' := by
  have hd : (sesPump hostStart peerLeftBytes).map (fun m1 => (lsCapture m1).rd netDropped) =
      some 1 := by decide +kernel
  have hf : ∀ me ∈ ppEntries ppFuel (ppCp hostStart peerLeftBytes), DropOk me := by decide +kernel
  cases hp : sesPump hostStart peerLeftBytes with
  | none => simp [hp] at hd
  | some m1 =>
    rw [hp, Option.map_some, Option.some.injEq] at hd
    have hne : (lsCapture m1).rd netDropped ≠ 0 := by
      rw [hd]
      decide
    exact ⟨⟨lsCapture m1, .gate⟩, hne, rfl,
      (drop_is_final begun_hostStart (.step .start (turn_hostStart hp hf))).1 hne⟩

/-- A tick in which seat 1's disc is held. -/
def heldTick : Ev → Bool
  | .tick _ _ s1 => s1.cur = 0x2E
  | _ => false

/-- The INPUT behind PEER_LEFT is played. -/
theorem late_input_played :
    ¬ ∀ (k : Cart) (m0 : Mach) (c c' : Con) (v : Option Nat), Begun m0 → Hist k FairStart m0 c v →
      c.m.rd netDropped ≠ 0 → Steps k FairStart c c' → Ends k FairStart c c' := by
  intro hall
  have hd : (sesPump hostStart leftThenInput).map (fun m1 => ((lsCapture m1).rd netDropped,
      (lsCapture m1).ev.any Ev.isTick, (lsRun stillCart (lsCapture m1)).ev.any heldTick)) =
      some (1, false, true) := by decide +kernel
  have hf : ∀ me ∈ ppEntries ppFuel (ppCp hostStart leftThenInput), FairStart me := by
    decide +kernel
  cases hp : sesPump hostStart leftThenInput with
  | none => simp [hp] at hd
  | some m1 =>
    rw [hp, Option.map_some, Option.some.injEq, Prod.mk.injEq, Prod.mk.injEq] at hd
    obtain ⟨hdrop, hnone, hheld⟩ := hd
    have hne : (lsCapture m1).rd netDropped ≠ 0 := by
      rw [hdrop]
      decide
    have hends := hall stillCart hostStart _ _ _ begun_hostStart
      (.step .start (turn_hostStart hp hf)) hne (.single (.run (Or.inl hne)))
    obtain ⟨new, hev, -, hidle⟩ := hends.ticks
    obtain ⟨e, he, hcur⟩ := List.any_eq_true.mp hheld
    rw [hev] at he
    rcases List.mem_append.mp he with he | he
    · -- no tick had been played before
      have hno := List.any_eq_false.mp hnone e he
      cases e <;> simp [heldTick, Ev.isTick] at hcur hno
    · have hi := hidle e he
      cases e <;> simp [heldTick, IdleTick] at hcur hi
      omega

end IntvBasketball.Console
