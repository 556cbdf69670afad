/-
  How long LS_PASS waits.

  The rounds of a stall are counted in LS_WAITC_LO and LS_WAITC_HI, those of a hold in
  RS_TO_LO and RS_TO_HI. When the low cell wraps, the high cell is compared with the limit
  shifted right by 8. LS_TIMEOUT is 900, and 900 SHR 8 is 3: a stall ends after 768 rounds.
  RS_HOLD_TMO is $0600, and a hold does get its 1536 rounds (`waits_out`).

  Both counters start from zero each time: LS_WAITC is zero between passes (`Timed`), and
  RS_TO as soon as a BEGIN is handled, whatever came before.
-/
import IntvBasketball.Console.CrcRing

namespace IntvBasketball.Console

open Mach (Within Does Only)
open Relation (ReflTransGen)

/-! ## The counters -/

/-- Rounds of the stall. -/
def waited (m : Mach) : Nat := word (m.rd lsWaitcLo) (m.rd lsWaitcHi)

/-- Rounds of the hold. -/
def heldFor (m : Mach) : Nat := word (m.rd rsToLo) (m.rd rsToHi)

section
variable {lo hi limit : Nat} {giveUp : Mach → Mach} {m m' : Mach}

/-- A round is one more on the counter, and the last one gives up. -/
theorem countRound_spec (hlo : 0x8000 ≤ lo) (hhi : 0x8000 ≤ hi) (hne : hi ≠ lo) (hl : limit ≤ 255)
    (hlt : word (m.rd lo) (m.rd hi) < limit * 256) :
    ∃ m1, Within (fun a => a = lo ∨ a = hi) m m1 ∧
      word (m1.rd lo) (m1.rd hi) = word (m.rd lo) (m.rd hi) + 1 ∧
      countRound lo hi limit giveUp m =
        if word (m.rd lo) (m.rd hi) + 1 < limit * 256 then m1 else giveUp m1 := by
  have hb := m.rd_lt_cart hlo
  have h1 : Within (fun a => a = lo ∨ a = hi) m (m.st lo (m.rd lo + 1)) :=
    (Does.refl _ m).st _ (Or.inl rfl)
  have hhi1 : (m.st lo (m.rd lo + 1)).rd hi = m.rd hi := Mach.rd_st_ne _ _ hne
  unfold word at hlt ⊢
  by_cases hwrap : m.rd lo + 1 = 0x100
  · refine ⟨(m.st lo (m.rd lo + 1)).st hi (m.rd hi + 1), h1.st _ (Or.inr rfl), ?_, ?_⟩
    · rw [Mach.rd_st_ne _ _ hne.symm, Mach.rd_st_self, Mach.rd_st_self, cellMod_cart hlo,
        cellMod_cart hhi]
      omega
    · unfold countRound
      dsimp only
      rw [if_neg (not_not.mpr hwrap), hhi1]
      refine if_congr ?_ rfl rfl
      omega
  · refine ⟨m.st lo (m.rd lo + 1), h1, ?_, ?_⟩
    · rw [Mach.rd_st_self, hhi1, cellMod_cart hlo]
      omega
    · have hlow : m.rd lo + 1 < 256 := Nat.lt_of_le_of_ne hb hwrap
      have hhigh : m.rd hi + 1 ≤ limit := by omega
      have hbelow : m.rd hi * 256 + m.rd lo + 1 < limit * 256 :=
        calc m.rd hi * 256 + m.rd lo + 1 = m.rd hi * 256 + (m.rd lo + 1) := Nat.add_assoc ..
          _ < m.rd hi * 256 + 256 := Nat.add_lt_add_left hlow _
          _ = (m.rd hi + 1) * 256 := (Nat.succ_mul _ _).symm
          _ ≤ limit * 256 := Nat.mul_le_mul_right 256 hhigh
      unfold countRound
      dsimp only
      rw [if_pos hwrap, if_pos hbelow]

end

/-- The flags and counters of the waiting loops. -/
def timerCells : List Nat :=
  [netDropped, resyncHold, lsFroze, rsToLo, rsToHi, lsWaitcLo, lsWaitcHi]

section
variable {m m' : Mach}

theorem waited_congr (hk : ∀ a ∈ timerCells, m'.rd a = m.rd a) : waited m' = waited m := by
  rw [waited, waited, hk _ (by decide), hk _ (by decide)]

theorem heldFor_congr (hk : ∀ a ∈ timerCells, m'.rd a = m.rd a) : heldFor m' = heldFor m := by
  rw [heldFor, heldFor, hk _ (by decide), hk _ (by decide)]

/-- After `LS_TIMEOUT SHR 8` times 256 rounds the gate gives up. -/
theorem lsWaitRound_spec (hlt : waited m < 768) : ∃ m1,
    Within (fun a => a = lsWaitcLo ∨ a = lsWaitcHi) m m1 ∧ waited m1 = waited m + 1 ∧
      lsWaitRound m = if waited m + 1 < 768 then m1
        else lsIdleRmt ((m1.st peerWhy 0).st netDropped 1) :=
  countRound_spec (by decide) (by decide) (by decide) (by decide) hlt

theorem lsHoldRound_spec (hlt : heldFor m < 1536) : ∃ m1,
    Within (fun a => a = rsToLo ∨ a = rsToHi) m m1 ∧ heldFor m1 = heldFor m + 1 ∧
      lsHoldRound m = if heldFor m + 1 < 1536 then m1
        else lsIdleRmt (((m1.st peerWhy 0).st netDropped 1).st resyncHold 0) :=
  countRound_spec (by decide) (by decide) (by decide) (by decide) hlt

theorem idleRmt_out {a : Nat} (ha : a ∈ timerCells) :
    ¬ (area seatRing 2048 a ∨ area seatWm 8 a) := by
  have hout : ∀ a ∈ timerCells, ¬ (area seatRing 2048 a ∨ area seatWm 8 a) := by decide
  exact hout a ha

/-- What a round of the gate does to its counter, and to NET_DROPPED. -/
theorem lsWaitRound_timers (hlt : waited m < 768) :
    waited (lsWaitRound m) = waited m + 1 ∧
      (lsWaitRound m).rd netDropped = if waited m + 1 < 768 then m.rd netDropped else 1 := by
  obtain ⟨m1, hw, hone, he⟩ := lsWaitRound_spec hlt
  rw [he]
  split_ifs
  · exact ⟨hone, hw.keep _ (by decide)⟩
  · have hidle : ∀ a ∈ timerCells, (lsIdleRmt ((m1.st peerWhy 0).st netDropped 1)).rd a =
        ((m1.st peerWhy 0).st netDropped 1).rd a :=
      fun a ha => (within_lsIdleRmt _).keep a (idleRmt_out ha)
    constructor
    · rw [waited_congr hidle, waited, Mach.rd_st_ne _ _ (by decide), Mach.rd_st_ne _ _ (by decide),
        Mach.rd_st_ne _ _ (by decide), Mach.rd_st_ne _ _ (by decide)]
      exact hone
    · rw [hidle _ (by decide), Mach.rd_st_self, cellMod_cart (by decide)]

theorem lsHoldRound_timers (hlt : heldFor m < 1536) :
    heldFor (lsHoldRound m) = heldFor m + 1 ∧
      (lsHoldRound m).rd netDropped = (if heldFor m + 1 < 1536 then m.rd netDropped else 1) ∧
      (lsHoldRound m).rd resyncHold = if heldFor m + 1 < 1536 then m.rd resyncHold else 0 := by
  obtain ⟨m1, hw, hone, he⟩ := lsHoldRound_spec hlt
  rw [he]
  split_ifs
  · exact ⟨hone, hw.keep _ (by decide), hw.keep _ (by decide)⟩
  · have hidle : ∀ a ∈ timerCells,
        (lsIdleRmt (((m1.st peerWhy 0).st netDropped 1).st resyncHold 0)).rd a =
          (((m1.st peerWhy 0).st netDropped 1).st resyncHold 0).rd a :=
      fun a ha => (within_lsIdleRmt _).keep a (idleRmt_out ha)
    refine ⟨?_, ?_, ?_⟩
    · rw [heldFor_congr hidle, heldFor, Mach.rd_st_ne _ _ (by decide),
        Mach.rd_st_ne _ _ (by decide), Mach.rd_st_ne _ _ (by decide), Mach.rd_st_ne _ _ (by decide),
        Mach.rd_st_ne _ _ (by decide), Mach.rd_st_ne _ _ (by decide)]
      exact hone
    · rw [hidle _ (by decide), Mach.rd_st_ne _ _ (by decide), Mach.rd_st_self,
        cellMod_cart (by decide)]
    · rw [hidle _ (by decide), Mach.rd_st_self, Nat.zero_mod]

/-- Either round leaves the other's cells alone. -/
theorem lsWaitRound_keep {a : Nat} (ha : a ∈ [resyncHold, lsFroze, rsToLo, rsToHi]) :
    (lsWaitRound m).rd a = m.rd a := by
  have hin : ∀ a ∈ [resyncHold, lsFroze, rsToLo, rsToHi], a ∈ timerCells ∧
      ¬ (a = lsWaitcLo ∨ a = lsWaitcHi) ∧ a ≠ netDropped ∧ a ≠ peerWhy := by decide
  obtain ⟨h1, h2, h3, h4⟩ := hin a ha
  rcases countRound_cases lsWaitcLo lsWaitcHi lsTimeout
    (fun m => lsIdleRmt ((m.st peerWhy 0).st netDropped 1)) m with hw | ⟨m1, hw, he⟩
  · exact hw.keep a h2
  · rw [lsWaitRound, he, (within_lsIdleRmt _).keep a (idleRmt_out h1), Mach.rd_st_ne _ _ h3,
      Mach.rd_st_ne _ _ h4, hw.keep a h2]

theorem lsHoldRound_keep {a : Nat} (ha : a ∈ [lsWaitcLo, lsWaitcHi]) :
    (lsHoldRound m).rd a = m.rd a := by
  have hin : ∀ a ∈ [lsWaitcLo, lsWaitcHi], a ∈ timerCells ∧ ¬ (a = rsToLo ∨ a = rsToHi) ∧
      a ≠ resyncHold ∧ a ≠ netDropped ∧ a ≠ peerWhy := by decide
  obtain ⟨h1, h2, h3, h4, h5⟩ := hin a ha
  rcases countRound_cases rsToLo rsToHi rsHoldTmo
    (fun m => lsIdleRmt (((m.st peerWhy 0).st netDropped 1).st resyncHold 0)) m
    with hw | ⟨m1, hw, he⟩
  · exact hw.keep a h2
  · rw [lsHoldRound, he, (within_lsIdleRmt _).keep a (idleRmt_out h1), Mach.rd_st_ne _ _ h3,
      Mach.rd_st_ne _ _ h4, Mach.rd_st_ne _ _ h5, hw.keep a h2]

end

/-! ## What a frame does to them -/

def IsLeft (m : Mach) : Prop := m.rd (frmBuf + 1) = ftPeerLeft

/-- A BEGIN long enough to be taken. -/
def IsBegin (m : Mach) : Prop :=
  m.rd (frmBuf + 1) = ftState ∧ IsCtl m ∧ m.rd (frmBuf + 2) = 0 ∧ 5 ≤ m.rd frmBuf

def IsEnd (m : Mach) : Prop := m.rd (frmBuf + 1) = ftState ∧ IsCtl m ∧ m.rd (frmBuf + 2) = 1

instance (m : Mach) : Decidable (IsLeft m) := by unfold IsLeft; infer_instance
instance (m : Mach) : Decidable (IsBegin m) := by unfold IsBegin; infer_instance
instance (m : Mach) : Decidable (IsEnd m) := by unfold IsEnd; infer_instance

/-- The frame in FRMBUF and these cells. -/
inductive TimerStep (m : Mach) : Prop where
  | kept (hk : ∀ a ∈ timerCells, (sesOnframe m).rd a = m.rd a)
  | left (h : IsLeft m) (hd : (sesOnframe m).rd netDropped = 1)
      (hk : ∀ a ∈ timerCells, a ≠ netDropped → (sesOnframe m).rd a = m.rd a)
  | begun (h : IsBegin m) (hh : (sesOnframe m).rd resyncHold = 1)
      (hz : heldFor (sesOnframe m) = 0)
      (hk : ∀ a ∈ [netDropped, lsFroze, lsWaitcLo, lsWaitcHi], (sesOnframe m).rd a = m.rd a)
  | ended (h : IsEnd m) (hh : (sesOnframe m).rd resyncHold = 0) (hz : heldFor (sesOnframe m) = 0)
      (hw : waited (sesOnframe m) = 0)
      (hk : ∀ a ∈ [netDropped, lsFroze], (sesOnframe m).rd a = m.rd a)

section
variable {m m' : Mach}

theorem rd_rsRebase_timers (m : Mach) :
    (∀ a ∈ [resyncHold, rsToLo, rsToHi, lsWaitcLo, lsWaitcHi], (rsRebase m).rd a = 0) ∧
      ∀ a ∈ [netDropped, lsFroze], (rsRebase m).rd a = m.rd a := by
  have hout : ∀ a ∈ [netDropped, lsFroze], ¬ rebaseCell a := by decide
  refine ⟨fun a ha => ?_, fun a ha => (does_rsRebase m).keep a (hout a ha)⟩
  rw [Mach.rd, rsRebase_eq]
  exact rbRelease_zero _ a ha

/-- BEGIN enters the hold. -/
theorem rd_begin (h : IsBegin m) {a : Nat} (ha : a ∈ timerCells) :
    (sesOnframe m).rd a = (((m.st resyncHold 1).st rsToLo 0).st rsToHi 0).rd a := by
  obtain ⟨ht, hc, h0, hlen⟩ := h
  have hne : ∀ a ∈ timerCells, a ≠ rsRLo ∧ a ≠ rsRHi ∧ ¬ area ownCrc 32 a := by
    unfold area
    decide
  obtain ⟨h1, h2, h3⟩ := hne a ha
  have hrej : ¬ (m.log (.frame (frameBytes m))).rd frmBuf < 5 := Nat.not_lt.mpr hlen
  rw [sesOnframe, sesDispatch_state (m := m.log _) ht, rsOnState_ctl (m := m.log _) hc, rsCtl,
    if_pos (show (m.log _).rd (frmBuf + 2) = 0 from h0), if_neg hrej]
  dsimp only
  rw [Mach.rd_st_ne _ _ h2, Mach.rd_st_ne _ _ h1, rsEnterHold, Mach.rd_log,
    (within_rsClrCrc _).keep a h3]
  rfl

theorem heldFor_begin (h : IsBegin m) : heldFor (sesOnframe m) = 0 := by
  rw [heldFor, rd_begin h (by decide), rd_begin h (by decide), Mach.rd_st_ne _ _ (by decide),
    Mach.rd_st_self, Mach.rd_st_self]
  rfl

theorem timers_rsOnState (ht : m.rd (frmBuf + 1) = ftState) : TimerStep m := by
  have hdisp : sesOnframe m = rsOnState (m.log (.frame (frameBytes m))) :=
    sesDispatch_state (m := m.log _) ht
  by_cases hc : IsCtl m
  · have hctl : sesOnframe m = rsCtl (m.log (.frame (frameBytes m))) :=
      hdisp.trans (rsOnState_ctl (m := m.log _) hc)
    unfold rsCtl at hctl
    split_ifs at hctl with h0 h5 h1 hh
    · refine .kept (fun a ha => ?_)
      have hne : ∀ a ∈ timerCells, a ≠ diagRej := by decide
      rw [hctl]
      exact (within_diagBump _ diagRej).keep a (hne a ha)
    · have hlen : 5 ≤ m.rd frmBuf := Nat.le_of_not_lt h5
      have hb : IsBegin m := ⟨ht, hc, h0, hlen⟩
      refine .begun hb ?_ (heldFor_begin hb) (fun a ha => ?_)
      · rw [rd_begin hb (by decide), Mach.rd_st_ne _ _ (by decide), Mach.rd_st_ne _ _ (by decide),
          Mach.rd_st_self, cellMod_cart (by decide)]
      · have hin : ∀ a ∈ [netDropped, lsFroze, lsWaitcLo, lsWaitcHi], a ∈ timerCells ∧
            a ≠ resyncHold ∧ a ≠ rsToLo ∧ a ≠ rsToHi := by decide
        obtain ⟨h1, h2, h3, h4⟩ := hin a ha
        rw [rd_begin hb h1, Mach.rd_st_ne _ _ h4, Mach.rd_st_ne _ _ h3, Mach.rd_st_ne _ _ h2]
    · exact .kept (fun _ _ => by rw [hctl]; rfl)
    · exact .kept (fun _ _ => by rw [hctl]; rfl)
    · obtain ⟨hz, hk⟩ := rd_rsRebase_timers (m.log (.frame (frameBytes m)))
      have hone : m.rd (frmBuf + 2) = 1 := not_not.mp h1
      rw [← hctl] at hz hk
      refine .ended ⟨ht, hc, hone⟩ (hz _ (by decide)) ?_ ?_ hk
      · rw [heldFor, hz _ (by decide), hz _ (by decide)]
        rfl
      · rw [waited, hz _ (by decide), hz _ (by decide)]
        rfl
  · refine .kept (fun a ha => ?_)
    have hout : ∀ a ∈ timerCells, ¬ (dlCell a ∨ a = diagRej) := by
      unfold dlCell
      decide
    rw [hdisp]
    exact (within_rsOnState_data (m := m.log _) hc).keep a (hout a ha)

/-- One frame. -/
theorem timers_sesOnframe (hc : m.rd netCount ≤ 4) : TimerStep m := by
  have hmatch : ∀ a ∈ timerCells, matchCell a := by decide
  by_cases ht : m.rd (frmBuf + 1) ∈ flagTypes
  · have hpend : ∀ a ∈ timerCells, ¬ pendCell a := by decide
    simp only [flagTypes, List.mem_cons, List.not_mem_nil, or_false] at ht
    rcases ht with ht | ht | ht | ht | ht
    · refine .kept (fun a ha => ?_)
      have hout : ∀ a ∈ timerCells, ¬ startArea a := by decide
      rw [sesOnframe, sesDispatch_start (m := m.log _) ht]
      exact (within_ofStart _).keep a (hout a ha)
    · have hdisp : sesOnframe m = ofPl (m.log (.frame (frameBytes m))) :=
        sesDispatch_peerLeft (m := m.log _) ht
      have hout : ∀ a ∈ timerCells, a ≠ netDropped → ¬ leftArea a := by decide
      refine .left ht (hdisp ▸ ofPl_dropped _) (fun a ha hne => ?_)
      rw [hdisp]
      exact (within_ofPl _).keep a (hout a ha hne)
    · refine .kept (fun a ha => ?_)
      obtain ⟨tx, ev, hd, -⟩ := does_rsOnCrc (m.log (.frame (frameBytes m)))
      rw [sesOnframe, sesDispatch_crc (m := m.log _) ht]
      exact hd.keep a (hpend a ha)
    · exact timers_rsOnState ht
    · refine .kept (fun a ha => ?_)
      obtain ⟨ev, hd, -⟩ := does_rsOnReq (m.log (.frame (frameBytes m)))
      rw [sesOnframe, sesDispatch_resync (m := m.log _) ht]
      exact hd.keep a (hpend a ha)
  · exact .kept (fun a ha => sesDispatch_flags (m := m.log _) hc ht (hmatch a ha))

end

/-! ## A pump ends -/

/-- The accumulator holds something, whatever is in its cells. -/
theorem acc_exists (m : Mach) : ∃ bs, Acc m bs := by
  have hwr := m.rd_lt_cart (a := rxWr) (by decide)
  have hrd := m.rd_lt_cart (a := rxRd) (by decide)
  refine ⟨(List.range ((m.rd rxWr + 256 - m.rd rxRd) % 256)).map
    (fun i => UInt8.ofNat (m.rd (rxAcc + (m.rd rxRd + i) % 256))), ?_, ?_, fun i hi => ?_⟩
  · rw [List.length_map, List.length_range]
    omega
  · rw [List.length_map, List.length_map, List.length_range]
    exact Nat.mod_lt _ (by decide)
  · have hb := m.rd_lt_cart (a := rxAcc + (m.rd rxRd + i) % 256)
      (Nat.le_trans (by decide) (Nat.le_add_right _ _))
    simp only [List.getElem_map, List.getElem_range, UInt8.toNat_ofNat']
    exact (Nat.mod_eq_of_lt hb).symm

section
variable {m m' : Mach} {got : List Byte}

/-- So the parse loop runs out of bytes before its fuel, whatever was read. -/
theorem sesPump_total (hsafe : ∀ me ∈ ppEntries ppFuel (ppCp m got), PumpSafe me) :
    ∃ m', sesPump m got = some m' := by
  obtain ⟨bs, h⟩ := acc_exists (ppCp m got)
  obtain ⟨⟨m', hm', -⟩, -⟩ := ppLoop_parsed ppFuel h.length_lt h hsafe
  exact ⟨m', hm'⟩

/-- What each frame preserves, the parse loop preserves. -/
theorem timers_ppLoop {P : Mach → Prop}
    (hP : ∀ m m', (∀ a ∈ timerCells, m'.rd a = m.rd a) → P m → P m') {fuel : Nat}
    (hf : ∀ me ∈ ppEntries fuel m, SmallStart me)
    (hstep : ∀ me ∈ ppEntries fuel m, TimerStep me → P me → P (sesOnframe me))
    (hrec : Recording m) (h : P m) :
    (∀ me ∈ ppEntries fuel m, Recording me) ∧
      ∀ m', ppLoop fuel m = some m' → Recording m' ∧ P m' := by
  have hout : ∀ a ∈ timerCells, ¬ pumpCell a := by decide
  have hbase := steady_recording stillCart
  have hall := ppLoop_rule (P := fun m => Recording m ∧ P m)
    (fun m h => ⟨hbase.aside (aside_ppSlip m) h.1,
      hP _ _ (fun a ha => (mute_ppSlip m).only.keep (hout a ha)) h.2⟩)
    (fun m n hn h => ⟨hbase.aside (aside_ppX m hn) h.1,
      hP _ _ (fun a ha => (mute_ppX m hn).only.keep (hout a ha)) h.2⟩)
    fuel m
    (fun me hme h => ⟨hbase.frame (hf me hme) h.1,
      hstep me hme (timers_sesOnframe h.1.count) h.2⟩) ⟨hrec, h⟩
  exact ⟨fun me hme => (hall.1 me hme).1, hall.2⟩

/-- A whole pump. -/
theorem timers_pump {P : Mach → Prop}
    (hP : ∀ m m', (∀ a ∈ timerCells, m'.rd a = m.rd a) → P m → P m') (hrec : Recording m)
    (hf : ∀ me ∈ ppEntries ppFuel (ppCp m got), SmallStart me)
    (hstep : ∀ me ∈ ppEntries ppFuel (ppCp m got), TimerStep me → P me → P (sesOnframe me))
    (h : P m) : ∃ m', sesPump m got = some m' ∧ Recording m' ∧ P m' := by
  have hout : ∀ a ∈ timerCells, ¬ pumpCell a := by decide
  have hcp : Recording (ppCp m got) := (steady_recording stillCart).aside (aside_ppCp m got) hrec
  have hPcp : P (ppCp m got) := hP _ _ (fun a ha => (mute_ppCp m got).only.keep (hout a ha)) h
  obtain ⟨hent, hend⟩ := timers_ppLoop hP hf hstep hcp hPcp
  obtain ⟨m', hp⟩ := sesPump_total (fun me hme => pumpSafe_of_count (hent me hme).count)
  exact ⟨m', hp, hend m' hp⟩

/-- And a pump that is known to end. -/
theorem timers_pumped {P : Mach → Prop}
    (hP : ∀ m m', (∀ a ∈ timerCells, m'.rd a = m.rd a) → P m → P m') (hrec : Recording m)
    (hf : ∀ me ∈ ppEntries ppFuel (ppCp m got), SmallStart me)
    (hstep : ∀ me ∈ ppEntries ppFuel (ppCp m got), TimerStep me → P me → P (sesOnframe me))
    (h : P m) (hp : sesPump m got = some m') : P m' := by
  obtain ⟨m1, hp1, -, h1⟩ := timers_pump hP hrec hf hstep h
  rw [hp1, Option.some.injEq] at hp
  rwa [hp] at h1

/-- No frame starts a counter. -/
theorem frame_waited {me : Mach} (hs : TimerStep me) (h : waited me = 0) :
    waited (sesOnframe me) = 0 := by
  cases hs with
  | kept hk => exact (waited_congr hk).trans h
  | left _ _ hk =>
    rw [waited, hk _ (by decide) (by decide), hk _ (by decide) (by decide)]
    exact h
  | begun _ _ _ hk =>
    rw [waited, hk _ (by decide), hk _ (by decide)]
    exact h
  | ended _ _ _ hw _ => exact hw

theorem frame_heldFor {me : Mach} (hs : TimerStep me) (h : heldFor me = 0) :
    heldFor (sesOnframe me) = 0 := by
  cases hs with
  | kept hk => exact (heldFor_congr hk).trans h
  | left _ _ hk =>
    rw [heldFor, hk _ (by decide) (by decide), hk _ (by decide) (by decide)]
    exact h
  | begun _ _ hz _ => exact hz
  | ended _ _ hz _ _ => exact hz

theorem pump_waited (hrec : Recording m)
    (hf : ∀ me ∈ ppEntries ppFuel (ppCp m got), SmallStart me) (h : waited m = 0)
    (hp : sesPump m got = some m') : waited m' = 0 :=
  timers_pumped (P := fun m => waited m = 0) (fun _ _ hk h => (waited_congr hk).trans h) hrec hf
    (fun _ _ => frame_waited) h hp

/-- A hold that is open has just been opened. -/
def FreshHold (m : Mach) : Prop := m.rd resyncHold ≠ 0 → heldFor m = 0

theorem FreshHold.congr (h : FreshHold m) (hk : ∀ a ∈ timerCells, m'.rd a = m.rd a) :
    FreshHold m' := by
  intro hh
  rw [hk _ (by decide)] at hh
  exact (heldFor_congr hk).trans (h hh)

theorem pump_freshHold (hrec : Recording m)
    (hf : ∀ me ∈ ppEntries ppFuel (ppCp m got), SmallStart me) (h : FreshHold m)
    (hp : sesPump m got = some m') : FreshHold m' := by
  refine timers_pumped (P := FreshHold) (fun m m' hk h => h.congr hk) hrec hf (fun me _ hs h => ?_) h hp
  intro hh
  cases hs with
  | kept hk => exact h.congr hk hh
  | left _ _ hk =>
    rw [hk _ (by decide) (by decide)] at hh
    rw [heldFor, hk _ (by decide) (by decide), hk _ (by decide) (by decide)]
    exact h hh
  | begun _ _ hz _ => exact hz
  | ended _ _ hz _ _ => exact hz

theorem pump_froze (hrec : Recording m)
    (hf : ∀ me ∈ ppEntries ppFuel (ppCp m got), SmallStart me) {v : Nat} (h : m.rd lsFroze = v)
    (hp : sesPump m got = some m') : m'.rd lsFroze = v := by
  refine timers_pumped (P := fun m => m.rd lsFroze = v) (fun m m' hk h => ?_) hrec hf
    (fun me _ hs h => ?_) h hp
  · rw [hk _ (by decide)]
    exact h
  · cases hs with
    | kept hk => exact (hk _ (by decide)).trans h
    | left _ _ hk => exact (hk _ (by decide) (by decide)).trans h
    | begun _ _ _ hk => exact (hk _ (by decide)).trans h
    | ended _ _ _ _ hk => exact (hk _ (by decide)).trans h

end

/-! ## In every run -/

/-- Between passes LS_WAITC is zero; in the gate it is, unless the stall is frozen; and a hold
    that opens in a pass has no rounds yet. -/
structure Timed (c : Con) : Prop where
  ring : Recording c.m
  top : c.pos = .top → waited c.m = 0
  gate : c.pos = .gate → c.m.rd lsFroze = 0 → waited c.m = 0
  hold : c.pos = .gate → FreshHold c.m

section
variable {k : Cart} {m m' : Mach}

theorem timers_lsCapture (hs : m.rd netSeat < 4) :
    ∀ a ∈ timerCells, (lsCapture m).rd a = m.rd a := by
  intro a ha
  have hx : (lsTick m + m.rd netDelay) % 256 < 256 := Nat.mod_lt _ (by decide)
  have hlow : ∀ a ∈ timerCells, a < lsTmpb ∨ lsTmpb2 < a ∧ a < seatRing := by decide
  have h := hlow a ha
  refine (only_lsCapture_own hs).keep ?_
  simp only [lsTmpb, lsTmpb2, seatRing, seatKp] at h ⊢
  omega

theorem timers_lsFreeze : ∀ a ∈ timerCells, a ≠ lsFroze → (lsFreeze m).rd a = m.rd a := by
  have hout : ∀ a ∈ timerCells, a ≠ lsFroze → a ∉ [lsFroze, lsSave102, isrPhase] := by decide
  exact fun a ha hne => (within_lsFreeze_own m).keep a (hout a ha hne)

theorem lsFreeze_froze (m : Mach) : (lsFreeze m).rd lsFroze ≠ 0 := by
  by_cases h : m.rd lsFroze = 0
  · exact (lsFreeze_saves h).1
  · rw [lsFreeze_frozen h]
    exact h

theorem waited_lsFreeze : waited (lsFreeze m) = waited m := by
  rw [waited, waited, timers_lsFreeze _ (by decide) (by decide),
    timers_lsFreeze _ (by decide) (by decide)]

theorem heldFor_lsFreeze : heldFor (lsFreeze m) = heldFor m := by
  rw [heldFor, heldFor, timers_lsFreeze _ (by decide) (by decide),
    timers_lsFreeze _ (by decide) (by decide)]

theorem freshHold_lsFreeze (h : FreshHold m) : FreshHold (lsFreeze m) := by
  intro hh
  rw [timers_lsFreeze _ (by decide) (by decide)] at hh
  rw [heldFor_lsFreeze]
  exact h hh

theorem recording_lsFreeze (h : Recording m) : Recording (lsFreeze m) :=
  (steady_recording stillCart).freeze h

/-- The cells of both counters and of the hold after a tick: all zero if it pushed, else what
    the unfreezing left. -/
theorem lsRun_counters (k : Cart) (m : Mach) :
    (∀ a ∈ [resyncHold, rsToLo, rsToHi, lsWaitcLo, lsWaitcHi], (lsRun k m).rd a = 0) ∨
      ∀ a ∈ [resyncHold, rsToLo, rsToHi, lsWaitcLo, lsWaitcHi],
        (lsRun k m).rd a = (lsUnfreeze m).rd a := by
  obtain ⟨m1, m2, h1, h2, he⟩ := lsRun_parts k m
  have hout : ∀ a ∈ [resyncHold, rsToLo, rsToHi, lsWaitcLo, lsWaitcHi],
      ¬ beatCell a ∧ ¬ (a = tickLo ∨ a = tickHi) ∧ a ≠ rsPtmo := by decide
  have hbefore : ∀ a ∈ [resyncHold, rsToLo, rsToHi, lsWaitcLo, lsWaitcHi],
      (lsTickInc m2).rd a = (lsUnfreeze m).rd a := by
    intro a ha
    obtain ⟨hb, ht, -⟩ := hout a ha
    rw [(mute_lsTickInc m2).only.keep ht, h2.only.keep hb, Mach.rd_log, h1.only.keep hb]
  rw [he]
  rcases rsPending_cases (lsTickInc m2) with hp | ⟨m3, -, hp⟩
  · refine Or.inr (fun a ha => ?_)
    rw [hp.only.keep (hout a ha).2.2, hbefore a ha]
  · rw [hp]
    exact Or.inl (fun a ha => (rd_rsRebase_timers _).1 a ha)

theorem waited_lsRun (h : m.rd lsFroze = 0 → waited m = 0) : waited (lsRun k m) = 0 := by
  have hun : waited (lsUnfreeze m) = 0 := by
    by_cases hf : m.rd lsFroze = 0
    · rw [lsUnfreeze_running hf]
      exact h hf
    · unfold lsUnfreeze
      rw [if_neg hf]
      dsimp only
      rw [waited, Mach.rd_st_ne _ _ (by decide), Mach.rd_st_ne _ _ (by decide), Mach.rd_st_self,
        Mach.rd_st_ne _ _ (by decide), Mach.rd_st_self]
      rfl
  rcases lsRun_counters k m with hz | hk
  · rw [waited, hz _ (by decide), hz _ (by decide)]
    rfl
  · rw [waited, hk _ (by decide), hk _ (by decide)]
    exact hun

theorem freshHold_lsRun (h : FreshHold m) : FreshHold (lsRun k m) := by
  intro hh
  have hout : ∀ a ∈ [resyncHold, rsToLo, rsToHi],
      a ∉ [lsFroze, lsWaitcLo, lsWaitcHi, isrPhase] := by decide
  have hun : ∀ a ∈ [resyncHold, rsToLo, rsToHi], (lsUnfreeze m).rd a = m.rd a :=
    fun a ha => (within_lsUnfreeze_own m).keep a (hout a ha)
  rcases lsRun_counters k m with hz | hk
  · exact absurd (hz _ (by decide)) hh
  · rw [hk _ (by decide), hun _ (by decide)] at hh
    rw [heldFor, hk _ (by decide), hk _ (by decide), hun _ (by decide), hun _ (by decide)]
    exact h hh

theorem timed_step {c c' : Con} (h : Timed c) (hs : Step k SmallStart c c') : Timed c' := by
  have hrec := (steady_recording k).step h.ring hs
  cases hs with
  | exec m f =>
    have hk : ∀ a ∈ timerCells, (m.game f).rd a = m.rd a := by
      have hout : ∀ a ∈ timerCells, ¬ gameCell a := by decide
      have hw : Within gameCell m (m.game f) := (Does.refl _ m).game f (fun _ ha => ha)
      exact fun a ha => hw.keep a (hout a ha)
    exact ⟨hrec, fun _ => (waited_congr hk).trans (h.top rfl), nofun, nofun⟩
  | turn hd hp hf =>
    have hcap := timers_lsCapture (((steady_recording k).pump hf h.ring).2 _ hp).seat
    refine ⟨hrec, nofun, fun _ _ => ?_, fun _ => ?_⟩
    · exact (waited_congr hcap).trans (pump_waited h.ring hf (h.top rfl) hp)
    · -- no hold is open when a tick is due
      have hnone : FreshHold _ := fun hh => absurd (lsDue_spec hd).2.2 hh
      exact (pump_freshHold h.ring hf hnone hp).congr hcap
  | wait hd ho hp hf =>
    have hfrz := recording_lsFreeze h.ring
    refine ⟨hrec, nofun, fun _ hz => ?_, fun _ hh => ?_⟩
    · rw [lsWaitRound_keep (by decide), pump_froze hfrz hf rfl hp] at hz
      exact absurd hz (lsFreeze_froze _)
    · have hold := pump_freshHold hfrz hf (freshHold_lsFreeze (h.hold rfl)) hp
      rw [lsWaitRound_keep (by decide)] at hh
      rw [heldFor, lsWaitRound_keep (by decide), lsWaitRound_keep (by decide)]
      exact hold hh
  | run ho => exact ⟨hrec, fun _ => waited_lsRun (h.gate rfl), nofun, nofun⟩
  | hold hs hd hh hp hf =>
    refine ⟨hrec, fun _ => ?_, nofun, nofun⟩
    rw [waited, lsHoldRound_keep (by decide), lsHoldRound_keep (by decide)]
    exact pump_waited (recording_lsFreeze h.ring) hf (waited_lsFreeze.trans (h.top rfl)) hp
  | park hs hd => exact ⟨hrec, nofun, nofun, nofun⟩

/-- The counters as NET_START leaves them. -/
def Reset (m : Mach) : Prop := waited m = 0 ∧ heldFor m = 0

instance (m : Mach) : Decidable (Reset m) := by unfold Reset; infer_instance

/-- They are still so at the first pass. -/
theorem reset_began {p : Mach} (hp : IsStart p) (hs : SmallStart p) (hz : Reset p)
    (h0 : Began SmallStart p m) : Recording m ∧ Reset m := by
  have hcongr : ∀ m m', (∀ a ∈ timerCells, m'.rd a = m.rd a) → Reset m → Reset m' :=
    fun m m' hk h => ⟨(waited_congr hk).trans h.1, (heldFor_congr hk).trans h.2⟩
  have hframe : ∀ me, TimerStep me → Reset me → Reset (sesOnframe me) :=
    fun me hs h => ⟨frame_waited hs h.1, frame_heldFor hs h.2⟩
  induction h0 with
  | start hl hf =>
    have hfirst : Reset (sesOnframe p) := by
      refine hcongr p _ (fun a ha => ?_) hz
      have hout : ∀ a ∈ timerCells, ¬ startArea a := by decide
      rw [sesOnframe, sesDispatch_start (m := p.log _) hp.1]
      exact (within_ofStart _).keep a (hout a ha)
    exact (timers_ppLoop hcongr hf (fun me _ => hframe me) (recording_start hp hs) hfirst).2 _ hl
  | screen h hw ih =>
    have hout : ∀ a ∈ timerCells, steerCell a := by decide
    refine ⟨(steady_recording stillCart).began (recording_start hp hs) (.screen h hw), ?_⟩
    exact hcongr _ _ (fun a ha => hw.keep a (fun hm => menuCell_not_steer hm (hout a ha))) ih.2
  | pump _ hpu hf ih =>
    obtain ⟨m1, hp1, hrec, h1⟩ := timers_pump hcongr ih.1 hf (fun me _ => hframe me) ih.2
    rw [hp1, Option.some.injEq] at hpu
    exact hpu ▸ ⟨hrec, h1⟩

/-- So every run keeps `Timed`. -/
theorem timed_steps {p m0 : Mach} {c : Con} (hp : IsStart p) (hs : SmallStart p) (hz : Reset p)
    (h0 : Began SmallStart p m0) (h : Steps k SmallStart ⟨m0, .top⟩ c) : Timed c := by
  induction h with
  | refl =>
    obtain ⟨hrec, hreset⟩ := reset_began hp hs hz h0
    exact ⟨hrec, fun _ => hreset.1, nofun, nofun⟩
  | tail _ hstep ih => exact timed_step ih hstep

end

/-! ## Stalls -/

/-- As long as nobody has dropped, each round of `reads` finds the gate closed. -/
def Shut : List (List Byte) → Mach → Prop
  | [], m => m.rd netDropped = 0 → lsOpen m = false
  | got :: reads, m => m.rd netDropped = 0 → lsOpen m = false ∧
      ∀ m1, sesPump (lsFreeze m) got = some m1 → Shut reads (lsWaitRound m1)

/-- No PEER_LEFT and no END. -/
def Silent (m : Mach) : Prop := SmallStart m ∧ ¬ IsLeft m ∧ ¬ IsEnd m

instance (m : Mach) : Decidable (Silent m) := by unfold Silent; infer_instance

/-- A pass that has come to the gate in a run, with reads that do not open it. -/
structure Stall (k : Cart) (m0 : Mach) (reads : List (List Byte)) (m : Mach) : Prop where
  entered : ∃ t, Steps k SmallStart ⟨m0, .top⟩ ⟨t, .top⟩ ∧ Step k SmallStart ⟨t, .top⟩ ⟨m, .gate⟩
  here : m.rd netDropped = 0
  shut : Shut reads m
  silent : ∀ me ∈ gateEntries reads m, Silent me

/-- After `n` rounds, and no fewer, the gate is left with NET_DROPPED set. -/
def GivesUp (reads : List (List Byte)) (m : Mach) (n : Nat) : Prop :=
  (∃ m', lsGate (reads.take n) m = some m' ∧ m'.rd netDropped ≠ 0) ∧
    ∀ j < n, lsGate (reads.take j) m = none

section
variable {k : Cart} {m m' m0 p : Mach} {reads : List (List Byte)}

theorem pump_silent {got : List Byte} (hrec : Recording m)
    (hf : ∀ me ∈ ppEntries ppFuel (ppCp m got), Silent me) :
    ∃ m', sesPump m got = some m' ∧ Recording m' ∧ m'.rd netDropped = m.rd netDropped ∧
      waited m' = waited m := by
  refine timers_pump (P := fun x => x.rd netDropped = m.rd netDropped ∧ waited x = waited m)
    (fun x x' hk h => ?_) hrec (fun me hme => (hf me hme).1) (fun me hme hs h => ?_) ⟨rfl, rfl⟩
  · exact ⟨(hk _ (by decide)).trans h.1, (waited_congr hk).trans h.2⟩
  · cases hs with
    | kept hk => exact ⟨(hk _ (by decide)).trans h.1, (waited_congr hk).trans h.2⟩
    | left hl _ _ => exact absurd hl (hf me hme).2.1
    | begun _ _ _ hk =>
      refine ⟨(hk _ (by decide)).trans h.1, ?_⟩
      rw [waited, hk _ (by decide), hk _ (by decide)]
      exact h.2
    | ended he _ _ _ _ => exact absurd he (hf me hme).2.2

/-- A stalled round is counted, and the 768th gives up. -/
theorem stalled_round {got : List Byte} (hrec : Recording m) (hd : m.rd netDropped = 0)
    (hlt : waited m < 768) (hf : ∀ me ∈ ppEntries ppFuel (ppCp (lsFreeze m) got), Silent me) :
    ∃ m1, sesPump (lsFreeze m) got = some m1 ∧ Recording (lsWaitRound m1) ∧
      waited (lsWaitRound m1) = waited m + 1 ∧
      (lsWaitRound m1).rd netDropped = if waited m + 1 < 768 then 0 else 1 := by
  obtain ⟨m1, hp, hrec1, hd1, hw1⟩ := pump_silent (recording_lsFreeze hrec) hf
  rw [timers_lsFreeze _ (by decide) (by decide), hd] at hd1
  rw [waited_lsFreeze] at hw1
  have hlt1 : waited m1 < 768 := by
    rw [hw1]
    exact hlt
  obtain ⟨hw, hdrop⟩ := lsWaitRound_timers hlt1
  rw [hw1] at hw hdrop
  rw [hd1] at hdrop
  exact ⟨m1, hp, (steady_recording stillCart).waitRound hrec1, hw, hdrop⟩

theorem still_closed (hd : m.rd netDropped = 0) (ho : lsOpen m = false) :
    ¬ (m.rd netDropped ≠ 0 ∨ lsOpen m = true) := by
  intro h
  rcases h with h | h
  · exact h hd
  · rw [ho] at h
    cases h

theorem gateEntries_cons {got : List Byte} {m1 : Mach} (hd : m.rd netDropped = 0)
    (ho : lsOpen m = false) (hp : sesPump (lsFreeze m) got = some m1) :
    gateEntries (got :: reads) m =
      ppEntries ppFuel (ppCp (lsFreeze m) got) ++ gateEntries reads (lsWaitRound m1) := by
  rw [gateEntries, if_neg (still_closed hd ho)]
  simp only [hp]

theorem lsGate_closed (hd : m.rd netDropped = 0) (ho : lsOpen m = false) : lsGate [] m = none := by
  rw [lsGate]
  exact if_neg (still_closed hd ho)

/-- In a stall every prefix of the reads short of the 768th round leaves the gate waiting. -/
theorem gate_rounds (hrec : Recording m) (hd : m.rd netDropped = 0) (hlt : waited m < 768)
    (hs : Shut reads m) (hq : ∀ me ∈ gateEntries reads m, Silent me) {n : Nat}
    (hn : n ≤ reads.length) :
    (waited m + n < 768 → lsGate (reads.take n) m = none) ∧
      (waited m + n = 768 → ∃ m', lsGate (reads.take n) m = some m' ∧ m'.rd netDropped ≠ 0) := by
  induction reads generalizing m n with
  | nil =>
    have hzero : n = 0 := Nat.le_zero.mp hn
    subst hzero
    exact ⟨fun _ => lsGate_closed hd (hs hd), fun he => absurd hlt (by omega)⟩
  | cons got reads ih =>
    obtain ⟨ho, hrest⟩ := hs hd
    cases n with
    | zero => exact ⟨fun _ => lsGate_closed hd ho, fun he => absurd hlt (by omega)⟩
    | succ n =>
      have hf : ∀ me ∈ ppEntries ppFuel (ppCp (lsFreeze m) got), Silent me := by
        intro me hme
        refine hq me ?_
        rw [gateEntries, if_neg (still_closed hd ho)]
        exact List.mem_append_left _ hme
      obtain ⟨m1, hp, hrec1, hw1, hd1⟩ := stalled_round hrec hd hlt hf
      rw [gateEntries_cons hd ho hp] at hq
      have hstep : lsGate ((got :: reads).take (n + 1)) m = lsGate (reads.take n) (lsWaitRound m1) := by
        rw [List.take_succ_cons, lsGate, if_neg (still_closed hd ho)]
        simp only [hp]
      have hlen : n ≤ reads.length := Nat.le_of_succ_le_succ hn
      rw [hstep]
      by_cases hmore : waited m + 1 < 768
      · rw [if_pos hmore] at hd1
        have hih := ih hrec1 hd1 (hw1 ▸ hmore) (hrest m1 hp)
          (fun me hme => hq me (List.mem_append_right _ hme)) hlen
        rw [hw1] at hih
        exact ⟨fun h => hih.1 (by omega), fun h => hih.2 (by omega)⟩
      · rw [if_neg hmore] at hd1
        have hne : (lsWaitRound m1).rd netDropped ≠ 0 := by
          rw [hd1]
          decide
        refine ⟨fun h => absurd h (by omega), fun _ => ⟨lsWaitRound m1, ?_, hne⟩⟩
        cases reads.take n with
        | nil => exact if_pos (Or.inl hne)
        | cons got reads => exact if_pos (Or.inl hne)

/-- So it gives up after 768 rounds. -/
theorem gives_up_iff (hrec : Recording m) (hd : m.rd netDropped = 0) (hw : waited m = 0)
    (hs : Shut reads m) (hq : ∀ me ∈ gateEntries reads m, Silent me) (hlen : 768 ≤ reads.length)
    (n : Nat) : GivesUp reads m n ↔ n = 768 := by
  have hround : ∀ {n : Nat}, n ≤ 768 → (waited m + n < 768 → lsGate (reads.take n) m = none) ∧
      (waited m + n = 768 → ∃ m', lsGate (reads.take n) m = some m' ∧ m'.rd netDropped ≠ 0) :=
    fun hn => gate_rounds hrec hd (by omega) hs hq (Nat.le_trans hn hlen)
  rw [hw] at hround
  obtain ⟨m', hg, hne⟩ := (hround (Nat.le_refl 768)).2 (by omega)
  constructor
  · intro ⟨⟨m1, h1, _⟩, hbefore⟩
    rcases Nat.lt_trichotomy n 768 with h | h | h
    · rw [(hround (Nat.le_of_lt h)).1 (by omega)] at h1
      cases h1
    · exact h
    · rw [hbefore 768 h] at hg
      cases hg
  · rintro rfl
    exact ⟨⟨m', hg, hne⟩, fun j hj => (hround (Nat.le_of_lt hj)).1 (by omega)⟩

/-- Every stall starts its count at zero. -/
theorem Stall.start (hp : IsStart p) (hs : SmallStart p) (hz : Reset p)
    (h0 : Began SmallStart p m0) (h : Stall k m0 reads m) : Recording m ∧ waited m = 0 := by
  obtain ⟨t, hrun, hturn⟩ := h.entered
  have htop := timed_steps hp hs hz h0 hrun
  refine ⟨(timed_step htop hturn).ring, ?_⟩
  cases hturn with
  | turn hd hpu hf =>
    have hcap := timers_lsCapture (((steady_recording k).pump hf htop.ring).2 _ hpu).seat
    exact (waited_congr hcap).trans (pump_waited htop.ring hf (htop.top rfl) hpu)

end

/-! ## Holds -/

/-- And no BEGIN. -/
def StillHeld (m : Mach) : Prop := Silent m ∧ ¬ IsBegin m

instance (m : Mach) : Decidable (StillHeld m) := by unfold StillHeld; infer_instance

/-- `n` passes in a hold, and what the EXEC and the game do between them. -/
inductive Held : Nat → Mach → Mach → Prop where
  | refl (m : Mach) : Held 0 m m
  | exec {n : Nat} {m m1 : Mach} (h : Held n m m1) (f : Mem → Nat → Nat) : Held n m (m1.game f)
  | pass {n : Nat} {m m1 m2 : Mach} {got : List Byte} (h : Held n m m1) (hs : m1.rd peerScr = 0)
      (hd : m1.rd netDropped = 0) (hh : m1.rd resyncHold ≠ 0)
      (hp : sesPump (lsFreeze m1) got = some m2)
      (hf : ∀ me ∈ ppEntries ppFuel (ppCp (lsFreeze m1) got), StillHeld me) :
      Held (n + 1) m (lsHoldRound m2)

/-- A hold that has opened: before the first pass, in a pass that came to its tick, or in a round
    of another hold, which then is its first. -/
inductive NewHold (k : Cart) (m0 : Mach) : Mach → Nat → Prop where
  | first : NewHold k m0 m0 0
  | tick {g : Mach} (h : Steps k SmallStart ⟨m0, .top⟩ ⟨g, .gate⟩)
      (ho : g.rd netDropped ≠ 0 ∨ lsOpen g = true) : NewHold k m0 (lsRun k g) 0
  | again {t m1 : Mach} {got : List Byte} (h : Steps k SmallStart ⟨m0, .top⟩ ⟨t, .top⟩)
      (hs : t.rd peerScr = 0) (hd : t.rd netDropped = 0) (hh : t.rd resyncHold ≠ 0)
      (hp : sesPump (lsFreeze t) got = some m1)
      (hf : ∀ me ∈ ppEntries ppFuel (ppCp (lsFreeze t) got), SmallStart me)
      (hb : ∃ b ∈ ppEntries ppFuel (ppCp (lsFreeze t) got), IsBegin b) :
      NewHold k m0 (lsHoldRound m1) 1

section
variable {k : Cart} {m m' m0 p : Mach} {r n : Nat}

theorem pump_stillHeld {got : List Byte} (hrec : Recording m)
    (hf : ∀ me ∈ ppEntries ppFuel (ppCp m got), StillHeld me) (hp : sesPump m got = some m') :
    m'.rd netDropped = m.rd netDropped ∧ m'.rd resyncHold = m.rd resyncHold ∧
      heldFor m' = heldFor m := by
  refine timers_pumped (P := fun x => x.rd netDropped = m.rd netDropped ∧
    x.rd resyncHold = m.rd resyncHold ∧ heldFor x = heldFor m) (fun x x' hk h => ?_) hrec
    (fun me hme => (hf me hme).1.1) (fun me hme hs h => ?_) ⟨rfl, rfl, rfl⟩ hp
  · exact ⟨(hk _ (by decide)).trans h.1, (hk _ (by decide)).trans h.2.1,
      (heldFor_congr hk).trans h.2.2⟩
  · cases hs with
    | kept hk =>
      exact ⟨(hk _ (by decide)).trans h.1, (hk _ (by decide)).trans h.2.1,
        (heldFor_congr hk).trans h.2.2⟩
    | left hl _ _ => exact absurd hl (hf me hme).1.2.1
    | begun hb _ _ _ => exact absurd hb (hf me hme).2
    | ended he _ _ _ _ => exact absurd he (hf me hme).1.2.2

theorem Held.steps (h : Held n m m') : Steps k SmallStart ⟨m, .top⟩ ⟨m', .top⟩ := by
  induction h with
  | refl => exact .refl
  | exec _ f ih => exact ih.tail (.exec _ f)
  | pass _ hs hd hh hp hf ih => exact ih.tail (.hold hs hd hh hp (fun me hme => (hf me hme).1.1))

/-- Each pass is counted, and the one that makes it 1536 gives up. -/
theorem held_rounds (hrec : Recording m) (hd : m.rd netDropped = 0) (hh : m.rd resyncHold ≠ 0)
    (hr : heldFor m = r) (hlt : r < 1536) (h : Held n m m') :
    (r + n < 1536 ∧ m'.rd netDropped = 0 ∧ m'.rd resyncHold ≠ 0 ∧ heldFor m' = r + n) ∨
      (r + n = 1536 ∧ m'.rd netDropped ≠ 0) := by
  induction h with
  | refl => exact Or.inl ⟨hlt, hd, hh, hr⟩
  | @exec n m m1 _ f ih =>
    have hk : ∀ a ∈ timerCells, (m1.game f).rd a = m1.rd a := by
      have hout : ∀ a ∈ timerCells, ¬ gameCell a := by decide
      have hw : Within gameCell m1 (m1.game f) := (Does.refl _ m1).game f (fun _ ha => ha)
      exact fun a ha => hw.keep a (hout a ha)
    rw [hk _ (by decide), hk _ (by decide), heldFor_congr hk]
    exact ih hrec hd hh hr
  | @pass n m m1 m2 got hprev hs hd1 hh1 hp hf ih =>
    rcases ih hrec hd hh hr with ⟨hlt1, -, -, hr1⟩ | ⟨-, hne⟩
    · have hrec1 : Recording m1 := (steady_recording stillCart).steps hrec hprev.steps
      obtain ⟨hd2, hh2, hr2⟩ := pump_stillHeld (recording_lsFreeze hrec1) hf hp
      rw [timers_lsFreeze _ (by decide) (by decide)] at hd2 hh2
      rw [heldFor_lsFreeze, hr1] at hr2
      have hlt2 : heldFor m2 < 1536 := by
        rw [hr2]
        exact hlt1
      obtain ⟨hr3, hd3, hh3⟩ := lsHoldRound_timers hlt2
      rw [hr2] at hr3 hd3 hh3
      by_cases hmore : r + n + 1 < 1536
      · rw [if_pos hmore] at hd3 hh3
        refine Or.inl ⟨hmore, ?_, ?_, hr3⟩
        · rw [hd3, hd2]
          exact hd1
        · rw [hh3, hh2]
          exact hh1
      · rw [if_neg hmore] at hd3
        refine Or.inr ⟨by omega, ?_⟩
        rw [hd3]
        decide
    · exact absurd hd1 hne

/-- What holds behind one of the frames of a pump holds at its end. -/
theorem timers_ppLoop_from {P : Mach → Prop}
    (hP : ∀ m m', (∀ a ∈ timerCells, m'.rd a = m.rd a) → P m → P m') {fuel : Nat}
    (hf : ∀ me ∈ ppEntries fuel m, SmallStart me)
    (hstep : ∀ me ∈ ppEntries fuel m, TimerStep me → P me → P (sesOnframe me))
    (hrec : Recording m) {b : Mach} (hb : b ∈ ppEntries fuel m)
    (h : P (sesOnframe b)) (hl : ppLoop fuel m = some m') : P m' := by
  have hbase := steady_recording stillCart
  induction fuel generalizing m with
  | zero => exact absurd hb List.not_mem_nil
  | succ fuel ih =>
    simp only [ppEntries, ppLoop] at hf hstep hb hl
    cases hr : ppRound m with
    | done =>
      rw [hr] at hb
      exact absurd hb List.not_mem_nil
    | slip m1 =>
      simp only [hr] at hf hstep hb hl
      have hm1 : m1 = ppSlip m := ppRound_slip hr
      exact ih hf hstep (hm1 ▸ hbase.aside (aside_ppSlip m) hrec) hb hl
    | frame m1 =>
      simp only [hr] at hf hstep hb hl
      obtain ⟨i, hi, hm1⟩ := ppRound_frame hr
      have hrec1 : Recording m1 := hm1 ▸ hbase.aside (aside_ppX m hi) hrec
      have hfirst := List.mem_cons_self (a := m1) (l := ppEntries fuel (sesOnframe m1))
      have hrec2 : Recording (sesOnframe m1) := hbase.frame (hf m1 hfirst) hrec1
      have hf' := fun me hme => hf me (List.mem_cons_of_mem _ hme)
      have hstep' := fun me hme => hstep me (List.mem_cons_of_mem _ hme)
      rcases List.mem_cons.mp hb with hb | hb
      · subst hb
        exact ((timers_ppLoop hP hf' hstep' hrec2 h).2 _ hl).2
      · exact ih hf' hstep' hrec2 hb hl

/-- Every hold starts its count at zero. -/
theorem NewHold.start (hp : IsStart p) (hs : SmallStart p) (hz : Reset p)
    (h0 : Began SmallStart p m0) (h : NewHold k m0 m r) (hh : m.rd resyncHold ≠ 0) :
    Recording m ∧ heldFor m = r ∧ r ≤ 1 := by
  cases h with
  | first =>
    obtain ⟨hrec, hreset⟩ := reset_began hp hs hz h0
    exact ⟨hrec, hreset.2, Nat.zero_le 1⟩
  | tick h ho =>
    have ht := timed_steps hp hs hz h0 h
    exact ⟨(steady_recording k).run ho ht.ring, freshHold_lsRun (ht.hold rfl) hh, Nat.zero_le 1⟩
  | @again t m1 got h hs' hd hh' hpu hf hb =>
    obtain ⟨b, hb, hbegin⟩ := hb
    have hbase := steady_recording stillCart
    have hfrz := recording_lsFreeze (timed_steps hp hs hz h0 h).ring
    have hcp : Recording (ppCp (lsFreeze t) got) := hbase.aside (aside_ppCp _ _) hfrz
    have hzero : heldFor m1 = 0 := timers_ppLoop_from (P := fun m => heldFor m = 0)
      (fun _ _ hk h => (heldFor_congr hk).trans h) hf (fun _ _ => frame_heldFor) hcp hb
      (heldFor_begin hbegin) hpu
    have hlt : heldFor m1 < 1536 := by
      rw [hzero]
      decide
    refine ⟨hbase.holdRound ((hbase.pump hf hfrz).2 _ hpu), ?_, Nat.le_refl 1⟩
    rw [(lsHoldRound_timers hlt).1, hzero]

/-- A pass in a hold pumps once and returns. -/
theorem lsPass_held (hrec : Recording m) (hd : m.rd netDropped = 0) (hh : m.rd resyncHold ≠ 0)
    {got : List Byte} (reads : List (List Byte))
    (hf : ∀ me ∈ ppEntries ppFuel (ppCp (lsFreeze m) got), SmallStart me) :
    ∃ m', lsPass k (got :: reads) m = .back m' := by
  obtain ⟨m1, hp, -, -⟩ := timers_pump (P := fun _ => True) (fun _ _ _ h => h)
    (recording_lsFreeze hrec) hf (fun _ _ _ h => h) trivial
  unfold lsPass
  rw [if_neg (not_not.mpr hd), if_pos hh]
  split_ifs
  · exact ⟨m, rfl⟩
  · exact ⟨lsHoldRound m1, by simp only [hp]⟩

/-- In every run of a match: each stall starts its count at zero and is given up after 768 rounds,
    before LS_TIMEOUT; each hold starts at zero and is given up after its 1536 passes. -/
theorem waits_out (hp : IsStart p) (hs : SmallStart p) (hz : Reset p)
    (h0 : Began SmallStart p m0) :
    (∀ reads m, Stall k m0 reads m → waited m = 0 ∧ (768 ≤ reads.length →
      (∀ n, GivesUp reads m n ↔ n = 768) ∧ ¬ ∃ n, 900 ≤ n ∧ n ≤ 1024 ∧ GivesUp reads m n)) ∧
    ∀ m r, NewHold k m0 m r → m.rd resyncHold ≠ 0 → m.rd netDropped = 0 → heldFor m = r ∧
      ∀ n m', Held n m m' → (m'.rd netDropped ≠ 0 ↔ r + n = 1536) ∧
        (m'.rd netDropped = 0 → ∀ got reads,
          (∀ me ∈ ppEntries ppFuel (ppCp (lsFreeze m') got), SmallStart me) →
          ∃ m'', lsPass k (got :: reads) m' = .back m'') := by
  constructor
  · intro reads m h
    obtain ⟨hrec, hw⟩ := h.start hp hs hz h0
    refine ⟨hw, fun hlen => ?_⟩
    have hiff := gives_up_iff hrec h.here hw h.shut h.silent hlen
    refine ⟨hiff, ?_⟩
    intro ⟨n, hlow, _, hg⟩
    have := (hiff n).mp hg
    omega
  · intro m r h hh hd
    obtain ⟨hrec, hr, hle⟩ := h.start hp hs hz h0 hh
    refine ⟨hr, fun n m' hheld => ?_⟩
    rcases held_rounds hrec hd hh hr (by omega) hheld with ⟨hlt, hd', hh', -⟩ | ⟨heq, hne⟩
    · refine ⟨⟨fun hc => absurd hd' hc, fun hc => absurd hlt (by omega)⟩, ?_⟩
      intro _ got reads hf
      have hrec' : Recording m' := (steady_recording k).steps hrec hheld.steps
      exact lsPass_held hrec' hd' hh' reads hf
    · exact ⟨⟨fun _ => heq, fun _ => hne⟩, fun hc => absurd hc hne⟩

end

/-! ## A link gone silent -/

section
variable {k : Cart} {m : Mach}

theorem sesPump_idle (h : m.rd rxWr = m.rd rxRd) :
    sesPump m [] = some m ∧ ppEntries ppFuel (ppCp m []) = [] := ppLoop_idle h 255

/-- The cells the gate looks at. -/
theorem lsOpen_congr {m' : Mach}
    (hk : ∀ a, a ∈ [netCount, netSeat, tickLo, tickHi] ∨ seatWm ≤ a → m'.rd a = m.rd a) :
    lsOpen m' = lsOpen m := by
  have hslack : ∀ r, lsSlack m' r = lsSlack m r := by
    intro r
    have h1 : seatWm ≤ seatWm + 2 * r + 1 := by omega
    rw [lsSlack, lsSlack, lsTick, lsTick, hk tickLo (Or.inl (by simp)), hk tickHi (Or.inl (by simp)),
      hk (seatWm + 2 * r) (Or.inr (Nat.le_add_right _ _)), hk (seatWm + 2 * r + 1) (Or.inr h1)]
  simp only [lsOpen, hslack, hk netCount (Or.inl (by simp)), hk netSeat (Or.inl (by simp))]

/-- With nothing to read and the gate closed, it stays so until it gives up. -/
theorem shut_idle (n : Nat) (hacc : m.rd rxWr = m.rd rxRd)
    (ho : m.rd netDropped = 0 → lsOpen m = false) :
    Shut (List.replicate n []) m ∧ gateEntries (List.replicate n []) m = [] := by
  induction n generalizing m with
  | zero => exact ⟨ho, rfl⟩
  | succ n ih =>
    have hfrz : ∀ a, a ∉ [lsFroze, lsSave102, isrPhase] → (lsFreeze m).rd a = m.rd a :=
      fun a ha => (within_lsFreeze_own m).keep a ha
    have hacc1 : (lsFreeze m).rd rxWr = (lsFreeze m).rd rxRd := by
      rw [hfrz _ (by decide), hfrz _ (by decide), hacc]
    obtain ⟨hp, hent⟩ := sesPump_idle hacc1
    have hnext : (lsWaitRound (lsFreeze m)).rd rxWr = (lsWaitRound (lsFreeze m)).rd rxRd ∧
        (m.rd netDropped = 0 → (lsWaitRound (lsFreeze m)).rd netDropped = 0 →
          lsOpen (lsWaitRound (lsFreeze m)) = false) := by
      rcases countRound_cases lsWaitcLo lsWaitcHi lsTimeout
        (fun m => lsIdleRmt ((m.st peerWhy 0).st netDropped 1)) (lsFreeze m) with hw | ⟨m1, hw, he⟩
      · refine ⟨?_, fun hd _ => ?_⟩
        · exact (hw.keep _ (by decide)).trans (hacc1.trans (hw.keep _ (by decide)).symm)
        · have hout : ∀ a ∈ [netCount, netSeat, tickLo, tickHi],
              ¬ (a = lsWaitcLo ∨ a = lsWaitcHi) ∧ a ∉ [lsFroze, lsSave102, isrPhase] := by decide
          have hlow : ∀ a ∈ [lsWaitcLo, lsWaitcHi, lsFroze, lsSave102, isrPhase], a < seatWm := by
            decide
          refine (lsOpen_congr (fun a ha => ?_)).trans (ho hd)
          have hne : ¬ (a = lsWaitcLo ∨ a = lsWaitcHi) ∧ a ∉ [lsFroze, lsSave102, isrPhase] := by
            rcases ha with ha | ha
            · exact hout a ha
            · have hnot : ∀ b ∈ [lsWaitcLo, lsWaitcHi, lsFroze, lsSave102, isrPhase], a ≠ b :=
                fun b hb he => absurd (hlow b hb) (Nat.not_lt.mpr (he ▸ ha))
              simp only [List.mem_cons, List.not_mem_nil, or_false] at hnot ⊢
              grind
          exact (hw.keep a hne.1).trans (hfrz a hne.2)
      · have hidle : ∀ a ∈ [rxWr, rxRd, netDropped], ¬ (area seatRing 2048 a ∨ area seatWm 8 a) := by
          decide
        refine ⟨?_, fun _ hd => ?_⟩
        · rw [lsWaitRound, he, (within_lsIdleRmt _).keep _ (hidle _ (by simp)),
            (within_lsIdleRmt _).keep _ (hidle _ (by simp)), Mach.rd_st_ne _ _ (by decide),
            Mach.rd_st_ne _ _ (by decide), Mach.rd_st_ne _ _ (by decide),
            Mach.rd_st_ne _ _ (by decide), hw.keep _ (by decide), hw.keep _ (by decide), hacc1]
        · rw [lsWaitRound, he, (within_lsIdleRmt _).keep _ (hidle _ (by simp)), Mach.rd_st_self,
            cellMod_cart (by decide)] at hd
          cases hd
    constructor
    · rw [List.replicate_succ]
      intro hd
      refine ⟨ho hd, fun m1 hm1 => ?_⟩
      rw [hp, Option.some.injEq] at hm1
      subst hm1
      exact (ih hnext.1 (hnext.2 hd)).1
    · rw [List.replicate_succ, gateEntries]
      split_ifs with hgo
      · rfl
      · have hd : m.rd netDropped = 0 := not_not.mp (fun hne => hgo (Or.inl hne))
        rw [hent, hp]
        exact (ih hnext.1 (hnext.2 hd)).2

/-- Nor does a hold end by itself before its last pass. -/
theorem held_idle (hrec : Recording m) (hacc : m.rd rxWr = m.rd rxRd) (hs : m.rd peerScr = 0)
    (hd : m.rd netDropped = 0) (hh : m.rd resyncHold ≠ 0) {n : Nat} (hn : heldFor m + n ≤ 1536)
    (hlt : heldFor m < 1536) :
    ∃ m', Held n m m' ∧ m'.rd rxWr = m'.rd rxRd ∧ m'.rd peerScr = 0 := by
  induction n with
  | zero => exact ⟨m, .refl m, hacc, hs⟩
  | succ n ih =>
    obtain ⟨m1, hheld, hacc1, hs1⟩ := ih (by omega)
    rcases held_rounds hrec hd hh rfl hlt hheld with ⟨-, hd1, hh1, -⟩ | ⟨heq, -⟩
    · have hfrz : ∀ a ∈ [rxWr, rxRd, peerScr], (lsFreeze m1).rd a = m1.rd a := by
        have hout : ∀ a ∈ [rxWr, rxRd, peerScr], a ∉ [lsFroze, lsSave102, isrPhase] := by decide
        exact fun a ha => (within_lsFreeze_own m1).keep a (hout a ha)
      have hround : ∀ a ∈ [rxWr, rxRd, peerScr], (lsHoldRound (lsFreeze m1)).rd a = m1.rd a := by
        intro a ha
        have hout : ∀ a ∈ [rxWr, rxRd, peerScr], ¬ (a = rsToLo ∨ a = rsToHi) ∧
            ¬ (area seatRing 2048 a ∨ area seatWm 8 a) ∧ a ≠ resyncHold ∧ a ≠ netDropped ∧
            a ≠ peerWhy := by decide
        obtain ⟨h1, h2, h3, h4, h5⟩ := hout a ha
        rw [← hfrz a ha]
        rcases countRound_cases rsToLo rsToHi rsHoldTmo
          (fun m => lsIdleRmt (((m.st peerWhy 0).st netDropped 1).st resyncHold 0)) (lsFreeze m1)
          with hw | ⟨m2, hw, he⟩
        · exact hw.keep a h1
        · rw [lsHoldRound, he, (within_lsIdleRmt _).keep a h2, Mach.rd_st_ne _ _ h3,
            Mach.rd_st_ne _ _ h4, Mach.rd_st_ne _ _ h5, hw.keep a h1]
      have hacc2 : (lsFreeze m1).rd rxWr = (lsFreeze m1).rd rxRd := by
        rw [hfrz _ (by simp), hfrz _ (by simp), hacc1]
      obtain ⟨hp, hent⟩ := sesPump_idle hacc2
      refine ⟨_, .pass hheld hs1 hd1 hh1 hp (by rw [hent]; nofun), ?_, ?_⟩
      · rw [hround _ (by simp), hround _ (by simp), hacc1]
      · rw [hround _ (by simp), hs1]
    · exact absurd hn (by omega)

/-- A pass with nothing to read. -/
theorem InStep.idle {n w : Nat} (h : InStep n w m) (hn : n ≤ w) (hw : w < 32768) : ∃ m',
    Steps k SmallStart ⟨m, .top⟩ ⟨m', .top⟩ ∧ InStep (n + 1) w m' := by
  obtain ⟨hp, hent⟩ := sesPump_idle (show m.rd rxWr = m.rd rxRd by
    rw [h.acc.wr, List.length_nil, Nat.add_zero, Nat.mod_eq_of_lt (m.rd_lt_cart (by decide))])
  have h2 := h.capture
  refine ⟨lsRun k (lsCapture m), ?_, (h2.run (by omega)).1⟩
  exact (ReflTransGen.single (.turn h.due hp (by rw [hent]; nofun))).tail
    (.run (Or.inr (h2.open hn hw)))

end

/-- The third tick of that match is the first that needs an INPUT. -/
theorem stall_start : ∃ m, Stall stillCart (sesOnframe (hostFrame 3)) (List.replicate 1024 []) m := by
  obtain ⟨m1, hs1, h1⟩ := inStep_start.idle (k := stillCart) (by decide) (by decide)
  obtain ⟨m2, hs2, h2⟩ := h1.idle (k := stillCart) (by decide) (by decide)
  obtain ⟨m3, hs3, h3⟩ := h2.idle (k := stillCart) (by decide) (by decide)
  have hacc : ∀ {m : Mach}, Acc m [] → m.rd rxWr = m.rd rxRd := by
    intro m h
    rw [h.wr, List.length_nil, Nat.add_zero, Nat.mod_eq_of_lt (m.rd_lt_cart (by decide))]
  obtain ⟨hp, hent⟩ := sesPump_idle (hacc h3.acc)
  have hgate := h3.capture
  have hclosed : lsOpen (lsCapture m3) = false := by
    have hslack : lsSlack (lsCapture m3) 1 = 65535 := by
      show sub16 (seatMark (lsCapture m3) 1) (lsTick (lsCapture m3)) = 65535
      rw [hgate.mark, hgate.tick]
      rfl
    rw [lsOpen, hgate.count, hgate.seat]
    refine List.all_eq_false.mpr ⟨1, by decide, ?_⟩
    rw [hslack]
    decide
  obtain ⟨hshut, hnone⟩ := shut_idle 1024 (hacc hgate.acc) (fun _ => hclosed)
  refine ⟨lsCapture m3, ⟨m3, (hs1.trans hs2).trans hs3, .turn h3.due hp (by
      rw [hent]
      exact fun _ h => absurd h List.not_mem_nil)⟩,
    (lsDue_spec hgate.due).2.1, hshut, ?_⟩
  rw [hnone]
  exact fun _ h => absurd h List.not_mem_nil

/-- BEGIN, from the host. -/
def beginBytes : List Byte := [5, 0x08, 0, 0xFF, 0, 0]

/-- In the matched screen it opens a hold before the first pass. -/
theorem hold_start : ∃ m0, Began SmallStart (hostFrame 3) m0 ∧ m0.rd resyncHold ≠ 0 ∧
    m0.rd netDropped = 0 ∧ m0.rd peerScr = 0 ∧ m0.rd rxWr = m0.rd rxRd := by
  have hf : ∀ me ∈ ppEntries ppFuel (ppCp (sesOnframe (hostFrame 3)) beginBytes), SmallStart me := by
    decide +kernel
  have hd : (sesPump (sesOnframe (hostFrame 3)) beginBytes).map (fun m =>
      (m.rd resyncHold, m.rd netDropped, m.rd peerScr, m.rd rxWr - m.rd rxRd,
        m.rd rxRd - m.rd rxWr)) = some (1, 0, 0, 0, 0) := by
    decide +kernel
  cases hp : sesPump (sesOnframe (hostFrame 3)) beginBytes with
  | none => simp [hp] at hd
  | some m0 =>
    rw [hp, Option.map_some, Option.some.injEq] at hd
    simp only [Prod.mk.injEq] at hd
    obtain ⟨h1, h2, h3, h4, h5⟩ := hd
    exact ⟨m0, .pump began_start hp hf, by omega, h2, h3, by omega⟩

theorem reset_host : Reset (hostFrame 3) := by decide +kernel

theorem waits_out_silent :
    (∃ m0 m, Stall stillCart m0 (List.replicate 1024 []) m ∧
      GivesUp (List.replicate 1024 []) m 768) ∧
    ∃ m0 m, m0.rd resyncHold ≠ 0 ∧ Held 1536 m0 m ∧ m.rd netDropped ≠ 0 := by
  obtain ⟨hp, hs⟩ := start_host
  have hz := reset_host
  constructor
  · obtain ⟨m, hm⟩ := stall_start
    have hstall := (waits_out (k := stillCart) hp hs hz began_start).1 _ m hm
    have hlen : 768 ≤ (List.replicate 1024 ([] : List Byte)).length := by
      rw [List.length_replicate]
      decide
    exact ⟨_, m, hm, ((hstall.2 hlen).1 768).mpr rfl⟩
  · obtain ⟨m0, h0, hh, hd, hscr, hacc⟩ := hold_start
    obtain ⟨hr, hgive⟩ := (waits_out (k := stillCart) hp hs hz h0).2 m0 0 .first hh hd
    obtain ⟨hrec, -⟩ := reset_began hp hs hz h0
    obtain ⟨m, hheld, -⟩ := held_idle (n := 1536) hrec hacc hscr hd hh (by omega) (by omega)
    exact ⟨m0, m, hh, hheld, (hgive _ m hheld).1.mpr (by omega)⟩

/-- No 900 rounds. -/
theorem gives_up_early : ¬ ∀ (k : Cart) (p m0 m : Mach) (reads : List (List Byte)), IsStart p →
    SmallStart p → Reset p → Began SmallStart p m0 → Stall k m0 reads m → 1024 ≤ reads.length →
    ∃ n, 900 ≤ n ∧ n ≤ 1024 ∧ GivesUp reads m n := by
  intro hall
  obtain ⟨hp, hs⟩ := start_host
  have hz := reset_host
  obtain ⟨m, hm⟩ := stall_start
  have hlen : 1024 ≤ (List.replicate 1024 ([] : List Byte)).length := by
    rw [List.length_replicate]
  obtain ⟨n, hlow, -, hg⟩ := hall stillCart _ _ m _ hp hs hz began_start hm hlen
  obtain ⟨hrec, hw⟩ := hm.start hp hs hz began_start
  have hn := (gives_up_iff hrec hm.here hw hm.shut hm.silent (by omega) n).mp hg
  omega

end IntvBasketball.Console
