/-
  What a STATE frame can store to (RS_ON_STATE, `@@rs_ctl` and IMG_PUT).

  A frame is a control frame when it has at least three bytes after the length and
  pos_hi is $FF; every other frame is data or too short. `state_stores` gives the
  cells of each kind, for any memory and any frame: the guards in front of the byte
  loop keep a data frame inside the image, and a refused one is counted in DIAG_REJ.
  The count is stored to RS_TMP2 before the range is looked at, so a chunk that
  overruns the image leaves that scratch cell behind (`overrun_stores_count`).
-/
import IntvBasketball.Console.ImageRound

namespace IntvBasketball.Console

open Mach (Within Does)

/-- The frame in FRMBUF is BEGIN, END or another control frame. -/
def IsCtl (m : Mach) : Prop := 3 ≤ m.rd frmBuf ∧ m.rd (frmBuf + 3) = 0xFF

/-- The position and the data bytes of the frame in FRMBUF lie inside the image. -/
def InImage (m : Mach) : Prop :=
  word (m.rd (frmBuf + 2)) (m.rd (frmBuf + 3)) + (m.rd frmBuf - 3) ≤ imgTotal

instance (m : Mach) : Decidable (IsCtl m) := by unfold IsCtl; infer_instance
instance (m : Mach) : Decidable (InImage m) := by unfold InImage; infer_instance

/-- Cells a control frame can store to: those of RS_ENTER_HOLD and RS_REBASE, the resume
    tick BEGIN brings, and the counter. -/
def ctlCell (a : Nat) : Prop := rebaseCell a ∨ a ∈ [rsRLo, rsRHi, diagRej]

/-- DIAG_REJ one up, or at the top. -/
def Counted (m m' : Mach) : Prop := m'.rd diagRej = min 255 (m.rd diagRej + 1)

/-! ## Refused frames -/

theorem counted_reject (m : Mach) : Counted m (diagBump m diagRej) := rd_diagBump m (by decide)

/-- Outside a hold a data frame is refused. -/
theorem rsOnState_noHold {m : Mach} (hc : ¬ IsCtl m) (hh : m.rd resyncHold = 0) :
    rsOnState m = diagBump m diagRej := by
  unfold rsOnState
  dsimp only
  split_ifs with h1 h2
  · rfl
  · exact absurd ⟨by omega, h2⟩ hc
  · rfl

/-- A frame with nothing after the position is refused. -/
theorem rsOnState_empty {m : Mach} (hc : ¬ IsCtl m) (hl : m.rd frmBuf ≤ 3) :
    rsOnState m = diagBump m diagRej := by
  unfold rsOnState
  dsimp only
  split_ifs with h1 h2 h3
  · rfl
  · exact absurd ⟨by omega, h2⟩ hc
  · rfl
  · rfl

/-- Inside a hold the count is stored, then a chunk that overruns the image is refused. -/
theorem rsOnState_outside {m : Mach} (hc : ¬ IsCtl m) (hh : m.rd resyncHold ≠ 0)
    (hl : 3 < m.rd frmBuf) (hi : ¬ InImage m) :
    rsOnState m = diagBump (m.st rsTmp2 (m.rd frmBuf - 3)) diagRej := by
  have h2 : (m.st rsTmp2 (m.rd frmBuf - 3)).rd (frmBuf + 2) = m.rd (frmBuf + 2) :=
    Mach.rd_st_ne _ _ (by decide)
  have h3 : (m.st rsTmp2 (m.rd frmBuf - 3)).rd (frmBuf + 3) = m.rd (frmBuf + 3) :=
    Mach.rd_st_ne _ _ (by decide)
  have hff : m.rd (frmBuf + 3) ≠ 0xFF := fun h => hc ⟨by omega, h⟩
  unfold InImage at hi
  unfold rsOnState
  dsimp only
  rw [h2, h3, if_neg (by omega), if_neg hff, if_neg hh, if_neg (by omega)]
  split_ifs with h4 h5
  · rfl
  · rfl
  · omega

theorem within_rsOnState_outside {m : Mach} (hc : ¬ IsCtl m) (hi : ¬ InImage m) :
    Within (fun a => a = diagRej ∨ a = rsTmp2) m (rsOnState m) ∧ Counted m (rsOnState m) := by
  have hrej := (within_diagBump m diagRej).mono (T := fun a => a = diagRej ∨ a = rsTmp2)
    (fun a h => Or.inl h)
  by_cases hh : m.rd resyncHold = 0
  · rw [rsOnState_noHold hc hh]
    exact ⟨hrej, counted_reject m⟩
  · by_cases hl : m.rd frmBuf ≤ 3
    · rw [rsOnState_empty hc hl]
      exact ⟨hrej, counted_reject m⟩
    · rw [rsOnState_outside hc hh (by omega) hi]
      have hst : Within (fun a => a = diagRej ∨ a = rsTmp2) m (m.st rsTmp2 (m.rd frmBuf - 3)) :=
        (Does.refl _ m).st _ (Or.inr rfl)
      refine ⟨hst.within ((within_diagBump _ diagRej).mono (fun a h => Or.inl h)), ?_⟩
      rw [Counted, counted_reject, Mach.rd_st_ne _ _ (by decide)]

/-! ## Applied frames -/

/-- A chunk inside the image, in an open hold: the byte loop. -/
theorem within_rsOnState_inside {m : Mach} (hc : ¬ IsCtl m) (hh : m.rd resyncHold ≠ 0)
    (hl : 3 < m.rd frmBuf) (hi : InImage m) : Within dlCell m (rsOnState m) := by
  have hlen := m.rd_lt_cart (a := frmBuf) (by decide)
  have hlo := m.rd_lt_cart (a := frmBuf + 2) (by decide)
  have hff : m.rd (frmBuf + 3) ≠ 0xFF := fun h => hc ⟨by omega, h⟩
  unfold InImage word imgTotal at hi
  have h2 : (m.st rsTmp2 (m.rd frmBuf - 3)).rd (frmBuf + 2) = m.rd (frmBuf + 2) :=
    Mach.rd_st_ne _ _ (by decide)
  have h3 : (m.st rsTmp2 (m.rd frmBuf - 3)).rd (frmBuf + 3) = m.rd (frmBuf + 3) :=
    Mach.rd_st_ne _ _ (by decide)
  unfold rsOnState word imgTotal
  dsimp only
  rw [h2, h3, if_neg (by omega), if_neg hff, if_neg hh, if_neg (by omega), if_neg (by omega),
    if_neg (by omega)]
  have hcnt : (((m.st rsTmp2 (m.rd frmBuf - 3)).st rsPosLo (m.rd (frmBuf + 2))).st rsPosHi
      (m.rd (frmBuf + 3))).rd rsTmp2 = m.rd frmBuf - 3 := by
    rw [Mach.rd_st_ne _ _ (by decide), Mach.rd_st_ne _ _ (by decide), Mach.rd_st_self,
      cellMod_cart (by decide)]
    omega
  have hpos : word ((((m.st rsTmp2 (m.rd frmBuf - 3)).st rsPosLo (m.rd (frmBuf + 2))).st rsPosHi
      (m.rd (frmBuf + 3))).rd rsPosLo) ((((m.st rsTmp2 (m.rd frmBuf - 3)).st rsPosLo
      (m.rd (frmBuf + 2))).st rsPosHi (m.rd (frmBuf + 3))).rd rsPosHi) =
      word (m.rd (frmBuf + 2)) (m.rd (frmBuf + 3)) := by
    rw [Mach.rd_st_self, Mach.rd_st_ne _ _ (show rsPosLo ≠ rsPosHi by decide), Mach.rd_st_self,
      cellMod_cart (by decide), cellMod_cart (by decide), Nat.mod_eq_of_lt hlo]
    congr 1
    omega
  rw [hcnt]
  have hscr : Within dlCell m (((m.st rsTmp2 (m.rd frmBuf - 3)).st rsPosLo
      (m.rd (frmBuf + 2))).st rsPosHi (m.rd (frmBuf + 3))) :=
    (((Does.refl dlCell m).st _ (Or.inr (by decide))).st _ (Or.inr (by decide))).st _
      (Or.inr (by decide))
  have hdl := (rsDl_spec _ hpos (r := frmBuf + 4) (n := m.rd frmBuf - 3)
    (by unfold word imgTotal; omega) (by omega) (by omega)).1
  exact hscr.within hdl

/-- The cells of a data frame, refused or applied. -/
theorem within_rsOnState_data {m : Mach} (hc : ¬ IsCtl m) :
    Within (fun a => dlCell a ∨ a = diagRej) m (rsOnState m) := by
  by_cases hi : InImage m
  · by_cases hh : m.rd resyncHold = 0
    · rw [rsOnState_noHold hc hh]
      exact (within_diagBump m diagRej).mono (fun a h => Or.inr h)
    · by_cases hl : m.rd frmBuf ≤ 3
      · rw [rsOnState_empty hc hl]
        exact (within_diagBump m diagRej).mono (fun a h => Or.inr h)
      · exact (within_rsOnState_inside hc hh (by omega) hi).mono (fun a h => Or.inl h)
  · refine (within_rsOnState_outside hc hi).1.mono ?_
    intro a h
    rcases h with rfl | rfl
    · exact Or.inr rfl
    · exact Or.inl (Or.inr (by decide))

/-! ## Control frames -/

theorem rsOnState_ctl {m : Mach} (hc : IsCtl m) : rsOnState m = rsCtl m := by
  have h1 := hc.1
  unfold rsOnState
  dsimp only
  rw [if_neg (by omega), if_pos hc.2]

theorem does_rsOnState_ctl {m : Mach} (hc : IsCtl m) :
    ∃ ev, Does ctlCell [] ev m (rsOnState m) := by
  rw [rsOnState_ctl hc]
  unfold rsCtl
  split_ifs
  · exact ⟨_, (within_diagBump m diagRej).mono (fun a h => Or.inr (by rw [h]; decide))⟩
  · have h := (does_rsEnterHold m).mono (T := ctlCell) (fun a h => Or.inl (Or.inl h))
    exact ⟨_, (h.st _ (Or.inr (by decide))).st _ (Or.inr (by decide))⟩
  · exact ⟨_, Does.refl _ m⟩
  · exact ⟨_, Does.refl _ m⟩
  · exact ⟨_, (does_rsRebase m).mono (fun a h => Or.inl h)⟩

theorem rej_rsCtl (m : Mach) :
    (rsCtl m).rd diagRej = m.rd diagRej ∨ Counted m (rsCtl m) := by
  unfold rsCtl
  split_ifs
  · exact Or.inr (counted_reject m)
  · refine Or.inl ?_
    rw [Mach.rd_st_ne _ _ (by decide), Mach.rd_st_ne _ _ (by decide),
      (does_rsEnterHold m).keep _ (by decide)]
  · exact Or.inl rfl
  · exact Or.inl rfl
  · exact Or.inl ((does_rsRebase m).keep _ (by decide))

/-- DIAG_REJ stays or counts up to 255, whatever the frame. -/
theorem rej_rsOnState (m : Mach) :
    (rsOnState m).rd diagRej = m.rd diagRej ∨ Counted m (rsOnState m) := by
  by_cases hc : IsCtl m
  · rw [rsOnState_ctl hc]
    exact rej_rsCtl m
  · by_cases hi : InImage m
    · by_cases hh : m.rd resyncHold = 0
      · rw [rsOnState_noHold hc hh]
        exact Or.inr (counted_reject m)
      · by_cases hl : m.rd frmBuf ≤ 3
        · rw [rsOnState_empty hc hl]
          exact Or.inr (counted_reject m)
        · exact Or.inl ((within_rsOnState_inside hc hh (by omega) hi).keep _
            (by unfold dlCell; decide))
    · exact Or.inr (within_rsOnState_outside hc hi).2

/-! ## All frames -/

/-- A STATE frame stores to the image, the scratch cells of the byte loop, the cells a
    control frame owns and DIAG_REJ, and it sends nothing. A data frame outside a hold
    changes DIAG_REJ alone, one whose range leaves the image DIAG_REJ and RS_TMP2, and
    both are counted up to 255. -/
theorem state_stores (m : Mach) :
    (IsCtl m → ∃ ev, Does ctlCell [] ev m (rsOnState m)) ∧
    (¬ IsCtl m → Within (fun a => dlCell a ∨ a = diagRej) m (rsOnState m)) ∧
    (¬ IsCtl m → m.rd resyncHold = 0 →
      Within (· = diagRej) m (rsOnState m) ∧ Counted m (rsOnState m)) ∧
    (¬ IsCtl m → ¬ InImage m →
      Within (fun a => a = diagRej ∨ a = rsTmp2) m (rsOnState m) ∧ Counted m (rsOnState m)) ∧
    ((rsOnState m).rd diagRej = m.rd diagRej ∨ Counted m (rsOnState m)) := by
  refine ⟨does_rsOnState_ctl, within_rsOnState_data, ?_, within_rsOnState_outside,
    rej_rsOnState m⟩
  intro hc hh
  rw [rsOnState_noHold hc hh]
  exact ⟨within_diagBump m diagRej, counted_reject m⟩

/-- Five data bytes at position 766, in an open hold. -/
def overrunFrame : List Nat := [8, ftState, 0xFE, 2, 1, 2, 3, 4, 5]

/-- The chunk overruns the image and is refused, and RS_TMP2 holds its count. -/
theorem overrun_stores_count :
    ¬ ∀ m : Mach, ¬ IsCtl m → ¬ InImage m → Within (· = diagRej) m (rsOnState m) := by
  intro h
  have hm := h ((Mach.zero.st resyncHold 1).stList frmBuf overrunFrame) (by decide) (by decide)
  exact absurd (hm.keep rsTmp2 (by decide)) (by decide)

end IntvBasketball.Console
