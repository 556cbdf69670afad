/-
  src/netcode/resync.asm: checksum records, the state push and its application.

  The push sends BEGIN, the image in chunks of RS_CHUNK bytes, and END. A STATE
  frame is `[len][08][pos_lo][pos_hi][data..]`; pos_hi = $FF marks control frames
  (pos_lo 0 = BEGIN with R_lo, R_hi; 1 = END). Both consoles finish in RS_REBASE,
  which moves the tick counter to the resume tick R and starts the input rings,
  watermarks and checksum records afresh.
-/
import IntvBasketball.Console.Hook
import IntvBasketball.Console.Image

namespace IntvBasketball.Console

def rsPendMax : Nat := 60

attribute [simp] rsPendMax

/-! ## Checksum records -/

/-- RS_CLR_CRC: invalidate every record. -/
def rsClrCrc (m : Mach) : Mach := m.fill ownCrc 32 0xFF

/-- Address of the record for a tick with this low byte. -/
def crcSlot (tlo : Nat) : Nat := ownCrc + tlo / 64 % 8 * 4

/-- RS_RECORD_CRC: the checksum in LS_TMPB/LS_TMPB2 under the current tick. -/
def rsRecordCrc (m : Mach) : Mach :=
  let r4 := crcSlot (m.rd tickLo)
  let m := m.st r4 (m.rd tickLo)
  let m := m.st (r4 + 1) (m.rd tickHi)
  let m := m.st (r4 + 2) (m.rd lsTmpb)
  let m := m.st (r4 + 3) (m.rd lsTmpb2)
  m.log (.record (word (m.rd tickLo) (m.rd tickHi)) (word (m.rd lsTmpb) (m.rd lsTmpb2))
    (m.rd rsPend) (m.rd resyncHold))

/-- The tests of RS_ON_CRC, in order. -/
def crcVerdict (m : Mach) : CrcVerdict :=
  let r4 := crcSlot (m.rd (frmBuf + 3))
  if m.rd frmBuf < 6 then .short
  else if m.rd resyncHold ≠ 0 then .held
  else if m.rd rsPend ≠ 0 then .pending
  else if m.rd r4 ≠ m.rd (frmBuf + 3) then .noRecord
  else if m.rd (r4 + 1) ≠ m.rd (frmBuf + 4) then .noRecord
  else if m.rd (r4 + 2) ≠ m.rd (frmBuf + 5) then .bad
  else if m.rd (r4 + 3) = m.rd (frmBuf + 6) then .agree
  else .bad

/-- RS_ON_CRC, `@@rc_bad`: mark the resync wanted; the guest asks the host for it. -/
def rcBad (m : Mach) : Mach :=
  let m := ((m.st rsPend 1).st rsPtmo 0).log .pend
  if m.rd netSeat = 0 then m
  else m.netWrite [3, ftResync, m.rd (frmBuf + 3), m.rd (frmBuf + 4)]

/-- RS_ON_CRC: a peer's checksum in FRMBUF. -/
def rsOnCrc (m : Mach) : Mach :=
  let v := crcVerdict m
  let m := m.log (.onCrc (word (m.rd (frmBuf + 3)) (m.rd (frmBuf + 4)))
    (word (m.rd (frmBuf + 5)) (m.rd (frmBuf + 6))) v)
  if v = .bad then rcBad m else m

/-- RS_ON_REQ: a guest asked for a push. -/
def rsOnReq (m : Mach) : Mach :=
  if m.rd netSeat ≠ 0 ∨ m.rd resyncHold ≠ 0 ∨ m.rd rsPend ≠ 0 then m
  else ((m.st rsPend 1).st rsPtmo 0).log .pend

/-! ## Hold and re-base -/

/-- RS_DISPLAY_RESET: border extension and colour stack from the cart header. -/
def rsDisplayReset (m : Mach) : Mach := (m.st 0x0032 (m.rd 0x500D)).copy 0x500F 0x0028 5

/-- RS_CLAMP_ISR: the interrupt vector back to the EXEC default $1126. -/
def rsClampIsr (m : Mach) : Mach :=
  (((m.st scIsrSave 0x26).st 0x100 0x26).st (scIsrSave + 1) 0x11).st 0x101 0x11

def rsEnterHold (m : Mach) : Mach :=
  (rsClrCrc (((m.st resyncHold 1).st rsToLo 0).st rsToHi 0)).log .hold

/-- `n` watermarks at `a`, `a + 2`, .. set to the byte pair `lo`, `hi`. -/
def wmLoop (lo hi : Nat) (m : Mach) (a : Nat) : Nat → Mach
  | 0 => m
  | n + 1 => wmLoop lo hi ((m.st a lo).st (a + 1) hi) (a + 2) n

/-- TICK := R. -/
def rbTick (m : Mach) : Mach :=
  let m := m.st tickLo (m.rd rsRLo)
  m.st tickHi (m.rd rsRHi)

/-- Every watermark := R + d - 1. -/
def rbWm (m : Mach) : Mach :=
  let r1 := sub16 ((word (m.rd rsRLo) (m.rd rsRHi) + m.rd netDelay) % 65536) 1
  wmLoop r1 (r1 / 256) m seatWm 4

/-- The hold is over. -/
def rbRelease (m : Mach) : Mach :=
  ((((m.st resyncHold 0).st rsToLo 0).st rsToHi 0).st lsWaitcLo 0).st lsWaitcHi 0

def rsRebase (m : Mach) : Mach :=
  let m := (m.st rsPend 0).st rsPtmo 0
  let m := nbRebaseHook (rsClampIsr (rsDisplayReset m))
  let m := rbWm (lsRingInit (rbTick m))
  let m := rbRelease (rsClrCrc m)
  m.log (.rebase (word (m.rd rsRLo) (m.rd rsRHi)))

/-! ## The push -/

/-- The payload loop of a chunk: `n` image bytes from position `r2`; RS_TMP2 counts down. -/
def psBytes (m : Mach) (r2 : Nat) : Nat → Mach × List Nat
  | 0 => (m, [])
  | n + 1 =>
    let r := psBytes (m.st rsTmp2 n) (r2 + 1) n
    (r.1, imgGet m r2 :: r.2)

/-- One round of the chunk loop: `n` image bytes from position `r2` staged and sent. -/
def psRound (m : Mach) (r2 n : Nat) : Mach :=
  let m := (m.st rsTmp2 n).st lsTmpb n
  let r := psBytes m r2 (m.rd rsTmp2)
  let m := (r.1.st rsPosLo (r2 + n)).st rsPosHi ((r2 + n) / 256)
  m.netWrite ([n + 3, ftState, r2, r2 / 256] ++ r.2)

/-- The chunk loop; the first argument bounds the number of rounds. -/
def psChunks : Nat → Mach → Mach
  | 0, m => m
  | fuel + 1, m =>
    let r2 := word (m.rd rsPosLo) (m.rd rsPosHi)
    let r1 := sub16 imgTotal r2
    if r1 = 0 then m
    else psChunks fuel (psRound m r2 (if r1 < rsChunk then r1 else rsChunk))

/-- R := tick + 16, and the BEGIN frame. -/
def psBegin (m : Mach) : Mach :=
  let r1 := word (m.rd tickLo) (m.rd tickHi) + 16
  let m := (m.st rsRLo r1).st rsRHi (r1 / 256)
  let m := m.log (.push (word (m.rd rsRLo) (m.rd rsRHi)))
  m.netWrite [5, ftState, 0, 0xFF, m.rd rsRLo, m.rd rsRHi]

/-- All image chunks. -/
def psImage (m : Mach) : Mach := psChunks (imgTotal + 1) ((m.st rsPosLo 0).st rsPosHi 0)

/-- RS_PUSH: hold, BEGIN(R), the image chunks, END, re-base. -/
def rsPush (m : Mach) : Mach :=
  let m := psImage (psBegin (rsEnterHold m))
  rsRebase (m.netWrite [3, ftState, 1, 0xFF])

/-- RS_PENDING: the host pushes once the game is dead-ball, or after 60 ticks. -/
def rsPending (m : Mach) : Mach :=
  if m.rd rsPend = 0 ∨ m.rd netSeat ≠ 0 ∨ m.rd resyncHold ≠ 0 then m
  else
    let m := m.st rsPtmo (m.rd rsPtmo + 1)
    if m.rd nbPhase / 64 % 4 = 3 then
      let m := m.st rsGate 1
      rsPush (m.st rsWaited (m.rd rsPtmo))
    else if m.rd rsPtmo < rsPendMax then m
    else
      let m := m.st rsGate 2
      rsPush (m.st rsWaited (m.rd rsPtmo))

/-! ## Applying it -/

/-- The next position, with the carry between the two cells. -/
def rsNext (m : Mach) : Mach :=
  let lo := m.rd rsPosLo + 1
  let m := m.st rsPosLo lo
  if lo = 0x100 then m.st rsPosHi (m.rd rsPosHi + 1) else m

/-- The byte loop of RS_ON_STATE: `n` bytes from `r3` to the image, the position in
    RS_POS_LO/HI, the count in RS_TMP2. -/
def rsDl (m : Mach) (r3 : Nat) : Nat → Mach
  | 0 => m
  | n + 1 =>
    let m := imgPut m (m.rd r3) (word (m.rd rsPosLo) (m.rd rsPosHi))
    rsDl ((rsNext m).st rsTmp2 n) (r3 + 1) n

/-- RS_ON_STATE, `@@rs_ctl`: BEGIN and END. -/
def rsCtl (m : Mach) : Mach :=
  if m.rd (frmBuf + 2) = 0 then
    if m.rd frmBuf < 5 then diagBump m diagRej
    else
      let m := rsEnterHold m
      (m.st rsRLo (m.rd (frmBuf + 4))).st rsRHi (m.rd (frmBuf + 5))
  else if m.rd (frmBuf + 2) ≠ 1 then m
  else if m.rd resyncHold = 0 then m
  else rsRebase m

/-- RS_ON_STATE: a STATE frame in FRMBUF. -/
def rsOnState (m : Mach) : Mach :=
  let len := m.rd frmBuf
  if len < 3 then diagBump m diagRej
  else if m.rd (frmBuf + 3) = 0xFF then rsCtl m
  else if m.rd resyncHold = 0 then diagBump m diagRej
  else if len ≤ 3 then diagBump m diagRej
  else
    let m := m.st rsTmp2 (len - 3)
    if 4 ≤ m.rd (frmBuf + 3) then diagBump m diagRej
    else if imgTotal + 1 ≤ word (m.rd (frmBuf + 2)) (m.rd (frmBuf + 3)) + (len - 3) then
      diagBump m diagRej
    else
      let m := (m.st rsPosLo (m.rd (frmBuf + 2))).st rsPosHi (m.rd (frmBuf + 3))
      rsDl m (frmBuf + 4) (m.rd rsTmp2)

/-! ## Where they store, and what they send -/

/-- Cells RS_ENTER_HOLD stores to. -/
def holdCell (a : Nat) : Prop := a ∈ [resyncHold, rsToLo, rsToHi] ∨ area ownCrc 32 a

/-- Cells RS_REBASE stores to, the hold cells apart. -/
def rbCell (a : Nat) : Prop :=
  a ∈ [rsPend, rsPtmo, tickLo, tickHi, lsWaitcLo, lsWaitcHi, 0x32, 0x100, 0x101, scIsrSave,
    scIsrSave + 1] ∨
  area 0x28 5 a ∨ area countdown 8 a ∨ area seatRing 2048 a ∨ area seatWm 8 a

/-- Cells RS_REBASE stores to. -/
def rebaseCell (a : Nat) : Prop := holdCell a ∨ rbCell a

instance (a : Nat) : Decidable (holdCell a) := by unfold holdCell; infer_instance
instance (a : Nat) : Decidable (rbCell a) := by unfold rbCell; infer_instance
instance (a : Nat) : Decidable (rebaseCell a) := by unfold rebaseCell; infer_instance

open Mach (Within Does)

theorem within_rsClrCrc (m : Mach) : Within (area ownCrc 32) m (rsClrCrc m) :=
  (Does.refl _ m).fill _ (fun _ h1 h2 => ⟨h1, h2⟩)

theorem does_rsEnterHold (m : Mach) : Does holdCell [] [.hold] m (rsEnterHold m) := by
  have h : Within holdCell m (((m.st resyncHold 1).st rsToLo 0).st rsToHi 0) :=
    (((Does.refl _ m).st _ (by decide)).st _ (by decide)).st _ (by decide)
  exact (h.within ((within_rsClrCrc _).mono (fun _ => Or.inr))).log _

theorem within_wmLoop (lo hi : Nat) (m : Mach) (a n : Nat) :
    Within (area a (2 * n)) m (wmLoop lo hi m a n) := by
  induction n generalizing m a with
  | zero => exact Does.refl _ m
  | succ n ih =>
    refine Does.within ?_ ((ih _ (a + 2)).mono (fun b hb => by unfold area at *; omega))
    exact ((Does.refl _ m).st _ (by unfold area; omega)).st _ (by unfold area; omega)

theorem within_lsRingInit (m : Mach) : Within (area seatRing 2048) m (lsRingInit m) := by
  unfold lsRingInit
  refine Does.fill (Does.fill (Does.refl _ m) _ ?_) _ ?_
  · intro b h1 h2
    exact ⟨h1, Nat.lt_of_lt_of_le h2 (Nat.add_le_add_left (by decide) _)⟩
  · intro b h1 h2
    simp only [area, seatKp, seatRing] at *
    omega

theorem within_rsDisplayReset (m : Mach) :
    Within (fun b => b = 0x32 ∨ area 0x28 5 b) m (rsDisplayReset m) := by
  unfold rsDisplayReset
  refine Does.copy ((Does.refl _ m).st _ (Or.inl rfl)) ?_
  exact fun b h1 h2 => Or.inr ⟨h1, h2⟩

theorem within_rsClampIsr (m : Mach) : Within rebaseCell m (rsClampIsr m) :=
  ((((Does.refl _ m).st _ (by decide)).st _ (by decide)).st _ (by decide)).st _ (by decide)

theorem within_nbRebaseHook (m : Mach) : Within (area countdown 8) m (nbRebaseHook m) :=
  (Does.refl _ m).copy (fun _ h1 h2 => ⟨h1, h2⟩)

theorem within_rbTick (m : Mach) : Within rebaseCell m (rbTick m) :=
  ((Does.refl _ m).st _ (by decide)).st _ (by decide)

theorem within_rbWm (m : Mach) : Within (area seatWm 8) m (rbWm m) :=
  within_wmLoop _ _ _ _ 4

theorem within_rbRelease (m : Mach) : Within rebaseCell m (rbRelease m) :=
  (((((Does.refl _ m).st _ (by decide)).st _ (by decide)).st _ (by decide)).st _
    (by decide)).st _ (by decide)

/-- RS_REBASE up to its last store. -/
theorem within_rsRebase (m : Mach) :
    Within rebaseCell m (rbRelease (rsClrCrc (rbWm (lsRingInit (rbTick (nbRebaseHook
      (rsClampIsr (rsDisplayReset ((m.st rsPend 0).st rsPtmo 0))))))))) := by
  refine Does.within ?_ (within_rbRelease _)
  refine Does.within ?_ ((within_rsClrCrc _).mono (fun _ h => Or.inl (Or.inr h)))
  refine Does.within ?_ ((within_rbWm _).mono
    (fun _ h => Or.inr (Or.inr (Or.inr (Or.inr (Or.inr h))))))
  refine Does.within ?_ ((within_lsRingInit _).mono
    (fun _ h => Or.inr (Or.inr (Or.inr (Or.inr (Or.inl h))))))
  refine Does.within ?_ (within_rbTick _)
  refine Does.within ?_ ((within_nbRebaseHook _).mono
    (fun _ h => Or.inr (Or.inr (Or.inr (Or.inl h)))))
  refine Does.within ?_ (within_rsClampIsr _)
  refine Does.within ?_ ((within_rsDisplayReset _).mono ?_)
  · exact ((Does.refl _ m).st _ (by decide)).st _ (by decide)
  · rintro b (rfl | h)
    · decide
    · exact Or.inr (Or.inr (Or.inl h))

theorem does_rsRebase (m : Mach) :
    Does rebaseCell [] [.rebase (word (m.rd rsRLo) (m.rd rsRHi))] m (rsRebase m) := by
  have h := within_rsRebase m
  have hlo := h.keep rsRLo (by decide)
  have hhi := h.keep rsRHi (by decide)
  have h' := h.log (.rebase (word (m.rd rsRLo) (m.rd rsRHi)))
  rw [← hlo, ← hhi] at h' ⊢
  exact h'

/-- Cells that mark a resync as wanted. -/
def pendCell (a : Nat) : Prop := a = rsPend ∨ a = rsPtmo

instance (a : Nat) : Decidable (pendCell a) := by unfold pendCell; infer_instance

/-- The request a guest sends about the checksum frame in FRMBUF. -/
def resyncReq (m : Mach) : List Byte :=
  [3, ftResync, m.rd (frmBuf + 3), m.rd (frmBuf + 4)].map UInt8.ofNat

theorem within_rcBad (m : Mach) : Within pendCell m ((m.st rsPend 1).st rsPtmo 0) :=
  ((Does.refl _ m).st _ (Or.inl rfl)).st _ (Or.inr rfl)

theorem does_rcBad_host {m : Mach} (hs : m.rd netSeat = 0) :
    Does pendCell [] [.pend] m (rcBad m) := by
  have hp := within_rcBad m
  rw [rcBad, if_pos (by rw [Mach.rd_log, hp.keep netSeat (by decide), hs])]
  exact hp.log .pend

theorem does_rcBad_guest {m : Mach} (hs : m.rd netSeat ≠ 0) :
    Does pendCell (resyncReq m) [.pend] m (rcBad m) := by
  have hp := within_rcBad m
  rw [rcBad, if_neg (by rw [Mach.rd_log, hp.keep netSeat (by decide)]; exact hs)]
  have h := (hp.log .pend).netWrite [3, ftResync, m.rd (frmBuf + 3), m.rd (frmBuf + 4)]
  rw [← hp.keep (frmBuf + 3) (by decide), ← hp.keep (frmBuf + 4) (by decide)] at h
  rw [resyncReq, ← hp.keep (frmBuf + 3) (by decide), ← hp.keep (frmBuf + 4) (by decide)]
  exact h

/-- The event RS_ON_CRC leaves for the frame in FRMBUF. -/
def crcEvent (m : Mach) : Ev :=
  .onCrc (word (m.rd (frmBuf + 3)) (m.rd (frmBuf + 4)))
    (word (m.rd (frmBuf + 5)) (m.rd (frmBuf + 6))) (crcVerdict m)

theorem does_rsOnCrc_ok {m : Mach} (hv : crcVerdict m ≠ .bad) :
    Does pendCell [] [crcEvent m] m (rsOnCrc m) := by
  rw [rsOnCrc, if_neg hv]
  exact (Does.refl pendCell m).log (crcEvent m)

theorem does_rsOnCrc_host {m : Mach} (hv : crcVerdict m = .bad) (hs : m.rd netSeat = 0) :
    Does pendCell [] [crcEvent m, .pend] m (rsOnCrc m) := by
  rw [rsOnCrc, if_pos hv]
  exact ((Does.refl pendCell m).log (crcEvent m)).trans (does_rcBad_host (m := m.log _) hs)

theorem does_rsOnCrc_guest {m : Mach} (hv : crcVerdict m = .bad) (hs : m.rd netSeat ≠ 0) :
    Does pendCell (resyncReq m) [crcEvent m, .pend] m (rsOnCrc m) := by
  rw [rsOnCrc, if_pos hv]
  exact ((Does.refl pendCell m).log (crcEvent m)).trans (does_rcBad_guest (m := m.log _) hs)

/-- RS_ON_CRC marks a resync as wanted or does nothing. -/
theorem does_rsOnCrc (m : Mach) : ∃ tx ev, Does pendCell tx ev m (rsOnCrc m) ∧
    (ev = [crcEvent m] ∨ ev = [crcEvent m, .pend]) := by
  by_cases hv : crcVerdict m = .bad
  · by_cases hs : m.rd netSeat = 0
    · exact ⟨_, _, does_rsOnCrc_host hv hs, Or.inr rfl⟩
    · exact ⟨_, _, does_rsOnCrc_guest hv hs, Or.inr rfl⟩
  · exact ⟨_, _, does_rsOnCrc_ok hv, Or.inl rfl⟩

theorem does_rsOnReq (m : Mach) : ∃ ev, Does pendCell [] ev m (rsOnReq m) ∧
    (ev = [] ∨ ev = [.pend]) := by
  unfold rsOnReq
  have hp : Within pendCell m ((m.st rsPend 1).st rsPtmo 0) :=
    ((Does.refl _ m).st _ (Or.inl rfl)).st _ (Or.inr rfl)
  split
  · exact ⟨_, Does.refl _ m, Or.inl rfl⟩
  · exact ⟨_, hp.log .pend, Or.inr rfl⟩

end IntvBasketball.Console
