/-
  RS_PUSH with frame interrupts.

  An interrupt may strike between any two instructions. Unless $0102 is 0 it changes the
  object table $031D-$035C in any way it likes; with $0102 at 0 the ISR takes its skip
  path. RS_PUSH reads the object table only in IMG_GET, once for each image byte, and never
  stores to it or to $0102. So the interrupts between two such reads act like one in front
  of the second, and those after the last read like one in front of RS_REBASE.

  * `rsPushI` is RS_PUSH with these interrupts.
  * `one_instant_iff`: whatever they do, the image sent is that of one moment and still
    the host's own at the re-base, exactly if $0102 is 0 when RS_PUSH is entered.
-/
import IntvBasketball.Console.ImageRound

namespace IntvBasketball.Console

open Mach (Within Does)

/-- What the interrupts do to the object table: those in front of the read of each image
    byte, and those in front of RS_REBASE. -/
structure Irqs where
  byte : Nat → Mem → Nat → Nat
  last : Mem → Nat → Nat

/-- The object table. -/
def objCell (a : Nat) : Prop := area 0x31D 64 a

instance (a : Nat) : Decidable (objCell a) := by unfold objCell; infer_instance

/-- An interrupt that gives the cell at `a` the value `f a`. -/
def isr (f : Mem → Nat → Nat) (m : Mach) : Mach :=
  if m.rd isrPhase = 0 then m
  else
    { m with mem :=
        { cell := fun a => if objCell a then f m.mem a % cellMod a else m.mem.cell a
          wf := fun a => by
            by_cases h : objCell a
            · simpa [h] using Nat.mod_lt _ (cellMod_pos a)
            · simpa [h] using m.mem.wf a } }

/-! ## RS_PUSH, interrupted -/

/-- The payload loop of a chunk. -/
def psBytesI (irq : Irqs) (m : Mach) (r2 : Nat) : Nat → Mach × List Nat
  | 0 => (m, [])
  | n + 1 =>
    let m := isr (irq.byte r2) m
    let r := psBytesI irq (m.st rsTmp2 n) (r2 + 1) n
    (r.1, imgGet m r2 :: r.2)

/-- One round of the chunk loop. -/
def psRoundI (irq : Irqs) (m : Mach) (r2 n : Nat) : Mach :=
  let m := (m.st rsTmp2 n).st lsTmpb n
  let r := psBytesI irq m r2 (m.rd rsTmp2)
  let m := (r.1.st rsPosLo (r2 + n)).st rsPosHi ((r2 + n) / 256)
  m.netWrite ([n + 3, ftState, r2, r2 / 256] ++ r.2)

/-- The chunk loop. -/
def psChunksI (irq : Irqs) : Nat → Mach → Mach
  | 0, m => m
  | fuel + 1, m =>
    let r2 := word (m.rd rsPosLo) (m.rd rsPosHi)
    let r1 := sub16 imgTotal r2
    if r1 = 0 then m
    else psChunksI irq fuel (psRoundI irq m r2 (if r1 < rsChunk then r1 else rsChunk))

/-- All image chunks. -/
def psImageI (irq : Irqs) (m : Mach) : Mach :=
  psChunksI irq (imgTotal + 1) ((m.st rsPosLo 0).st rsPosHi 0)

/-- RS_PUSH. -/
def rsPushI (irq : Irqs) (m : Mach) : Mach :=
  let m := psImageI irq (psBegin (rsEnterHold m))
  rsRebase (isr irq.last (m.netWrite [3, ftState, 1, 0xFF]))

/-- The image bytes sent are those of one memory state, which also is the host's image
    when it re-baselines. -/
def OneInstant (irq : Irqs) (m : Mach) : Prop :=
  ∃ at_once : Mach,
    (rsPushI irq m).tx = m.tx ++ beginFrame (word (m.rd tickLo) (m.rd tickHi) + 16) ++
      (chunkFrames at_once).flatten ++ endFrame ∧
    ∀ p < imgTotal, imgGet (rsPushI irq m) p = imgGet at_once p

/-! ## Interrupts without effect -/

theorem isr_frozen {f : Mem → Nat → Nat} {m : Mach} (h : m.rd isrPhase = 0) : isr f m = m :=
  if_pos h

theorem isr_same (m : Mach) : isr (fun mem a => mem.cell a) m = m := by
  unfold isr
  split
  · rfl
  · refine congrArg (fun mem => { m with mem }) (Mem.ext (fun a => ?_))
    show (if objCell a then m.mem.cell a % cellMod a else m.mem.cell a) = m.mem.cell a
    rw [Nat.mod_eq_of_lt (m.mem.wf a), ite_self]

/-- The interrupts of `irq` up to the last read do nothing as long as $0102 stays `v`. -/
def Quiet (irq : Irqs) (v : Nat) : Prop :=
  ∀ p (m : Mach), m.rd isrPhase = v → isr (irq.byte p) m = m

section Quiet
variable {irq : Irqs} {v : Nat}

theorem psBytesI_eq (hq : Quiet irq v) {m : Mach} (hv : m.rd isrPhase = v) (r2 n : Nat) :
    psBytesI irq m r2 n = psBytes m r2 n := by
  induction n generalizing m r2 with
  | zero => rfl
  | succ n ih =>
    have hv' : (m.st rsTmp2 n).rd isrPhase = v := by
      rw [Mach.rd_st_ne _ _ (by decide), hv]
    rw [psBytesI, hq r2 m hv, ih hv', psBytes]

theorem psRoundI_eq (hq : Quiet irq v) {m : Mach} (hv : m.rd isrPhase = v) (r2 n : Nat) :
    psRoundI irq m r2 n = psRound m r2 n := by
  have hv' : ((m.st rsTmp2 n).st lsTmpb n).rd isrPhase = v := by
    rw [Mach.rd_st_ne _ _ (by decide), Mach.rd_st_ne _ _ (by decide), hv]
  rw [psRoundI, psRound, psBytesI_eq hq hv']

theorem isrPhase_psRound (m : Mach) (r2 n : Nat) :
    (psRound m r2 n).rd isrPhase = m.rd isrPhase := by
  rw [psRound, Mach.rd_netWrite, Mach.rd_st_ne _ _ (by decide), Mach.rd_st_ne _ _ (by decide),
    (within_psBytes _ _ _).keep isrPhase (by decide), Mach.rd_st_ne _ _ (by decide),
    Mach.rd_st_ne _ _ (by decide)]

theorem psChunksI_eq (hq : Quiet irq v) (fuel : Nat) {m : Mach} (hv : m.rd isrPhase = v) :
    psChunksI irq fuel m = psChunks fuel m := by
  induction fuel generalizing m with
  | zero => rfl
  | succ fuel ih =>
    rw [psChunksI, psChunks]
    split
    · rfl
    · rw [psRoundI_eq hq hv]
      exact ih (by rw [isrPhase_psRound, hv])

theorem psImageI_eq (hq : Quiet irq v) {m : Mach} (hv : m.rd isrPhase = v) :
    psImageI irq m = psImage m := by
  refine psChunksI_eq hq _ ?_
  rw [Mach.rd_st_ne _ _ (by decide), Mach.rd_st_ne _ _ (by decide), hv]

end Quiet

/-! ## The state behind END -/

/-- RS_PUSH up to RS_REBASE. -/
def psSent (m : Mach) : Mach := (psImage (psBegin (rsEnterHold m))).netWrite [3, ftState, 1, 0xFF]

theorem isrPhase_psBegin (m : Mach) : (psBegin (rsEnterHold m)).rd isrPhase = m.rd isrPhase := by
  rw [(psBegin_spec _).1.keep isrPhase (by decide), (does_rsEnterHold m).keep isrPhase (by decide)]

theorem isrPhase_psSent (m : Mach) : (psSent m).rd isrPhase = m.rd isrPhase := by
  rw [psSent, Mach.rd_netWrite, (does_psImage _).keep isrPhase (by decide), isrPhase_psBegin]

theorem imgGet_psSent (m : Mach) {p : Nat} (hp : p < imgTotal) :
    imgGet (psSent m) p = imgGet m p := by
  have himg := (does_psImage (psBegin (rsEnterHold m))).netWrite [3, ftState, 1, 0xFF]
  rw [psSent, imgGet_of_does himg (fun _ => not_imgCell_of_push) hp,
    imgGet_of_does (psBegin_spec _).1 (by rintro a (rfl | rfl) <;> decide) hp,
    imgGet_of_does (does_rsEnterHold m) (fun _ => not_imgCell_of_hold) hp]

theorem not_imgCell_of_rebase {a : Nat} (h : rebaseCell a) : ¬ imgCell a := by
  intro hc
  rcases h with h | h
  · exact not_imgCell_of_hold h hc
  · have hlt := imgCell_lt_of_mem hc
    simp only [rbCell, area, List.mem_cons, List.not_mem_nil, or_false, rsPend, rsPtmo, tickLo,
      tickHi, lsWaitcLo, lsWaitcHi, scIsrSave, countdown, seatRing, seatWm] at h
    simp only [imgCell, rsTailTbl, List.mem_cons, List.not_mem_nil, or_false, rngLo, rngHi, scCnt2,
      gameTblLo, gameTblHi] at hc
    omega

theorem imgGet_rsRebase (m : Mach) {p : Nat} (hp : p < imgTotal) :
    imgGet (rsRebase m) p = imgGet m p :=
  imgGet_of_does (does_rsRebase m) (fun _ => not_imgCell_of_rebase) hp

/-! ## The chunks determine the image -/

theorem lengths_chunksFrom (m m' : Mach) (fuel p : Nat) :
    (chunksFrom m fuel p).map List.length = (chunksFrom m' fuel p).map List.length := by
  induction fuel generalizing p with
  | zero => rfl
  | succ fuel ih =>
    rw [chunksFrom, chunksFrom]
    split
    · rfl
    · dsimp only
      rw [List.map_cons, List.map_cons, length_chunkFrame, length_chunkFrame, ih]

theorem chunkFrame_inj {m m' : Mach} {p n : Nat} (hp : p + n ≤ imgTotal)
    (h : chunkFrame m p n = chunkFrame m' p n) {q : Nat} (hq : p ≤ q ∧ q < p + n) :
    imgGet m q = imgGet m' q := by
  rw [chunkFrame, chunkFrame, wire, wire, List.map_append, List.map_append] at h
  have htail := (List.append_inj h rfl).2
  rw [List.map_map, List.map_map] at htail
  have hbyte := List.map_inj_left.mp htail q (List.mem_range'_1.mpr hq)
  have hnat := congrArg UInt8.toNat hbyte
  simp only [Function.comp_apply, UInt8.toNat_ofNat'] at hnat
  rwa [Nat.mod_eq_of_lt (imgGet_lt m (by omega)), Nat.mod_eq_of_lt (imgGet_lt m' (by omega))] at hnat

theorem chunksFrom_inj {m m' : Mach} (fuel : Nat) {p : Nat} (hp : p ≤ imgTotal)
    (hf : imgTotal - p ≤ fuel) (h : chunksFrom m fuel p = chunksFrom m' fuel p) {q : Nat}
    (hpq : p ≤ q) (hq : q < imgTotal) : imgGet m q = imgGet m' q := by
  induction fuel generalizing p with
  | zero => omega
  | succ fuel ih =>
    rw [chunksFrom, chunksFrom, if_neg (by omega), if_neg (by omega)] at h
    obtain ⟨hhead, htail⟩ := List.cons.inj h
    have hc : 0 < rsChunk := by decide
    by_cases hin : q < p + min (imgTotal - p) rsChunk
    · exact chunkFrame_inj (by omega) hhead ⟨hpq, hin⟩
    · exact ih (by omega) (by omega) htail (by omega)

theorem chunkFrames_inj {m m' : Mach}
    (h : (chunkFrames m).flatten = (chunkFrames m').flatten) {q : Nat} (hq : q < imgTotal) :
    imgGet m q = imgGet m' q := by
  have hlist := List.eq_iff_flatten_eq.mpr
    ⟨h, lengths_chunksFrom m m' _ 0⟩
  exact chunksFrom_inj (imgTotal + 1) (Nat.zero_le _) (by omega) hlist (Nat.zero_le _) hq

/-! ## Frozen or not -/

theorem rsPushI_frozen (irq : Irqs) {m : Mach} (h : m.rd isrPhase = 0) :
    rsPushI irq m = rsPush m := by
  have hq : Quiet irq 0 := fun _ _ h' => isr_frozen h'
  rw [rsPushI, psImageI_eq hq (by rw [isrPhase_psBegin, h])]
  have hsent := isrPhase_psSent m
  rw [psSent, h] at hsent
  rw [isr_frozen hsent, rsPush]

/-- Interrupts that move every object once the last image byte is read. -/
def lateMove : Irqs := ⟨fun _ mem a => mem.cell a, fun mem a => mem.cell a + 1⟩

theorem imgGet_moved {m : Mach} (h : m.rd isrPhase ≠ 0) :
    imgGet (isr lateMove.last m) imgS2 ≠ imgGet m imgS2 := by
  have hcell : (isr lateMove.last m).rd 0x31D = (m.rd 0x31D + 1) % 65536 := by
    rw [isr, if_neg h]
    rfl
  rw [show ∀ m, imgGet m imgS2 = m.rd 0x31D % 256 from fun _ => rfl,
    show ∀ m, imgGet m imgS2 = m.rd 0x31D % 256 from fun _ => rfl, hcell]
  omega

/-- With $0102 running, the host re-baselines on another image than the one it sent. -/
theorem not_one_instant {m : Mach} (h : m.rd isrPhase ≠ 0) : ¬ OneInstant lateMove m := by
  rintro ⟨at_once, htx, himg⟩
  have hq : Quiet lateMove (m.rd isrPhase) := fun _ m' _ => isr_same m'
  have hpush : rsPushI lateMove m = rsRebase (isr lateMove.last (psSent m)) := by
    rw [rsPushI, psImageI_eq hq (isrPhase_psBegin m)]
    rfl
  have hisr : (isr lateMove.last (psSent m)).tx = (psSent m).tx := by
    unfold isr
    split <;> rfl
  have hsame : (rsPushI lateMove m).tx = (rsPush m).tx := by
    rw [hpush, (does_rsRebase _).tx_eq, hisr]
    exact ((does_rsRebase (psSent m)).tx_eq).symm
  rw [hsame, tx_rsPush] at htx
  have hflat := List.append_cancel_left (List.append_cancel_right htx)
  have hold := chunkFrames_inj hflat (q := imgS2) (by decide)
  have hnew := himg imgS2 (by decide)
  rw [hpush, imgGet_rsRebase _ (by decide), ← hold, ← imgGet_psSent m (by decide)] at hnew
  exact imgGet_moved (by rw [isrPhase_psSent]; exact h) hnew

/-- Under every placement of interrupts RS_PUSH sends one instant of the host's state, and
    re-baselines on it, exactly if it is entered with $0102 = 0. -/
theorem one_instant_iff (m : Mach) : (∀ irq, OneInstant irq m) ↔ m.rd isrPhase = 0 := by
  constructor
  · intro hall
    by_contra hrun
    exact not_one_instant hrun (hall lateMove)
  · intro h irq
    refine ⟨m, ?_, fun p hp => ?_⟩
    · rw [rsPushI_frozen irq h, tx_rsPush]
    · rw [rsPushI_frozen irq h]
      show imgGet (rsRebase (psSent m)) p = imgGet m p
      rw [imgGet_rsRebase _ hp, imgGet_psSent m hp]

/-- $0102 as the EXEC leaves it after boot. -/
theorem running_push_torn : ¬ ∀ irq, OneInstant irq (Mach.zero.st isrPhase 2) := by
  intro h
  refine not_one_instant ?_ (h lateMove)
  decide

end IntvBasketball.Console
