/-
  The two checksums over the game state: LS_CKSUM (src/netcode/lockstep.asm), which the
  consoles compare every 64 ticks, and the ring checksum of TRACE_TICK (src/debug.asm).

  Both rotate and add over $015D-$01EF without $016B, the game RNG and the countdown
  mirrors. LS_CKSUM names the segments one after the other, with the two RS_SPARE cells
  in between; TRACE_TICK walks TRACE_RANGES and leaves the sum in TRACE_RING under the
  low byte of the tick.

  * `ckRound_mixes`: a round is one to one in the running sum and in the cell.
  * `checksum_coverage`: what the sums depend on, that each cell shows, and that the
    state image carries every one of them.
-/
import IntvBasketball.Lib.Mix
import IntvBasketball.Console.Lockstep
import IntvBasketball.Console.Snapshot

namespace IntvBasketball.Console

open Mach (Within Does)
open Lib (Mixes)

/-! ## TRACE_TICK -/

def traceRing : Nat := 0x9000
def lagRing : Nat := 0x9200
def firstcLo : Nat := 0x8110
def firstcHi : Nat := 0x8111
def rngpLo : Nat := 0x8112
def rngpHi : Nat := 0x8113

/-- TRACE_RANGES: start and exclusive end, zero-terminated. -/
def traceRanges : List Nat :=
  [0x15D, 0x16B, 0x16C, 0x1F0, rngLo, rngHi + 1, scCnt2, scCnt2 + 8, 0, 0]

/-- `@@cell`: the cells from `r4` on, at least one, up to the exclusive end `r2`. -/
def traceCell (m : Mach) (r4 r2 r0 : Nat) : Nat :=
  ((List.range' r4 (max 1 (r2 - r4))).map m.rd).foldl ckRound r0

/-- `@@range`: the table from its next pair on. -/
def traceRange (m : Mach) : List Nat → Nat → Nat
  | r1 :: r2 :: r3, r0 => if r1 = 0 then r0 else traceRange m r3 (traceCell m r1 r2 r0)
  | _, r0 => r0

/-- The sum TRACE_TICK takes. -/
def traceSum (m : Mach) : Nat := traceRange m traceRanges 0

/-- The breadcrumb: the tick after the one in which the RNG first moved. -/
def traceRng (m : Mach) : Mach :=
  if m.rd rngLo = m.rd rngpLo ∧ m.rd rngHi = m.rd rngpHi then m
  else
    let m := (m.st rngpLo (m.rd rngLo)).st rngpHi (m.rd rngHi)
    if m.rd firstcLo ≠ 0 ∨ m.rd firstcHi ≠ 0 then m
    else (m.st firstcLo (m.rd tickLo + 1)).st firstcHi (m.rd tickHi)

/-- ring[tick & $FF] = checksum. -/
def traceStore (m : Mach) (r0 : Nat) : Mach :=
  (m.st (traceRing + m.rd tickLo * 2) r0).st (traceRing + m.rd tickLo * 2 + 1) (r0 / 256)

/-- LAG_RING[tick & $FF] = the shadow pair. -/
def traceLag (m : Mach) : Mach :=
  let r4 := lagRing + m.rd tickLo * 2
  let m := m.st r4 (m.rd shadowCtrl)
  m.st (r4 + 1) (m.rd shadowCtrlR)

/-- TRACE_TICK, up to the comparison with TRACE_STOP. -/
def traceTick (m : Mach) : Mach := lsTickInc (traceLag (traceStore (traceRng m) (traceSum m)))

/-- The ring entry TRACE_TICK leaves for the tick it ran in. -/
def ringSum (m : Mach) : Nat :=
  word ((traceTick m).rd (traceRing + m.rd tickLo * 2))
    ((traceTick m).rd (traceRing + m.rd tickLo * 2 + 1))

/-! ## The cells -/

/-- What both sums cover. -/
def ckCells : List Nat :=
  List.range' 0x15D 14 ++ List.range' 0x16C 132 ++ [rngLo, rngHi] ++ List.range' scCnt2 8

/-- What LS_CKSUM reads: these and the spare cells. -/
def lsCells : List Nat :=
  List.range' 0x15D 14 ++ List.range' 0x16C 132 ++ [rngLo, rngHi, rsSpare0, rsSpare1] ++
    List.range' scCnt2 8

theorem ckCells_nodup : ckCells.Nodup := by decide +kernel

theorem lsCells_nodup : lsCells.Nodup := by decide +kernel

theorem mem_lsCells {a : Nat} : a ∈ lsCells ↔ a ∈ ckCells ∨ a = rsSpare0 ∨ a = rsSpare1 := by
  simp only [lsCells, ckCells, List.mem_append, List.mem_cons, List.not_mem_nil, or_false]
  tauto

theorem traceSum_eq (m : Mach) : traceSum m = (ckCells.map m.rd).foldl ckRound 0 := by
  rw [ckCells, List.map_append, List.map_append, List.map_append, List.foldl_append,
    List.foldl_append, List.foldl_append]
  rfl

theorem lsCksum_eq (m : Mach) : lsCksum m = (lsCells.map m.rd).foldl ckRound 0 := rfl

/-! ## The ring entry -/

theorem ckRound_lt (r v : Nat) : ckRound r v < 65536 := Nat.mod_lt _ (by decide)

/-- A rotation is below 2^16 and can be undone. -/
theorem ckRot_inj {r r' : Nat} (hr : r < 65536) (hr' : r' < 65536)
    (h : r * 2 % 65536 + r / 32768 = r' * 2 % 65536 + r' / 32768) : r = r' := by
  have hrot : ∀ x < 65536, x * 2 % 65536 + x / 32768 = if x < 32768 then x * 2 else x * 2 - 65535 := by
    intro x hx
    split <;> omega
  rw [hrot r hr, hrot r' hr'] at h
  split_ifs at h <;> omega

theorem add_mod_inj {x y v : Nat} (hx : x < 65536) (hy : y < 65536)
    (h : (x + v) % 65536 = (y + v) % 65536) : x = y := by
  omega

theorem ckRound_mixes : Mixes ckRound (· < 65536) (· < 65536) where
  closed r v _ := ckRound_lt r v
  state r r' v hr hr' h := by
    unfold ckRound at h
    exact ckRot_inj hr hr' (add_mod_inj (by omega) (by omega) h)
  value r v v' hr hv hv' h := by
    unfold ckRound at h
    omega

theorem traceSum_lt (m : Mach) : traceSum m < 65536 := by
  rw [traceSum_eq]
  exact ckRound_mixes.foldl_closed _ (by decide)

theorem tickLo_traceRng (m : Mach) : (traceRng m).rd tickLo = m.rd tickLo := by
  unfold traceRng
  dsimp only
  split_ifs
  · rfl
  · rw [Mach.rd_st_ne _ _ (by decide), Mach.rd_st_ne _ _ (by decide)]
  · rw [Mach.rd_st_ne _ _ (by decide), Mach.rd_st_ne _ _ (by decide),
      Mach.rd_st_ne _ _ (by decide), Mach.rd_st_ne _ _ (by decide)]

/-- Nothing behind the store touches TRACE_RING. -/
theorem traceRing_kept (m : Mach) {a : Nat} (h : traceRing ≤ a) (h' : a < lagRing) :
    (lsTickInc (traceLag m)).rd a = m.rd a := by
  unfold traceRing at h
  unfold lagRing at h'
  have hlag : (traceLag m).rd a = m.rd a := by
    unfold traceLag lagRing
    rw [Mach.rd_st_ne _ _ (by omega), Mach.rd_st_ne _ _ (by omega)]
  unfold lsTickInc tickLo tickHi
  dsimp only
  split_ifs
  · rw [Mach.rd_st_ne _ _ (by omega), hlag]
  · rw [Mach.rd_st_ne _ _ (by omega), Mach.rd_st_ne _ _ (by omega), hlag]

/-- The ring entry is the sum. -/
theorem ringSum_eq (m : Mach) : ringSum m = traceSum m := by
  have ht := m.rd_lt_cart (a := tickLo) (by decide)
  have hs := traceSum_lt m
  have hlo : traceRing ≤ traceRing + m.rd tickLo * 2 := Nat.le_add_right _ _
  have hhi : traceRing + m.rd tickLo * 2 + 1 < lagRing := by unfold traceRing lagRing; omega
  rw [ringSum, traceTick, traceRing_kept _ hlo (by omega), traceRing_kept _ (by omega) hhi,
    traceStore, tickLo_traceRng, Mach.rd_st_self, Mach.rd_st_ne _ _ (by omega), Mach.rd_st_self,
    cellMod_cart (by unfold traceRing; omega), cellMod_cart (by unfold traceRing; omega)]
  unfold word
  omega

/-! ## What the sums depend on -/

/-- The spare cells are zero. -/
def NoSpare (m : Mach) : Prop := m.rd rsSpare0 = 0 ∧ m.rd rsSpare1 = 0

theorem rd_lsCells {m m' : Mach} (hz : NoSpare m) (hz' : NoSpare m') {S : Nat → Prop}
    (hk : ∀ a ∈ ckCells, S a → m'.rd a = m.rd a) :
    ∀ a ∈ lsCells, S a → m'.rd a = m.rd a := by
  intro a ha hs
  rcases mem_lsCells.mp ha with h | rfl | rfl
  · exact hk a h hs
  · rw [hz.1, hz'.1]
  · rw [hz.2, hz'.2]

theorem lsCksum_congr {m m' : Mach} (hz : NoSpare m) (hz' : NoSpare m')
    (h : ∀ a ∈ ckCells, m'.rd a = m.rd a) : lsCksum m' = lsCksum m := by
  have hall := rd_lsCells hz hz' (S := fun _ => True) (fun a ha _ => h a ha)
  rw [lsCksum_eq, lsCksum_eq, List.map_congr_left (fun a ha => hall a ha trivial)]

theorem ringSum_congr {m m' : Mach} (h : ∀ a ∈ ckCells, m'.rd a = m.rd a) :
    ringSum m' = ringSum m := by
  rw [ringSum_eq, ringSum_eq, traceSum_eq, traceSum_eq, List.map_congr_left h]

/-- One cell changed: LS_CKSUM changes. -/
theorem lsCksum_ne {m m' : Mach} (hz : NoSpare m) (hz' : NoSpare m') {a : Nat} (ha : a ∈ ckCells)
    (hne : m'.rd a ≠ m.rd a) (hrest : ∀ b ∈ ckCells, b ≠ a → m'.rd b = m.rd b) :
    lsCksum m' ≠ lsCksum m := by
  rw [lsCksum_eq, lsCksum_eq]
  exact ckRound_mixes.foldl_update lsCells_nodup (mem_lsCells.mpr (Or.inl ha)) (m.rd_lt_word a)
    (m'.rd_lt_word a) hne (rd_lsCells hz hz' hrest) (by decide)

/-- One cell changed: the ring entry changes. -/
theorem ringSum_ne {m m' : Mach} {a : Nat} (ha : a ∈ ckCells) (hne : m'.rd a ≠ m.rd a)
    (hrest : ∀ b ∈ ckCells, b ≠ a → m'.rd b = m.rd b) : ringSum m' ≠ ringSum m := by
  rw [ringSum_eq, ringSum_eq, traceSum_eq, traceSum_eq]
  exact ckRound_mixes.foldl_update ckCells_nodup ha (m.rd_lt_word a) (m'.rd_lt_word a) hne hrest
    (by decide)

/-! ## The image carries them -/

theorem mem_ckCells {a : Nat} (ha : a ∈ ckCells) :
    (0x15D ≤ a ∧ a < 0x1F0) ∨ a ∈ rsTailTbl := by
  simp only [ckCells, List.mem_append, List.mem_range'_1, List.mem_cons, List.not_mem_nil,
    or_false, rngLo, rngHi, scCnt2] at ha
  simp only [rsTailTbl, List.mem_cons, List.not_mem_nil, or_false, rngLo, rngHi, scCnt2]
  omega

/-- Each cell has an image position of its own, which holds all of it. -/
theorem ckCells_imgGet {a : Nat} (ha : a ∈ ckCells) :
    ∃ p < imgTotal, ∀ m, imgGet m p = m.rd a := by
  rcases mem_ckCells ha with h | h
  · refine ⟨a - 0x15D, by unfold imgTotal; omega, fun m => ?_⟩
    unfold imgGet imgS1
    rw [if_pos (by omega), Nat.add_sub_cancel' h.1]
  · obtain ⟨i, hi, rfl⟩ := List.mem_iff_getElem.mp h
    have hi' : i < 12 := by simpa [rsTailTbl] using hi
    refine ⟨imgS3 + i, by unfold imgS3 imgTotal; omega, fun m => ?_⟩
    obtain ⟨haddr, hw⟩ := imgAddr_tail i
    rw [imgGet_eq, haddr, hw, List.getD_eq_getElem _ _ hi]
    rfl

theorem ckCells_imgCell {a : Nat} (ha : a ∈ ckCells) : imgCell a := by
  rcases mem_ckCells ha with h | h
  · exact Or.inl h
  · exact Or.inr (Or.inr (Or.inr h))

/-- After the whole image, in any order, the guest's sum is the host's at the push; END
    leaves it so. -/
theorem lsCksum_applied {h g : Mach} {order : List (List Byte)}
    (hord : ∀ f ∈ order, f ∈ chunkFrames h) (hall : ∀ f ∈ chunkFrames h, f ∈ order)
    (hhold : g.rd resyncHold ≠ 0) (hz : NoSpare h) (hz' : NoSpare g) :
    lsCksum (order.foldl applyState g) = lsCksum h ∧
      lsCksum (rsRebase (order.foldl applyState g)) = lsCksum h := by
  obtain ⟨hw, -⟩ := foldl_applyState order hord hhold
  have himg := ((state_image_round_trip h g).2.2.2.2 order hord hall hhold).1
  have hspare : ∀ a, a = rsSpare0 ∨ a = rsSpare1 → ¬ (dlCell a ∨ frameCell a) := by
    intro a ha
    unfold dlCell frameCell
    rcases ha with rfl | rfl
    · decide
    · decide
  have hz'' : NoSpare (order.foldl applyState g) :=
    ⟨(hw.keep _ (hspare _ (Or.inl rfl))).trans hz'.1,
      (hw.keep _ (hspare _ (Or.inr rfl))).trans hz'.2⟩
  have hsame : lsCksum (order.foldl applyState g) = lsCksum h :=
    lsCksum_congr hz hz'' (fun a ha => himg a (ckCells_imgCell ha))
  refine ⟨hsame, (lsCksum_congr hz'' ⟨?_, ?_⟩ (fun a ha => ?_)).trans hsame⟩
  · rw [(does_rsRebase _).keep _ (by decide), hz''.1]
  · rw [(does_rsRebase _).keep _ (by decide), hz''.2]
  · exact (does_rsRebase _).keep _ (fun hc => not_imgCell_of_rebase hc (ckCells_imgCell ha))

/-- Both checksums are functions of the cells of `ckCells`, a change of any one of them
    changes both, and the state image carries each, so that a console that has applied a
    whole image has the sum of the pushing one. -/
theorem checksum_coverage (m : Mach) (hz : NoSpare m) :
    (∀ m', NoSpare m' → (∀ a ∈ ckCells, m'.rd a = m.rd a) →
      lsCksum m' = lsCksum m ∧ ringSum m' = ringSum m) ∧
    (∀ m', NoSpare m' → ∀ a ∈ ckCells, m'.rd a ≠ m.rd a →
      (∀ b ∈ ckCells, b ≠ a → m'.rd b = m.rd b) →
      lsCksum m' ≠ lsCksum m ∧ ringSum m' ≠ ringSum m) ∧
    (∀ a ∈ ckCells, ∃ p < imgTotal, ∀ m', imgGet m' p = m'.rd a) ∧
    (rsPush m).tx = m.tx ++ beginFrame (word (m.rd tickLo) (m.rd tickHi) + 16) ++
      (chunkFrames m).flatten ++ endFrame ∧
    ∀ (g : Mach) (order : List (List Byte)), NoSpare g → g.rd resyncHold ≠ 0 →
      (∀ f ∈ order, f ∈ chunkFrames m) → (∀ f ∈ chunkFrames m, f ∈ order) →
      lsCksum (order.foldl applyState g) = lsCksum m ∧
        lsCksum (rsRebase (order.foldl applyState g)) = lsCksum m := by
  refine ⟨fun m' hz' h => ⟨lsCksum_congr hz hz' h, ringSum_congr h⟩, ?_,
    fun a ha => ckCells_imgGet ha, tx_rsPush m, ?_⟩
  · intro m' hz' a ha hne hrest
    exact ⟨lsCksum_ne hz hz' ha hne hrest, ringSum_ne ha hne hrest⟩
  · intro g order hzg hhold hord hall
    exact lsCksum_applied hord hall hhold hz hzg

/-- The score cell $0170 moved by one. -/
theorem checksum_coverage_score :
    lsCksum (Mach.zero.st 0x170 1) ≠ lsCksum Mach.zero := by
  refine ((checksum_coverage Mach.zero ⟨rfl, rfl⟩).2.1 _ ⟨rfl, rfl⟩ 0x170 (by decide) (by decide)
    ?_).1
  intro b _ hb
  exact Mach.rd_st_ne _ _ hb

end IntvBasketball.Console
