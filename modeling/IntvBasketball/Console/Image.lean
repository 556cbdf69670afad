/-
  The state image of a resync (src/netcode/resync.asm: RS_TAILTBL, IMG_GET, IMG_PUT).

  The image is 767 bytes at positions 0..766, in four segments:

    0..146    $015D-$01EF   byte cells
    147..626  $0200-$02EF   BACKTAB, words as low/high byte pairs
    627..754  $031D-$035C   object table, words as low/high byte pairs
    755..766  RS_TAILTBL    byte cells reached through a table

  `imgGet` reads one position and `imgPut` writes one; they are separate code and
  are kept apart here. `imgGet_imgPut` is the law that ties them: a write is read
  back at its own position and at no other, including the other half of the same
  word. `imgGet_ext`: memories with equal images agree on every image cell.
-/
import Mathlib.Data.List.GetD
import Mathlib.Data.List.Nodup
import IntvBasketball.Console.Ram

namespace IntvBasketball.Console

def imgS1 : Nat := 147
def imgS2 : Nat := 627
def imgS3 : Nat := 755
def imgTotal : Nat := 767
def rsChunk : Nat := 96

attribute [simp] imgS1 imgS2 imgS3 imgTotal rsChunk

/-- RS_TAILTBL: RNG_LO/HI, SC_CNT2-9, GAME_TBL_LO/HI. -/
def rsTailTbl : List Nat :=
  [rngLo, rngHi,
   scCnt2, scCnt2 + 1, scCnt2 + 2, scCnt2 + 3,
   scCnt2 + 4, scCnt2 + 5, scCnt2 + 6, scCnt2 + 7,
   gameTblLo, gameTblHi]

/-- The word branch of IMG_GET: the low or the high byte of a cell. -/
def imgGetW (w odd : Nat) : Nat := if odd = 0 then w % 256 else w / 256 % 256

/-- IMG_GET: the image byte at position `r1`. -/
def imgGet (m : Mach) (r1 : Nat) : Nat :=
  if r1 < imgS1 then m.rd (0x15D + r1)
  else if r1 < imgS2 then imgGetW (m.rd (0x200 + (r1 - imgS1) / 2)) ((r1 - imgS1) % 2)
  else if r1 < imgS3 then imgGetW (m.rd (0x31D + (r1 - imgS2) / 2)) ((r1 - imgS2) % 2)
  else m.rd (rsTailTbl.getD (r1 - imgS3) 0)

/-- The word branch of IMG_PUT: read-modify-write of the low or the high byte. -/
def imgPutW (m : Mach) (r4 odd : Nat) : Mach :=
  if odd = 0 then m.st r4 (m.rd r4 / 256 * 256 + m.rd rsTmp)
  else m.st r4 (m.rd r4 % 256 + m.rd rsTmp * 256)

/-- IMG_PUT: write byte `r0` to image position `r1`. -/
def imgPut (m : Mach) (r0 r1 : Nat) : Mach :=
  let m := m.st rsTmp r0
  if r1 < imgS1 then m.st (0x15D + r1) (m.rd rsTmp)
  else if r1 < imgS2 then imgPutW m (0x200 + (r1 - imgS1) / 2) ((r1 - imgS1) % 2)
  else if r1 < imgS3 then imgPutW m (0x31D + (r1 - imgS2) / 2) ((r1 - imgS2) % 2)
  else m.st (rsTailTbl.getD (r1 - imgS3) 0) (m.rd rsTmp)

/-! ## Image cells -/

/-- The cells the image covers. -/
def imgCell (a : Nat) : Prop :=
  (0x15D ≤ a ∧ a < 0x1F0) ∨ (0x200 ≤ a ∧ a < 0x2F0) ∨ (0x31D ≤ a ∧ a < 0x35D) ∨ a ∈ rsTailTbl

instance (a : Nat) : Decidable (imgCell a) := by unfold imgCell; infer_instance

/-- The cell that holds position `p`. -/
def imgAddr (p : Nat) : Nat :=
  if p < imgS1 then 0x15D + p
  else if p < imgS2 then 0x200 + (p - imgS1) / 2
  else if p < imgS3 then 0x31D + (p - imgS2) / 2
  else rsTailTbl.getD (p - imgS3) 0

theorem tail_mem {i : Nat} (h : i < 12) : rsTailTbl.getD i 0 ∈ rsTailTbl := by
  rw [List.getD_eq_getElem _ _ (by simpa [rsTailTbl] using h)]
  exact List.getElem_mem _

theorem tail_inj {i j : Nat} (hi : i < 12) (hj : j < 12)
    (h : rsTailTbl.getD i 0 = rsTailTbl.getD j 0) : i = j := by
  have hnd : rsTailTbl.Nodup := by decide
  rw [List.getD_eq_getElem _ _ (by simpa [rsTailTbl] using hi),
    List.getD_eq_getElem _ _ (by simpa [rsTailTbl] using hj)] at h
  exact (List.Nodup.getElem_inj_iff hnd).mp h

theorem tail_cart {a : Nat} (h : a ∈ rsTailTbl) : 0x80C0 ≤ a ∧ a < 0x8200 := by
  simp only [rsTailTbl, List.mem_cons, List.not_mem_nil, or_false] at h
  simp only [rngLo, rngHi, scCnt2, gameTblLo, gameTblHi] at h
  omega

theorem imgAddr_cell {p : Nat} (h : p < imgTotal) : imgCell (imgAddr p) := by
  unfold imgAddr
  split_ifs <;> simp only [imgS1, imgS2, imgS3, imgTotal] at *
  · exact Or.inl (by omega)
  · exact Or.inr (Or.inl (by omega))
  · exact Or.inr (Or.inr (Or.inl (by omega)))
  · exact Or.inr (Or.inr (Or.inr (tail_mem (by omega))))

theorem imgAddr_ne {p a : Nat} (h : p < imgTotal) (ha : ¬ imgCell a) : imgAddr p ≠ a := by
  rintro rfl
  exact ha (imgAddr_cell h)

theorem imgCell_lt_of_mem {a : Nat} (h : imgCell a) : a < 0x35D ∨ (0x80C0 ≤ a ∧ a < 0x8200) := by
  rcases h with h | h | h | h
  · exact Or.inl (by omega)
  · exact Or.inl (by omega)
  · exact Or.inl (by omega)
  · exact Or.inr (tail_cart h)

/-- IMG_GET depends on the one cell that holds the position. -/
theorem imgGet_congr {m m' : Mach} {p : Nat} (h : m'.rd (imgAddr p) = m.rd (imgAddr p)) :
    imgGet m' p = imgGet m p := by
  unfold imgAddr at h
  unfold imgGet
  split_ifs at h ⊢ <;> simp only [h]

/-- Stores outside the image leave it as it was. -/
theorem imgGet_of_does {S : Nat → Prop} {tx : List Byte} {ev : List Ev} {m m' : Mach}
    (h : Mach.Does S tx ev m m')
    (hS : ∀ a, S a → ¬ imgCell a) {p : Nat} (hp : p < imgTotal) : imgGet m' p = imgGet m p :=
  imgGet_congr (h.keep _ (fun hs => hS _ hs (imgAddr_cell hp)))

theorem imgGetW_lt (w odd : Nat) : imgGetW w odd < 256 := by
  unfold imgGetW
  split <;> exact Nat.mod_lt _ (by omega)

theorem imgGet_lt (m : Mach) {p : Nat} (h : p < imgTotal) : imgGet m p < 256 := by
  unfold imgGet
  split_ifs <;> simp only [imgS1, imgS2, imgS3, imgTotal] at *
  · rw [← cellMod_scratch (a := 0x15D + p) (by omega) (by omega)]
    exact m.rd_lt _
  · exact imgGetW_lt _ _
  · exact imgGetW_lt _ _
  · have := tail_cart (tail_mem (i := p - 755) (by omega))
    exact m.rd_lt_cart (by omega)

/-! ## The law of IMG_PUT and IMG_GET -/

theorem imgAddr_ne_rsTmp {p : Nat} (h : p < imgTotal) : imgAddr p ≠ rsTmp :=
  imgAddr_ne h (by decide)

/-- IMG_PUT touches the cell of its position and RS_TMP. -/
theorem within_imgPut (m : Mach) (v : Nat) (p : Nat) :
    Mach.Within (fun a => a = imgAddr p ∨ a = rsTmp) m (imgPut m v p) := by
  have h0 : Mach.Within (fun a => a = imgAddr p ∨ a = rsTmp) m (m.st rsTmp v) :=
    (Mach.Does.refl _ m).st v (Or.inr rfl)
  unfold imgPut imgPutW imgAddr
  unfold imgAddr at h0
  split_ifs at h0 ⊢ <;> exact h0.st _ (Or.inl rfl)

/-- Which part of its cell a position is. -/
inductive Half where
  | whole | lo | hi
deriving DecidableEq

namespace Half

/-- The byte of a cell value. -/
def get : Half → Nat → Nat
  | whole, w => w
  | lo, w => w % 256
  | hi, w => w / 256 % 256

/-- A cell value with that byte replaced. -/
def put : Half → Nat → Nat → Nat
  | whole, _, v => v
  | lo, w, v => w / 256 * 256 + v
  | hi, w, v => w % 256 + v * 256

theorem get_put (h : Half) (w : Nat) {v : Nat} (hv : v < 256) : h.get (h.put w v) = v := by
  cases h <;> simp only [get, put]
  · omega
  · omega

theorem get_put_ne {h h' : Half} (w : Nat) {v : Nat} (hv : v < 256) (hh : h' ≠ h)
    (hw : h ≠ whole) (hw' : h' ≠ whole) : h'.get (h.put w v) = h'.get w := by
  cases h <;> cases h' <;> simp only [get, put, ne_eq, not_true_eq_false] at *
  · omega
  · omega

end Half

/-- The part of its cell that position `p` is. -/
def imgHalf (p : Nat) : Half :=
  if p < imgS1 then .whole
  else if p < imgS2 then (if (p - imgS1) % 2 = 0 then .lo else .hi)
  else if p < imgS3 then (if (p - imgS2) % 2 = 0 then .lo else .hi)
  else .whole

theorem imgGet_eq (m : Mach) (p : Nat) : imgGet m p = (imgHalf p).get (m.rd (imgAddr p)) := by
  unfold imgGet imgGetW imgHalf imgAddr
  split_ifs <;> rfl

/-- A byte cell holds one position; a word cell holds two, one of each half. -/
theorem imgAddr_eq {p q : Nat} (hp : p < imgTotal) (hq : q < imgTotal)
    (h : imgAddr q = imgAddr p) :
    q = p ∨ (imgHalf q ≠ imgHalf p ∧ imgHalf p ≠ .whole ∧ imgHalf q ≠ .whole) := by
  have hpt : imgS3 ≤ p → 0x80C0 ≤ rsTailTbl.getD (p - imgS3) 0 := fun h3 =>
    (tail_cart (tail_mem (by simp only [imgS3, imgTotal] at *; omega))).1
  have hqt : imgS3 ≤ q → 0x80C0 ≤ rsTailTbl.getD (q - imgS3) 0 := fun h3 =>
    (tail_cart (tail_mem (by simp only [imgS3, imgTotal] at *; omega))).1
  have htail : imgS3 ≤ p → imgS3 ≤ q →
      rsTailTbl.getD (q - imgS3) 0 = rsTailTbl.getD (p - imgS3) 0 → q = p := by
    intro h3 h4 ht
    simp only [imgS3, imgTotal] at *
    have := tail_inj (by omega) (by omega) ht
    omega
  unfold imgAddr at h
  unfold imgHalf
  split_ifs at h ⊢ <;> simp only [imgS1, imgS2, imgS3, imgTotal] at *
  all_goals first
    | exact Or.inl (by omega)
    | exact Or.inr ⟨by decide, by decide, by decide⟩

theorem rd_imgPut (m : Mach) {v p : Nat} (hp : p < imgTotal) (hv : v < 256) :
    (imgPut m v p).rd (imgAddr p) = (imgHalf p).put (m.rd (imgAddr p)) v := by
  have htmp : (m.st rsTmp v).rd rsTmp = v := by
    rw [Mach.rd_st_self, cellMod_cart (by decide), Nat.mod_eq_of_lt hv]
  have hold := Mach.rd_st_ne m v (imgAddr_ne_rsTmp hp)
  have hlt := m.rd_lt_word (imgAddr p)
  unfold imgPut imgPutW imgHalf
  unfold imgAddr at hold hlt ⊢
  split_ifs at hold hlt ⊢ <;>
    simp only [Mach.rd_st_self, htmp, hold, Half.put, imgS1, imgS2, imgS3, imgTotal] at *
  · rw [cellMod_scratch (by omega) (by omega), Nat.mod_eq_of_lt hv]
  · rw [cellMod_system (by omega) (by omega), Nat.mod_eq_of_lt (by omega)]
  · rw [cellMod_system (by omega) (by omega), Nat.mod_eq_of_lt (by omega)]
  · rw [cellMod_system (by omega) (by omega), Nat.mod_eq_of_lt (by omega)]
  · rw [cellMod_system (by omega) (by omega), Nat.mod_eq_of_lt (by omega)]
  · have := (tail_cart (tail_mem (i := p - 755) (by omega))).1
    rw [cellMod_cart (by omega), Nat.mod_eq_of_lt hv]

/-- A byte put at `p` is got back at `p`, and every other position keeps its byte. -/
theorem imgGet_imgPut (m : Mach) {v p q : Nat} (hv : v < 256) (hp : p < imgTotal)
    (hq : q < imgTotal) : imgGet (imgPut m v p) q = if q = p then v else imgGet m q := by
  by_cases hqp : q = p
  · subst hqp
    rw [if_pos rfl, imgGet_eq, rd_imgPut m hp hv, Half.get_put _ _ hv]
  · rw [if_neg hqp]
    by_cases ha : imgAddr q = imgAddr p
    · obtain ⟨h1, h2, h3⟩ := (imgAddr_eq hp hq ha).resolve_left hqp
      rw [imgGet_eq, imgGet_eq, ha, rd_imgPut m hp hv, Half.get_put_ne _ hv h1 h2 h3]
    · refine imgGet_congr ((within_imgPut m v p).keep _ ?_)
      have := imgAddr_ne_rsTmp hq
      tauto

theorem imgAddr_scratch {i : Nat} (h : i < imgS1) :
    imgAddr i = 0x15D + i ∧ imgHalf i = .whole := by
  simp only [imgAddr, imgHalf, h, ↓reduceIte, and_self]

theorem imgAddr_backtab {i : Nat} (h : i < 480) :
    imgAddr (imgS1 + i) = 0x200 + i / 2 ∧
      imgHalf (imgS1 + i) = if i % 2 = 0 then .lo else .hi := by
  have h1 : ¬ imgS1 + i < imgS1 := by omega
  have h2 : imgS1 + i < imgS2 := by unfold imgS1 imgS2; omega
  simp only [imgAddr, imgHalf, h1, h2, ↓reduceIte, Nat.add_sub_cancel_left, and_self]

theorem imgAddr_object {i : Nat} (h : i < 128) :
    imgAddr (imgS2 + i) = 0x31D + i / 2 ∧
      imgHalf (imgS2 + i) = if i % 2 = 0 then .lo else .hi := by
  have h1 : ¬ imgS2 + i < imgS1 := by unfold imgS1 imgS2; omega
  have h2 : ¬ imgS2 + i < imgS2 := by omega
  have h3 : imgS2 + i < imgS3 := by unfold imgS2 imgS3; omega
  simp only [imgAddr, imgHalf, h1, h2, h3, ↓reduceIte, Nat.add_sub_cancel_left, and_self]

theorem imgAddr_tail (i : Nat) :
    imgAddr (imgS3 + i) = rsTailTbl.getD i 0 ∧ imgHalf (imgS3 + i) = .whole := by
  have h1 : ¬ imgS3 + i < imgS1 := by unfold imgS1 imgS3; omega
  have h2 : ¬ imgS3 + i < imgS2 := by unfold imgS2 imgS3; omega
  have h3 : ¬ imgS3 + i < imgS3 := by omega
  simp only [imgAddr, imgHalf, h1, h2, h3, ↓reduceIte, Nat.add_sub_cancel_left, and_self]

/-- Every image cell is one byte position or a low and a high one. -/
theorem imgCell_pos {a : Nat} (h : imgCell a) :
    (∃ p < imgTotal, imgAddr p = a ∧ imgHalf p = .whole) ∨
    (∃ p < imgTotal, imgAddr p = a ∧ imgHalf p = .lo) ∧
      ∃ p < imgTotal, imgAddr p = a ∧ imgHalf p = .hi := by
  rcases h with h | h | h | h
  · obtain ⟨ha, hw⟩ := imgAddr_scratch (i := a - 0x15D) (by unfold imgS1; omega)
    exact Or.inl ⟨a - 0x15D, by unfold imgTotal; omega, by omega, hw⟩
  · obtain ⟨ha, hw⟩ := imgAddr_backtab (i := (a - 0x200) * 2) (by omega)
    obtain ⟨ha', hw'⟩ := imgAddr_backtab (i := (a - 0x200) * 2 + 1) (by omega)
    rw [if_pos (by omega)] at hw
    rw [if_neg (by omega)] at hw'
    exact Or.inr ⟨⟨_, by unfold imgS1 imgTotal; omega, by omega, hw⟩,
      ⟨_, by unfold imgS1 imgTotal; omega, by omega, hw'⟩⟩
  · obtain ⟨ha, hw⟩ := imgAddr_object (i := (a - 0x31D) * 2) (by omega)
    obtain ⟨ha', hw'⟩ := imgAddr_object (i := (a - 0x31D) * 2 + 1) (by omega)
    rw [if_pos (by omega)] at hw
    rw [if_neg (by omega)] at hw'
    exact Or.inr ⟨⟨_, by unfold imgS2 imgTotal; omega, by omega, hw⟩,
      ⟨_, by unfold imgS2 imgTotal; omega, by omega, hw'⟩⟩
  · obtain ⟨i, hi, rfl⟩ := List.mem_iff_getElem.mp h
    have hi' : i < 12 := by simpa [rsTailTbl] using hi
    obtain ⟨ha, hw⟩ := imgAddr_tail i
    rw [List.getD_eq_getElem _ _ hi] at ha
    exact Or.inl ⟨imgS3 + i, by unfold imgS3 imgTotal; omega, ha, hw⟩

/-- Equal images are equal on every image cell. -/
theorem imgGet_ext {m m' : Mach} (h : ∀ p < imgTotal, imgGet m' p = imgGet m p) {a : Nat}
    (ha : imgCell a) : m'.rd a = m.rd a := by
  rcases imgCell_pos ha with ⟨p, hp, rfl, hw⟩ | ⟨⟨p, hp, hpa, hpl⟩, q, hq, hqa, hqh⟩
  · have := h p hp
    rwa [imgGet_eq, imgGet_eq, hw] at this
  · have hlo := h p hp
    have hhi := h q hq
    rw [imgGet_eq, imgGet_eq, hpa, hpl] at hlo
    rw [imgGet_eq, imgGet_eq, hqa, hqh] at hhi
    simp only [Half.get] at hlo hhi
    have := m.rd_lt_word a
    have := m'.rd_lt_word a
    omega

end IntvBasketball.Console
