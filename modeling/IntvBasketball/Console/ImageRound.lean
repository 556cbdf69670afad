/-
  The state image makes the trip from host to guest (RS_PUSH's chunk loop against
  RS_ON_STATE).

  * `does_psChunks`: the chunk loop sends `chunksFrom`, whose position ranges lie end
    to end (`positions_chunksFrom`).
  * `imgGet_rsDl`: the byte loop of the applier writes exactly the positions of the
    frame; `imgGet_applyState` is that for a whole chunk frame.
  * `state_image_round_trip`: in any order and with any repetition, applying every
    chunk makes the image cells equal and leaves all others alone.
-/
import IntvBasketball.Console.Resync

namespace IntvBasketball.Console

open Mach (Within Does)

/-! ## What the chunk loop sends -/

/-- Bytes of a frame as the mailbox cells hold them. -/
def wire (vs : List Nat) : List Byte := vs.map UInt8.ofNat

/-- A STATE data frame: `n` image bytes from position `p`. -/
def chunkFrame (m : Mach) (p n : Nat) : List Byte :=
  wire ([n + 3, ftState, p, p / 256] ++ (List.range' p n).map (imgGet m))

/-- The chunks from position `p` on; the first argument bounds their number. -/
def chunksFrom (m : Mach) : Nat → Nat → List (List Byte)
  | 0, _ => []
  | fuel + 1, p =>
    if p = imgTotal then []
    else
      let n := min (imgTotal - p) rsChunk
      chunkFrame m p n :: chunksFrom m fuel (p + n)

/-- The data frames of a push. -/
def chunkFrames (m : Mach) : List (List Byte) := chunksFrom m (imgTotal + 1) 0

/-- The image positions a data frame says it carries. -/
def framePositions (f : List Byte) : List Nat :=
  List.range' (word ((f.getD 2 0).toNat) ((f.getD 3 0).toNat)) ((f.getD 0 0).toNat - 3)

/-- What the chunk loop stores to. -/
def pushCell (a : Nat) : Prop := a = rsTmp2 ∨ a = lsTmpb ∨ a = rsPosLo ∨ a = rsPosHi

instance (a : Nat) : Decidable (pushCell a) := by unfold pushCell; infer_instance

theorem not_imgCell_of_push {a : Nat} (h : pushCell a) : ¬ imgCell a := by
  rcases h with rfl | rfl | rfl | rfl <;> decide

theorem within_psBytes (m : Mach) (r2 n : Nat) : Within pushCell m (psBytes m r2 n).1 := by
  induction n generalizing m r2 with
  | zero => exact Does.refl _ m
  | succ n ih => exact ((Does.refl _ m).st n (Or.inl rfl)).within (ih _ _)

/-- The payload loop reads the image. -/
theorem psBytes_bytes (m : Mach) {r2 n : Nat} (h : r2 + n ≤ imgTotal) :
    (psBytes m r2 n).2 = (List.range' r2 n).map (imgGet m) := by
  induction n generalizing m r2 with
  | zero => rfl
  | succ n ih =>
    rw [psBytes, List.range'_succ, List.map_cons, ih _ (by omega)]
    refine congrArg (imgGet m r2 :: ·) (List.map_congr_left (fun q hq => ?_))
    rw [List.mem_range'_1] at hq
    exact imgGet_of_does ((Does.refl pushCell m).st n (Or.inl rfl))
      (fun _ => not_imgCell_of_push) (by omega)

theorem chunkFrame_congr {m m' : Mach} (h : ∀ q < imgTotal, imgGet m' q = imgGet m q)
    {p n : Nat} (hp : p + n ≤ imgTotal) : chunkFrame m' p n = chunkFrame m p n := by
  have hmap : (List.range' p n).map (imgGet m') = (List.range' p n).map (imgGet m) := by
    refine List.map_congr_left (fun q hq => h q ?_)
    rw [List.mem_range'_1] at hq
    omega
  rw [chunkFrame, hmap, chunkFrame]

theorem chunksFrom_congr {m m' : Mach} (h : ∀ q < imgTotal, imgGet m' q = imgGet m q)
    (fuel : Nat) {p : Nat} (hp : p ≤ imgTotal) : chunksFrom m' fuel p = chunksFrom m fuel p := by
  induction fuel generalizing p with
  | zero => rfl
  | succ fuel ih =>
    simp only [chunksFrom]
    split
    · rfl
    · rw [chunkFrame_congr h (by omega), ih (by omega)]

theorem imgGet_of_push {tx : List Byte} {m m' : Mach} (h : Does pushCell tx [] m m') :
    ∀ q < imgTotal, imgGet m' q = imgGet m q :=
  fun _ hq => imgGet_of_does h (fun _ => not_imgCell_of_push) hq

theorem psRound_spec (m : Mach) {p n : Nat} (hn : n ≤ rsChunk) (hle : p + n ≤ imgTotal) :
    Does pushCell (chunkFrame m p n) [] m (psRound m p n) ∧
      word ((psRound m p n).rd rsPosLo) ((psRound m p n).rd rsPosHi) = p + n := by
  have h2 : Within pushCell m ((m.st rsTmp2 n).st lsTmpb n) :=
    ((Does.refl _ m).st n (Or.inl rfl)).st n (Or.inr (Or.inl rfl))
  have hcnt : ((m.st rsTmp2 n).st lsTmpb n).rd rsTmp2 = n := by
    rw [Mach.rd_st_ne _ _ (by decide), Mach.rd_st_self, cellMod_cart (by decide)]
    unfold rsChunk at hn
    omega
  refine ⟨?_, ?_⟩
  · have h3 := ((h2.within (within_psBytes _ p n)).st (p + n) (a := rsPosLo) (by decide)).st
      ((p + n) / 256) (a := rsPosHi) (by decide)
    have h4 := h3.netWrite ([n + 3, ftState, p, p / 256] ++
      (psBytes ((m.st rsTmp2 n).st lsTmpb n) p n).2)
    rw [psBytes_bytes _ hle, List.nil_append] at h4
    rw [← chunkFrame_congr (imgGet_of_push h2) hle]
    simp only [psRound, hcnt]
    rw [psBytes_bytes _ hle]
    exact h4
  · simp only [psRound, Mach.rd_netWrite, Mach.rd_st_self]
    rw [Mach.rd_st_ne _ _ (by decide), Mach.rd_st_self, cellMod_cart (by decide),
      cellMod_cart (by decide)]
    unfold imgTotal at hle
    unfold word
    omega

/-- The chunk loop sends the chunks from the position in RS_POS_LO/HI on. -/
theorem does_psChunks (fuel : Nat) (m : Mach) {p : Nat} (hp : p ≤ imgTotal)
    (hpos : word (m.rd rsPosLo) (m.rd rsPosHi) = p) :
    Does pushCell (chunksFrom m fuel p).flatten [] m (psChunks fuel m) := by
  induction fuel generalizing m p with
  | zero => exact Does.refl _ m
  | succ fuel ih =>
    have hr1 : sub16 imgTotal p = imgTotal - p := by
      unfold sub16 imgTotal at *
      omega
    simp only [psChunks, chunksFrom, hpos, hr1]
    by_cases hend : p = imgTotal
    · rw [if_pos hend, if_pos (by omega)]
      exact Does.refl _ m
    · rw [if_neg hend, if_neg (by omega)]
      have hn : (if imgTotal - p < rsChunk then imgTotal - p else rsChunk) =
          min (imgTotal - p) rsChunk := by
        split <;> omega
      rw [hn]
      obtain ⟨hw, hpos'⟩ := psRound_spec m (p := p) (n := min (imgTotal - p) rsChunk)
        (by omega) (by omega)
      have hw' := ih (psRound m p (min (imgTotal - p) rsChunk)) (by omega) hpos'
      rw [chunksFrom_congr (imgGet_of_push hw) fuel (by omega)] at hw'
      exact hw.trans hw'

theorem framePositions_chunkFrame (m : Mach) {p n : Nat} (hn : n ≤ rsChunk)
    (hp : p < imgTotal) : framePositions (chunkFrame m p n) = List.range' p n := by
  simp only [rsChunk, imgTotal] at hn hp
  simp only [framePositions, chunkFrame, wire, List.cons_append, List.map_cons, List.getD_cons_zero,
    List.getD_cons_succ, UInt8.toNat_ofNat', word]
  congr 1 <;> omega

/-- The chunks lie end to end. -/
theorem positions_chunksFrom (m : Mach) (fuel : Nat) {p : Nat} (hp : p ≤ imgTotal)
    (hf : imgTotal - p ≤ fuel) :
    (chunksFrom m fuel p).flatMap framePositions = List.range' p (imgTotal - p) := by
  induction fuel generalizing p with
  | zero =>
    have : imgTotal - p = 0 := by omega
    rw [this]
    rfl
  | succ fuel ih =>
    simp only [chunksFrom]
    split
    · next h => rw [h, Nat.sub_self]; rfl
    · next h =>
      have hc : 0 < rsChunk := by decide
      rw [List.flatMap_cons, framePositions_chunkFrame m (by omega) (by omega),
        ih (by omega) (by omega), List.range'_append_1]
      congr 1
      omega

theorem mem_chunksFrom (m : Mach) {fuel p : Nat} {f : List Byte} (hp : p ≤ imgTotal)
    (h : f ∈ chunksFrom m fuel p) :
    ∃ q n, f = chunkFrame m q n ∧ 0 < n ∧ n ≤ rsChunk ∧ q + n ≤ imgTotal := by
  induction fuel generalizing p with
  | zero => exact absurd h List.not_mem_nil
  | succ fuel ih =>
    simp only [chunksFrom] at h
    split at h
    · exact absurd h List.not_mem_nil
    · next hne =>
      have hc : 0 < rsChunk := by decide
      rcases List.mem_cons.mp h with rfl | h
      · exact ⟨p, _, rfl, by omega, by omega, by omega⟩
      · exact ih (by omega) h

/-- The BEGIN and END frames of a push. -/
def beginFrame (r : Nat) : List Byte := wire [5, ftState, 0, 0xFF, r, r / 256]
def endFrame : List Byte := wire [3, ftState, 1, 0xFF]

theorem not_imgCell_of_hold {a : Nat} (h : holdCell a) : ¬ imgCell a := by
  rcases h with h | h
  · simp only [List.mem_cons, List.not_mem_nil, or_false] at h
    rcases h with rfl | rfl | rfl <;> decide
  · intro hc
    have := imgCell_lt_of_mem hc
    simp only [area, ownCrc] at h
    omega

theorem ofNat_mod (n : Nat) : UInt8.ofNat (n % 256) = UInt8.ofNat n := by
  rw [← UInt8.toNat_inj, UInt8.toNat_ofNat', UInt8.toNat_ofNat', Nat.mod_mod]

/-- BEGIN carries R = tick + 16, which RS_R_LO/HI then hold. -/
theorem psBegin_spec (m : Mach) :
    Does (fun a => a = rsRLo ∨ a = rsRHi) (beginFrame (word (m.rd tickLo) (m.rd tickHi) + 16))
      [.push ((word (m.rd tickLo) (m.rd tickHi) + 16) % 65536)] m (psBegin m) ∧
    word ((psBegin m).rd rsRLo) ((psBegin m).rd rsRHi) =
      (word (m.rd tickLo) (m.rd tickHi) + 16) % 65536 := by
  unfold psBegin
  generalize word (m.rd tickLo) (m.rd tickHi) + 16 = r
  have hlo : ((m.st rsRLo r).st rsRHi (r / 256)).rd rsRLo = r % 256 := by
    rw [Mach.rd_st_ne _ _ (by decide), Mach.rd_st_self, cellMod_cart (by decide)]
  have hhi : ((m.st rsRLo r).st rsRHi (r / 256)).rd rsRHi = r / 256 % 256 := by
    rw [Mach.rd_st_self, cellMod_cart (by decide)]
  have hword : word (r % 256) (r / 256 % 256) = r % 65536 := by unfold word; omega
  have hbegin : beginFrame r =
      [5, ftState, 0, 0xFF, r % 256, r / 256 % 256].map UInt8.ofNat := by
    simp only [beginFrame, wire, List.map_cons, ofNat_mod]
  have hst : Within (fun a => a = rsRLo ∨ a = rsRHi) m ((m.st rsRLo r).st rsRHi (r / 256)) :=
    ((Does.refl _ m).st _ (Or.inl rfl)).st _ (Or.inr rfl)
  simp only [Mach.rd_log, Mach.rd_netWrite, hlo, hhi, hword, hbegin, and_true]
  exact (hst.log (.push (r % 65536))).netWrite [5, ftState, 0, 0xFF, r % 256, r / 256 % 256]

theorem does_psImage (m : Mach) : Does pushCell (chunkFrames m).flatten [] m (psImage m) := by
  have h0 : Within pushCell m ((m.st rsPosLo 0).st rsPosHi 0) :=
    ((Does.refl _ m).st _ (by decide)).st _ (by decide)
  have hw := does_psChunks (imgTotal + 1) ((m.st rsPosLo 0).st rsPosHi 0) (p := 0)
    (Nat.zero_le _) (by
      rw [Mach.rd_st_self, Mach.rd_st_ne _ _ (show rsPosLo ≠ rsPosHi by decide), Mach.rd_st_self,
        Nat.zero_mod, Nat.zero_mod, word])
  rw [chunksFrom_congr (imgGet_of_push h0) _ (Nat.zero_le _)] at hw
  exact h0.trans hw

/-- RS_PUSH sends BEGIN with R = tick + 16, the chunks of the host's image, and END. -/
theorem tx_rsPush (m : Mach) :
    (rsPush m).tx = m.tx ++ beginFrame (word (m.rd tickLo) (m.rd tickHi) + 16) ++
      (chunkFrames m).flatten ++ endFrame := by
  have hhold := does_rsEnterHold m
  obtain ⟨hbegin, -⟩ := psBegin_spec (rsEnterHold m)
  have himg : ∀ q < imgTotal, imgGet (psBegin (rsEnterHold m)) q = imgGet m q := by
    intro q hq
    rw [imgGet_of_does hbegin (by rintro a (rfl | rfl) <;> decide) hq,
      imgGet_of_does hhold (fun _ => not_imgCell_of_hold) hq]
  rw [rsPush, (does_rsRebase _).tx_eq, Mach.tx_netWrite, (does_psImage _).tx_eq, hbegin.tx_eq,
    hhold.tx_eq, hhold.keep tickLo (by decide), hhold.keep tickHi (by decide), chunkFrames,
    chunksFrom_congr himg _ (Nat.zero_le _), List.append_nil, List.append_nil]
  rfl

/-! ## What the applier does with it -/

/-- RS_ON_STATE's scratch cells. -/
def dlScratch (a : Nat) : Prop := a ∈ [rsTmp2, rsPosLo, rsPosHi, rsTmp]

instance (a : Nat) : Decidable (dlScratch a) := by unfold dlScratch; infer_instance

theorem not_imgCell_of_scratch {a : Nat} (h : dlScratch a) : ¬ imgCell a := by
  simp only [dlScratch, List.mem_cons, List.not_mem_nil, or_false] at h
  rcases h with rfl | rfl | rfl | rfl <;> decide

/-- Cells the byte loop touches. -/
def dlCell (a : Nat) : Prop := imgCell a ∨ dlScratch a

theorem rsNext_spec (m : Mach) (h : word (m.rd rsPosLo) (m.rd rsPosHi) < 0xFFFF) :
    Within dlScratch m (rsNext m) ∧
    word ((rsNext m).rd rsPosLo) ((rsNext m).rd rsPosHi) =
      word (m.rd rsPosLo) (m.rd rsPosHi) + 1 := by
  have hlo := m.rd_lt_cart (a := rsPosLo) (by decide)
  have hhi := m.rd_lt_cart (a := rsPosHi) (by decide)
  unfold rsNext
  unfold word at *
  simp only
  split
  · next hc =>
    refine ⟨((Does.refl _ m).st _ (by decide)).st _ (by decide), ?_⟩
    rw [Mach.rd_st_self, Mach.rd_st_ne _ _ (show rsPosLo ≠ rsPosHi by decide), Mach.rd_st_self,
      Mach.rd_st_ne _ _ (by decide), cellMod_cart (by decide), cellMod_cart (by decide)]
    omega
  · next hc =>
    refine ⟨(Does.refl _ m).st _ (by decide), ?_⟩
    rw [Mach.rd_st_self, Mach.rd_st_ne _ _ (by decide), cellMod_cart (by decide)]
    omega

/-- The byte loop writes the bytes at `r` to the positions from `p` on, and touches
    nothing but image and scratch. -/
theorem rsDl_spec (m : Mach) {r n p : Nat} (hpos : word (m.rd rsPosLo) (m.rd rsPosHi) = p)
    (hp : p + n ≤ imgTotal) (hr : frmBuf ≤ r) (hr' : r + n ≤ frmBuf + 256) :
    Within dlCell m (rsDl m r n) ∧
    ∀ q < imgTotal, imgGet (rsDl m r n) q =
      if p ≤ q ∧ q < p + n then m.rd (r + (q - p)) else imgGet m q := by
  induction n generalizing m r p with
  | zero => exact ⟨Does.refl _ m, fun q _ => by rw [if_neg (by omega)]; rfl⟩
  | succ n ih =>
    rw [rsDl, hpos]
    have hput := within_imgPut m (m.rd r) p
    have hlaw : ∀ q < imgTotal, imgGet (imgPut m (m.rd r) p) q =
        if q = p then m.rd r else imgGet m q := fun q hq =>
      imgGet_imgPut m (m.rd_lt_cart (Nat.le_trans (by decide) hr)) (by omega) hq
    have hp0 : p < imgTotal := by omega
    have hkeep : ∀ a, ¬ imgCell a → a ≠ rsTmp → (imgPut m (m.rd r) p).rd a = m.rd a :=
      fun a ha ht => hput.keep a (by rintro (h | h); exacts [imgAddr_ne hp0 ha h.symm, ht h])
    have hput' : Within dlCell m (imgPut m (m.rd r) p) := hput.mono (by
      rintro a (rfl | rfl)
      · exact Or.inl (imgAddr_cell hp0)
      · exact Or.inr (by decide))
    generalize imgPut m (m.rd r) p = m1 at hput hlaw hkeep hput' ⊢
    have hpos1 : word (m1.rd rsPosLo) (m1.rd rsPosHi) = p := by
      rw [hkeep _ (by decide) (by decide), hkeep _ (by decide) (by decide), hpos]
    obtain ⟨hnw, hnpos⟩ := rsNext_spec m1 (by rw [hpos1]; unfold imgTotal at hp0; omega)
    rw [hpos1] at hnpos
    have hw2 : Within dlScratch m1 ((rsNext m1).st rsTmp2 n) := hnw.st _ (by decide)
    obtain ⟨hw3, hget⟩ := ih ((rsNext m1).st rsTmp2 n) (r := r + 1) (p := p + 1)
      (by rw [Mach.rd_st_ne _ _ (by decide), Mach.rd_st_ne _ _ (by decide), hnpos]) (by omega)
      (by omega) (by omega)
    refine ⟨(hput'.trans (hw2.mono (fun _ h => Or.inr h))).trans hw3, fun q hq => ?_⟩
    have hfrm : ∀ a, frmBuf ≤ a → a < frmBuf + 256 → ((rsNext m1).st rsTmp2 n).rd a = m.rd a := by
      intro a h1 h2
      simp only [frmBuf] at h1 h2
      rw [hw2.keep a ?_, hkeep a ?_ ?_]
      · intro hc
        have := imgCell_lt_of_mem hc
        omega
      · simp only [rsTmp]; omega
      · intro hc
        simp only [dlScratch, List.mem_cons, List.not_mem_nil, or_false, rsTmp2, rsPosLo, rsPosHi,
          rsTmp] at hc
        omega
    rw [hget q hq, imgGet_of_does hw2 (fun _ => not_imgCell_of_scratch) hq, hlaw q hq]
    by_cases hqp : q = p
    · rw [if_neg (by omega), if_pos hqp, if_pos (by omega), hqp, Nat.sub_self, Nat.add_zero]
    · by_cases hin : p ≤ q ∧ q < p + (n + 1)
      · rw [if_pos (by omega), if_pos hin, hfrm _ (by omega) (by omega)]
        congr 1
        omega
      · rw [if_neg (by omega), if_neg hqp, if_neg hin]

/-- Cells RS_ON_STATE stores to. -/
def stateCell (a : Nat) : Prop := dlCell a ∨ rebaseCell a ∨ a ∈ [rsRLo, rsRHi, diagRej]

theorem within_reject (m : Mach) : Within stateCell m (diagBump m diagRej) :=
  (within_diagBump m diagRej).mono (by rintro a rfl; exact Or.inr (Or.inr (by decide)))

theorem does_rsCtl (m : Mach) : ∃ ev, Does stateCell [] ev m (rsCtl m) ∧
    (ev = [] ∨ ev = [.hold] ∨ ∃ r, ev = [.rebase r]) := by
  unfold rsCtl
  split_ifs
  · exact ⟨_, within_reject m, Or.inl rfl⟩
  · have h := (does_rsEnterHold m).mono (T := stateCell) (fun a h => Or.inr (Or.inl (Or.inl h)))
    have hr : ∀ a, a ∈ [rsRLo, rsRHi] → stateCell a := fun a h => Or.inr (Or.inr (by
      simp only [List.mem_cons, List.not_mem_nil, or_false] at *
      tauto))
    exact ⟨_, (h.st _ (hr _ (by decide))).st _ (hr _ (by decide)), Or.inr (Or.inl rfl)⟩
  · exact ⟨_, Does.refl _ m, Or.inl rfl⟩
  · exact ⟨_, Does.refl _ m, Or.inl rfl⟩
  · exact ⟨_, (does_rsRebase m).mono (fun a h => Or.inr (Or.inl h)), Or.inr (Or.inr ⟨_, rfl⟩)⟩

/-- RS_ON_STATE on any frame at all: the bounds test keeps IMG_PUT inside the image. -/
theorem does_rsOnState (m : Mach) : ∃ ev, Does stateCell [] ev m (rsOnState m) ∧
    (ev = [] ∨ ev = [.hold] ∨ ∃ r, ev = [.rebase r]) := by
  unfold rsOnState
  have hscr : ∀ a, dlScratch a → stateCell a := fun a h => Or.inl (Or.inr h)
  have htmp : Within stateCell m (m.st rsTmp2 (m.rd frmBuf - 3)) :=
    (Does.refl _ m).st _ (hscr _ (by decide))
  have hlen := m.rd_lt_cart (a := frmBuf) (by decide)
  dsimp only
  split_ifs with h1 h2 h3 h4 h5 h6
  · exact ⟨_, within_reject m, Or.inl rfl⟩
  · exact does_rsCtl m
  · exact ⟨_, within_reject m, Or.inl rfl⟩
  · exact ⟨_, within_reject m, Or.inl rfl⟩
  · exact ⟨_, htmp.within (within_reject _), Or.inl rfl⟩
  · exact ⟨_, htmp.within (within_reject _), Or.inl rfl⟩
  · have hn0 : m.rd frmBuf - 3 ≤ 252 := by omega
    generalize m.rd frmBuf - 3 = n at *
    generalize hm1 : m.st rsTmp2 n = m1 at *
    have hlo := m1.rd_lt_cart (a := frmBuf + 2) (by decide)
    have hhi := m1.rd_lt_cart (a := frmBuf + 3) (by decide)
    have hw : Within stateCell m ((m1.st rsPosLo (m1.rd (frmBuf + 2))).st rsPosHi
        (m1.rd (frmBuf + 3))) :=
      (htmp.st _ (hscr _ (by decide))).st _ (hscr _ (by decide))
    have hpos : word (((m1.st rsPosLo (m1.rd (frmBuf + 2))).st rsPosHi (m1.rd (frmBuf + 3))).rd
        rsPosLo) (((m1.st rsPosLo (m1.rd (frmBuf + 2))).st rsPosHi (m1.rd (frmBuf + 3))).rd rsPosHi)
        = word (m1.rd (frmBuf + 2)) (m1.rd (frmBuf + 3)) := by
      rw [Mach.rd_st_self, Mach.rd_st_ne _ _ (show rsPosLo ≠ rsPosHi by decide), Mach.rd_st_self,
        cellMod_cart (by decide), cellMod_cart (by decide), Nat.mod_eq_of_lt hlo,
        Nat.mod_eq_of_lt hhi]
    have hn : ((m1.st rsPosLo (m1.rd (frmBuf + 2))).st rsPosHi (m1.rd (frmBuf + 3))).rd rsTmp2 =
        n % 256 := by
      rw [Mach.rd_st_ne _ _ (by decide), Mach.rd_st_ne _ _ (by decide), ← hm1, Mach.rd_st_self,
        cellMod_cart (by decide)]
    have hmod := Nat.mod_le n 256
    obtain ⟨hdl, -⟩ := rsDl_spec _ hpos (r := frmBuf + 4) (n := n % 256) (by omega) (by omega)
      (by simp only [imgTotal] at h6; omega)
    rw [hn]
    exact ⟨_, hw.within (hdl.mono (fun _ => Or.inl)), Or.inl rfl⟩

/-- A data frame as SES_PUMP leaves it in FRMBUF, handed to RS_ON_STATE. -/
def applyState (m : Mach) (f : List Byte) : Mach :=
  rsOnState (m.stList frmBuf (f.map UInt8.toNat))

/-- Cells of FRMBUF a frame can occupy. -/
def frameCell (a : Nat) : Prop := area frmBuf 100 a

/-- FRMBUF holds the frame `f`. -/
def Holds (m : Mach) (f : List Byte) : Prop :=
  ∀ i (hi : i < f.length), m.rd (frmBuf + i) = (f[i]).toNat

theorem holds_stList (m : Mach) (f : List Byte) :
    Holds (m.stList frmBuf (f.map UInt8.toNat)) f := by
  intro i hi
  rw [Mach.rd_stList _ _ (by simpa using hi), List.getElem_map,
    cellMod_cart (by simp only [frmBuf]; omega), Nat.mod_eq_of_lt (f[i]).toNat_lt]

theorem length_chunkFrame (h : Mach) (p n : Nat) : (chunkFrame h p n).length = n + 4 := by
  simp [chunkFrame, wire]

theorem holds_chunkFrame {h m : Mach} {p n : Nat} (hn : n ≤ rsChunk) (hp : p + n ≤ imgTotal)
    (hf : Holds m (chunkFrame h p n)) :
    m.rd frmBuf = n + 3 ∧ m.rd (frmBuf + 2) = p % 256 ∧ m.rd (frmBuf + 3) = p / 256 ∧
      ∀ i < n, m.rd (frmBuf + 4 + i) = imgGet h (p + i) := by
  have hlen := length_chunkFrame h p n
  simp only [rsChunk, imgTotal] at hn hp
  refine ⟨?_, ?_, ?_, fun i hi => ?_⟩
  · rw [← Nat.add_zero frmBuf, hf 0 (by omega)]
    simp only [chunkFrame, wire, List.cons_append, List.map_cons, List.getElem_cons_zero,
      UInt8.toNat_ofNat']
    omega
  · rw [hf 2 (by omega)]
    simp [chunkFrame, wire]
  · rw [hf 3 (by omega)]
    simp only [chunkFrame, wire, List.cons_append, List.map_cons, List.getElem_cons_succ,
      List.getElem_cons_zero, UInt8.toNat_ofNat']
    omega
  · have hg : imgGet h (p + i) < 256 := imgGet_lt h (by simp only [imgTotal]; omega)
    rw [Nat.add_assoc, Nat.add_comm 4 i, hf (i + 4) (by omega)]
    simp only [chunkFrame, wire, List.cons_append, List.map_cons, List.getElem_cons_succ,
      List.nil_append, List.getElem_map, List.getElem_range', UInt8.toNat_ofNat', Nat.one_mul]
    exact Nat.mod_eq_of_lt hg

/-- RS_ON_STATE on a chunk inside an open hold is the byte loop. -/
theorem rsOnState_eq_rsDl {h m : Mach} {p n : Nat} (hn : 0 < n) (hn' : n ≤ rsChunk)
    (hp : p + n ≤ imgTotal) (hhold : m.rd resyncHold ≠ 0) (hf : Holds m (chunkFrame h p n)) :
    rsOnState m =
      rsDl (((m.st rsTmp2 n).st rsPosLo (p % 256)).st rsPosHi (p / 256)) (frmBuf + 4) n := by
  obtain ⟨h0, h2, h3, -⟩ := holds_chunkFrame hn' hp hf
  simp only [rsChunk, imgTotal] at hn' hp
  have hm2 : (m.st rsTmp2 n).rd (frmBuf + 2) = p % 256 := by rw [Mach.rd_st_ne _ _ (by decide), h2]
  have hm3 : (m.st rsTmp2 n).rd (frmBuf + 3) = p / 256 := by
    rw [Mach.rd_st_ne _ _ (by decide), h3]
  have hcnt : ∀ v w, (((m.st rsTmp2 n).st rsPosLo v).st rsPosHi w).rd rsTmp2 = n := fun v w => by
    rw [Mach.rd_st_ne _ _ (by decide), Mach.rd_st_ne _ _ (by decide), Mach.rd_st_self,
      cellMod_cart (by decide)]
    omega
  unfold rsOnState word
  simp only [h0, h3, Nat.add_sub_cancel, hm2, hm3]
  rw [if_neg (by omega), if_neg (by omega), if_neg hhold, if_neg (by omega), if_neg (by omega),
    if_neg (by simp only [imgTotal]; omega), hcnt]

theorem rsOnState_chunk {h m : Mach} {p n : Nat} (hn : 0 < n) (hn' : n ≤ rsChunk)
    (hp : p + n ≤ imgTotal) (hhold : m.rd resyncHold ≠ 0) (hf : Holds m (chunkFrame h p n)) :
    Within dlCell m (rsOnState m) ∧
    ∀ q < imgTotal, imgGet (rsOnState m) q =
      if p ≤ q ∧ q < p + n then imgGet h q else imgGet m q := by
  rw [rsOnState_eq_rsDl hn hn' hp hhold hf]
  obtain ⟨-, -, -, hd⟩ := holds_chunkFrame hn' hp hf
  have hw : Within dlScratch m (((m.st rsTmp2 n).st rsPosLo (p % 256)).st rsPosHi (p / 256)) :=
    (((Does.refl _ m).st _ (by decide)).st _ (by decide)).st _ (by decide)
  have hpos : word ((((m.st rsTmp2 n).st rsPosLo (p % 256)).st rsPosHi (p / 256)).rd rsPosLo)
      ((((m.st rsTmp2 n).st rsPosLo (p % 256)).st rsPosHi (p / 256)).rd rsPosHi) = p := by
    rw [Mach.rd_st_self, Mach.rd_st_ne _ _ (show rsPosLo ≠ rsPosHi by decide), Mach.rd_st_self,
      cellMod_cart (by decide), cellMod_cart (by decide)]
    simp only [imgTotal] at hp
    unfold word
    omega
  generalize ((m.st rsTmp2 n).st rsPosLo (p % 256)).st rsPosHi (p / 256) = m1 at hw hpos ⊢
  obtain ⟨hw', hget⟩ := rsDl_spec m1 hpos hp (r := frmBuf + 4) (by omega)
    (by simp only [rsChunk] at hn'; omega)
  refine ⟨(hw.mono (fun _ h => Or.inr h)).trans hw', fun q hq => ?_⟩
  rw [hget q hq, imgGet_of_does hw (fun _ => not_imgCell_of_scratch) hq]
  by_cases hin : p ≤ q ∧ q < p + n
  · have hcell : ¬ dlScratch (frmBuf + 4 + (q - p)) := by
      simp only [dlScratch, List.mem_cons, List.not_mem_nil, or_false, rsTmp2, rsPosLo, rsPosHi,
        rsTmp, frmBuf]
      omega
    rw [if_pos hin, if_pos hin, hw.keep _ hcell, hd _ (by omega)]
    congr 1
    omega
  · rw [if_neg hin, if_neg hin]

/-- One chunk frame: its positions take the host's bytes, the rest of the image stays. -/
theorem applyState_spec {h g : Mach} {f : List Byte} (hf : f ∈ chunkFrames h)
    (hhold : g.rd resyncHold ≠ 0) :
    Within (fun a => dlCell a ∨ frameCell a) g (applyState g f) ∧
    ∀ q < imgTotal, imgGet (applyState g f) q =
      if q ∈ framePositions f then imgGet h q else imgGet g q := by
  obtain ⟨p, n, rfl, hn, hn', hp⟩ := mem_chunksFrom h (Nat.zero_le _) hf
  have hload : Within frameCell g (g.stList frmBuf ((chunkFrame h p n).map UInt8.toNat)) := by
    refine (Does.refl _ g).stList (fun b h1 h2 => ⟨h1, ?_⟩)
    rw [List.length_map, length_chunkFrame] at h2
    simp only [rsChunk] at hn'
    omega
  have hnimg : ∀ a, frameCell a → ¬ imgCell a := by
    intro a ha hc
    have := imgCell_lt_of_mem hc
    simp only [frameCell, area, frmBuf] at ha
    omega
  obtain ⟨hw, hget⟩ := rsOnState_chunk hn hn' hp
    (by rwa [hload.keep _ (by unfold frameCell; decide)]) (holds_stList g (chunkFrame h p n))
  refine ⟨(hload.mono (fun _ h => Or.inr h)).trans (hw.mono (fun _ h => Or.inl h)), ?_⟩
  intro q hq
  rw [applyState, hget q hq, imgGet_of_does hload hnimg hq,
    framePositions_chunkFrame h hn' (by omega)]
  simp only [List.mem_range'_1]

/-- Chunks applied one after the other: a position covered by one of them holds the
    host's byte, any other is as it was. -/
theorem foldl_applyState {h g : Mach} (order : List (List Byte))
    (hord : ∀ f ∈ order, f ∈ chunkFrames h) (hhold : g.rd resyncHold ≠ 0) :
    Within (fun a => dlCell a ∨ frameCell a) g (order.foldl applyState g) ∧
    ∀ q < imgTotal, imgGet (order.foldl applyState g) q =
      if ∃ f ∈ order, q ∈ framePositions f then imgGet h q else imgGet g q := by
  induction order generalizing g with
  | nil => exact ⟨Does.refl _ g, fun q _ => by simp⟩
  | cons f fs ih =>
    obtain ⟨hw, hget⟩ := applyState_spec (hord f List.mem_cons_self) hhold
    have hhold' : (applyState g f).rd resyncHold ≠ 0 := by
      rwa [hw.keep _ (by unfold dlCell frameCell; decide)]
    obtain ⟨hw', hget'⟩ := ih (fun f' hf' => hord f' (List.mem_cons_of_mem _ hf')) hhold'
    refine ⟨hw.trans hw', fun q hq => ?_⟩
    rw [List.foldl_cons, hget' q hq, hget q hq]
    by_cases h1 : ∃ f' ∈ fs, q ∈ framePositions f'
    · obtain ⟨f', hf', hq'⟩ := h1
      rw [if_pos ⟨f', hf', hq'⟩, if_pos ⟨f', List.mem_cons_of_mem _ hf', hq'⟩]
    · rw [if_neg h1]
      by_cases h2 : q ∈ framePositions f
      · rw [if_pos h2, if_pos ⟨f, List.mem_cons_self, h2⟩]
      · rw [if_neg h2, if_neg]
        rintro ⟨f', hf', hq'⟩
        rcases List.mem_cons.mp hf' with rfl | hf'
        · exact h2 hq'
        · exact h1 ⟨f', hf', hq'⟩

/-- The positions of all chunks, in order. -/
theorem positions_chunkFrames (m : Mach) :
    (chunkFrames m).flatMap framePositions = List.range' 0 imgTotal :=
  positions_chunksFrom m _ (Nat.zero_le _) (by omega)

theorem mem_positions (m : Mach) (p : Nat) :
    (∃ f ∈ chunkFrames m, p ∈ framePositions f) ↔ p < imgTotal := by
  rw [← List.mem_flatMap, positions_chunkFrames, List.mem_range'_1]
  omega

/-- The image of `h` arrives at `g`: the chunks of a push tile the positions 0..766, and
    applied in any order, each at least once, they make every image cell equal. -/
theorem state_image_round_trip (h g : Mach) :
    (rsPush h).tx = h.tx ++ beginFrame (word (h.rd tickLo) (h.rd tickHi) + 16) ++
      (chunkFrames h).flatten ++ endFrame ∧
    (chunkFrames h).Pairwise (fun f f' => List.Disjoint (framePositions f) (framePositions f')) ∧
    (∀ p, (∃ f ∈ chunkFrames h, p ∈ framePositions f) ↔ p ≤ 766) ∧
    (∀ m : Mach, ∀ f ∈ chunkFrames h, m.rd resyncHold ≠ 0 → Holds m f →
      ∀ a, ¬ imgCell a → ¬ dlScratch a → (rsOnState m).rd a = m.rd a) ∧
    ∀ order : List (List Byte), (∀ f ∈ order, f ∈ chunkFrames h) →
      (∀ f ∈ chunkFrames h, f ∈ order) → g.rd resyncHold ≠ 0 →
      (∀ a, imgCell a → (order.foldl applyState g).rd a = h.rd a) ∧
      (∀ a, ¬ imgCell a → ¬ dlScratch a → ¬ frameCell a →
        (order.foldl applyState g).rd a = g.rd a) := by
  refine ⟨tx_rsPush h, ?_, fun p => ?_, ?_, ?_⟩
  · have hnd : ((chunkFrames h).flatMap framePositions).Nodup := by
      rw [positions_chunkFrames]
      exact List.nodup_range'
    exact (List.nodup_flatMap.mp hnd).2
  · rw [mem_positions, imgTotal]
    omega
  · intro m f hf hhold hm a ha hs
    obtain ⟨p, n, rfl, hn, hn', hp⟩ := mem_chunksFrom h (Nat.zero_le _) hf
    exact (rsOnState_chunk hn hn' hp hhold hm).1.keep a (by rintro (h | h); exacts [ha h, hs h])
  · intro order hord hall hhold
    obtain ⟨hw, hget⟩ := foldl_applyState order hord hhold
    refine ⟨fun a ha => imgGet_ext (fun q hq => ?_) ha, fun a ha hs hb => hw.keep a ?_⟩
    · obtain ⟨f, hf, hq'⟩ := (mem_positions h q).mpr hq
      rw [hget q hq, if_pos ⟨f, hall f hf, hq'⟩]
    · rintro ((h | h) | h)
      exacts [ha h, hs h, hb h]

/-- A host word $1234 in BACKTAB reaches a guest that holds $FFFF there. -/
theorem state_image_round_trip_word :
    ((chunkFrames (Mach.zero.st 0x0200 0x1234)).foldl applyState
      ((Mach.zero.st 0x0200 0xFFFF).st resyncHold 1)).rd 0x0200 = 0x1234 :=
  ((state_image_round_trip (Mach.zero.st 0x0200 0x1234)
    ((Mach.zero.st 0x0200 0xFFFF).st resyncHold 1)).2.2.2.2 _ (fun _ hf => hf) (fun _ hf => hf)
    (by decide)).1 0x0200 (by decide)

end IntvBasketball.Console
