/-
  The gate against what has been heard.

  `Tracks`: the tick counter and the watermarks are the history's, modulo 2^16. A watermark
  starts at d - 1 and then stands for the last INPUT taken, and no tick runs more than one
  ahead of it. START stores d - 1 in the low byte and 0 in the high byte, so this needs
  d ≥ 1 (`armsGate_iff`); RS_REBASE computes its R + d - 1 in 16 bits.

  The gate looks at watermarks only: an INPUT that is lost leaves a hole below the next
  one, and the tick runs on what the ring held. `NextOnly` leaves such frames out, and then
  the gate has no gaps (`gate_no_gaps`).
-/
import IntvBasketball.Console.Heard

namespace IntvBasketball.Console

open Mach (Within Does Only Mute)
open Relation (ReflTransGen)
open Lib (ahead)

/-! ## INPUT -/

/-- The watermark of a seat. -/
def seatMark (m : Mach) (r : Nat) : Nat :=
  word (m.rd (seatWm + 2 * r)) (m.rd (seatWm + 2 * r + 1))

/-- The INPUT in FRMBUF, if it is for tick `t`. -/
def takenOf (m : Mach) (t : Nat) : Taken :=
  ⟨m.rd (frmBuf + 2), t, m.rd (frmBuf + 5), m.rd (frmBuf + 6)⟩

/-- The tick it carries, 16 bits of it. -/
def frameTick (m : Mach) : Nat := word (m.rd (frmBuf + 3)) (m.rd (frmBuf + 4))

theorem frameTick_lt (m : Mach) : frameTick m < 65536 := by
  have hlo := m.rd_lt_cart (a := frmBuf + 3) (by decide)
  have hhi := m.rd_lt_cart (a := frmBuf + 4) (by decide)
  unfold frameTick word
  omega

/-- The tests of `@@of_input`. -/
theorem inputAccepted_tests (m : Mach) : inputAccepted m = true ↔ 6 ≤ m.rd frmBuf ∧
    m.rd (frmBuf + 2) ≠ m.rd netSeat ∧ m.rd (frmBuf + 2) < m.rd netCount ∧
    neg16 (sub16 (frameTick m) (seatMark m (m.rd (frmBuf + 2)))) = false ∧
    sub16 (frameTick m) (seatMark m (m.rd (frmBuf + 2))) ≠ 0 := by
  simp only [inputAccepted, Bool.and_eq_true, decide_eq_true_eq, Bool.not_eq_true', and_assoc]
  rfl

/-- How far the INPUT is ahead of the history. -/
def lead (m : Mach) (h : Heard) : Nat := ahead 65536 (h.wm (m.rd (frmBuf + 2))) (frameTick m)

section
variable {p m m' : Mach} {h : Heard}

/-- The tests of `@@of_input`, on the history. -/
theorem inputAccepted_iff (hp : FourSeats p) (hin : InMatch p m)
    (hwm : ∀ r < 4, seatMark m r = h.wm r % 65536) :
    inputAccepted m = true ↔ 6 ≤ m.rd frmBuf ∧ m.rd (frmBuf + 2) ≠ p.rd (frmBuf + 2) ∧
      m.rd (frmBuf + 2) < p.rd (frmBuf + 3) ∧ 0 < lead m h ∧ lead m h < 32768 := by
  have hlead : m.rd (frmBuf + 2) < 4 →
      sub16 (frameTick m) (seatMark m (m.rd (frmBuf + 2))) = lead m h := by
    intro hr
    rw [hwm _ hr]
    rfl
  rw [inputAccepted_tests, hin.seat, hin.count]
  constructor
  · intro ⟨h1, h2, h3, h4, h5⟩
    rw [hlead (Nat.lt_of_lt_of_le h3 hp.count)] at h4 h5
    simp only [neg16, decide_eq_false_iff_not] at h4
    exact ⟨h1, h2, h3, by omega, by omega⟩
  · intro ⟨h1, h2, h3, h4, h5⟩
    rw [hlead (Nat.lt_of_lt_of_le h3 hp.count)]
    refine ⟨h1, h2, h3, ?_, by omega⟩
    simp only [neg16, decide_eq_false_iff_not]
    omega

/-- The history takes the INPUTs the console takes. -/
theorem input_history (hp : FourSeats p) (hin : InMatch p m) (ht : m.rd (frmBuf + 1) = ftInput)
    (hwm : ∀ r < 4, seatMark m r = h.wm r % 65536) :
    h.input (p.rd (frmBuf + 2)) (p.rd (frmBuf + 3)) (frameBytes m) =
      if inputAccepted m = true then h.take (takenOf m (h.wm (m.rd (frmBuf + 2)) + lead m h))
      else h := by
  have hacc := inputAccepted_iff hp hin hwm
  by_cases hlen : 6 ≤ m.rd frmBuf
  · rw [Heard.input, byteAt_frameBytes (by omega), byteAt_frameBytes (by omega),
      byteAt_frameBytes (by omega), byteAt_frameBytes (by omega), byteAt_frameBytes (by omega),
      byteAt_frameBytes (by omega), byteAt_frameBytes (by omega)]
    refine if_congr ?_ rfl rfl
    rw [hacc]
    exact ⟨fun hc => hc.2, fun hc => ⟨ht, hc⟩⟩
  · have hno : ¬ inputAccepted m = true := fun hc => hlen (hacc.mp hc).1
    rw [if_neg hno, Heard.input]
    refine if_neg (fun hc => hlen ?_)
    rw [← Nat.add_zero frmBuf, ← byteAt_frameBytes (Nat.zero_le _)]
    exact hc.2.1

/-- The cells of the rings a seat has for a tick. -/
def decCell (r t : Nat) : Nat := seatRing + r * 256 + t % 256
def kpCell (r t : Nat) : Nat := seatKp + r * 256 + t % 256

/-- The frame is none of them. -/
theorem frm_ne_dec (r t : Nat) {i : Nat} (hi : i < 256) : frmBuf + i ≠ decCell r t := by
  simp only [frmBuf, decCell, seatRing]
  omega

theorem frm_ne_kp (r t : Nat) {i : Nat} (hi : i < 256) : frmBuf + i ≠ kpCell r t := by
  simp only [frmBuf, kpCell, seatKp]
  omega

theorem frm_ne_wm {r : Nat} (hr : r < 4) (i : Nat) : frmBuf + i ≠ seatWm + 2 * r := by
  simp only [frmBuf, seatWm]
  omega

theorem frameTick_mod (m : Mach) : frameTick m % 256 = m.rd (frmBuf + 3) := by
  have hlo := m.rd_lt_cart (a := frmBuf + 3) (by decide)
  unfold frameTick word
  omega

/-- What an INPUT that is taken stores. -/
theorem ofInput_eq (hacc : inputAccepted m = true) (hr : m.rd (frmBuf + 2) < 4) :
    ofInput m = (((m.st (decCell (m.rd (frmBuf + 2)) (frameTick m)) (m.rd (frmBuf + 5))).st
      (kpCell (m.rd (frmBuf + 2)) (frameTick m)) (m.rd (frmBuf + 6))).st
      (seatWm + 2 * m.rd (frmBuf + 2)) (m.rd (frmBuf + 3))).st
      (seatWm + 2 * m.rd (frmBuf + 2) + 1) (m.rd (frmBuf + 4)) := by
  have hlo := m.rd_lt_cart (a := frmBuf + 3) (by decide)
  have hdec : inputAddr (m.rd (frmBuf + 2)) (m.rd (frmBuf + 3)) =
      decCell (m.rd (frmBuf + 2)) (frameTick m) := by
    rw [decCell, frameTick_mod, inputAddr, seatRing]
    omega
  have hkp : (decCell (m.rd (frmBuf + 2)) (frameTick m) + (seatKp - seatRing)) % 65536 =
      kpCell (m.rd (frmBuf + 2)) (frameTick m) := by
    rw [decCell, kpCell, frameTick_mod, seatRing, seatKp]
    omega
  unfold ofInput
  rw [if_neg (by simp [hacc])]
  dsimp only
  rw [hdec, hkp, Mach.rd_st_ne _ _ (frm_ne_wm hr 4), Mach.rd_st_ne _ _ (frm_ne_kp _ _ (by decide)),
    Mach.rd_st_ne _ _ (frm_ne_dec _ _ (by decide)), Mach.rd_st_ne _ _ (frm_ne_kp _ _ (by decide)),
    Mach.rd_st_ne _ _ (frm_ne_dec _ _ (by decide)), Mach.rd_st_ne _ _ (frm_ne_dec _ _ (by decide))]

theorem dec_ne_wm {r s t : Nat} (hs : s < 4) :
    decCell r t ≠ seatWm + 2 * s ∧ decCell r t ≠ seatWm + 2 * s + 1 := by
  simp only [decCell, seatRing, seatWm]
  omega

theorem kp_ne_wm {r s t : Nat} (hs : s < 4) :
    kpCell r t ≠ seatWm + 2 * s ∧ kpCell r t ≠ seatWm + 2 * s + 1 := by
  simp only [kpCell, seatKp, seatWm]
  omega

/-- The watermark becomes the tick of the frame. -/
theorem seatMark_ofInput (hacc : inputAccepted m = true) (hr : m.rd (frmBuf + 2) < 4) :
    seatMark (ofInput m) (m.rd (frmBuf + 2)) = frameTick m := by
  have hlo := m.rd_lt_cart (a := frmBuf + 3) (by decide)
  have hhi := m.rd_lt_cart (a := frmBuf + 4) (by decide)
  have hc : ∀ i, cellMod (seatWm + i) = 256 := fun i =>
    cellMod_cart (Nat.le_trans (by decide) (Nat.le_add_right _ _))
  rw [ofInput_eq hacc hr, seatMark, Mach.rd_st_self, Mach.rd_st_ne _ _ (by omega), Mach.rd_st_self,
    Nat.add_assoc, hc, hc, Nat.mod_eq_of_lt hlo, Nat.mod_eq_of_lt hhi, frameTick]

/-- The ring cells of that seat and tick become the frame's. -/
theorem cells_ofInput (hacc : inputAccepted m = true) (hr : m.rd (frmBuf + 2) < 4) :
    (ofInput m).rd (decCell (m.rd (frmBuf + 2)) (frameTick m)) = m.rd (frmBuf + 5) ∧
      (ofInput m).rd (kpCell (m.rd (frmBuf + 2)) (frameTick m)) = m.rd (frmBuf + 6) := by
  have hdec := m.rd_lt_cart (a := frmBuf + 5) (by decide)
  have hkp := m.rd_lt_cart (a := frmBuf + 6) (by decide)
  have hcd : cellMod (decCell (m.rd (frmBuf + 2)) (frameTick m)) = 256 := by
    refine cellMod_cart ?_
    simp only [decCell, seatRing]
    omega
  have hck : cellMod (kpCell (m.rd (frmBuf + 2)) (frameTick m)) = 256 := by
    refine cellMod_cart ?_
    simp only [kpCell, seatKp]
    omega
  have hne : decCell (m.rd (frmBuf + 2)) (frameTick m) ≠
      kpCell (m.rd (frmBuf + 2)) (frameTick m) := by
    simp only [decCell, kpCell, seatRing, seatKp]
    omega
  rw [ofInput_eq hacc hr]
  constructor
  · rw [Mach.rd_st_ne _ _ (dec_ne_wm hr).2, Mach.rd_st_ne _ _ (dec_ne_wm hr).1,
      Mach.rd_st_ne _ _ hne, Mach.rd_st_self, hcd, Nat.mod_eq_of_lt hdec]
  · rw [Mach.rd_st_ne _ _ (kp_ne_wm hr).2, Mach.rd_st_ne _ _ (kp_ne_wm hr).1, Mach.rd_st_self, hck,
      Nat.mod_eq_of_lt hkp]

/-- Every other cell is kept. -/
theorem ofInput_other (hr : m.rd (frmBuf + 2) < 4) {a : Nat}
    (ha : a ≠ decCell (m.rd (frmBuf + 2)) (frameTick m) ∧
      a ≠ kpCell (m.rd (frmBuf + 2)) (frameTick m) ∧ a ≠ seatWm + 2 * m.rd (frmBuf + 2) ∧
      a ≠ seatWm + 2 * m.rd (frmBuf + 2) + 1) : (ofInput m).rd a = m.rd a := by
  by_cases hacc : inputAccepted m = true
  · rw [ofInput_eq hacc hr, Mach.rd_st_ne _ _ ha.2.2.2, Mach.rd_st_ne _ _ ha.2.2.1,
      Mach.rd_st_ne _ _ ha.2.1, Mach.rd_st_ne _ _ ha.1]
  · rw [ofInput, if_pos (by simpa using hacc)]

/-! ## Watermarks and ticks -/

/-- The tick counter and the watermarks are the history's. -/
structure Tracks (p m : Mach) (h : Heard) : Prop where
  tick : lsTick m = h.ticks % 65536
  wm : ∀ r < 4, seatMark m r = h.wm r % 65536
  floor : ∀ r, p.rd (frmBuf + 6) ≤ h.wm r + 1
  last : ∀ r, h.wm r + 1 = p.rd (frmBuf + 6) ∨ ∃ i ∈ h.got, i.seat = r ∧ i.tick = h.wm r
  paced : ∀ r < p.rd (frmBuf + 3), r ≠ p.rd (frmBuf + 2) → h.ticks ≤ h.wm r + 1

/-- An open gate: every remote watermark has reached the tick. -/
theorem Tracks.reached (h' : Tracks p m h) (hp : FourSeats p) (hin : InMatch p m)
    (ho : lsOpen m = true) {r : Nat} (hr : r < p.rd (frmBuf + 3)) (hs : r ≠ p.rd (frmBuf + 2)) :
    h.ticks ≤ h.wm r := by
  have hpace := h'.paced r hr hs
  have hr4 : r < 4 := Nat.lt_of_lt_of_le hr hp.count
  have hslack : lsSlack m r = ahead 65536 h.ticks (h.wm r % 65536) := by
    rw [← h'.wm r hr4, lsSlack, h'.tick]
    rfl
  simp only [lsOpen, List.all_eq_true, List.mem_range, Bool.or_eq_true, decide_eq_true_eq] at ho
  have hgo := ho r (by rw [hin.count]; omega)
  rw [hin.seat] at hgo
  have hpos : neg16 (lsSlack m r) = false := by
    simpa using hgo.resolve_left hs
  by_contra hlt
  have hpred : h.ticks = h.wm r + 1 := by omega
  rw [hslack, hpred, Lib.ahead_pred (by decide)] at hpos
  simp [neg16] at hpos

theorem Tracks.congr (h' : Tracks p m h)
    (hk : ∀ a, a ∈ [tickLo, tickHi] ∨ area seatWm 8 a → m'.rd a = m.rd a) : Tracks p m' h where
  tick := by
    rw [lsTick, hk _ (Or.inl (by simp)), hk _ (Or.inl (by simp))]
    exact h'.tick
  wm r hr := by
    rw [seatMark, hk _ (Or.inr ⟨by omega, by omega⟩), hk _ (Or.inr ⟨by omega, by omega⟩)]
    exact h'.wm r hr
  floor := h'.floor
  last := h'.last
  paced := h'.paced

/-- An INPUT that is taken moves its watermark to its tick. -/
theorem Tracks.taken (h' : Tracks p m h) (hacc : inputAccepted m = true)
    (hr : m.rd (frmBuf + 2) < 4) :
    Tracks p (ofInput m) (h.take (takenOf m (h.wm (m.rd (frmBuf + 2)) + lead m h))) := by
  have hmark : (h.wm (m.rd (frmBuf + 2)) + lead m h) % 65536 = frameTick m := by
    rw [lead, Lib.add_ahead (by decide), Nat.mod_eq_of_lt (frameTick_lt m)]
  have hlo := m.rd_lt_cart (a := frmBuf + 3) (by decide)
  have hhi := m.rd_lt_cart (a := frmBuf + 4) (by decide)
  have hwm : ∀ r, (h.take (takenOf m (h.wm (m.rd (frmBuf + 2)) + lead m h))).wm r =
      if r = m.rd (frmBuf + 2) then h.wm (m.rd (frmBuf + 2)) + lead m h else h.wm r := by
    intro r
    simp only [Heard.take, takenOf, Function.update_apply]
  have hlow : ∀ a, a < seatRing → a ≠ seatWm + 2 * m.rd (frmBuf + 2) →
      a ≠ seatWm + 2 * m.rd (frmBuf + 2) + 1 → (ofInput m).rd a = m.rd a := by
    intro a ha h1 h2
    refine ofInput_other hr ⟨?_, ?_, h1, h2⟩
    · simp only [decCell]
      omega
    · simp only [kpCell, seatKp, seatRing] at *
      omega
  constructor
  · have hne : ∀ a ∈ [tickLo, tickHi], a < seatRing ∧ a < seatWm := by decide
    rw [lsTick, hlow tickLo (hne _ (by simp)).1 (by have := (hne tickLo (by simp)).2; omega)
      (by have := (hne tickLo (by simp)).2; omega), hlow tickHi (hne _ (by simp)).1
      (by have := (hne tickHi (by simp)).2; omega) (by have := (hne tickHi (by simp)).2; omega)]
    exact h'.tick
  · intro r hr4
    rw [hwm]
    split_ifs with he
    · rw [he, seatMark_ofInput hacc hr, hmark]
    · rw [← h'.wm r hr4, seatMark, hlow _ (by simp only [seatWm, seatRing]; omega) (by omega)
        (by omega), hlow _ (by simp only [seatWm, seatRing]; omega) (by omega) (by omega), seatMark]
  · intro r
    rw [hwm]
    have hf := h'.floor r
    split_ifs with he
    · subst he
      omega
    · exact hf
  · intro r
    rw [hwm]
    split_ifs with he
    · exact Or.inr ⟨_, List.mem_append_right _ List.mem_cons_self, he.symm, rfl⟩
    · refine (h'.last r).imp_right (fun hlast => ?_)
      obtain ⟨i, hi, hs⟩ := hlast
      exact ⟨i, List.mem_append_left _ hi, hs⟩
  · intro r hrn hrs
    rw [hwm]
    have hpace := h'.paced r hrn hrs
    split_ifs with he
    · subst he
      exact Nat.le_trans hpace (by omega)
    · exact hpace

theorem lawful_tracks {ok : Mach → Prop} (hok : ∀ {m}, ok m → ¬ IsStart m) (hp : FourSeats p) :
    Lawful p ok (Tracks p) where
  alone := hok
  congr hk h' := by
    refine h'.congr (fun a ha => hk a ?_)
    rcases ha with ha | ha
    · simp only [List.mem_cons, List.not_mem_nil, or_false] at ha
      exact Or.inl (by simp only [List.mem_cons, List.not_mem_nil, or_false]; tauto)
    · exact Or.inr (Or.inl ha)
  input {m h} hin _ ht h' := by
    rw [input_history hp hin ht h'.wm]
    have hlog : Tracks p (m.log (.frame (frameBytes m))) h := h'.congr (fun _ _ => rfl)
    split_ifs with hacc
    · have hr := ((inputAccepted_iff hp hin h'.wm).mp hacc).2.2.1
      exact hlog.taken (m := m.log _) hacc (Nat.lt_of_lt_of_le hr hp.count)
    · have hno : inputAccepted (m.log (.frame (frameBytes m))) ≠ true := hacc
      rwa [ofInput, if_pos (by simpa using hno)]
  tick {m m' h} hin ho htick hk h' := by
    have hwm : ∀ a, area seatWm 8 a → m'.rd a = m.rd a := by
      intro a ha
      refine hk a (Or.inr (Or.inl ha)) ?_ ?_
      · rintro rfl
        revert ha
        decide
      · rintro rfl
        revert ha
        decide
    refine ⟨?_, fun r hr => ?_, h'.floor, h'.last, fun r hr hs => ?_⟩
    · rw [htick, h'.tick, Nat.mod_add_mod]
    · rw [seatMark, hwm _ ⟨by omega, by omega⟩, hwm _ ⟨by omega, by omega⟩]
      exact h'.wm r hr
    · exact Nat.succ_le_succ (h'.reached hp hin ho hr hs)

theorem start_match (hp : FourSeats p) : InMatch p (sesOnframe p) ∧
    soFar p (sesOnframe p) = Heard.start (p.rd (frmBuf + 6)) := by
  have ha := armed_ofStart (m := p.log (.frame (frameBytes p))) hp.start.2
  have hev : (ofStart (p.log (.frame (frameBytes p)))).ev = p.ev ++ [.frame (frameBytes p)] := by
    rw [(within_ofStart _).ev_eq, List.append_nil, Mach.ev_log]
  rw [sesOnframe, sesDispatch_start (m := p.log _) hp.start.1]
  have hsince : since p (ofStart (p.log (.frame (frameBytes p)))) = [] := by
    rw [since, hev, List.drop_eq_nil_of_le]
    rw [List.length_append, List.length_singleton]
  refine ⟨⟨⟨[], hev⟩, ha.seat, ha.count, ha.delay⟩, ?_⟩
  rw [soFar, hsince]
  rfl

/-- START arms the gate, if there is a delay. -/
theorem tracks_start (hp : FourSeats p) (hd : 1 ≤ p.rd (frmBuf + 6)) :
    Follows p (Tracks p) (sesOnframe p) := by
  obtain ⟨hin, hso⟩ := start_match hp
  have ha := armed_ofStart (m := p.log (.frame (frameBytes p))) hp.start.2
  have hb := p.rd_lt_cart (a := frmBuf + 6) (by decide)
  refine ⟨hin, fun _ => ?_⟩
  rw [hso, sesOnframe, sesDispatch_start (m := p.log _) hp.start.1]
  refine ⟨?_, fun r hr => ?_, fun r => ?_, fun r => Or.inl ?_, fun r _ _ => Nat.zero_le _⟩
  · rw [lsTick, ha.tick.1, ha.tick.2]
    rfl
  · obtain ⟨hlo, hhi⟩ := ha.wm r hr
    rw [Mach.rd_log] at hlo
    rw [seatMark, hlo, hhi]
    simp only [word, Heard.start]
    omega
  · simp only [Heard.start]
    omega
  · simp only [Heard.start]
    omega

end

/-! ## The gate is armed -/

/-- RS_REBASE computes the watermark R + d - 1 in 16 bits, for every delay. -/
theorem seatMark_rsRebase (m : Mach) {r : Nat} (hr : r < 4) :
    (seatMark (rsRebase m) r + 1) % 65536 =
      (word (m.rd rsRLo) (m.rd rsRHi) + m.rd netDelay) % 65536 := by
  have hout : ∀ i, i = seatWm + 2 * r ∨ i = seatWm + 2 * r + 1 →
      i ∉ [resyncHold, rsToLo, rsToHi, lsWaitcLo, lsWaitcHi] ∧ ¬ area ownCrc 32 i := by
    intro i hi
    simp only [List.mem_cons, List.not_mem_nil, or_false, area, resyncHold, rsToLo, rsToHi,
      lsWaitcLo, lsWaitcHi, ownCrc, seatWm] at hi ⊢
    omega
  have hkeep : ∀ i, i = seatWm + 2 * r ∨ i = seatWm + 2 * r + 1 → (rsRebase m).rd i =
      (rbWm (lsRingInit (rbTick (nbRebaseHook (rsClampIsr (rsDisplayReset
        ((m.st rsPend 0).st rsPtmo 0))))))).rd i := by
    intro i hi
    rw [Mach.rd, rsRebase_eq]
    show (rbRelease (rbMiddle ((m.st rsPend 0).st rsPtmo 0))).rd i = _
    rw [(within_rbRelease_own _).keep i (hout i hi).1, rbMiddle,
      (within_rsClrCrc _).keep i (hout i hi).2]
  have hin : ∀ a ∈ [rsRLo, rsRHi, netDelay], (lsRingInit (rbTick (nbRebaseHook (rsClampIsr
      (rsDisplayReset ((m.st rsPend 0).st rsPtmo 0)))))).rd a = m.rd a := by
    intro a ha
    have hno : ∀ a ∈ [rsRLo, rsRHi, netDelay], ¬ rbMidCell a ∧ a ≠ rsPtmo ∧ a ≠ rsPend := by decide
    obtain ⟨h1, h2, h3⟩ := hno a ha
    rw [(within_rbHead _).keep a h1, Mach.rd_st_ne _ _ h2, Mach.rd_st_ne _ _ h3]
  rw [seatMark, hkeep _ (Or.inl rfl), hkeep _ (Or.inr rfl), rbWm]
  rw [hin _ (by simp), hin _ (by simp), hin _ (by simp)]
  obtain ⟨hlo, hhi⟩ := rd_wmLoop
    (sub16 ((word (m.rd rsRLo) (m.rd rsRHi) + m.rd netDelay) % 65536) 1)
    (sub16 ((word (m.rd rsRLo) (m.rd rsRHi) + m.rd netDelay) % 65536) 1 / 256)
    (lsRingInit (rbTick (nbRebaseHook (rsClampIsr
      (rsDisplayReset ((m.st rsPend 0).st rsPtmo 0)))))) (a := seatWm) hr (by decide)
  rw [hlo, hhi]
  generalize word (m.rd rsRLo) (m.rd rsRHi) + m.rd netDelay = w
  simp only [word, sub16]
  omega

/-- No other START. -/
def NoStart (m : Mach) : Prop := ¬ IsStart m

/-- Cells of the matched screen, of SES_HOLD and of SES_EXIT. -/
def menuCell (a : Nat) : Prop := screenArea a ∨ a ∈ [sesTmrLo, 0x32, isrPhase]

/-- From the START in FRMBUF of `p` to the first pass: the rest of its pump, the matched
    screen and the pumps of SES_HOLD. -/
inductive Began (ok : Mach → Prop) (p : Mach) : Mach → Prop where
  | start {m : Mach} {fuel : Nat} (hl : ppLoop fuel (sesOnframe p) = some m)
      (hf : ∀ me ∈ ppEntries fuel (sesOnframe p), ok me) : Began ok p m
  | screen {m m' : Mach} (h : Began ok p m) (hw : Within menuCell m m') : Began ok p m'
  | pump {m m' : Mach} {got : List Byte} (h : Began ok p m) (hp : sesPump m got = some m')
      (hf : ∀ me ∈ ppEntries ppFuel (ppCp m got), ok me) : Began ok p m'

theorem began_mono {ok ok' : Mach → Prop} (hok : ∀ m, ok m → ok' m) {p m : Mach}
    (h : Began ok p m) : Began ok' p m := by
  induction h with
  | start hl hf => exact .start hl (fun me hme => hok me (hf me hme))
  | screen _ hw ih => exact .screen ih hw
  | pump _ hp hf ih => exact .pump ih hp (fun me hme => hok me (hf me hme))

/-- At an open gate, from tick d on, every remote seat has sent an INPUT for this tick or a
    later one. -/
def GateHeard (p : Mach) (c : Con) : Prop :=
  Calm p c.m → lsTick c.m = (soFar p c.m).ticks % 65536 ∧
    (c.pos = .gate → lsOpen c.m = true → p.rd (frmBuf + 6) ≤ (soFar p c.m).ticks →
      ∀ r < p.rd (frmBuf + 3), r ≠ p.rd (frmBuf + 2) →
        ∃ i ∈ (soFar p c.m).got, i.seat = r ∧ (soFar p c.m).ticks ≤ i.tick)

/-- The INPUT in FRMBUF is taken if its tick `t` is d or later and later than what was taken
    from that seat before, by less than 32768. -/
def TakesLater (p m : Mach) : Prop :=
  Calm p m → m.rd (frmBuf + 1) = ftInput → 6 ≤ m.rd frmBuf →
    m.rd (frmBuf + 2) ≠ p.rd (frmBuf + 2) → m.rd (frmBuf + 2) < p.rd (frmBuf + 3) →
    ∀ t, t % 65536 = frameTick m → p.rd (frmBuf + 6) ≤ t →
      (∀ i ∈ (soFar p m).got, i.seat = m.rd (frmBuf + 2) → i.tick < t) →
      t < (soFar p m).wm (m.rd (frmBuf + 2)) + 32768 → inputAccepted m = true

/-- The law of the gate for delay `d`: over every run of a match without another START, as
    long as nobody is dropped (`Calm`) and the INPUTs are less than 32768 ticks ahead. -/
def ArmsGate (d : Nat) : Prop :=
  ∀ (k : Cart) (p m0 : Mach) (c : Con), FourSeats p → p.rd (frmBuf + 6) = d →
    Began NoStart p m0 → Steps k NoStart ⟨m0, .top⟩ c →
    GateHeard p c ∧ Began (TakesLater p) p m0 ∧ Steps k (TakesLater p) ⟨m0, .top⟩ c

section
variable {p m : Mach}

theorem gateHeard_of_tracks (hp : FourSeats p) {c : Con} (h : Follows p (Tracks p) c.m) :
    GateHeard p c := by
  intro hc
  have ht := h.2 hc
  refine ⟨ht.tick, fun _ ho hd r hr hs => ?_⟩
  have hreach := ht.reached hp h.1 ho hr hs
  rcases ht.last r with hl | ⟨i, hi, hseat, htick⟩
  · omega
  · exact ⟨i, hi, hseat, by omega⟩

theorem takesLater_of_tracks (hp : FourSeats p) (h : Follows p (Tracks p) m) : TakesLater p m := by
  intro hc _ hlen hs hn t hmod htd hlater hwin
  have ht := h.2 hc
  have hlt : (soFar p m).wm (m.rd (frmBuf + 2)) < t := by
    rcases ht.last (m.rd (frmBuf + 2)) with hl | ⟨i, hi, hseat, htick⟩
    · omega
    · have := hlater i hi hseat
      omega
  have hlead : lead m (soFar p m) = t - (soFar p m).wm (m.rd (frmBuf + 2)) := by
    rw [lead, ← hmod, Lib.ahead_true (by omega) (by omega)]
  rw [inputAccepted_iff hp h.1 ht.wm, hlead]
  exact ⟨hlen, hs, hn, by omega, by omega⟩

end

theorem menuCell_not_steer {a : Nat} (h : menuCell a) : ¬ steerCell a := by
  have hout : ∀ a ∈ [uiColor, ppTmp, sesTmrLo, 0x32, isrPhase], ¬ steerCell a := by decide
  intro hs
  have hhigh := steerCell_high hs
  rcases h with (h | h | h) | h
  · exact hout a (by simp [h]) hs
  · exact hout a (by simp [h]) hs
  · simp only [area, backtab] at h
    omega
  · refine hout a ?_ hs
    simp only [List.mem_cons, List.not_mem_nil, or_false] at h ⊢
    tauto

/-- What START establishes and frames keep holds at the first pass. -/
theorem follows_began {p m : Mach} {ok : Mach → Prop} {P : Mach → Heard → Prop}
    (hL : Lawful p ok P) (hp : FourSeats p) (h0 : Follows p P (sesOnframe p))
    (h : Began ok p m) : Follows p P m ∧ Began (fun me => ok me ∧ Follows p P me) p m := by
  induction h with
  | start hl hf =>
    obtain ⟨hent, hend⟩ := follows_ppLoop hL hp hf h0
    exact ⟨hend _ hl, .start hl (fun me hme => ⟨hf me hme, hent me hme⟩)⟩
  | screen _ hw ih =>
    exact ⟨ih.1.steady hL hw.ev_eq (idles_quiet nofun)
      (fun a ha => hw.keep a (fun hm => menuCell_not_steer hm ha)), .screen ih.2 hw⟩
  | pump _ hpu hf ih =>
    obtain ⟨hent, hend⟩ := follows_sesPump hL hp hf ih.1
    exact ⟨hend _ hpu, .pump ih.2 hpu (fun me hme => ⟨hf me hme, hent me hme⟩)⟩

theorem tracks_alone {p : Mach} (hp : FourSeats p) : Lawful p NoStart (Tracks p) :=
  lawful_tracks (fun h => h) hp

theorem armsGate_of_delay {d : Nat} (hd : 1 ≤ d) : ArmsGate d := by
  intro k p m0 c hp hpd h0 hrun
  subst hpd
  obtain ⟨hm0, hbegan⟩ := follows_began (tracks_alone hp) hp (tracks_start hp hd) h0
  obtain ⟨hc, hsteps⟩ := follows_steps (tracks_alone hp) hp hm0 hrun
  refine ⟨gateHeard_of_tracks hp hc, ?_, ?_⟩
  · exact began_mono (fun m h => takesLater_of_tracks hp h.2) hbegan
  · exact steps_mono (fun m h => takesLater_of_tracks hp h.2) hsteps

/-- The START of a match of two with delay `d`, for the host. -/
def hostFrame (d : Nat) : Mach :=
  Mach.zero.stList frmBuf ([38, ftStart, 0, 2, 0x34, 0x12, d] ++ List.replicate 32 0x41)

/-- With delay 0 the gate is open for tick 0 before anything has come in. -/
theorem zero_delay_open : ∃ m1, sesPump (sesOnframe (hostFrame 0)) [] = some m1 ∧
    Calm (hostFrame 0) (lsCapture m1) ∧ lsOpen (lsCapture m1) = true ∧
    (soFar (hostFrame 0) (lsCapture m1)).got = [] := by
  have hd : (sesPump (sesOnframe (hostFrame 0)) []).map (fun m1 => (
      decide ((lsCapture m1).rd netDropped = 0), (since (hostFrame 0) (lsCapture m1)).any Ev.resync,
      lsOpen (lsCapture m1), (soFar (hostFrame 0) (lsCapture m1)).got)) =
      some (true, false, true, []) := by decide +kernel
  cases hp : sesPump (sesOnframe (hostFrame 0)) [] with
  | none => simp [hp] at hd
  | some m1 =>
    rw [hp, Option.map_some, Option.some.injEq, Prod.mk.injEq, Prod.mk.injEq, Prod.mk.injEq,
      decide_eq_true_eq, List.any_eq_false] at hd
    obtain ⟨hdrop, hno, hopen, hgot⟩ := hd
    exact ⟨m1, rfl, ⟨hdrop, fun e he => by simpa using hno e he⟩, hopen, hgot⟩

/-- With nothing buffered the parse loop ends at once. -/
theorem ppLoop_idle {m : Mach} (h : m.rd rxWr = m.rd rxRd) (fuel : Nat) :
    ppLoop (fuel + 1) m = some m ∧ ppEntries (fuel + 1) m = [] := by
  have hdone : ppRound m = .done := by
    rw [ppRound, h]
    refine if_pos ?_
    omega
  rw [ppLoop, ppEntries, hdone]
  exact ⟨rfl, rfl⟩

theorem not_armsGate_zero : ¬ ArmsGate 0 := by
  intro hall
  obtain ⟨m1, hp, hc, ho, hgot⟩ := zero_delay_open
  have hfour : FourSeats (hostFrame 0) :=
    ⟨by decide +kernel, by decide +kernel, by decide +kernel⟩
  have hempty : (sesOnframe (hostFrame 0)).rd rxWr = (sesOnframe (hostFrame 0)).rd rxRd := by
    decide +kernel
  have hdone := ppLoop_idle hempty
  have hdelay : (hostFrame 0).rd (frmBuf + 6) = 0 := by decide +kernel
  have hbegan : Began NoStart (hostFrame 0) (sesOnframe (hostFrame 0)) :=
    .start (hdone 0).1 (by rw [(hdone 0).2]; nofun)
  have hrun : Steps stillCart NoStart ⟨sesOnframe (hostFrame 0), .top⟩ ⟨lsCapture m1, .gate⟩ :=
    .single (.turn (by decide +kernel) hp (by rw [ppCp, ppFuel, (hdone 255).2]; nofun))
  have hlaw := (hall stillCart _ _ _ hfour hdelay hbegan hrun).1 hc
  obtain ⟨i, hi, -⟩ := hlaw.2 rfl ho (by rw [hdelay]; exact Nat.zero_le _) 1 (by decide +kernel)
    (by decide +kernel)
  rw [hgot] at hi
  cases hi

/-- The gate obeys that law exactly for the delays from 1 on. RS_REBASE arms it for every
    delay. -/
theorem armsGate_iff (d : Nat) : (ArmsGate d ↔ 1 ≤ d) ∧ ∀ (m : Mach) (r : Fin 4),
    (seatMark (rsRebase m) r + 1) % 65536 =
      (word (m.rd rsRLo) (m.rd rsRHi) + m.rd netDelay) % 65536 := by
  refine ⟨⟨fun h => ?_, armsGate_of_delay⟩, fun m r => seatMark_rsRebase m r.isLt⟩
  by_contra hd
  have hzero : d = 0 := by omega
  subst hzero
  exact not_armsGate_zero h

theorem zero_delay_unarmed : ¬ ∀ d < 256, ArmsGate d :=
  fun h => not_armsGate_zero (h 0 (by decide))

/-! ## No gaps -/

/-- An INPUT that is taken is for the tick behind its seat's watermark, less than 256 ahead of
    the tick counter. -/
def NextOnly (m : Mach) : Prop :=
  ¬ IsStart m ∧ (m.rd (frmBuf + 1) = ftInput → inputAccepted m = true →
    sub16 (frameTick m) (seatMark m (m.rd (frmBuf + 2))) = 1 ∧
      sub16 (frameTick m) (lsTick m) < 256)

/-- The rings hold every INPUT from the tick counter up to the watermarks. -/
structure Filled (p m : Mach) (h : Heard) : Prop extends Tracks p m h where
  near : ∀ r < p.rd (frmBuf + 3), r ≠ p.rd (frmBuf + 2) → h.wm r < h.ticks + 256
  whole : ∀ r < p.rd (frmBuf + 3), r ≠ p.rd (frmBuf + 2) → ∀ t, p.rd (frmBuf + 6) ≤ t →
    t ≤ h.wm r → ∃ i ∈ h.got, i.seat = r ∧ i.tick = t
  bound : ∀ i ∈ h.got, i.seat < p.rd (frmBuf + 3) ∧ i.seat ≠ p.rd (frmBuf + 2) ∧
    i.tick ≤ h.wm i.seat
  held : ∀ i ∈ h.got, h.ticks ≤ i.tick →
    m.rd (decCell i.seat i.tick) = i.dec ∧ m.rd (kpCell i.seat i.tick) = i.kp

section
variable {p m m' : Mach} {h : Heard}

/-- Ring cells of another seat, or of a tick less than 256 away. -/
theorem decCell_ne {r s t u : Nat} (hr : r < 4) (hs : s < 4)
    (h : r ≠ s ∨ (t < u ∧ u < t + 256)) : decCell r t ≠ decCell s u ∧ decCell r t ≠ kpCell s u ∧
      kpCell r t ≠ decCell s u ∧ kpCell r t ≠ kpCell s u := by
  simp only [decCell, kpCell, seatRing, seatKp]
  omega

theorem ring_track {r s t : Nat} (hr : r < 4) (hs : s < 4) (hne : r ≠ s) :
    trackCell s (decCell r t) ∧ trackCell s (kpCell r t) := by
  have hd : area seatRing 2048 (decCell r t) ∧ ¬ pageCell s (decCell r t) := by
    simp only [pageCell, area, decCell, seatRing, seatKp]
    omega
  have hk : area seatRing 2048 (kpCell r t) ∧ ¬ pageCell s (kpCell r t) := by
    simp only [pageCell, area, kpCell, seatRing, seatKp]
    omega
  exact ⟨Or.inr (Or.inr hd), Or.inr (Or.inr hk)⟩

theorem ring_le (r t : Nat) : seatRing ≤ decCell r t ∧ seatRing ≤ kpCell r t := by
  simp only [decCell, kpCell, seatKp, seatRing]
  omega

/-- The slot is the same for the 16 bits of a tick. -/
theorem cell_wrap (r t : Nat) :
    decCell r (t % 65536) = decCell r t ∧ kpCell r (t % 65536) = kpCell r t := by
  simp only [decCell, kpCell]
  omega

/-- The next INPUT of a seat is held, and what was held before stays. -/
theorem Filled.taken (h' : Filled p m h) (hp : FourSeats p) (hin : InMatch p m)
    (hacc : inputAccepted m = true)
    (hnext : sub16 (frameTick m) (seatMark m (m.rd (frmBuf + 2))) = 1 ∧
      sub16 (frameTick m) (lsTick m) < 256) :
    Filled p (ofInput m) (h.take (takenOf m (h.wm (m.rd (frmBuf + 2)) + lead m h))) := by
  obtain ⟨-, hs, hn, -, -⟩ := (inputAccepted_iff hp hin h'.wm).mp hacc
  have hr : m.rd (frmBuf + 2) < 4 := Nat.lt_of_lt_of_le hn hp.count
  have hlead : lead m h = 1 := by
    rw [← hnext.1, h'.wm _ hr]
    rfl
  have htrk := h'.toTracks.taken hacc hr
  have htick : frameTick m = (h.wm (m.rd (frmBuf + 2)) + 1) % 65536 := by
    rw [← hlead, lead, Lib.add_ahead (by decide), Nat.mod_eq_of_lt (frameTick_lt m)]
  have hpace := h'.paced _ hn hs
  have hnear := h'.near _ hn hs
  have hlt : h.wm (m.rd (frmBuf + 2)) + 1 < h.ticks + 256 := by
    have hclose : sub16 (frameTick m) (lsTick m) = h.wm (m.rd (frmBuf + 2)) + 1 - h.ticks := by
      rw [← Lib.ahead_true (M := 65536) hpace (by omega), htick, h'.tick]
      rfl
    have := hnext.2
    omega
  have hcell := cells_ofInput hacc hr
  rw [htick, (cell_wrap _ _).1, (cell_wrap _ _).2] at hcell
  have hother : ∀ a, a ≠ decCell (m.rd (frmBuf + 2)) (h.wm (m.rd (frmBuf + 2)) + 1) →
      a ≠ kpCell (m.rd (frmBuf + 2)) (h.wm (m.rd (frmBuf + 2)) + 1) → seatRing ≤ a →
      (ofInput m).rd a = m.rd a := by
    intro a h1 h2 h3
    refine ofInput_other hr ⟨?_, ?_, ?_, ?_⟩
    · rwa [htick, (cell_wrap _ _).1]
    · rwa [htick, (cell_wrap _ _).2]
    · simp only [seatRing, seatWm] at *
      omega
    · simp only [seatRing, seatWm] at *
      omega
  rw [hlead] at htrk ⊢
  have hwm : ∀ r, (h.take (takenOf m (h.wm (m.rd (frmBuf + 2)) + 1))).wm r =
      if r = m.rd (frmBuf + 2) then h.wm (m.rd (frmBuf + 2)) + 1 else h.wm r := by
    intro r
    simp only [Heard.take, takenOf, Function.update_apply]
  refine ⟨htrk, fun r hrn hrs => ?_, fun r hrn hrs t htd htw => ?_, fun i hi => ?_, fun i hi ht => ?_⟩
  · rw [hwm]
    split_ifs
    · exact hlt
    · exact h'.near r hrn hrs
  · rw [hwm] at htw
    by_cases hnew : r = m.rd (frmBuf + 2) ∧ t = h.wm (m.rd (frmBuf + 2)) + 1
    · exact ⟨_, List.mem_append_right _ List.mem_cons_self, hnew.1.symm, hnew.2.symm⟩
    · have hle : t ≤ h.wm r := by
        split_ifs at htw with he
        · subst he
          omega
        · exact htw
      obtain ⟨i, hi, his⟩ := h'.whole r hrn hrs t htd hle
      exact ⟨i, List.mem_append_left _ hi, his⟩
  · rw [hwm]
    rcases List.mem_append.mp hi with hi | hi
    · obtain ⟨h1, h2, h3⟩ := h'.bound i hi
      refine ⟨h1, h2, ?_⟩
      split_ifs with he
      · rw [he] at h3
        omega
      · exact h3
    · rw [List.mem_singleton.mp hi]
      refine ⟨hn, hs, ?_⟩
      rw [takenOf, if_pos rfl]
  · rcases List.mem_append.mp hi with hi | hi
    · obtain ⟨h1, h2, h3⟩ := h'.bound i hi
      obtain ⟨hdec, hkp⟩ := h'.held i hi ht
      have hne := decCell_ne (t := i.tick) (u := h.wm (m.rd (frmBuf + 2)) + 1)
        (Nat.lt_of_lt_of_le h1 hp.count) hr (by
          by_cases he : i.seat = m.rd (frmBuf + 2)
          · rw [he] at h3
            have ht' : h.ticks ≤ i.tick := ht
            exact Or.inr ⟨by omega, by omega⟩
          · exact Or.inl he)
      rw [hother _ hne.1 hne.2.1 (ring_le _ _).1, hother _ hne.2.2.1 hne.2.2.2 (ring_le _ _).2]
      exact ⟨hdec, hkp⟩
    · rw [List.mem_singleton.mp hi]
      exact hcell

theorem Filled.congr (h' : Filled p m h) (hp : FourSeats p)
    (hk : ∀ a, trackCell (p.rd (frmBuf + 2)) a → m'.rd a = m.rd a) : Filled p m' h where
  toTracks := (tracks_alone hp).congr hk h'.toTracks
  near := h'.near
  whole := h'.whole
  bound := h'.bound
  held i hi ht := by
    obtain ⟨h1, h2, -⟩ := h'.bound i hi
    have htrk := ring_track (t := i.tick) (Nat.lt_of_lt_of_le h1 hp.count) hp.seat h2
    rw [hk _ htrk.1, hk _ htrk.2]
    exact h'.held i hi ht

theorem lawful_filled (hp : FourSeats p) : Lawful p NextOnly (Filled p) where
  alone hok := hok.1
  congr hk h' := h'.congr hp hk
  input {m h} hin hok ht h' := by
    rw [input_history hp hin ht h'.wm]
    have hlog : Filled p (m.log (.frame (frameBytes m))) h := h'.congr hp (fun _ _ => rfl)
    split_ifs with hacc
    · have hinl : InMatch p (m.log (.frame (frameBytes m))) := hin.next rfl (fun _ _ => rfl)
      exact hlog.taken (m := m.log _) hp hinl hacc (hok.2 ht hacc)
    · have hno : inputAccepted (m.log (.frame (frameBytes m))) ≠ true := hacc
      rwa [ofInput, if_pos (by simpa using hno)]
  tick {m m' h} hin ho htick hk h' := by
    refine ⟨(tracks_alone hp).tick hin ho htick hk h'.toTracks,
      fun r hr hs => ?_, h'.whole, h'.bound, fun i hi ht => ?_⟩
    · have := h'.near r hr hs
      show h.wm r < h.ticks + 1 + 256
      omega
    · obtain ⟨h1, h2, -⟩ := h'.bound i hi
      have htrk := ring_track (t := i.tick) (Nat.lt_of_lt_of_le h1 hp.count) hp.seat h2
      have hne : ∀ a, seatRing ≤ a → a ≠ tickLo ∧ a ≠ tickHi := by
        intro a ha
        simp only [seatRing, tickLo, tickHi] at *
        omega
      have hle := ring_le i.seat i.tick
      rw [hk _ htrk.1 (hne _ hle.1).1 (hne _ hle.1).2, hk _ htrk.2 (hne _ hle.2).1 (hne _ hle.2).2]
      exact h'.held i hi (Nat.le_of_succ_le ht)

theorem filled_start (hp : FourSeats p) (hd : 1 ≤ p.rd (frmBuf + 6)) :
    Follows p (Filled p) (sesOnframe p) := by
  obtain ⟨hin, htrk⟩ := tracks_start hp hd
  have hb := p.rd_lt_cart (a := frmBuf + 6) (by decide)
  refine ⟨hin, fun hc => ⟨htrk hc, ?_, ?_, ?_, ?_⟩⟩
  all_goals
    rw [(start_match hp).2]
    simp only [Heard.start]
  · intro r _ _
    omega
  · intro r _ _ t h1 h2
    omega
  · simp
  · simp

end

/-- At an open gate, from tick d on, the slots the tick is about to be played from hold the INPUT
    of every remote seat for that very tick. -/
def GateFilled (p : Mach) (c : Con) : Prop :=
  Calm p c.m → c.pos = .gate → lsOpen c.m = true → p.rd (frmBuf + 6) ≤ (soFar p c.m).ticks →
    ∀ r < p.rd (frmBuf + 3), r ≠ p.rd (frmBuf + 2) →
      ∃ i ∈ (soFar p c.m).got, i.seat = r ∧ i.tick = (soFar p c.m).ticks ∧
        (seatCells c.m r (c.m.rd tickLo)).cur = i.dec ∧ (seatCells c.m r (c.m.rd tickLo)).kp = i.kp

theorem gateFilled_of_filled {p : Mach} (hp : FourSeats p) {c : Con}
    (h : Follows p (Filled p) c.m) : GateFilled p c := by
  intro hc _ ho hd r hr hs
  have hf := h.2 hc
  obtain ⟨i, hi, hseat, htick⟩ :=
    hf.whole r hr hs _ hd (hf.toTracks.reached hp h.1 ho hr hs)
  obtain ⟨hdec, hkp⟩ := hf.held i hi (Nat.le_of_eq htick.symm)
  have hlo : i.tick % 256 = c.m.rd tickLo := by
    have := lsTick_mod c.m
    rw [hf.tick] at this
    omega
  rw [decCell, hseat, hlo] at hdec
  rw [kpCell, hseat, hlo] at hkp
  exact ⟨i, hi, hseat, htick, hdec, hkp⟩

/-- In every run in which each INPUT that is taken is its seat's next one, the gate has no
    gaps. -/
theorem gate_no_gaps {k : Cart} {p m0 : Mach} (hp : FourSeats p) (hd : 1 ≤ p.rd (frmBuf + 6))
    (h0 : Began NextOnly p m0) {c : Con} (h : Steps k NextOnly ⟨m0, .top⟩ c) : GateFilled p c := by
  have hm0 := (follows_began (lawful_filled hp) hp (filled_start hp hd) h0).1
  exact gateFilled_of_filled hp (follows_steps (lawful_filled hp) hp hm0 h).1

instance (m : Mach) : Decidable (NextOnly m) := by unfold NextOnly; infer_instance
instance (m : Mach) : Decidable (NoStart m) := by unfold NoStart; infer_instance

/-- INPUT from seat 1 for tick `t`, with the disc held. -/
def discBytes (t : Byte) : List Byte := [6, 6, 1, t, 0, 0x2E, 0]

/-- At the gate for tick 1 of a match with delay 1, `got` having come in before tick 0. -/
def secondGate (m1 : Mach) : Mach := lsCapture (lsRun stillCart (lsCapture m1))

theorem two_turns {ok : Mach → Prop} {m0 m1 : Mach} {got : List Byte} (hd : lsDue m0 = true)
    (hp : sesPump m0 got = some m1) (hf : ∀ me ∈ ppEntries ppFuel (ppCp m0 got), ok me)
    (ho : lsOpen (lsCapture m1) = true) (hd' : lsDue (lsRun stillCart (lsCapture m1)) = true)
    (hi : (lsRun stillCart (lsCapture m1)).rd rxWr = (lsRun stillCart (lsCapture m1)).rd rxRd) :
    Steps stillCart ok ⟨m0, .top⟩ ⟨secondGate m1, .gate⟩ := by
  have hidle := ppLoop_idle hi 255
  have hpump : sesPump (lsRun stillCart (lsCapture m1)) [] = some (lsRun stillCart (lsCapture m1)) :=
    hidle.1
  refine ((ReflTransGen.single (.turn hd hp hf)).tail (.run (Or.inr ho))).tail (.turn hd' hpump ?_)
  rw [ppCp, ppFuel, hidle.2]
  exact fun _ h => absurd h List.not_mem_nil

/-- What such a run comes to. -/
def atSecond (p m1 : Mach) : Prop :=
  lsOpen (lsCapture m1) = true ∧ lsDue (lsRun stillCart (lsCapture m1)) = true ∧
    (lsRun stillCart (lsCapture m1)).rd rxWr = (lsRun stillCart (lsCapture m1)).rd rxRd ∧
    Calm p (secondGate m1) ∧ lsOpen (secondGate m1) = true ∧ (soFar p (secondGate m1)).ticks = 1

instance (p m : Mach) : Decidable (Calm p m) := by unfold Calm; infer_instance
instance (p m : Mach) : Decidable (atSecond p m) := by unfold atSecond; infer_instance

theorem began_host : Began NextOnly (hostFrame 1) (sesOnframe (hostFrame 1)) := by
  have hempty : (sesOnframe (hostFrame 1)).rd rxWr = (sesOnframe (hostFrame 1)).rd rxRd := by
    decide +kernel
  exact .start (ppLoop_idle hempty 0).1 (by rw [(ppLoop_idle hempty 0).2]; nofun)

theorem fourSeats_host : FourSeats (hostFrame 1) :=
  ⟨by decide +kernel, by decide +kernel, by decide +kernel⟩

theorem gate_no_gaps_input : ∃ m1, atSecond (hostFrame 1) m1 ∧
    ∃ i ∈ (soFar (hostFrame 1) (secondGate m1)).got, i.seat = 1 ∧ i.tick = 1 ∧
      (seatCells (secondGate m1) 1 ((secondGate m1).rd tickLo)).cur = i.dec := by
  have hd : (sesPump (sesOnframe (hostFrame 1)) (discBytes 1)).map
      (fun m1 => decide (atSecond (hostFrame 1) m1)) = some true := by decide +kernel
  have hf : ∀ me ∈ ppEntries ppFuel (ppCp (sesOnframe (hostFrame 1)) (discBytes 1)),
      NextOnly me := by decide +kernel
  cases hp : sesPump (sesOnframe (hostFrame 1)) (discBytes 1) with
  | none => simp [hp] at hd
  | some m1 =>
    rw [hp, Option.map_some, Option.some.injEq, decide_eq_true_eq] at hd
    obtain ⟨ho, hdue, hidle, hc, hopen, hticks⟩ := hd
    have hrun := two_turns (by decide +kernel) hp hf ho hdue hidle
    have hgate := gate_no_gaps fourSeats_host (by decide +kernel) began_host hrun hc rfl hopen
      (by rw [hticks]; decide +kernel) 1 (by decide +kernel) (by decide +kernel)
    obtain ⟨i, hi, hs, ht, hcur, -⟩ := hgate
    exact ⟨m1, ⟨ho, hdue, hidle, hc, hopen, hticks⟩, i, hi, hs, ht.trans hticks, hcur⟩

/-- INPUT 2 comes in, INPUT 1 does not: tick 1 is played without it. -/
theorem lost_input_played : ¬ ∀ (k : Cart) (p m0 : Mach) (c : Con), FourSeats p →
    1 ≤ p.rd (frmBuf + 6) → p.rd (frmBuf + 6) ≤ 15 → Began NoStart p m0 →
    Steps k NoStart ⟨m0, .top⟩ c → GateFilled p c := by
  intro hall
  have hd : (sesPump (sesOnframe (hostFrame 1)) (discBytes 2)).map
      (fun m1 => (decide (atSecond (hostFrame 1) m1),
        (soFar (hostFrame 1) (secondGate m1)).got.map Taken.tick)) = some (true, [2]) := by
    decide +kernel
  have hf : ∀ me ∈ ppEntries ppFuel (ppCp (sesOnframe (hostFrame 1)) (discBytes 2)),
      NoStart me := by decide +kernel
  cases hp : sesPump (sesOnframe (hostFrame 1)) (discBytes 2) with
  | none => simp [hp] at hd
  | some m1 =>
    rw [hp, Option.map_some, Option.some.injEq, Prod.mk.injEq, decide_eq_true_eq] at hd
    obtain ⟨⟨ho, hdue, hidle, hc, hopen, hticks⟩, hgot⟩ := hd
    have hbegan : Began NoStart (hostFrame 1) (sesOnframe (hostFrame 1)) :=
      began_mono (fun m h => h.1) began_host
    have hrun := two_turns (by decide +kernel) hp hf ho hdue hidle
    obtain ⟨i, hi, -, ht, -⟩ := hall stillCart _ _ _ fourSeats_host (by decide +kernel)
      (by decide +kernel) hbegan hrun hc rfl hopen (by rw [hticks]; decide +kernel) 1
      (by decide +kernel) (by decide +kernel)
    have hmem : i.tick ∈ [2] := by
      rw [← hgot]
      exact List.mem_map_of_mem hi
    rw [ht, hticks] at hmem
    simp at hmem

end IntvBasketball.Console
