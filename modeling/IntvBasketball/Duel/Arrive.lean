/-
  A frame does to the console what its message does to the party.

  Ticks are compared in 16 bits, which is enough as long as they are near (`Near`); a
  data frame has to come in a hold (`InOrder`). One lemma for each frame type, and
  `did_frame` for SES_ONFRAME.
-/
import IntvBasketball.Duel.Mirror

namespace IntvBasketball.Duel

open Lib Console
open Mach (Within Does Only)

/-! ## INPUT and CRC -/

/-- 16 bits are enough for the ticks the party compares with those of a message. -/
def Near (p : Party) : Msg → Prop
  | .input t _ => t ≤ p.wm + 64 ∧ p.wm ≤ t + 64
  | .crc t _ => ∀ i t' v', p.recs i = some (t', v') → t ≤ t' + 512 ∧ t' ≤ t + 512
  | _ => True

section
variable {d s : Nat} {p : Party} {m : Mach}

theorem dec_ne_dec {r r' u u' : Nat} (hu : u < 256) (h : ¬ (r' = r ∧ u = u' % 256)) :
    decCell r' u ≠ decCell r u' := by
  unfold decCell
  omega

theorem kp_ne_kp {r r' u u' : Nat} (hu : u < 256) (h : ¬ (r' = r ∧ u = u' % 256)) :
    kpCell r' u ≠ kpCell r u' := by
  unfold kpCell
  omega

theorem dec_ne_kp {r r' : Nat} (hr : r < 4) (u u' : Nat) : decCell r u ≠ kpCell r' u' := by
  simp only [decCell, kpCell, seatRing, seatKp]
  omega

/-- A cell pair is stored to the pages of seat `r`. -/
theorem Pages.put {r t : Nat} {f : Nat → Cell} {m' : Mach} {c : Cell} (h : Pages r f m) (hr : r < 4)
    (hdec : m'.rd (decCell r t) = c.dec) (hkp : m'.rd (kpCell r t) = c.kp)
    (hk : ∀ a, area seatRing 2048 a → a ≠ decCell r t → a ≠ kpCell r t → m'.rd a = m.rd a) :
    Pages r (Function.update f (t % 256) c) m' := by
  intro u hu
  rw [Function.update_apply]
  split
  · next he =>
    subst he
    have h1 : decCell r (t % 256) = decCell r t := by rw [decCell, decCell, Nat.mod_mod]
    have h2 : kpCell r (t % 256) = kpCell r t := by rw [kpCell, kpCell, Nat.mod_mod]
    rw [h1, h2]
    exact ⟨hdec, hkp⟩
  · next hne =>
    rw [hk _ (area_dec hr u) (dec_ne_dec hu (fun hx => hne hx.2)) (dec_ne_kp hr u t),
      hk _ (area_kp hr u) (dec_ne_kp hr t u).symm (kp_ne_kp hu (fun hx => hne hx.2))]
    exact h u hu

/-- The pages of another seat are not touched. -/
theorem Pages.other {r r' t : Nat} {f : Nat → Cell} {m' : Mach} (h : Pages r' f m) (hr : r < 4)
    (hr' : r' < 4) (hne : r' ≠ r)
    (hk : ∀ a, area seatRing 2048 a → a ≠ decCell r t → a ≠ kpCell r t → m'.rd a = m.rd a) :
    Pages r' f m' := by
  intro u hu
  rw [hk _ (area_dec hr' u) (dec_ne_dec hu (fun hx => hne hx.1)) (dec_ne_kp hr' u t),
    hk _ (area_kp hr' u) (dec_ne_kp hr t u).symm (kp_ne_kp hu (fun hx => hne hx.1))]
  exact h u hu

/-- A remote input: taken when it is for a newer tick than the last one. -/
theorem did_input (host : Bool) (h : Mirrors d s p m) {t : Nat} {c : Cell}
    (hf : Holds m (Msg.bytes (1 - s) (.input t c))) (hfit : Msg.Fits (.input t c))
    (hn : Near p (.input t c)) : Did d s (p.recv d host (.input t c)) [] [] m (ofInput m) := by
  have hdoes := within_ofInput m
  obtain ⟨h0, -, h2, h3, h4, h5, h6⟩ := holds_six hf
  have hs := h.setup.two
  have hseat : m.rd (frmBuf + 2) = 1 - s := h2.trans (Nat.mod_eq_of_lt (by omega))
  have htick : frameTick m = t % 65536 := by
    rw [frameTick, h3, h4]
    exact word_mod t
  have hacc : inputAccepted m = true ↔ p.wm < t := by
    rw [inputAccepted_tests, hseat, h0, h.setup.seat, h.setup.count, htick, h.mark,
      ahead_near hn.1 hn.2]
    omega
  have hr4 : m.rd (frmBuf + 2) < 4 := by omega
  rw [Party.recv]
  split
  · next hlt =>
    have ha := hacc.mpr hlt
    obtain ⟨hdec, hkp⟩ := cells_ofInput ha hr4
    have hmark := seatMark_ofInput ha hr4
    have hcell : decCell (1 - s) (frameTick m) = decCell (1 - s) t ∧
        kpCell (1 - s) (frameTick m) = kpCell (1 - s) t := by
      rw [htick, decCell, decCell, kpCell, kpCell]
      omega
    rw [hseat, hcell.1, h5, Nat.mod_eq_of_lt hfit.1] at hdec
    rw [hseat, hcell.2, h6, Nat.mod_eq_of_lt hfit.2] at hkp
    rw [hseat, htick] at hmark
    -- everything but the two cells and the watermark is as it was
    have hk : ∀ a, a ≠ decCell (1 - s) t → a ≠ kpCell (1 - s) t → ¬ area seatWm 8 a →
        (ofInput m).rd a = m.rd a := by
      intro a h7 h8 h9
      apply ofInput_other hr4
      rw [hseat, hcell.1, hcell.2]
      refine ⟨h7, h8, ?_, ?_⟩
      · rintro rfl
        exact h9 ⟨by omega, by omega⟩
      · rintro rfl
        exact h9 ⟨by omega, by omega⟩
    have hpage : ∀ a, area seatRing 2048 a → a ≠ decCell (1 - s) t → a ≠ kpCell (1 - s) t →
        (ofInput m).rd a = m.rd a := by
      intro a ha7 h7 h8
      apply hk a h7 h8
      simp only [area, seatRing, seatWm] at ha7 ⊢
      omega
    have hlow : ∀ a, a < seatRing ∨ seatRing + 2048 ≤ a → ¬ area seatWm 8 a →
        (ofInput m).rd a = m.rd a := by
      intro a ha7 h9
      refine hk a ?_ ?_ h9
      · rintro rfl
        have := area_dec (r := 1 - s) (by omega) t
        unfold area at this
        omega
      · rintro rfl
        have := area_kp (r := 1 - s) (by omega) t
        unfold area at this
        omega
    have hfix : ∀ a ∈ setupCells ++ [tickLo, tickHi, resyncHold, rsPend, rsRLo, rsRHi],
        a < seatRing ∧ ¬ area seatWm 8 a := by
      unfold area
      decide
    have hflags : Flags p (ofInput m) := h.flags.congr (fun a ha => by
      have := hfix a (List.mem_append_right _ (List.mem_append_right [tickLo, tickHi] ha))
      exact hlow a (Or.inl this.1) this.2)
    refine ⟨⟨h.setup.congr (fun a ha => ?_), ?_, hmark, h.own.other (by omega) (by omega) (by omega)
      hpage, h.rmt.put (by omega) hdec hkp hpage, ⟨hflags.hold, hflags.pend, hflags.resume⟩,
      h.recs.congr (fun a ha => ?_)⟩, loss_cases ?_, hdoes.tx_eq, ?_, _, hdoes.ev_eq.symm⟩
    · have := hfix a (List.mem_append_left _ ha)
      exact hlow a (Or.inl this.1) this.2
    · refine (lsTick_congr (fun a ha => ?_)).trans h.tick
      have := hfix a (List.mem_append_right _ (List.mem_append_left [resyncHold, rsPend, rsRLo,
        rsRHi] ha))
      exact hlow a (Or.inl this.1) this.2
    · apply hlow a
      · refine Or.inr ?_
        simp only [area, ownCrc, seatRing] at ha ⊢
        omega
      · simp only [area, ownCrc, seatWm] at ha ⊢
        omega
    · exact ⟨hlow _ (Or.inl (by decide)) (by unfold area; decide),
        hlow _ (Or.inl (by decide)) (by unfold area; decide)⟩
    · rw [hdoes.ev_eq, List.filterMap_append]
      rfl
  · next hlt =>
    have hno : ¬ inputAccepted m = true := fun ha => hlt (hacc.mp ha)
    rw [ofInput, if_pos (by simpa using hno)]
    exact Did.refl h

theorem slotOf_eq (t : Nat) : slotOf t = slot t := by
  unfold slotOf slot
  omega

/-- The console comes to the party's verdict on a checksum. -/
theorem Mirrors.verdict (h : Mirrors d s p m) {t v : Nat}
    (hf : Holds m (Msg.bytes (1 - s) (.crc t v))) (hfit : Msg.Fits (.crc t v))
    (hn : Near p (.crc t v)) : crcVerdict m = p.verdict t v := by
  obtain ⟨h0, -, -, h3, h4, h5, h6⟩ := holds_six hf
  obtain ⟨hz, hv⟩ := hfit
  have hhold := h.flags.hold
  have hpend := h.flags.pend
  unfold Party.verdict
  by_cases hh : p.hold = true
  · rw [hh] at hhold
    rw [if_pos hh, crcVerdict, if_neg (by omega), if_pos (by rw [hhold]; decide)]
  · rw [Bool.not_eq_true] at hh
    rw [hh] at hhold
    rw [hh, if_neg Bool.false_ne_true]
    by_cases hp : p.pend = true
    · rw [hp] at hpend
      rw [if_pos hp, crcVerdict, if_neg (by omega), if_neg (by rw [hhold]; decide),
        if_pos (by rw [hpend]; decide)]
    · rw [Bool.not_eq_true] at hp
      rw [hp] at hpend
      rw [hp, if_neg Bool.false_ne_true]
      have htick : frameTick m = t % 65536 := by
        rw [frameTick, h3, h4]
        exact word_mod t
      have hcrc : frameCrc m = v := by
        rw [frameCrc, h5, h6, word_mod, Nat.mod_eq_of_lt hv]
      have hslot : slotOf (t % 65536) = slot t := by
        unfold slotOf slot
        omega
      have hframe : CrcFrame m m (t % 65536) :=
        ⟨fun _ _ => rfl, by omega, htick, hhold, hpend⟩
      have hrec := h.recs (slot t) (by unfold slot; omega)
      rw [← hslot] at hrec
      cases hr : p.recs (slot t) with
      | none =>
        rw [hslot, hr] at hrec
        have hverdict := crcVerdict_slot hframe (r := none) (hslot.symm ▸ hrec)
        exact hverdict.trans (if_neg (by omega))
      | some x =>
        obtain ⟨t', v'⟩ := x
        rw [hslot, hr] at hrec
        have hverdict := crcVerdict_slot hframe (r := some (stored (t', v'))) (hslot.symm ▸ hrec)
        have hnear := hn _ t' v' hr
        refine hverdict.trans ?_
        rw [hcrc]
        change (if t' % 65536 ≠ t % 65536 then CrcVerdict.noRecord
          else if v = v' then .agree else .bad) =
          if t' ≠ t then .noRecord else if v' = v then .agree else .bad
        by_cases ht : t' = t
        · subst ht
          rw [if_neg (not_not.mpr rfl), if_neg (not_not.mpr rfl)]
          by_cases hvv : v' = v
          · rw [if_pos hvv.symm, if_pos hvv]
          · rw [if_neg (fun hx => hvv hx.symm), if_neg hvv]
        · rw [if_pos (by omega), if_pos ht]

end

section
variable {d s : Nat} {p : Party} {m m' : Mach}

/-! ## The other frames -/

theorem mirror_not_pend {a : Nat} (ha : mirrorCell a) (h : pendCell a) : a = rsPend := by
  rcases h with rfl | rfl
  · rfl
  · revert ha
    decide

/-- RS_PEND goes to 1. -/
theorem Mirrors.pended (h : Mirrors d s p m) {tx : List Byte} {ev : List Ev}
    (hd : Does pendCell tx ev m m') (hp : m'.rd rsPend = 1) :
    Mirrors d s { p with pend := true } m' := by
  have hk : ∀ a, mirrorCell a → a ≠ rsPend → m'.rd a = m.rd a :=
    fun a ha hne => hd.keep a (fun hx => hne (mirror_not_pend ha hx))
  have hfix : ∀ a ∈ setupCells ++ [tickLo, tickHi, resyncHold, rsRLo, rsRHi],
      mirrorCell a ∧ a ≠ rsPend := by
    unfold mirrorCell area
    decide
  have hs := h.setup.two
  have hring : ∀ a, area seatRing 2048 a → m'.rd a = m.rd a := by
    intro a ha
    refine hk a (Or.inr (Or.inr (Or.inr (Or.inl ha)))) ?_
    rintro rfl
    revert ha
    decide
  refine ⟨h.setup.congr (fun a ha => ?_), ?_, ?_, h.own.congr (by omega) hring,
    h.rmt.congr (by omega) hring, ⟨?_, hp, fun hh => ?_⟩, h.recs.congr (fun a ha => ?_)⟩
  · obtain ⟨h1, h2⟩ := hfix a (List.mem_append_left _ ha)
    exact hk a h1 h2
  · refine (lsTick_congr (fun a ha => ?_)).trans h.tick
    obtain ⟨h1, h2⟩ := hfix a (List.mem_append_right _ (List.mem_append_left
      [resyncHold, rsRLo, rsRHi] ha))
    exact hk a h1 h2
  · refine (seatMark_congr (by omega) (fun a ha => ?_)).trans h.mark
    refine hk a (Or.inr (Or.inr (Or.inl ha))) ?_
    rintro rfl
    revert ha
    decide
  · exact (hk _ (by decide) (by decide)).trans h.flags.hold
  · rw [hk rsRLo (by decide) (by decide), hk rsRHi (by decide) (by decide)]
    exact h.flags.resume hh
  · refine hk a (Or.inr (Or.inr (Or.inr (Or.inr ha)))) ?_
    rintro rfl
    revert ha
    decide

/-- A checksum. -/
theorem did_crc (h : Mirrors d s p m) {t v : Nat} (hf : Holds m (Msg.bytes (1 - s) (.crc t v)))
    (hfit : Msg.Fits (.crc t v)) (hn : Near p (.crc t v)) :
    Did d s (p.recv d (s == 0) (.crc t v)) (if s = 0 then [] else p.reply (.crc t v))
      (if p.verdict t v = .bad then [.onCrc (t % 65536) v .bad] else []) m (rsOnCrc m) := by
  have hverdict := h.verdict hf hfit hn
  obtain ⟨-, -, -, h3, h4, h5, h6⟩ := holds_six hf
  have hevent : crcEvent m = .onCrc (t % 65536) v (p.verdict t v) := by
    rw [crcEvent, h3, h4, h5, h6, word_mod, word_mod, Nat.mod_eq_of_lt hfit.2, hverdict]
  by_cases hv : p.verdict t v = .bad
  · have hb : crcVerdict m = .bad := hverdict.trans hv
    have hpend : (rsOnCrc m).rd rsPend = 1 := by
      rw [rsOnCrc, if_pos hb, rcBad]
      split
      · rw [Mach.rd_log, Mach.rd_st_ne _ _ (by decide), Mach.rd_st_self]
        decide
      · rw [Mach.rd_netWrite, Mach.rd_log, Mach.rd_st_ne _ _ (by decide), Mach.rd_st_self]
        decide
    rw [Party.recv, if_pos hv, if_pos hv]
    rw [hv] at hevent
    by_cases hs : s = 0
    · have hd := does_rsOnCrc_host hb (h.setup.seat.trans hs)
      rw [hevent] at hd
      rw [if_pos hs]
      exact Did.of_does (h.pended hd hpend) hd (loss_cases (by decide)) rfl rfl
    · have hd := does_rsOnCrc_guest hb (by rw [h.setup.seat]; exact hs)
      rw [hevent] at hd
      rw [if_neg hs, Party.reply, if_pos hv]
      refine Did.of_does (h.pended hd hpend) hd (loss_cases (by decide)) ?_ rfl
      rw [resyncReq, h3, h4]
      simp only [List.flatMap_cons, List.flatMap_nil, List.append_nil, Msg.bytes, wire,
        List.map_cons, List.map_nil, ofNat_mod]
  · have hd := does_rsOnCrc_ok (m := m) (by rw [hverdict]; exact hv)
    have hreply : (if s = 0 then [] else p.reply (.crc t v)) = [] := by
      rw [Party.reply, if_neg hv, ite_self]
    rw [Party.recv, if_neg hv, if_neg hv, hreply]
    have heq : rsOnCrc m = m.log (crcEvent m) := by
      rw [rsOnCrc, if_neg (by rw [hverdict]; exact hv)]
      rfl
    have hunseen : Ev.seen (crcEvent m) = none := by
      rw [hevent]
      cases hx : p.verdict t v with
      | bad => exact absurd hx hv
      | _ => rfl
    refine Did.of_does ?_ hd (loss_cases (by decide)) rfl ?_
    rotate_left
    · rw [List.filterMap_cons, hunseen]
      rfl
    rw [heq]
    exact h.log _

/-- A request. -/
theorem did_ask (h : Mirrors d s p m) (t : Nat) :
    Did d s (p.recv d (s == 0) (.ask t)) [] [] m (rsOnReq m) := by
  have hhold := h.flags.hold
  have hpend := h.flags.pend
  have hiff : (m.rd netSeat ≠ 0 ∨ m.rd resyncHold ≠ 0 ∨ m.rd rsPend ≠ 0) ↔
      ¬ ((s == 0) && !p.hold && !p.pend) = true := by
    rw [h.setup.seat, hhold, hpend]
    cases p.hold <;> cases p.pend <;> simp
  rw [Party.recv, rsOnReq]
  by_cases hc : ((s == 0) && !p.hold && !p.pend) = true
  · rw [if_pos hc, if_neg (fun hx => hiff.mp hx hc)]
    have hd : Does pendCell [] [.pend] m (((m.st rsPend 1).st rsPtmo 0).log .pend) :=
      (within_rcBad m).log .pend
    refine Did.of_does (h.pended hd ?_) hd (loss_cases (by decide)) rfl rfl
    rw [Mach.rd_log, Mach.rd_st_ne _ _ (by decide), Mach.rd_st_self]
    decide
  · rw [if_neg hc, if_pos (hiff.mpr hc)]
    exact Did.refl h

end

/-! ## STATE frames -/

section
variable {d s : Nat} {p : Party} {m m' : Mach}

theorem rd_rsRebase_tick (m : Mach) : (rsRebase m).rd tickLo = m.rd rsRLo ∧
    (rsRebase m).rd tickHi = m.rd rsRHi := by
  have hwide : ∀ a ∈ [tickLo, tickHi], ¬ area ownCrc 32 a ∧ ¬ area seatWm 8 a ∧
      ¬ area seatRing 2048 a ∧ a ∉ [resyncHold, rsToLo, rsToHi, lsWaitcLo, lsWaitcHi] := by
    unfold area
    decide
  have hkeep : ∀ a ∈ [tickLo, tickHi], (rsRebase m).rd a = (rbTick (nbRebaseHook (rsClampIsr
      (rsDisplayReset ((m.st rsPend 0).st rsPtmo 0))))).rd a := by
    intro a ha
    obtain ⟨h1, h2, h3, h4⟩ := hwide a ha
    rw [Mach.rd, rsRebase_eq]
    change (rbRelease (rbMiddle ((m.st rsPend 0).st rsPtmo 0))).rd a = _
    rw [(within_rbRelease_own _).keep a h4, rbMiddle, (within_rsClrCrc _).keep a h1,
      (within_rbWm _).keep a h2, (within_lsRingInit _).keep a h3]
  have hin : ∀ a ∈ [rsRLo, rsRHi], (nbRebaseHook (rsClampIsr (rsDisplayReset
      ((m.st rsPend 0).st rsPtmo 0)))).rd a = m.rd a := by
    have hout : ∀ a ∈ [rsRLo, rsRHi], ¬ rebaseCell a ∧ ¬ area countdown 8 a ∧
        ¬ (a = 0x32 ∨ area 0x28 5 a) ∧ a ≠ rsPtmo ∧ a ≠ rsPend := by
      unfold area
      decide
    intro a ha
    obtain ⟨h1, h2, h3, h4, h5⟩ := hout a ha
    rw [(within_nbRebaseHook _).keep a h2, (within_rsClampIsr _).keep a h1,
      (within_rsDisplayReset _).keep a h3, Mach.rd_st_ne _ _ h4, Mach.rd_st_ne _ _ h5]
  have hlo := m.rd_lt_cart (a := rsRLo) (by decide)
  have hhi := m.rd_lt_cart (a := rsRHi) (by decide)
  rw [hkeep _ (by decide), hkeep _ (by decide), rbTick]
  constructor
  · rw [Mach.rd_st_ne _ _ (by decide), Mach.rd_st_self, hin _ (by decide), cellMod_cart (by decide),
      Nat.mod_eq_of_lt hlo]
  · rw [Mach.rd_st_self, Mach.rd_st_ne _ _ (by decide), hin _ (by decide), cellMod_cart (by decide),
      Nat.mod_eq_of_lt hhi]

/-- RS_REBASE, to a tick that RS_R_LO/HI hold. -/
theorem did_rebase (hd : 1 ≤ d) (h : Setup d s m) {r : Nat}
    (hr : word (m.rd rsRLo) (m.rd rsRHi) = r % 65536) :
    Did d s (p.rebase d r) [] [.rebase (r % 65536)] m (rsRebase m) := by
  have hs := h.two
  have hdoes := does_rsRebase m
  rw [hr] at hdoes
  have hzero := rsRebase_zero m
  have hidle := allIdle_rsRebase m
  have hout : ∀ a ∈ setupCells, ¬ rebaseCell a := by decide
  obtain ⟨hlo, hhi⟩ := rd_rsRebase_tick m
  have hmark := seatMark_rsRebase m (r := 1 - s) (by omega)
  have hlt : seatMark (rsRebase m) (1 - s) < 65536 := by
    have h1 := (rsRebase m).rd_lt_cart (a := seatWm + 2 * (1 - s)) (by unfold seatWm; omega)
    have h2 := (rsRebase m).rd_lt_cart (a := seatWm + 2 * (1 - s) + 1) (by unfold seatWm; omega)
    unfold seatMark word
    omega
  rw [hr, h.delay] at hmark
  refine Did.of_does ⟨h.congr (fun a ha => hdoes.keep a (hout a ha)), ?_, ?_,
    Pages.of_idle hidle (by omega), Pages.of_idle hidle (by omega),
    ⟨hzero _ (by decide), hzero _ (by decide), fun hh => absurd hh Bool.false_ne_true⟩,
    Recs.of_cleared (fun a ha => rd_rsRebase_crc m ha)⟩ hdoes (loss_cases (by decide)) rfl rfl
  · rw [lsTick, hlo, hhi]
    exact hr
  · change seatMark (rsRebase m) (1 - s) = (r + d - 1) % 65536
    omega

/-- STATE BEGIN: the hold opens. -/
theorem did_hold (host : Bool) (h : Mirrors d s p m) {r : Nat}
    (hf : Holds m (Msg.bytes (1 - s) (.hold r))) :
    Did d s (p.recv d host (.hold r)) [] [] m (rsOnState m) := by
  have hs := h.setup.two
  have h0 : m.rd frmBuf = 5 := holds_wire hf (i := 0) (by simp)
  have h2 : m.rd (frmBuf + 2) = 0 := holds_wire hf (i := 2) (by simp)
  have h3 : m.rd (frmBuf + 3) = 0xFF := holds_wire hf (i := 3) (by simp)
  have h4 : m.rd (frmBuf + 4) = r % 256 := holds_wire hf (i := 4) (by simp)
  have h5 : m.rd (frmBuf + 5) = r / 256 % 256 := holds_wire hf (i := 5) (by simp)
  have henter := does_rsEnterHold m
  have hfrm : ∀ i < 256, (rsEnterHold m).rd (frmBuf + i) = m.rd (frmBuf + i) := by
    intro i hi
    apply henter.keep
    simp only [holdCell, area, List.mem_cons, List.not_mem_nil, or_false, resyncHold, rsToLo,
      rsToHi, ownCrc, frmBuf]
    omega
  have heq : rsOnState m = ((rsEnterHold m).st rsRLo (r % 256)).st rsRHi (r / 256 % 256) := by
    rw [rsOnState]
    dsimp only
    rw [if_neg (by omega), if_pos h3, rsCtl, if_pos h2, if_neg (by omega)]
    dsimp only
    rw [hfrm 4 (by decide), h4, hfrm 5 (by decide), h5]
  have hdoes : Does (fun a => holdCell a ∨ a = rsRLo ∨ a = rsRHi) [] [.hold] m (rsOnState m) := by
    rw [heq]
    exact ((henter.mono (T := fun a => holdCell a ∨ a = rsRLo ∨ a = rsRHi) (fun _ => Or.inl)).st _
      (Or.inr (Or.inl rfl))).st _ (Or.inr (Or.inr rfl))
  have hrd : ∀ a, a ≠ rsRLo → a ≠ rsRHi → (rsOnState m).rd a = (rsEnterHold m).rd a := by
    intro a h6 h7
    rw [heq, Mach.rd_st_ne _ _ h7, Mach.rd_st_ne _ _ h6]
  have hout : ∀ a ∈ setupCells ++ [tickLo, tickHi, rsPend],
      ¬ (holdCell a ∨ a = rsRLo ∨ a = rsRHi) := by decide
  have hring : ∀ a, area seatRing 2048 a → (rsOnState m).rd a = m.rd a := by
    intro a ha
    apply hdoes.keep
    simp only [holdCell, area, List.mem_cons, List.not_mem_nil, or_false, resyncHold, rsToLo,
      rsToHi, ownCrc, seatRing, rsRLo, rsRHi] at ha ⊢
    omega
  refine Did.of_does ⟨h.setup.congr (fun a ha => hdoes.keep a (hout a (List.mem_append_left _ ha))),
    ?_, ?_, h.own.congr (by omega) hring, h.rmt.congr (by omega) hring, ⟨?_, ?_, fun _ => ?_⟩,
    Recs.of_cleared (fun a ha => ?_)⟩ hdoes (loss_cases (by decide)) rfl rfl
  · refine (lsTick_congr (fun a ha => hdoes.keep a (hout a ?_))).trans h.tick
    exact List.mem_append_right _ (List.mem_append_left [rsPend] ha)
  · refine (seatMark_congr (by omega) (fun a ha => hdoes.keep a ?_)).trans h.mark
    simp only [holdCell, area, List.mem_cons, List.not_mem_nil, or_false, resyncHold, rsToLo,
      rsToHi, ownCrc, seatWm, rsRLo, rsRHi] at ha ⊢
    omega
  · rw [hrd _ (by decide) (by decide), rsEnterHold, Mach.rd_log,
      (within_rsClrCrc _).keep _ (by unfold area; decide), Mach.rd_st_ne _ _ (by decide),
      Mach.rd_st_ne _ _ (by decide), Mach.rd_st_self]
    change 1 % cellMod resyncHold = 1
    decide
  · exact (hdoes.keep _ (by decide)).trans h.flags.pend
  · rw [heq, Mach.rd_st_ne _ _ (by decide), Mach.rd_st_self, Mach.rd_st_self,
      cellMod_cart (by decide), cellMod_cart (by decide), Nat.mod_mod, Nat.mod_mod]
    exact word_mod r
  · have hne : a ≠ rsRLo ∧ a ≠ rsRHi := by
      simp only [area, ownCrc, rsRLo, rsRHi] at ha ⊢
      omega
    rw [hrd a hne.1 hne.2, rsEnterHold, Mach.rd_log]
    exact rd_rsClrCrc _ ha

theorem mirror_not_dl {a : Nat} (ha : mirrorCell a ∨ lossCell a) : ¬ dlCell a := by
  have hlist : ∀ a ∈ setupCells ++ [tickLo, tickHi, resyncHold, rsPend, rsRLo, rsRHi],
      ¬ dlCell a := by
    unfold dlCell
    decide
  rcases ha with (ha | ha | ha | ha | ha) | ha
  · exact hlist a (List.mem_append_left _ ha)
  · exact hlist a (List.mem_append_right _ ha)
  rotate_right
  · refine loss_cases (P := fun a => ¬ dlCell a) ?_ a ha
    unfold dlCell
    decide
  all_goals
    unfold dlCell imgCell dlScratch
    simp only [area, seatWm, seatRing, ownCrc, rsTailTbl, List.mem_cons, List.not_mem_nil, or_false,
      rngLo, rngHi, scCnt2, gameTblLo, gameTblHi, rsTmp2, rsPosLo, rsPosHi, rsTmp] at ha ⊢
    omega

/-- An image chunk, in a hold. -/
theorem did_chunk (host : Bool) (h : Mirrors d s p m) {f : List Byte} (hf : Holds m f)
    (hfit : Msg.Fits (.chunk f)) (hh : p.hold = true) :
    Did d s (p.recv d host (.chunk f)) [] [] m (rsOnState m) := by
  obtain ⟨src, q, n, rfl, hn, hn', hq⟩ := hfit
  have hhold : m.rd resyncHold ≠ 0 := by
    rw [h.flags.hold, hh]
    decide
  exact Did.still h (rsOnState_chunk hn hn' hq hhold hf).1 (fun a ha => mirror_not_dl ha) rfl

/-- STATE END: a re-base, if a hold is open. -/
theorem did_fin (hd : 1 ≤ d) (host : Bool) (h : Mirrors d s p m)
    (hf : Holds m (Msg.bytes (1 - s) .fin)) : Did d s (p.recv d host .fin) []
      (if p.hold then [.rebase (p.r % 65536)] else []) m (rsOnState m) := by
  have h0 : m.rd frmBuf = 3 := holds_wire hf (i := 0) (by simp)
  have h2 : m.rd (frmBuf + 2) = 1 := holds_wire hf (i := 2) (by simp)
  have h3 : m.rd (frmBuf + 3) = 0xFF := holds_wire hf (i := 3) (by simp)
  have hhold := h.flags.hold
  have heq : rsOnState m = if m.rd resyncHold = 0 then m else rsRebase m := by
    rw [rsOnState]
    dsimp only
    rw [if_neg (by omega), if_pos h3, rsCtl, if_neg (by omega), if_neg (not_not.mpr h2)]
  rw [heq, Party.recv]
  by_cases hh : p.hold = true
  · rw [hh] at hhold
    rw [if_pos hh, if_pos hh, if_neg (by rw [hhold]; decide)]
    exact did_rebase hd h.setup (h.flags.resume hh)
  · rw [if_neg hh, if_neg hh]
    rw [Bool.not_eq_true] at hh
    rw [hh] at hhold
    have hzero : m.rd resyncHold = 0 := hhold
    rw [if_pos hzero]
    exact Did.refl h

end

/-! ## One frame -/

/-- A message is in order: near enough, and data only in a hold. -/
def InOrder (p : Party) (x : Msg) : Prop := Near p x ∧ ∀ f, x = .chunk f → p.hold = true

/-- What the console sends back. -/
def Party.answer (p : Party) (s : Nat) (x : Msg) : List Msg := if s = 0 then [] else p.reply x

/-- What there is to see of a message. -/
def Party.news (p : Party) : Msg → List Ev
  | .crc t v => if p.verdict t v = .bad then [.onCrc (t % 65536) v .bad] else []
  | .fin => if p.hold then [.rebase (p.r % 65536)] else []
  | _ => []

section
variable {d s : Nat} {p : Party} {m : Mach}

theorem Party.answer_nil (p : Party) (s : Nat) {x : Msg} (h : p.reply x = []) :
    p.answer s x = [] := by
  rw [Party.answer, h, ite_self]

/-- A frame does to the console what its message does to the party. -/
theorem did_frame (hd : 1 ≤ d) (h : Mirrors d s p m) {x : Msg}
    (hf : Holds m (x.bytes (1 - s))) (hfit : x.Fits) (ho : InOrder p x) :
    Did d s (p.recv d (s == 0) x) (p.answer s x) (p.news x) m (sesOnframe m) := by
  have hw : Does (fun _ => False) [] [.frame (frameBytes m)] m (m.log (.frame (frameBytes m))) :=
    (Does.refl _ m).log _
  have hlog : Did d s p [] [] m (m.log (.frame (frameBytes m))) :=
    Did.still h hw (fun _ _ => id) rfl
  have hfl : Holds (m.log (.frame (frameBytes m))) (x.bytes (1 - s)) := hf
  have hl := hlog.mirrors
  rw [sesOnframe]
  cases x with
  | input t c =>
    have ht : (m.log (.frame (frameBytes m))).rd (frmBuf + 1) = ftInput := (holds_six hf).2.1
    rw [sesDispatch_input ht, Party.answer_nil p s rfl]
    exact hlog.trans (did_input _ hl hfl hfit ho.1)
  | crc t v =>
    have ht : (m.log (.frame (frameBytes m))).rd (frmBuf + 1) = ftCrc := (holds_six hf).2.1
    rw [sesDispatch_crc ht]
    exact hlog.trans (did_crc hl hfl hfit ho.1)
  | hold r =>
    have ht : (m.log (.frame (frameBytes m))).rd (frmBuf + 1) = ftState :=
      holds_wire (l := [5, ftState, 0, 0xFF, r, r / 256]) hf (i := 1) (by simp)
    rw [sesDispatch_state ht, Party.answer_nil p s rfl]
    exact hlog.trans (did_hold _ hl hfl)
  | chunk f =>
    have ht : (m.log (.frame (frameBytes m))).rd (frmBuf + 1) = ftState := by
      obtain ⟨src, q, n, rfl, hn, -⟩ := hfit
      exact (hf 1 (by rw [Msg.bytes, length_chunkFrame]; omega)).trans rfl
    rw [sesDispatch_state ht, Party.answer_nil p s rfl]
    exact hlog.trans (did_chunk _ hl hfl hfit (ho.2 f rfl))
  | fin =>
    have ht : (m.log (.frame (frameBytes m))).rd (frmBuf + 1) = ftState :=
      holds_wire (l := [3, ftState, 1, 0xFF]) hf (i := 1) (by simp)
    rw [sesDispatch_state ht, Party.answer_nil p s rfl]
    exact hlog.trans (did_fin hd _ hl hfl)
  | ask t =>
    have ht : (m.log (.frame (frameBytes m))).rd (frmBuf + 1) = ftResync :=
      holds_wire (l := [3, ftResync, t, t / 256]) hf (i := 1) (by simp)
    rw [sesDispatch_resync ht, Party.answer_nil p s rfl]
    exact hlog.trans (did_ask hl t)

end

end IntvBasketball.Duel
