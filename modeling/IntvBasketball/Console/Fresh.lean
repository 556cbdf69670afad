/-
  START after a lobby.

  Every handler but LOBBY's and ROOM's runs in the lobby as well as in a match, and
  START resets the cells it names and no others. `Left` follows what the frames of a
  lobby leave behind: a drop, an open hold, a resync marked as wanted. `fresh_iff`: the
  match starts fresh exactly if nothing is left.
-/
import IntvBasketball.Console.Frames
import IntvBasketball.Console.Lockstep

namespace IntvBasketball.Console

open Mach (Within Does Only)

/-! ## The lobby -/

/-- NET_START's zero fill, as far as the flags go; two players by default. -/
structure Booted (m : Mach) : Prop where
  zero : ∀ a ∈ flagCells, m.rd a = 0
  seat : m.rd netSeat = 0
  count : m.rd netCount ≤ 4

/-- What frames can leave behind. -/
structure Left where
  dropped : Bool
  hold : Bool
  pend : Bool
deriving DecidableEq

def Left.none : Left := ⟨false, false, false⟩

/-- A STATE control frame: BEGIN opens a hold, END closes it and answers the request. -/
def Left.ctl (l : Left) (m : Mach) : Left :=
  if m.rd (frmBuf + 2) = 0 ∧ 5 ≤ m.rd frmBuf then { l with hold := true }
  else if m.rd (frmBuf + 2) = 1 ∧ l.hold = true then { l with hold := false, pend := false }
  else l

def Left.state (l : Left) (m : Mach) : Left := if IsCtl m then l.ctl m else l

/-- The frame in FRMBUF. RESYNC asks unless a hold is open, CRC if it differs from the
    record of its tick. -/
def Left.next (l : Left) (m : Mach) : Left :=
  if m.rd (frmBuf + 1) = ftPeerLeft then { l with dropped := true }
  else if m.rd (frmBuf + 1) = ftState then l.state m
  else if m.rd (frmBuf + 1) = ftResync then { l with pend := l.pend || !l.hold }
  else if m.rd (frmBuf + 1) = ftCrc then { l with pend := l.pend || crcVerdict m = .bad }
  else l

/-- The states of a lobby from boot on, with what is left behind: between two frames the
    session code and the pump change any cell but the flags. -/
inductive Lobby (m0 : Mach) : Mach → Left → Prop where
  | boot : Lobby m0 m0 .none
  | between {m m' : Mach} {l : Left} (h : Lobby m0 m l)
      (hb : ∀ a, matchCell a → m'.rd a = m.rd a) : Lobby m0 m' l
  | frame {m : Mach} {l : Left} (h : Lobby m0 m l) (hs : ¬ IsStart m) :
      Lobby m0 (sesOnframe m) (l.next m)

/-- The flags are what `l` says, and we are nobody yet. -/
structure Shows (l : Left) (m : Mach) : Prop where
  dropped : m.rd netDropped = l.dropped.toNat
  hold : m.rd resyncHold = l.hold.toNat
  pend : m.rd rsPend = l.pend.toNat
  zero : ∀ a ∈ [peerScr, rsPtmo, lsFroze, rsToLo, rsToHi, lsWaitcLo, lsWaitcHi], m.rd a = 0
  seat : m.rd netSeat = 0
  count : m.rd netCount ≤ 4

theorem Shows.congr {l : Left} {m m' : Mach} (h : Shows l m)
    (hk : ∀ a, matchCell a → m'.rd a = m.rd a) : Shows l m' where
  dropped := by rw [hk _ (by decide), h.dropped]
  hold := by rw [hk _ (by decide), h.hold]
  pend := by rw [hk _ (by decide), h.pend]
  zero a ha := by
    have hm : ∀ a ∈ [peerScr, rsPtmo, lsFroze, rsToLo, rsToHi, lsWaitcLo, lsWaitcHi],
        matchCell a := by decide
    rw [hk _ (hm a ha), h.zero a ha]
  seat := by rw [hk _ (by decide), h.seat]
  count := by rw [hk _ (by decide)]; exact h.count

theorem Shows.within {S : Nat → Prop} {l : Left} {m m' : Mach} (h : Shows l m) (ho : Only S m m')
    (hS : ∀ a, matchCell a → ¬ S a) : Shows l m' :=
  h.congr (fun a ha => ho.keep (hS a ha))

/-! ## One frame -/

theorem matchCell_cases {P : Nat → Prop} (h : ∀ a ∈ netSeat :: netCount :: flagCells, P a) :
    ∀ a, matchCell a → P a := by
  intro a ha
  refine h a ?_
  rw [List.mem_cons, List.mem_cons]
  rcases ha with ha | ha | ha
  · exact Or.inr (Or.inr ha)
  · exact Or.inl ha
  · exact Or.inr (Or.inl ha)

theorem shows_ofPl {l : Left} {m : Mach} (h : Shows l m) :
    Shows { l with dropped := true } (ofPl m) := by
  have hk : ∀ a ∈ netSeat :: netCount :: flagCells, a ≠ netDropped →
      (ofPl m).rd a = m.rd a := by
    have hout : ∀ a ∈ netSeat :: netCount :: flagCells, a ≠ netDropped → ¬ leftArea a := by decide
    exact fun a ha hne => (within_ofPl m).keep a (hout a ha hne)
  refine ⟨ofPl_dropped m, ?_, ?_, fun a ha => ?_, ?_, ?_⟩
  · rw [hk _ (by decide) (by decide), h.hold]
  · rw [hk _ (by decide) (by decide), h.pend]
  · have hm : ∀ a ∈ [peerScr, rsPtmo, lsFroze, rsToLo, rsToHi, lsWaitcLo, lsWaitcHi],
        a ∈ netSeat :: netCount :: flagCells ∧ a ≠ netDropped := by decide
    rw [hk a (hm a ha).1 (hm a ha).2, h.zero a ha]
  · rw [hk _ (by decide) (by decide), h.seat]
  · rw [hk _ (by decide) (by decide)]
    exact h.count

/-- RS_PEND := 1, RS_PTMO := 0. -/
theorem shows_pend {l : Left} {m m' : Mach} (h : Shows l m) (ho : Only pendCell m m')
    (hp : m'.rd rsPend = 1) (ht : m'.rd rsPtmo = 0) : Shows { l with pend := true } m' := by
  have hk : ∀ a ∈ netSeat :: netCount :: flagCells, a ≠ rsPend → a ≠ rsPtmo →
      m'.rd a = m.rd a := by
    intro a _ h1 h2
    exact ho.keep (by rintro (h | h); exacts [h1 h, h2 h])
  refine ⟨?_, ?_, hp, fun a ha => ?_, ?_, ?_⟩
  · rw [hk _ (by decide) (by decide) (by decide), h.dropped]
  · rw [hk _ (by decide) (by decide) (by decide), h.hold]
  · by_cases hat : a = rsPtmo
    · rw [hat, ht]
    · have hm : ∀ a ∈ [peerScr, rsPtmo, lsFroze, rsToLo, rsToHi, lsWaitcLo, lsWaitcHi],
          a ∈ netSeat :: netCount :: flagCells ∧ a ≠ rsPend := by decide
      rw [hk a (hm a ha).1 (hm a ha).2 hat, h.zero a ha]
  · rw [hk _ (by decide) (by decide) (by decide), h.seat]
  · rw [hk _ (by decide) (by decide) (by decide)]
    exact h.count

theorem shows_rsOnReq {l : Left} {m : Mach} (h : Shows l m) :
    Shows { l with pend := l.pend || !l.hold } (rsOnReq m) := by
  unfold rsOnReq
  split
  · next hc =>
    have hsame : (l.pend || !l.hold) = l.pend := by
      rcases hc with hs | hh | hp
      · exact absurd h.seat hs
      · rw [h.hold] at hh
        cases hl : l.hold <;> simp [hl] at hh ⊢
      · rw [h.pend] at hp
        cases hl : l.pend <;> simp [hl] at hp ⊢
    rw [hsame]
    exact h
  · next hc =>
    have hnot : (l.pend || !l.hold) = true := by
      have hh := h.hold
      cases hl : l.hold
      · simp
      · rw [hl] at hh
        exact absurd (Or.inr (Or.inl (by rw [hh]; decide))) hc
    have hp : Only pendCell m (((m.st rsPend 1).st rsPtmo 0).log .pend) :=
      ((within_rcBad m).log _).only
    rw [hnot]
    refine shows_pend h hp ?_ ?_
    · rw [Mach.rd_log, Mach.rd_st_ne _ _ (by decide), Mach.rd_st_self, cellMod_cart (by decide)]
    · rw [Mach.rd_log, Mach.rd_st_self, Nat.zero_mod]

theorem shows_rsOnCrc {l : Left} {m : Mach} (h : Shows l m) :
    Shows { l with pend := l.pend || crcVerdict m = .bad } (rsOnCrc m) := by
  by_cases hv : crcVerdict m = .bad
  · have hor : (l.pend || decide (crcVerdict m = .bad)) = true := by simp [hv]
    have hlog : Shows l (m.log (crcEvent m)) := h.congr (fun _ _ => rfl)
    have hbad : rsOnCrc m = ((((m.log (crcEvent m)).st rsPend 1).st rsPtmo 0).log .pend) := by
      rw [rsOnCrc, if_pos hv]
      show rcBad (m.log (crcEvent m)) = _
      rw [rcBad, if_pos]
      rw [Mach.rd_log, Mach.rd_st_ne _ _ (by decide), Mach.rd_st_ne _ _ (by decide), hlog.seat]
    rw [hor, hbad]
    refine shows_pend hlog ((within_rcBad _).log _).only ?_ ?_
    · rw [Mach.rd_log, Mach.rd_st_ne _ _ (by decide), Mach.rd_st_self, cellMod_cart (by decide)]
    · rw [Mach.rd_log, Mach.rd_st_self, Nat.zero_mod]
  · have hor : (l.pend || decide (crcVerdict m = .bad)) = l.pend := by simp [hv]
    rw [hor, rsOnCrc, if_neg hv]
    exact h.congr (fun _ _ => rfl)

theorem shows_begin {l : Left} {m : Mach} (h : Shows l m) :
    Shows { l with hold := true } (((rsEnterHold m).st rsRLo ((rsEnterHold m).rd (frmBuf + 4))).st
      rsRHi (((rsEnterHold m).st rsRLo ((rsEnterHold m).rd (frmBuf + 4))).rd (frmBuf + 5))) := by
  have hR : Only (fun a => a = rsRLo ∨ a = rsRHi) (rsEnterHold m)
      (((rsEnterHold m).st rsRLo ((rsEnterHold m).rd (frmBuf + 4))).st rsRHi
        (((rsEnterHold m).st rsRLo ((rsEnterHold m).rd (frmBuf + 4))).rd (frmBuf + 5))) :=
    (((Does.refl _ _).st _ (Or.inl rfl)).st _ (Or.inr rfl)).only
  refine Shows.within ?_ hR (matchCell_cases (by decide))
  have hhold : ∀ a ∈ [rsToLo, rsToHi], (rsEnterHold m).rd a = 0 := by
    intro a ha
    simp only [List.mem_cons, List.not_mem_nil, or_false] at ha
    rw [rsEnterHold, Mach.rd_log]
    rcases ha with rfl | rfl
    · rw [(within_rsClrCrc _).keep _ (by decide)]
      simp [Mach.rd_st]
    · rw [(within_rsClrCrc _).keep _ (by decide)]
      simp
  have hone : (rsEnterHold m).rd resyncHold = 1 := by
    rw [rsEnterHold, Mach.rd_log, (within_rsClrCrc _).keep _ (by decide),
      Mach.rd_st_ne _ _ (by decide), Mach.rd_st_ne _ _ (by decide), Mach.rd_st_self,
      cellMod_cart (by decide)]
  have hk : ∀ a, ¬ holdCell a → (rsEnterHold m).rd a = m.rd a := (does_rsEnterHold m).keep
  refine ⟨?_, hone, ?_, fun a ha => ?_, ?_, ?_⟩
  · rw [hk _ (by decide), h.dropped]
  · rw [hk _ (by decide), h.pend]
  · by_cases hat : a ∈ [rsToLo, rsToHi]
    · exact hhold a hat
    · have hm : ∀ a ∈ [peerScr, rsPtmo, lsFroze, rsToLo, rsToHi, lsWaitcLo, lsWaitcHi],
          a ∉ [rsToLo, rsToHi] → ¬ holdCell a := by decide
      rw [hk a (hm a ha hat), h.zero a ha]
  · rw [hk _ (by decide), h.seat]
  · rw [hk _ (by decide)]
    exact h.count

theorem shows_end {l : Left} {m : Mach} (h : Shows l m) :
    Shows { l with hold := false, pend := false } (rsRebase m) := by
  have hz := rsRebase_zero m
  have hk : ∀ a, ¬ rebaseCell a → (rsRebase m).rd a = m.rd a := (does_rsRebase m).keep
  refine ⟨?_, hz _ (by decide), hz _ (by decide), fun a ha => ?_, ?_, ?_⟩
  · rw [hk _ (by decide), h.dropped]
  · by_cases hat : a ∈ [peerScr, lsFroze]
    · have hm : ∀ a ∈ [peerScr, lsFroze], ¬ rebaseCell a := by decide
      rw [hk a (hm a hat), h.zero a ha]
    · have hm : ∀ a ∈ [peerScr, rsPtmo, lsFroze, rsToLo, rsToHi, lsWaitcLo, lsWaitcHi],
          a ∉ [peerScr, lsFroze] →
          a ∈ [rsPend, rsPtmo, resyncHold, rsToLo, rsToHi, lsWaitcLo, lsWaitcHi] := by decide
      exact hz a (hm a ha hat)
  · rw [hk _ (by decide), h.seat]
  · rw [hk _ (by decide)]
    exact h.count

theorem shows_rsCtl {l : Left} {m : Mach} (h : Shows l m) : Shows (l.ctl m) (rsCtl m) := by
  unfold rsCtl Left.ctl
  by_cases h0 : m.rd (frmBuf + 2) = 0
  · rw [if_pos h0]
    by_cases h5 : m.rd frmBuf < 5
    · rw [if_pos h5, if_neg (by omega), if_neg (by omega)]
      exact h.within (within_diagBump m diagRej).only (matchCell_cases (by decide))
    · rw [if_neg h5, if_pos ⟨h0, by omega⟩]
      exact shows_begin h
  · rw [if_neg h0, if_neg (fun hc => h0 hc.1)]
    by_cases h1 : m.rd (frmBuf + 2) = 1
    · rw [if_neg (not_not.mpr h1)]
      cases hl : l.hold
      · have hh : m.rd resyncHold = 0 := by rw [h.hold, hl]; rfl
        rw [if_pos hh, if_neg (fun hc => by cases hc.2)]
        exact h
      · have hh : m.rd resyncHold ≠ 0 := by rw [h.hold, hl]; decide
        rw [if_neg hh, if_pos ⟨h1, rfl⟩]
        exact shows_end h
    · rw [if_pos h1, if_neg (fun hc => h1 hc.1)]
      exact h

theorem not_imgCell_match : ∀ a, matchCell a → ¬ (dlCell a ∨ a = diagRej) := by
  unfold dlCell
  exact matchCell_cases (by decide)

theorem shows_rsOnState {l : Left} {m : Mach} (h : Shows l m) :
    Shows (l.state m) (rsOnState m) := by
  unfold Left.state
  by_cases hc : IsCtl m
  · rw [if_pos hc, rsOnState_ctl hc]
    exact shows_rsCtl h
  · rw [if_neg hc]
    exact h.within (within_rsOnState_data hc).only not_imgCell_match

theorem state_log (l : Left) (m : Mach) (e : Ev) : l.state (m.log e) = l.state m := by
  have hc : IsCtl (m.log e) ↔ IsCtl m := Iff.rfl
  unfold Left.state
  by_cases h : IsCtl m
  · rw [if_pos h, if_pos (hc.mpr h)]
    rfl
  · rw [if_neg h, if_neg (fun h' => h (hc.mp h'))]

section
variable {l : Left} {m : Mach}

theorem next_start (ht : m.rd (frmBuf + 1) = ftStart) : l.next m = l := by
  rw [Left.next, ht]
  rfl

theorem next_peerLeft (ht : m.rd (frmBuf + 1) = ftPeerLeft) :
    l.next m = { l with dropped := true } := by
  rw [Left.next, ht]
  rfl

theorem next_crc (ht : m.rd (frmBuf + 1) = ftCrc) :
    l.next m = { l with pend := l.pend || crcVerdict m = .bad } := by
  rw [Left.next, ht]
  rfl

theorem next_state (ht : m.rd (frmBuf + 1) = ftState) :
    l.next m = l.state m := by
  rw [Left.next, ht]
  rfl

theorem next_resync (ht : m.rd (frmBuf + 1) = ftResync) :
    l.next m = { l with pend := l.pend || !l.hold } := by
  rw [Left.next, ht]
  rfl

theorem next_other (ht : m.rd (frmBuf + 1) ∉ flagTypes) : l.next m = l := by
  simp only [flagTypes, List.mem_cons, List.not_mem_nil, or_false, not_or] at ht
  rw [Left.next, if_neg ht.2.1, if_neg ht.2.2.2.1, if_neg ht.2.2.2.2, if_neg ht.2.2.1]

end

/-- One frame of a lobby. -/
theorem shows_sesOnframe {l : Left} {m : Mach} (h : Shows l m) (hs : ¬ IsStart m) :
    Shows (l.next m) (sesOnframe m) := by
  have hlog : Shows l (m.log (.frame (frameBytes m))) := h.congr (fun _ _ => rfl)
  by_cases ht : m.rd (frmBuf + 1) ∈ flagTypes
  · simp only [flagTypes, List.mem_cons, List.not_mem_nil, or_false] at ht
    rcases ht with ht | ht | ht | ht | ht
    · have hd : sesOnframe m = m.log (.frame (frameBytes m)) :=
        sesDispatch_shortStart (m := m.log (.frame (frameBytes m))) ht hs
      rw [next_start ht, hd]
      exact hlog
    · have hd : sesOnframe m = ofPl (m.log (.frame (frameBytes m))) :=
        sesDispatch_peerLeft (m := m.log (.frame (frameBytes m))) ht
      rw [next_peerLeft ht, hd]
      exact shows_ofPl hlog
    · have hd : sesOnframe m = rsOnCrc (m.log (.frame (frameBytes m))) :=
        sesDispatch_crc (m := m.log (.frame (frameBytes m))) ht
      rw [next_crc ht, hd]
      exact shows_rsOnCrc hlog
    · have hd : sesOnframe m = rsOnState (m.log (.frame (frameBytes m))) :=
        sesDispatch_state (m := m.log (.frame (frameBytes m))) ht
      rw [next_state ht, hd, ← state_log l m (.frame (frameBytes m))]
      exact shows_rsOnState hlog
    · have hd : sesOnframe m = rsOnReq (m.log (.frame (frameBytes m))) :=
        sesDispatch_resync (m := m.log (.frame (frameBytes m))) ht
      rw [next_resync ht, hd]
      exact shows_rsOnReq hlog
  · rw [next_other ht]
    exact hlog.congr (fun a ha => sesDispatch_flags hlog.count ht ha)

theorem shows_lobby {m0 m : Mach} {l : Left} (h0 : Booted m0) (h : Lobby m0 m l) :
    Shows l m := by
  induction h with
  | boot =>
    have hz : ∀ a ∈ flagCells, m0.rd a = 0 := h0.zero
    refine ⟨?_, ?_, ?_, fun a ha => h0.zero a ?_, h0.seat, h0.count⟩
    · exact hz netDropped (by decide)
    · exact hz resyncHold (by decide)
    · exact hz rsPend (by decide)
    · have hm : ∀ a ∈ [peerScr, rsPtmo, lsFroze, rsToLo, rsToHi, lsWaitcLo, lsWaitcHi],
          a ∈ flagCells := by decide
      exact hm a ha
  | between _ hb ih => exact ih.congr hb
  | frame _ hs ih => exact shows_sesOnframe ih hs

/-! ## START -/

/-- A fresh match for the START in FRMBUF of `p`: every flag 0, the rest as START sets it
    up, and the first LS_PASS plays tick 0. -/
structure Fresh (p m : Mach) : Prop extends Armed p m where
  zero : ∀ a ∈ flagCells, m.rd a = 0
  due : lsDue m = true
  first : lsTick m = 0

/-- START itself touches no flag. -/
theorem flag_ofStart (m : Mach) {a : Nat} (ha : a ∈ flagCells) : (ofStart m).rd a = m.rd a := by
  have hout : ∀ a ∈ flagCells, ¬ startArea a := by decide
  exact (within_ofStart m).keep a (hout a ha)

theorem sesOnframe_start {m : Mach} (hs : IsStart m) :
    sesOnframe m = ofStart (m.log (.frame (frameBytes m))) := sesDispatch_start hs.1

/-- After a lobby, START begins a fresh match exactly if no frame left a drop, an open
    hold or a request behind. -/
theorem fresh_iff {m0 m : Mach} {l : Left} (h0 : Booted m0) (h : Lobby m0 m l) (hs : IsStart m) :
    Fresh m (sesOnframe m) ↔ l = Left.none := by
  have hsh := shows_lobby h0 h
  have hflag : ∀ a ∈ flagCells, (sesOnframe m).rd a = m.rd a := by
    intro a ha
    rw [sesOnframe_start hs, flag_ofStart _ ha, Mach.rd_log]
  constructor
  · intro hf
    have hd := hf.zero netDropped (by decide)
    have hh := hf.zero resyncHold (by decide)
    have hp := hf.zero rsPend (by decide)
    rw [hflag _ (by decide), hsh.dropped] at hd
    rw [hflag _ (by decide), hsh.hold] at hh
    rw [hflag _ (by decide), hsh.pend] at hp
    obtain ⟨d, o, q⟩ := l
    cases d <;> cases o <;> cases q <;> first | rfl | simp at hd hh hp
  · rintro rfl
    have hzero : ∀ a ∈ flagCells, (sesOnframe m).rd a = 0 := by
      intro a ha
      have hsplit : ∀ a ∈ flagCells, a = netDropped ∨ a = resyncHold ∨ a = rsPend ∨
          a ∈ [peerScr, rsPtmo, lsFroze, rsToLo, rsToHi, lsWaitcLo, lsWaitcHi] := by decide
      rw [hflag a ha]
      rcases hsplit a ha with rfl | rfl | rfl | hz
      · exact hsh.dropped
      · exact hsh.hold
      · exact hsh.pend
      · exact hsh.zero a hz
    have harm : Armed m (sesOnframe m) := by
      have := armed_ofStart (m := m.log (.frame (frameBytes m))) hs.2
      rw [sesOnframe_start hs]
      exact ⟨this.seat, this.count, this.delay, this.rings, this.crc, this.wm, this.tick,
        this.active⟩
    refine ⟨harm, hzero, ?_, ?_⟩
    · have h1 := hzero peerScr (by decide)
      have h2 := hzero netDropped (by decide)
      have h3 := hzero resyncHold (by decide)
      rw [lsDue, h1, h2, h3]
      rfl
    · rw [lsTick, harm.tick.1, harm.tick.2]
      rfl

/-- Two fresh matches with one payload agree on every cell START and LS_PASS steer by. -/
theorem Fresh.agree {p p' m m' : Mach} (h : Fresh p m) (h' : Fresh p' m')
    (hpay : ∀ i, 2 ≤ i → i ≤ 6 → p'.rd (frmBuf + i) = p.rd (frmBuf + i)) :
    ∀ a, a ∈ flagCells ∨ a ∈ [netSeat, netCount, netDelay, tickLo, tickHi, netActive] ∨
      area seatRing 1024 a ∨ area seatKp 1024 a ∨ area ownCrc 32 a ∨ area seatWm 8 a →
      m'.rd a = m.rd a := by
  intro a ha
  rcases ha with ha | ha | ha | ha | ha | ha
  · rw [h.zero a ha, h'.zero a ha]
  · simp only [List.mem_cons, List.not_mem_nil, or_false] at ha
    rcases ha with rfl | rfl | rfl | rfl | rfl | rfl
    · rw [h.seat, h'.seat, hpay 2 (by omega) (by omega)]
    · rw [h.count, h'.count, hpay 3 (by omega) (by omega)]
    · rw [h.delay, h'.delay, hpay 6 (by omega) (by omega)]
    · rw [h.tick.1, h'.tick.1]
    · rw [h.tick.2, h'.tick.2]
    · rw [h.active, h'.active]
  · rw [(h.rings a).1 ha, (h'.rings a).1 ha]
  · rw [(h.rings a).2 ha, (h'.rings a).2 ha]
  · rw [h.crc a ha, h'.crc a ha]
  · unfold area at ha
    have hw := h.wm ((a - seatWm) / 2) (by omega)
    have hw' := h'.wm ((a - seatWm) / 2) (by omega)
    rw [hpay 6 (by omega) (by omega)] at hw'
    by_cases he : (a - seatWm) % 2 = 0
    · rw [show a = seatWm + 2 * ((a - seatWm) / 2) by omega, hw.1, hw'.1]
    · rw [show a = seatWm + 2 * ((a - seatWm) / 2) + 1 by omega, hw.2, hw'.2]

/-- A frame in FRMBUF. -/
def frameIn (m : Mach) (f : List Nat) : Mach := m.stList frmBuf f

theorem lobby_frameIn {m0 m : Mach} {l : Left} (h : Lobby m0 m l) {f : List Nat}
    (hf : f.length ≤ 100) : Lobby m0 (frameIn m f) l := by
  have hkeep : Only (area frmBuf 100) m (frameIn m f) :=
    ((Does.refl _ m).stList (fun b h1 h2 => ⟨h1, by omega⟩)).only
  refine .between h (matchCell_cases (fun a ha => hkeep.keep ?_))
  have hout : ∀ a ∈ netSeat :: netCount :: flagCells, ¬ area frmBuf 100 a := by decide
  exact hout a ha

theorem booted_zero : Booted Mach.zero := ⟨fun _ _ => rfl, rfl, Nat.zero_le _⟩

/-- START for a host and one guest, delay 3. -/
def startFrame : List Nat := [38, ftStart, 0, 2, 0x34, 0x12, 3] ++ List.replicate 32 0x41

/-- PEER_LEFT for seat 0. -/
def peerLeftFrame : List Nat := 10 :: ftPeerLeft :: List.replicate 9 0

/-- STATE BEGIN in FRMBUF, at boot. -/
def holdOpens : Mach := frameIn Mach.zero [5, ftState, 0, 0xFF, 16, 0]

/-- And END, once it is dispatched. -/
def holdCloses : Mach := frameIn (sesOnframe holdOpens) [3, ftState, 1, 0xFF]

/-- BEGIN opens a hold in the lobby, and END closes it before START. -/
theorem fresh_iff_held : (sesOnframe holdOpens).rd resyncHold = 1 ∧
    Fresh (frameIn (sesOnframe holdCloses) startFrame)
      (sesOnframe (frameIn (sesOnframe holdCloses) startFrame)) := by
  have hfacts : (sesOnframe holdOpens).rd resyncHold = 1 ∧
      ¬ IsStart holdOpens ∧ ¬ IsStart holdCloses ∧
      IsStart (frameIn (sesOnframe holdCloses) startFrame) ∧
      (Left.none.next holdOpens).next holdCloses = Left.none := by
    decide +kernel
  obtain ⟨hhold, h1, h2, hstart, hleft⟩ := hfacts
  have hopened : Lobby Mach.zero (sesOnframe holdOpens) (Left.none.next holdOpens) :=
    .frame (lobby_frameIn .boot (by decide)) h1
  have hclosed : Lobby Mach.zero (sesOnframe holdCloses)
      ((Left.none.next holdOpens).next holdCloses) :=
    .frame (lobby_frameIn hopened (by decide)) h2
  refine ⟨hhold, ?_⟩
  exact (fresh_iff booted_zero (lobby_frameIn hclosed (by decide)) hstart).mpr hleft

/-- A PEER_LEFT seen in the lobby ends the match that START begins. -/
theorem left_ends_next_match :
    ¬ ∀ (m0 m : Mach) (l : Left), Booted m0 → Lobby m0 m l → IsStart m →
      Fresh m (sesOnframe m) := by
  intro hall
  have hl : Lobby Mach.zero (frameIn (sesOnframe (frameIn Mach.zero peerLeftFrame)) startFrame)
      (Left.none.next (frameIn Mach.zero peerLeftFrame)) := by
    refine lobby_frameIn (.frame (lobby_frameIn .boot (by decide)) ?_) (by decide)
    decide +kernel
  have hf := hall _ _ _ booted_zero hl (by decide +kernel)
  have hdrop : (sesOnframe (frameIn (sesOnframe (frameIn Mach.zero peerLeftFrame))
      startFrame)).rd netDropped = 1 := by decide +kernel
  have hzero := hf.zero netDropped (by decide)
  rw [hdrop] at hzero
  cases hzero

end IntvBasketball.Console
