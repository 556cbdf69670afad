/-
  What a console has heard of a match.

  `Heard` is read off the events since START: the ticks played, the tick the watermark of
  each seat stands for, and the INPUTs that were taken. Its ticks count up without
  wrapping. On the wire and in RAM they are 16 bits wide; an INPUT is for the tick that
  many ahead of its seat's watermark, and at 32768 or more it counts as behind.

  `follows_steps` is the invariant rule for runs without a resync: a property of the cells
  and of this history that looks at `trackCell`s only holds along such a run if INPUT and
  the tick keep it (`Lawful`).
-/
import IntvBasketball.Lib.Serial
import IntvBasketball.Console.Ending

namespace IntvBasketball.Console

open Mach (Within Does Only Mute)
open Relation (ReflTransGen)
open Lib (ahead)

/-! ## The history -/

/-- An INPUT that was taken: its seat, the tick it is for, and the two cells. -/
structure Taken where
  seat : Nat
  tick : Nat
  dec : Nat
  kp : Nat
deriving DecidableEq, Repr

structure Heard where
  ticks : Nat
  wm : Nat → Nat
  got : List Taken

/-- At START with delay `d`. -/
def Heard.start (d : Nat) : Heard := ⟨0, fun _ => d - 1, []⟩

def Heard.take (h : Heard) (i : Taken) : Heard :=
  { h with wm := Function.update h.wm i.seat i.tick, got := h.got ++ [i] }

def byteAt (f : List Byte) (i : Nat) : Nat := (f.getD i 0).toNat

/-- A frame, for seat `s` of `n`. -/
def Heard.input (s n : Nat) (h : Heard) (f : List Byte) : Heard :=
  let r := byteAt f 2
  let δ := ahead 65536 (h.wm r) (word (byteAt f 3) (byteAt f 4))
  if byteAt f 1 = ftInput ∧ 6 ≤ byteAt f 0 ∧ r ≠ s ∧ r < n ∧ 0 < δ ∧ δ < 32768 then
    h.take ⟨r, h.wm r + δ, byteAt f 5, byteAt f 6⟩
  else h

def Heard.step (s n : Nat) (h : Heard) : Ev → Heard
  | .frame f => h.input s n f
  | .tick .. => { h with ticks := h.ticks + 1 }
  | _ => h

def heard (s n d : Nat) (l : List Ev) : Heard := l.foldl (Heard.step s n) (Heard.start d)

theorem heard_append (s n d : Nat) (l l' : List Ev) :
    heard s n d (l ++ l') = l'.foldl (Heard.step s n) (heard s n d l) := List.foldl_append

/-- Events that leave a history as it is. -/
def Idles (s n : Nat) (l : List Ev) : Prop := ∀ e ∈ l, ∀ h : Heard, h.step s n e = h

theorem idles_quiet {s n : Nat} {l : List Ev} (hl : ∀ e ∈ l, e.quiet = true) : Idles s n l := by
  intro e he h
  have hq := hl e he
  cases e <;> first | rfl | cases hq

theorem Idles.foldl {s n : Nat} {l : List Ev} (hl : Idles s n l) (h : Heard) :
    l.foldl (Heard.step s n) h = h := by
  induction l generalizing h with
  | nil => rfl
  | cons e l ih =>
    rw [List.foldl_cons, hl e List.mem_cons_self]
    exact ih (fun e' he' => hl e' (List.mem_cons_of_mem _ he')) h

theorem byteAt_frameBytes {m : Mach} {i : Nat} (hi : i ≤ m.rd frmBuf) :
    byteAt (frameBytes m) i = m.rd (frmBuf + i) := by
  have hb := m.rd_lt_cart (a := frmBuf + i) (Nat.le_trans (by decide) (Nat.le_add_right _ _))
  have hlen : i < (frameBytes m).length := by
    rw [frameBytes, List.length_map, List.length_range]
    omega
  rw [byteAt, List.getD_eq_getElem _ _ hlen]
  simp only [frameBytes, List.getElem_map, List.getElem_range]
  exact UInt8.toNat_ofNat_of_lt' hb

/-- A frame of another type is not an INPUT. -/
theorem idles_frame {s n : Nat} {m : Mach} (ht : m.rd (frmBuf + 1) ≠ ftInput) :
    Idles s n [.frame (frameBytes m)] := by
  intro e he h
  rw [List.mem_singleton.mp he, Heard.step, Heard.input]
  refine if_neg (fun hc => ht ?_)
  have hlen : 6 ≤ m.rd frmBuf := by
    have h0 := byteAt_frameBytes (m := m) (Nat.zero_le _)
    rw [Nat.add_zero] at h0
    rw [← h0]
    exact hc.2.1
  rw [← byteAt_frameBytes (by omega)]
  exact hc.1

/-! ## The match a START begins -/

/-- The events behind the START that was in FRMBUF of `p`. -/
def since (p m : Mach) : List Ev := m.ev.drop (p.ev.length + 1)

/-- What has been heard since. -/
def soFar (p m : Mach) : Heard :=
  heard (p.rd (frmBuf + 2)) (p.rd (frmBuf + 3)) (p.rd (frmBuf + 6)) (since p m)

/-- Part of a resync. -/
def Ev.resync : Ev → Bool
  | .hold => true
  | .rebase _ => true
  | _ => false

/-- Neither a drop nor a resync so far. -/
def Calm (p m : Mach) : Prop := m.rd netDropped = 0 ∧ ∀ e ∈ since p m, e.resync = false

/-- A START for one of at most four seats. -/
structure FourSeats (p : Mach) : Prop where
  start : IsStart p
  seat : p.rd (frmBuf + 2) < 4
  count : p.rd (frmBuf + 3) ≤ 4

/-- In the match it begins. -/
structure InMatch (p m : Mach) : Prop where
  log : ∃ new, m.ev = p.ev ++ .frame (frameBytes p) :: new
  seat : m.rd netSeat = p.rd (frmBuf + 2)
  count : m.rd netCount = p.rd (frmBuf + 3)
  delay : m.rd netDelay = p.rd (frmBuf + 6)

namespace InMatch
variable {p m m' : Mach} {l : List Ev}

theorem since_append (h : InMatch p m) (hev : m'.ev = m.ev ++ l) : since p m' = since p m ++ l := by
  obtain ⟨new, hnew⟩ := h.log
  rw [since, since, hev, List.drop_append_of_le_length]
  rw [hnew, List.length_append, List.length_cons]
  omega

theorem next (h : InMatch p m) (hev : m'.ev = m.ev ++ l)
    (hk : ∀ a ∈ [netSeat, netCount, netDelay], m'.rd a = m.rd a) : InMatch p m' where
  log := by
    obtain ⟨new, hnew⟩ := h.log
    exact ⟨new ++ l, by rw [hev, hnew, List.append_assoc, List.cons_append]⟩
  seat := (hk _ (by simp)).trans h.seat
  count := (hk _ (by simp)).trans h.count
  delay := (hk _ (by simp)).trans h.delay

theorem calm_of (h : InMatch p m) (hev : m'.ev = m.ev ++ l)
    (hd : m'.rd netDropped = 0 → m.rd netDropped = 0) (hc : Calm p m') : Calm p m := by
  refine ⟨hd hc.1, fun e he => hc.2 e ?_⟩
  rw [h.since_append hev]
  exact List.mem_append_left _ he

theorem not_calm (h : InMatch p m) (hev : m'.ev = m.ev ++ l) {e : Ev} (he : e ∈ l)
    (hr : e.resync = true) : ¬ Calm p m' := by
  intro hc
  have hmem : e ∈ since p m' := by
    rw [h.since_append hev]
    exact List.mem_append_right _ he
  rw [hc.2 e hmem] at hr
  cases hr

theorem soFar_append (h : InMatch p m) (hev : m'.ev = m.ev ++ l) :
    soFar p m' = l.foldl (Heard.step (p.rd (frmBuf + 2)) (p.rd (frmBuf + 3))) (soFar p m) := by
  rw [soFar, soFar, h.since_append hev, heard_append]

theorem soFar_idle (h : InMatch p m) (hev : m'.ev = m.ev ++ l)
    (hl : Idles (p.rd (frmBuf + 2)) (p.rd (frmBuf + 3)) l) : soFar p m' = soFar p m := by
  rw [h.soFar_append hev, hl.foldl]

end InMatch

/-! ## The invariant rule -/

/-- The pages of seat `s` in the rings. -/
def pageCell (s a : Nat) : Prop := area (seatRing + s * 256) 256 a ∨ area (seatKp + s * 256) 256 a

/-- The match set-up, the tick, the watermarks, and the rings of every seat but `s`. -/
def trackCell (s a : Nat) : Prop :=
  a ∈ [netSeat, netCount, netDelay, tickLo, tickHi] ∨ area seatWm 8 a ∨
    (area seatRing 2048 a ∧ ¬ pageCell s a)

theorem steerCell_of_track {s a : Nat} (h : trackCell s a) : steerCell a := by
  rcases h with h | h | h
  · have hin : ∀ a ∈ [netSeat, netCount, netDelay, tickLo, tickHi], steerCell a := by decide
    exact hin a h
  · exact Or.inr (Or.inr (Or.inr h))
  · exact Or.inr (Or.inr (Or.inl h.1))

/-- `P` looks at `trackCell`s only, INPUT and the tick keep it, and there is no other START. -/
structure Lawful (p : Mach) (ok : Mach → Prop) (P : Mach → Heard → Prop) : Prop where
  alone {m : Mach} : ok m → ¬ IsStart m
  congr {m m' : Mach} {h : Heard} :
    (∀ a, trackCell (p.rd (frmBuf + 2)) a → m'.rd a = m.rd a) → P m h → P m' h
  input {m : Mach} {h : Heard} : InMatch p m → ok m → m.rd (frmBuf + 1) = ftInput → P m h →
    P (ofInput (m.log (.frame (frameBytes m))))
      (h.input (p.rd (frmBuf + 2)) (p.rd (frmBuf + 3)) (frameBytes m))
  tick {m m' : Mach} {h : Heard} : InMatch p m → lsOpen m = true →
    lsTick m' = (lsTick m + 1) % 65536 →
    (∀ a, trackCell (p.rd (frmBuf + 2)) a → a ≠ tickLo → a ≠ tickHi → m'.rd a = m.rd a) →
    P m h → P m' { h with ticks := h.ticks + 1 }

/-- In the match, and `P` of the history as long as it is calm. -/
def Follows (p : Mach) (P : Mach → Heard → Prop) (m : Mach) : Prop :=
  InMatch p m ∧ (Calm p m → P m (soFar p m))

section
variable {p m m' : Mach} {ok : Mach → Prop} {P : Mach → Heard → Prop} {l : List Ev}

/-- Nothing happens to what `P` looks at. -/
theorem Follows.still (hL : Lawful p ok P) (h : Follows p P m) (hev : m'.ev = m.ev ++ l)
    (hl : Idles (p.rd (frmBuf + 2)) (p.rd (frmBuf + 3)) l)
    (hk : ∀ a, trackCell (p.rd (frmBuf + 2)) a → m'.rd a = m.rd a)
    (hd : m'.rd netDropped = 0 → m.rd netDropped = 0) : Follows p P m' := by
  have hin : ∀ a ∈ [netSeat, netCount, netDelay], m'.rd a = m.rd a := by
    intro a ha
    refine hk a (Or.inl ?_)
    simp only [List.mem_cons, List.not_mem_nil, or_false] at ha ⊢
    tauto
  refine ⟨h.1.next hev hin, fun hc => ?_⟩
  rw [h.1.soFar_idle hev hl]
  exact hL.congr hk (h.2 (h.1.calm_of hev hd hc))

/-- Quiet work on other cells. -/
theorem Follows.mute (hL : Lawful p ok P) (h : Follows p P m) {S : Nat → Prop} (ho : Mute S m m')
    (hS : ∀ a, S a → ¬ trackCell (p.rd (frmBuf + 2)) a)
    (hd : m'.rd netDropped = 0 → m.rd netDropped = 0) : Follows p P m' := by
  obtain ⟨tx, ev, hdoes, hq⟩ := ho
  exact h.still hL hdoes.ev_eq (idles_quiet hq) (fun a ha => hdoes.keep a (fun hs => hS a hs ha)) hd

end

/-! ## Frames -/

theorem steerCell_not_img {a : Nat} (h : steerCell a) : ¬ imgCell a := by
  have hhigh := steerCell_high h
  have htail : ∀ a ∈ rsTailTbl, ¬ steerCell a := by decide
  rintro (hi | hi | hi | hi)
  · omega
  · omega
  · omega
  · exact htail a hi h

/-- STATE holds, re-bases, or leaves what steers a match alone. -/
theorem rsOnState_steer (m : Mach) :
    (∃ e, (rsOnState m).ev = m.ev ++ [e] ∧ e.resync = true) ∨
      ((rsOnState m).ev = m.ev ∧ ∀ a, steerCell a → (rsOnState m).rd a = m.rd a) := by
  have hrej : ∀ a, steerCell a → (diagBump m diagRej).rd a = m.rd a := by
    intro a ha
    refine (within_diagBump m diagRej).keep a ?_
    rintro rfl
    revert ha
    decide
  by_cases hc : IsCtl m
  · rw [rsOnState_ctl hc, rsCtl]
    split_ifs
    · exact Or.inr ⟨by rw [(within_diagBump m diagRej).ev_eq, List.append_nil], hrej⟩
    · exact Or.inl ⟨.hold, (does_rsEnterHold m).ev_eq, rfl⟩
    · exact Or.inr ⟨rfl, fun _ _ => rfl⟩
    · exact Or.inr ⟨rfl, fun _ _ => rfl⟩
    · exact Or.inl ⟨_, (does_rsRebase m).ev_eq, rfl⟩
  · have hw := within_rsOnState_data hc
    refine Or.inr ⟨by rw [hw.ev_eq, List.append_nil], fun a ha => hw.keep a ?_⟩
    have hout : ∀ a ∈ [rsTmp2, rsPosLo, rsPosHi, rsTmp, diagRej], ¬ steerCell a := by decide
    rintro ((hi | hs) | rfl)
    · exact steerCell_not_img ha hi
    · refine hout a ?_ ha
      simp only [dlScratch, List.mem_cons, List.not_mem_nil, or_false] at hs ⊢
      tauto
    · exact hout _ (by decide) ha

/-- LOBBY, ROOM and what SES_ONFRAME ignores do nothing else. -/
theorem ev_sesDispatch_other {m : Mach} (ht : m.rd (frmBuf + 1) ∉ ftInput :: flagTypes) :
    (sesDispatch m).ev = m.ev ++ [] := by
  simp only [flagTypes, List.mem_cons, List.not_mem_nil, or_false, not_or] at ht
  obtain ⟨t0, t1, t2, t3, t4, t5⟩ := ht
  unfold sesDispatch
  dsimp only
  rw [if_neg t0, if_neg t1, if_neg t2, if_neg t3, if_neg t4, if_neg t5]
  split_ifs
  · exact (within_ofLobby m).ev_eq
  · exact (within_ofRoom m).ev_eq
  · exact (List.append_nil _).symm

section
variable {p m m' : Mach} {ok : Mach → Prop} {P : Mach → Heard → Prop} {l : List Ev}

/-- Nothing happens to what steers a match. -/
theorem Follows.steady (hL : Lawful p ok P) (h : Follows p P m) (hev : m'.ev = m.ev ++ l)
    (hl : Idles (p.rd (frmBuf + 2)) (p.rd (frmBuf + 3)) l)
    (hk : ∀ a, steerCell a → m'.rd a = m.rd a) : Follows p P m' :=
  h.still hL hev hl (fun a ha => hk a (steerCell_of_track ha))
    (fun hd => (hk netDropped (by decide)).symm.trans hd)

theorem follows_ofPl (h : Follows p P m) : Follows p P (ofPl m) := by
  have hout : ∀ a ∈ [netSeat, netCount, netDelay], ¬ leftArea a := by decide
  refine ⟨h.1.next (within_ofPl m).ev_eq (fun a ha => (within_ofPl m).keep a (hout a ha)), ?_⟩
  intro hc
  have hd := hc.1
  rw [ofPl_dropped] at hd
  cases hd

theorem track_not_pend {s a : Nat} (h : pendCell a) : ¬ trackCell s a := by
  intro ht
  simp only [trackCell, area, List.mem_cons, List.not_mem_nil, or_false, netSeat, netCount,
    netDelay, tickLo, tickHi, seatWm, seatRing] at ht
  simp only [pendCell, rsPend, rsPtmo] at h
  omega

theorem follows_rsOnCrc (hL : Lawful p ok P) (h : Follows p P m) : Follows p P (rsOnCrc m) := by
  obtain ⟨tx, ev, hd, hev⟩ := does_rsOnCrc m
  refine h.mute hL ⟨tx, ev, hd, ?_⟩ (fun a => track_not_pend) (fun h0 => ?_)
  · rcases hev with rfl | rfl <;> simp [crcEvent, Ev.quiet]
  · rwa [hd.keep _ (by decide)] at h0

theorem follows_rsOnReq (hL : Lawful p ok P) (h : Follows p P m) : Follows p P (rsOnReq m) := by
  obtain ⟨ev, hd, hev⟩ := does_rsOnReq m
  refine h.mute hL ⟨[], ev, hd, ?_⟩ (fun a => track_not_pend) (fun h0 => ?_)
  · rcases hev with rfl | rfl <;> simp [Ev.quiet]
  · rwa [hd.keep _ (by decide)] at h0

theorem follows_rsOnState (hL : Lawful p ok P) (h : Follows p P m) : Follows p P (rsOnState m) := by
  rcases rsOnState_steer m with ⟨e, hev, hr⟩ | ⟨hev, hk⟩
  · have hfix : ∀ a ∈ [netSeat, netCount, netDelay], (rsOnState m).rd a = m.rd a := by
      have hout : ∀ a ∈ [netSeat, netCount, netDelay], ¬ stateCell a := by
        unfold stateCell dlCell
        decide
      obtain ⟨ev, hd, -⟩ := does_rsOnState m
      exact fun a ha => hd.keep a (hout a ha)
    exact ⟨h.1.next hev hfix, fun hc => absurd hc (h.1.not_calm hev (by simp) hr)⟩
  · exact h.steady hL (hev.trans (List.append_nil _).symm) (idles_quiet nofun) hk

/-- A frame other than START. -/
theorem follows_sesOnframe (hL : Lawful p ok P) (hp : FourSeats p) (hok : ok m)
    (h : Follows p P m) : Follows p P (sesOnframe m) := by
  have hs : ¬ IsStart m := hL.alone hok
  have hcount : (m.log (.frame (frameBytes m))).rd netCount ≤ 4 := by
    rw [Mach.rd_log, h.1.count]
    exact hp.count
  by_cases hi : m.rd (frmBuf + 1) = ftInput
  · rw [sesOnframe, sesDispatch_input (m := m.log _) hi]
    have hev : (ofInput (m.log (.frame (frameBytes m)))).ev = m.ev ++ [.frame (frameBytes m)] := by
      rw [(within_ofInput _).ev_eq, List.append_nil, Mach.ev_log]
    have hk : ∀ a ∈ [netSeat, netCount, netDelay, netDropped],
        (ofInput (m.log (.frame (frameBytes m)))).rd a = m.rd a := by
      intro a ha
      have hout : ∀ a ∈ [netSeat, netCount, netDelay, netDropped], ¬ inputArea a := by
        unfold inputArea
        decide
      exact ofInput_keep hcount (hout a ha)
    refine ⟨h.1.next hev (fun a ha => hk a ?_), fun hc => ?_⟩
    · simp only [List.mem_cons, List.not_mem_nil, or_false] at ha ⊢
      tauto
    · rw [h.1.soFar_append hev]
      have hd := hk netDropped (by decide)
      exact hL.input h.1 hok hi (h.2 (h.1.calm_of hev (fun h0 => hd.symm.trans h0) hc))
  · have hlog : Follows p P (m.log (.frame (frameBytes m))) :=
      h.steady hL rfl (idles_frame hi) (fun _ _ => rfl)
    unfold sesOnframe
    by_cases ht : m.rd (frmBuf + 1) ∈ flagTypes
    · simp only [flagTypes, List.mem_cons, List.not_mem_nil, or_false] at ht
      rcases ht with ht | ht | ht | ht | ht
      · rw [sesDispatch_shortStart (m := m.log _) ht hs]
        exact hlog
      · rw [sesDispatch_peerLeft (m := m.log _) ht]
        exact follows_ofPl hlog
      · rw [sesDispatch_crc (m := m.log _) ht]
        exact follows_rsOnCrc hL hlog
      · rw [sesDispatch_state (m := m.log _) ht]
        exact follows_rsOnState hL hlog
      · rw [sesDispatch_resync (m := m.log _) ht]
        exact follows_rsOnReq hL hlog
    · have hno : (m.log (.frame (frameBytes m))).rd (frmBuf + 1) ∉ ftInput :: flagTypes := by
        rw [List.mem_cons, not_or]
        exact ⟨hi, ht⟩
      exact hlog.steady hL (ev_sesDispatch_other hno)
        (idles_quiet (fun _ h => absurd h List.not_mem_nil))
        (fun a ha => sesDispatch_other hno ha)

theorem track_not_pump {s a : Nat} (h : pumpCell a) : ¬ trackCell s a := by
  intro ht
  simp only [trackCell, area, List.mem_cons, List.not_mem_nil, or_false, netSeat, netCount,
    netDelay, tickLo, tickHi, seatWm, seatRing] at ht
  simp only [pumpCell, parserCell, area, rxWr, rxRd, diagSlip, rxAcc, frmBuf] at h
  omega

/-- The parse loop, at every frame it enters SES_ONFRAME with and at its end. -/
theorem follows_ppLoop (hL : Lawful p ok P) (hp : FourSeats p) {fuel : Nat}
    (hf : ∀ me ∈ ppEntries fuel m, ok me) (h : Follows p P m) :
    (∀ me ∈ ppEntries fuel m, Follows p P me) ∧
      ∀ m', ppLoop fuel m = some m' → Follows p P m' := by
  refine ppLoop_mute (fun m1 m2 ho h1 => ?_) fuel m (fun me hme => ?_) h
  · refine h1.mute hL ho (fun a => track_not_pump) (fun h0 => ?_)
    rwa [ho.keep (by decide)] at h0
  · exact follows_sesOnframe hL hp (hf me hme)

theorem follows_sesPump (hL : Lawful p ok P) (hp : FourSeats p) {got : List Byte}
    (hf : ∀ me ∈ ppEntries ppFuel (ppCp m got), ok me) (h : Follows p P m) :
    (∀ me ∈ ppEntries ppFuel (ppCp m got), Follows p P me) ∧
      ∀ m', sesPump m got = some m' → Follows p P m' := by
  refine follows_ppLoop hL hp hf ?_
  have ho := mute_ppCp m got
  refine h.mute hL ho (fun a => track_not_pump) (fun h0 => ?_)
  rwa [ho.keep (by decide)] at h0

/-! ## The pass -/

/-- The calm is over with NET_DROPPED. -/
theorem Follows.dropped (h : Follows p P m) (hd : m'.rd netDropped ≠ 0) (hev : m'.ev = m.ev ++ l)
    (hk : ∀ a ∈ [netSeat, netCount, netDelay], m'.rd a = m.rd a) : Follows p P m' :=
  ⟨h.1.next hev hk, fun hc => absurd hc.1 hd⟩

theorem follows_lsCapture (hL : Lawful p ok P) (hp : FourSeats p) (h : Follows p P m) :
    Follows p P (lsCapture m) := by
  have hseat : m.rd netSeat < 4 := by
    rw [h.1.seat]
    exact hp.seat
  have ho := only_lsCapture_own hseat
  have hx : (lsTick m + m.rd netDelay) % 256 < 256 := Nat.mod_lt _ (by decide)
  have hev : (lsCapture m).ev = m.ev ++ [] := (List.append_nil _).symm
  refine h.still hL hev (idles_quiet nofun) (fun a ha => ho.keep ?_) (fun h0 => ?_)
  · rw [← h.1.seat] at ha
    simp only [trackCell, pageCell, area, List.mem_cons, List.not_mem_nil, or_false, netSeat,
      netCount, netDelay, tickLo, tickHi, seatWm, seatRing, seatKp] at ha
    simp only [lsTmpb, lsTmpb2, seatRing, seatKp, netSeat] at ha ⊢
    omega
  · refine (ho.keep ?_).symm.trans h0
    simp only [netDropped, lsTmpb, lsTmpb2, seatRing, seatKp]
    omega

theorem follows_lsFreeze (hL : Lawful p ok P) (h : Follows p P m) : Follows p P (lsFreeze m) := by
  refine h.mute hL (within_lsFreeze_own m).mute (fun a ha ht => ?_) (fun h0 => ?_)
  · simp only [List.mem_cons, List.not_mem_nil, or_false] at ha
    simp only [trackCell, area, List.mem_cons, List.not_mem_nil, or_false, netSeat, netCount,
      netDelay, tickLo, tickHi, seatWm, seatRing] at ht
    simp only [lsFroze, lsSave102, isrPhase] at ha
    omega
  · rwa [(within_lsFreeze_own m).keep _ (by decide)] at h0

/-- A round counts, or gives up. -/
theorem countRound_cases (lo hi limit : Nat) (giveUp : Mach → Mach) (m : Mach) :
    Within (fun a => a = lo ∨ a = hi) m (countRound lo hi limit giveUp m) ∨
      ∃ m1, Within (fun a => a = lo ∨ a = hi) m m1 ∧
        countRound lo hi limit giveUp m = giveUp m1 := by
  have h1 : Within (fun a => a = lo ∨ a = hi) m (m.st lo (m.rd lo + 1)) :=
    (Does.refl _ m).st _ (Or.inl rfl)
  unfold countRound
  dsimp only
  split_ifs
  · exact Or.inl h1
  · exact Or.inl (h1.st _ (Or.inr rfl))
  · exact Or.inr ⟨_, h1.st _ (Or.inr rfl), rfl⟩

theorem track_not_wait {s a : Nat} (h : a ∈ [lsWaitcLo, lsWaitcHi, rsToLo, rsToHi]) :
    ¬ trackCell s a := by
  intro ht
  have hout : ∀ a ∈ [lsWaitcLo, lsWaitcHi, rsToLo, rsToHi],
      a ∉ [netSeat, netCount, netDelay, tickLo, tickHi] ∧ ¬ area seatWm 8 a ∧
        ¬ area seatRing 2048 a := by decide
  obtain ⟨h1, h2, h3⟩ := hout a h
  rcases ht with ht | ht | ht
  · exact h1 ht
  · exact h2 ht
  · exact h3 ht.1

/-- A round of the gate or of a hold. -/
theorem follows_countRound (hL : Lawful p ok P) {lo hi limit : Nat} {giveUp : Mach → Mach}
    (hlo : lo ∈ [lsWaitcLo, rsToLo]) (hhi : hi ∈ [lsWaitcHi, rsToHi])
    (hg : ∀ m, Follows p P m → Follows p P (giveUp m)) (h : Follows p P m) :
    Follows p P (countRound lo hi limit giveUp m) := by
  have hquiet : ∀ m', Within (fun a => a = lo ∨ a = hi) m m' → Follows p P m' := by
    intro m' hw
    have hcell : ∀ a, a = lo ∨ a = hi → a ∈ [lsWaitcLo, lsWaitcHi, rsToLo, rsToHi] := by
      intro a ha
      simp only [List.mem_cons, List.not_mem_nil, or_false] at hlo hhi ⊢
      rcases ha with rfl | rfl
      · tauto
      · tauto
    refine h.mute hL hw.mute (fun a ha => track_not_wait (hcell a ha)) (fun h0 => ?_)
    refine (hw.keep _ (fun hn => ?_)).symm.trans h0
    exact absurd (hcell _ hn) (by decide)
  rcases countRound_cases lo hi limit giveUp m with hw | ⟨m1, hw, he⟩
  · exact hquiet _ hw
  · rw [he]
    exact hg m1 (hquiet _ hw)

/-- Giving up on the peer. -/
theorem follows_lsIdleRmt (h : Follows p P m) (hd : m'.rd netDropped ≠ 0) (hev : m'.ev = m.ev)
    (hk : ∀ a ∈ [netSeat, netCount, netDelay], m'.rd a = m.rd a) :
    Follows p P (lsIdleRmt m') := by
  have hout : ∀ a ∈ [netSeat, netCount, netDelay, netDropped],
      ¬ (area seatRing 2048 a ∨ area seatWm 8 a) := by decide
  refine h.dropped (l := []) ?_ ?_ (fun a ha => ?_)
  · rwa [(within_lsIdleRmt m').keep _ (hout _ (by decide))]
  · rw [(within_lsIdleRmt m').ev_eq, hev]
  · refine ((within_lsIdleRmt m').keep a (hout a ?_)).trans (hk a ha)
    simp only [List.mem_cons, List.not_mem_nil, or_false] at ha ⊢
    tauto

theorem follows_lsWaitRound (hL : Lawful p ok P) (h : Follows p P m) :
    Follows p P (lsWaitRound m) := by
  refine follows_countRound hL (by decide) (by decide) (fun m h => ?_) h
  refine follows_lsIdleRmt h ?_ rfl (fun a ha => ?_)
  · rw [Mach.rd_st_self]
    decide
  · have hne : ∀ a ∈ [netSeat, netCount, netDelay], a ≠ netDropped ∧ a ≠ peerWhy := by decide
    rw [Mach.rd_st_ne _ _ (hne a ha).1, Mach.rd_st_ne _ _ (hne a ha).2]

theorem follows_lsHoldRound (hL : Lawful p ok P) (h : Follows p P m) :
    Follows p P (lsHoldRound m) := by
  refine follows_countRound hL (by decide) (by decide) (fun m h => ?_) h
  refine follows_lsIdleRmt h ?_ rfl (fun a ha => ?_)
  · rw [Mach.rd_st_ne _ _ (by decide), Mach.rd_st_self]
    decide
  · have hne : ∀ a ∈ [netSeat, netCount, netDelay],
        a ≠ resyncHold ∧ a ≠ netDropped ∧ a ≠ peerWhy := by decide
    rw [Mach.rd_st_ne _ _ (hne a ha).1, Mach.rd_st_ne _ _ (hne a ha).2.1,
      Mach.rd_st_ne _ _ (hne a ha).2.2]

/-! ## The tick -/

theorem lsTick_lsTickInc (m : Mach) : lsTick (lsTickInc m) = (lsTick m + 1) % 65536 := by
  have hlo := m.rd_lt_cart (a := tickLo) (by decide)
  have hhi := m.rd_lt_cart (a := tickHi) (by decide)
  unfold lsTick lsTickInc word
  dsimp only
  split_ifs with h
  · rw [Mach.rd_st_ne _ _ (by decide), Mach.rd_st_self, cellMod_cart (by decide)]
    omega
  · rw [Mach.rd_st_self, Mach.rd_st_ne _ _ (by decide), Mach.rd_st_ne _ _ (by decide),
      Mach.rd_st_self, cellMod_cart (by decide), cellMod_cart (by decide)]
    omega

/-- What the tick leaves alone. -/
theorem track_not_beat {s a : Nat} (ht : trackCell s a) :
    ¬ beatCell a ∧ a ∉ [lsFroze, lsWaitcLo, lsWaitcHi, isrPhase] := by
  simp only [trackCell, area, List.mem_cons, List.not_mem_nil, or_false, netSeat, netCount,
    netDelay, tickLo, tickHi, seatWm, seatRing] at ht
  simp only [beatCell, actCell, gameCell, area, ownCrc, List.mem_cons, List.not_mem_nil,
    or_false, rngLo, rngHi, scCnt2, vdTmp, vdSide, vdCur, vdPrev, vdKp, vdKppre, vdCtrl,
    shadowCtrl, shadowCtrlR, gameTblLo, gameTblHi, lsTmpb, lsTmpb2, lsFroze, lsWaitcLo,
    lsWaitcHi, isrPhase]
  omega

/-- The tick runs through an open gate, and adds one to the history. -/
theorem follows_lsRun (hL : Lawful p ok P) (k : Cart) (h : Follows p P m)
    (ho : m.rd netDropped ≠ 0 ∨ lsOpen m = true) : Follows p P (lsRun k m) := by
  obtain ⟨m1, m2, h1, h2, he⟩ := lsRun_parts k m
  obtain ⟨tx1, l1, hd1, hq1⟩ := h1
  obtain ⟨tx2, l2, hd2, hq2⟩ := h2
  obtain ⟨tx3, l3, hd3, hq3⟩ := mute_lsTickInc m2
  have hk : ∀ a, ¬ beatCell a → a ∉ [lsFroze, lsWaitcLo, lsWaitcHi, isrPhase] →
      m2.rd a = m.rd a := by
    intro a hb hu
    rw [hd2.keep a hb, Mach.rd_log, hd1.keep a hb, (within_lsUnfreeze_own m).keep a hu]
  have hinc : ∀ a, a ≠ tickLo → a ≠ tickHi → (lsTickInc m2).rd a = m2.rd a := by
    intro a hlo hhi
    refine hd3.keep a ?_
    rintro (h | h)
    · exact hlo h
    · exact hhi h
  have hev : (lsTickInc m2).ev = m.ev ++ (l1 ++ lsTickEv m1 :: (l2 ++ l3)) := by
    rw [hd3.ev_eq, hd2.ev_eq, Mach.ev_log, hd1.ev_eq, (within_lsUnfreeze_own m).ev_eq]
    simp only [List.append_assoc, List.append_nil, List.cons_append, List.nil_append]
  have hfix : ∀ a ∈ [netSeat, netCount, netDelay, netDropped], (lsTickInc m2).rd a = m.rd a := by
    intro a ha
    have hout : ∀ a ∈ [netSeat, netCount, netDelay, netDropped], a ≠ tickLo ∧ a ≠ tickHi ∧
        ¬ beatCell a ∧ a ∉ [lsFroze, lsWaitcLo, lsWaitcHi, isrPhase] := by decide
    obtain ⟨n1, n2, n3, n4⟩ := hout a ha
    rw [hinc a n1 n2, hk a n3 n4]
  have hin : InMatch p (lsTickInc m2) := by
    refine h.1.next hev (fun a ha => hfix a ?_)
    simp only [List.mem_cons, List.not_mem_nil, or_false] at ha ⊢
    tauto
  have hbeat : Follows p P (lsTickInc m2) := by
    refine ⟨hin, fun hc => ?_⟩
    have hcm := h.1.calm_of hev (fun h0 => (hfix _ (by decide)).symm.trans h0) hc
    have hopen : lsOpen m = true := ho.resolve_left (fun hn => hn hcm.1)
    have hsf : soFar p (lsTickInc m2) = { soFar p m with ticks := (soFar p m).ticks + 1 } := by
      rw [h.1.soFar_append hev, List.foldl_append, (idles_quiet hq1).foldl, List.foldl_cons]
      refine (idles_quiet (fun e he => ?_)).foldl _
      rcases List.mem_append.mp he with he | he
      · exact hq2 e he
      · exact hq3 e he
    rw [hsf]
    refine hL.tick h.1 hopen ?_ (fun a ha hlo hhi => ?_) (h.2 hcm)
    · rw [lsTick_lsTickInc, lsTick, lsTick, hk tickLo (by decide) (by decide),
        hk tickHi (by decide) (by decide)]
    · have hb := track_not_beat ha
      rw [hinc a hlo hhi, hk a hb.1 hb.2]
  rw [he]
  rcases rsPending_cases (lsTickInc m2) with hq | ⟨m3, hq, hpush⟩
  · refine hbeat.mute hL hq (fun a ha => track_not_pend (Or.inr ha)) (fun h0 => ?_)
    rwa [hq.keep (by decide)] at h0
  · -- a push is a resync
    obtain ⟨tx4, l4, hd4, -⟩ := hq
    obtain ⟨r, r', hp3⟩ := ev_rsPush m3
    have hev' : (rsPending (lsTickInc m2)).ev =
        (lsTickInc m2).ev ++ (l4 ++ [.hold, .push r, .rebase r']) := by
      rw [hpush, hp3, hd4.ev_eq, List.append_assoc]
    have hout : ∀ a ∈ [netSeat, netCount, netDelay], ¬ tickCell a := by decide
    refine ⟨hbeat.1.next hev' (fun a ha => (only_rsPending_tick _).keep (hout a ha)), fun hc => ?_⟩
    exact absurd hc (hbeat.1.not_calm hev' (e := .hold) (by simp) rfl)

/-! ## Runs -/

variable {k : Cart} {c c' : Con}

/-- One step, and every frame in it. -/
theorem follows_step (hL : Lawful p ok P) (hp : FourSeats p) (h : Follows p P c.m)
    (hs : Step k ok c c') :
    Follows p P c'.m ∧ Step k (fun me => ok me ∧ Follows p P me) c c' := by
  cases hs with
  | exec m f =>
    have hw : Within gameCell m (m.game f) := (Does.refl _ m).game f (fun _ ha => ha)
    refine ⟨h.steady hL hw.ev_eq (idles_quiet nofun) (fun a ha => hw.keep a ?_), .exec m f⟩
    have hhigh := steerCell_high ha
    have hout : ∀ a ∈ [rngLo, rngHi], ¬ steerCell a := by decide
    rintro (hg | rfl | rfl)
    · omega
    · exact hout _ (by simp) ha
    · exact hout _ (by simp) ha
  | turn hd hpu hf =>
    obtain ⟨hent, hend⟩ := follows_sesPump hL hp hf h
    exact ⟨follows_lsCapture hL hp (hend _ hpu), .turn hd hpu (fun me hme => ⟨hf me hme, hent me hme⟩)⟩
  | wait hd ho hpu hf =>
    obtain ⟨hent, hend⟩ := follows_sesPump hL hp hf (follows_lsFreeze hL h)
    exact ⟨follows_lsWaitRound hL (hend _ hpu),
      .wait hd ho hpu (fun me hme => ⟨hf me hme, hent me hme⟩)⟩
  | run ho => exact ⟨follows_lsRun hL k h ho, .run ho⟩
  | hold hs hd hh hpu hf =>
    obtain ⟨hent, hend⟩ := follows_sesPump hL hp hf (follows_lsFreeze hL h)
    exact ⟨follows_lsHoldRound hL (hend _ hpu),
      .hold hs hd hh hpu (fun me hme => ⟨hf me hme, hent me hme⟩)⟩
  | @park m hs hd =>
    have hw := within_park m
    have hout : ∀ a ∈ [netSeat, netCount, netDelay, netDropped],
        ¬ (a < 0x8000 ∨ a ∈ [uiColor, ppTmp, peerScr, lsFroze, lsSave102]) := by decide
    refine ⟨h.dropped ?_ hw.ev_eq (fun a ha => hw.keep a (hout a ?_)), .park hs hd⟩
    · rwa [hw.keep _ (hout _ (by decide))]
    · simp only [List.mem_cons, List.not_mem_nil, or_false] at ha ⊢
      tauto

/-- And so along every run. -/
theorem follows_steps (hL : Lawful p ok P) (hp : FourSeats p) (h : Follows p P c.m)
    (hs : Steps k ok c c') :
    Follows p P c'.m ∧ Steps k (fun me => ok me ∧ Follows p P me) c c' := by
  induction hs with
  | refl => exact ⟨h, .refl⟩
  | tail _ hstep ih =>
    obtain ⟨hend, hst⟩ := follows_step hL hp ih.1 hstep
    exact ⟨hend, ih.2.tail hst⟩

end

end IntvBasketball.Console
