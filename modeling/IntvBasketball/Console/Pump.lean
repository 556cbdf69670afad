/-
  SES_PUMP against the reference parser, over whole runs.

  A handler may undo the parser's work only by storing to the parser's own cells
  (`parserCell`). One can: an INPUT accepted for a seat of 4 or more, which START's
  unchecked count byte lets through, stores wherever its seat byte says. `PumpSafe` is
  the condition that it does not hit the parser.
-/
import IntvBasketball.Console.Bounds

namespace IntvBasketball.Console

open Mach (Within Does)
open Lib (Drained)

/-! ## Handlers and the parser's cells -/

/-- The frame in FRMBUF is no INPUT that stores to the parser's cells. -/
def PumpSafe (m : Mach) : Prop :=
  ¬ (m.rd (frmBuf + 1) = ftInput ∧ inputAccepted m = true ∧ ∃ a ∈ inputCells m, parserCell a)

instance (m : Mach) : Decidable (PumpSafe m) := by unfold PumpSafe; infer_instance

theorem not_parserCell_of_imgCell {a : Nat} (h : imgCell a) : ¬ parserCell a := by
  have htail : ∀ a ∈ rsTailTbl, ¬ parserCell a := by decide
  rcases h with h | h | h | h
  on_goal 4 => exact htail a h
  all_goals
    intro hp
    simp only [parserCell, area, rxWr, rxRd, diagSlip, rxAcc] at hp
    omega

theorem not_parserCell_of_dlScratch {a : Nat} (h : dlScratch a) : ¬ parserCell a := by
  simp only [dlScratch, List.mem_cons, List.not_mem_nil, or_false] at h
  rcases h with rfl | rfl | rfl | rfl <;> decide

theorem not_parserCell_of_rebaseCell {a : Nat} (h : rebaseCell a) : ¬ parserCell a := by
  intro hp
  simp only [rebaseCell, holdCell, rbCell, parserCell, area, List.mem_cons, List.not_mem_nil,
    or_false, resyncHold, rsToLo, rsToHi, ownCrc, rsPend, rsPtmo, tickLo, tickHi, lsWaitcLo,
    lsWaitcHi, scIsrSave, countdown, seatRing, seatWm, rxWr, rxRd, diagSlip, rxAcc] at h hp
  omega

theorem not_parserCell_of_stateCell {a : Nat} (h : stateCell a) : ¬ parserCell a := by
  rcases h with (h | h) | h | h
  · exact not_parserCell_of_imgCell h
  · exact not_parserCell_of_dlScratch h
  · exact not_parserCell_of_rebaseCell h
  · simp only [List.mem_cons, List.not_mem_nil, or_false] at h
    rcases h with rfl | rfl | rfl <;> decide

theorem not_parserCell_of_startArea {a : Nat} (h : startArea a) : ¬ parserCell a := by
  intro hp
  simp only [startArea, parserCell, area, List.mem_cons, List.not_mem_nil, or_false, netSeat,
    netCount, rngLo, rngHi, netDelay, tickLo, tickHi, netActive, nameTbl, seatRing, ownCrc, seatWm,
    rxWr, rxRd, diagSlip, rxAcc] at h hp
  omega

theorem not_parserCell_of_low {a : Nat} (h : a = uiColor ∨ a = ppTmp ∨ a < 0x8000) : ¬ parserCell a := by
  rcases h with rfl | rfl | h
  · decide
  · decide
  · intro hp
    simp only [parserCell, area, rxWr, rxRd, diagSlip, rxAcc] at hp
    omega

theorem not_parserCell_of_screenArea {a : Nat} (h : screenArea a) : ¬ parserCell a := by
  refine not_parserCell_of_low (h.imp_right (Or.imp_right (fun h => ?_)))
  simp only [area, backtab] at h
  omega

theorem not_parserCell_of_roomArea {a : Nat} (h : roomArea a) : ¬ parserCell a := by
  rcases h with rfl | rfl | h | h
  · decide
  · decide
  · intro hp
    simp only [area, nameTbl, parserCell, rxWr, rxRd, diagSlip, rxAcc] at h hp
    omega
  · exact not_parserCell_of_screenArea h

theorem not_parserCell_of_lobbyArea {a : Nat} (h : lobbyArea a) : ¬ parserCell a := by
  rcases h with rfl | rfl | h | h
  · decide
  · decide
  · intro hp
    simp only [area, lobbyCache, parserCell, rxWr, rxRd, diagSlip, rxAcc] at h hp
    omega
  · exact not_parserCell_of_screenArea h

theorem not_parserCell_of_leftArea {a : Nat} (h : leftArea a) : ¬ parserCell a := by
  intro hp
  simp only [leftArea, parserCell, area, List.mem_cons, List.not_mem_nil, or_false, leftSeat,
    peerWhy, netDropped, leftName, seatRing, seatWm, rxWr, rxRd, diagSlip, rxAcc] at h hp
  omega

theorem within_ofRoom_low (m : Mach) : Within (fun a => ¬ parserCell a) m (ofRoom m) := by
  have hb := m.rd_lt_cart (a := frmBuf + 2) (by decide)
  refine (within_ofRoom m).mono ?_
  rintro a (h | (h | ⟨r, -, h⟩) | ⟨-, -, h | ⟨r, hr, h⟩⟩)
  · exact not_parserCell_of_roomArea h
  · exact not_parserCell_of_screenArea h
  · exact not_parserCell_of_low (listCell_low h)
  · exact not_parserCell_of_screenArea h
  · exact not_parserCell_of_low (Or.inr (Or.inr (rowCell_low (by omega) h)))

/-- No handler stores to the parser's cells, INPUT aside. -/
theorem does_sesDispatch_safe {m : Mach} (h : PumpSafe m) :
    ∃ tx ev, Does (fun a => ¬ parserCell a) tx ev m (sesDispatch m) ∧
      ev.filterMap Ev.item = [] := by
  by_cases ht : m.rd (frmBuf + 1) ∈ boundedTypes
  · refine ⟨[], [], ?_, rfl⟩
    unfold PumpSafe at h
    simp only [boundedTypes, List.mem_cons, List.not_mem_nil, or_false] at ht
    unfold sesDispatch
    rcases ht with ht | ht | ht | ht | ht <;> simp only [ht] at h ⊢
    · exact (within_ofStart m).mono (fun _ => not_parserCell_of_startArea)
    · refine (within_ofInput m).mono ?_
      rintro a ⟨hacc, ha⟩ hp
      exact h ⟨trivial, hacc, a, ha, hp⟩
    · exact within_ofRoom_low m
    · exact (within_ofLobby m).mono (fun _ => not_parserCell_of_lobbyArea)
    · exact (within_ofPl m).mono (fun _ => not_parserCell_of_leftArea)
  · obtain ⟨tx, ev, hd, hev⟩ := does_sesDispatch_rs ht
    refine ⟨tx, ev, hd.mono ?_, hev⟩
    rintro a ((rfl | rfl) | ha)
    · decide
    · decide
    · exact not_parserCell_of_stateCell ha

/-- A dispatch reports its frame and leaves the parser alone. -/
theorem sesOnframe_keeps {m : Mach} (h : PumpSafe m) :
    (∀ a, parserCell a → (sesOnframe m).rd a = m.rd a) ∧
      (sesOnframe m).items = m.items ++ [.frame (frameBytes m)] := by
  obtain ⟨tx, ev, hd, hev⟩ := does_sesDispatch_safe (m := m.log (.frame (frameBytes m))) h
  refine ⟨fun a ha => hd.keep a (not_not.mpr ha), ?_⟩
  rw [Mach.items, sesOnframe, hd.ev_eq, List.filterMap_append, hev, List.append_nil, Mach.ev_log,
    List.filterMap_append]
  rfl

/-! ## Runs -/

/-- Slips among items. -/
def slips (is : List Item) : Nat := (is.filter (fun i => i = .slip)).length

@[simp] theorem slips_slip (is : List Item) : slips (.slip :: is) = slips is + 1 := by
  simp [slips]

@[simp] theorem slips_frame (f : List Byte) (is : List Item) :
    slips (.frame f :: is) = slips is := by
  simp [slips]

/-- What parsing `bs` from an accumulator that holds it leads to. -/
structure Parsed (m : Mach) (bs : List Byte) (m' : Mach) : Prop where
  acc : Acc m' (reference bs).rest
  items_eq : m'.items = m.items ++ (reference bs).out
  slip_eq : m'.rd diagSlip = min 255 (m.rd diagSlip + slips (reference bs).out)

theorem sesPeek_ne_halt (xs : List Byte) (e : Item) : sesPeek xs ≠ .halt e := by
  unfold sesPeek
  split
  · split_ifs
    · intro h
      cases h
    · intro h
      cases h
    · intro h
      cases h
  · intro h
    cases h

/-- What the reference leaves over is less than a whole frame. -/
theorem length_le_of_more {xs : List Byte} (h : sesPeek xs = .more) : xs.length ≤ 99 := by
  match xs, h with
  | [], _ => exact Nat.zero_le _
  | [_], _ => exact Nat.le_of_ble_eq_true rfl
  | len :: type :: ys, h =>
    rw [sesPeek_cons] at h
    split_ifs at h with h1 h2
    have := flenOk_le h1
    simp only [List.length_cons]
    omega

theorem reference_halted (xs : List Byte) : (reference xs).halted = false := by
  induction xs using sesScanner.drain_induction with
  | more xs hp => rw [reference, sesScanner.drain_of_more hp]; rfl
  | halt xs e hp => exact absurd hp (sesPeek_ne_halt xs e)
  | emit xs e k hp ih => rw [reference, sesScanner.drain_of_emit hp]; exact ih

theorem reference_rest_le (xs : List Byte) : (reference xs).rest.length ≤ 99 :=
  length_le_of_more (sesScanner.peek_drain_rest xs (reference_halted xs))

theorem reference_append (xs ys : List Byte) :
    reference (xs ++ ys) = (reference ((reference xs).rest ++ ys)).before (reference xs).out := by
  have := sesScanner.drain_append xs ys
  rwa [if_neg (by rw [show sesScanner.drain xs = reference xs from rfl, reference_halted]; simp)]
    at this

theorem items_ppSlip (m : Mach) : (ppSlip m).items = m.items ++ [.slip] := by
  rw [Mach.items, (does_ppSlip m).ev_eq, List.filterMap_append]
  rfl

theorem diagSlip_ppSlip (m : Mach) : (ppSlip m).rd diagSlip = min 255 (m.rd diagSlip + 1) := by
  have hrd : ((m.st rxRd ((m.rd rxRd + 1) % 256)).log .slip).rd diagSlip = m.rd diagSlip := by
    rw [Mach.rd_log, Mach.rd_st_ne _ _ (by decide)]
  rw [ppSlip, rd_diagBump _ (by decide), hrd]

/-- The parse loop on an accumulator holding `bs` ends, and does what the reference
    does to `bs`. -/
theorem ppLoop_parsed {bs : List Byte} (fuel : Nat) (hf : bs.length < fuel) {m : Mach}
    (h : Acc m bs) (hsafe : ∀ me ∈ ppEntries fuel m, PumpSafe me) :
    (∃ m', ppLoop fuel m = some m' ∧ Parsed m bs m') ∧
      ∀ me ∈ ppEntries fuel m, me.rd frmBuf + 1 ≤ 100 := by
  induction bs using sesScanner.drain_induction generalizing fuel m with
  | more bs hp =>
    cases fuel with
    | zero => omega
    | succ fuel =>
      have hr := ppRound_more h hp
      have hd : reference bs = Drained.start bs := sesScanner.drain_of_more hp
      have hb := m.rd_lt_cart (a := diagSlip) (by decide)
      simp only [ppLoop, ppEntries, hr]
      refine ⟨⟨m, rfl, ⟨by rw [hd]; exact h, by rw [hd]; exact (List.append_nil _).symm, ?_⟩⟩,
        fun _ hm => absurd hm List.not_mem_nil⟩
      rw [hd, show slips (Drained.start bs : Drained Byte Item).out = 0 from rfl]
      omega
  | halt bs e hp => exact absurd hp (sesPeek_ne_halt bs e)
  | emit bs e k hp ih =>
    have hk := sesScanner.emit_pos hp
    have hl := sesScanner.emit_le hp
    have hd : reference bs = (reference (bs.drop k)).before [e] := sesScanner.drain_of_emit hp
    cases fuel with
    | zero => omega
    | succ fuel =>
      have hf' : (bs.drop k).length < fuel := by rw [List.length_drop]; omega
      cases e with
      | slip =>
        obtain ⟨hr, ha⟩ := ppRound_slip_acc h hp
        simp only [ppLoop, ppEntries, hr] at hsafe ⊢
        obtain ⟨⟨m', hm', hpar⟩, hfrm⟩ := ih fuel hf' ha hsafe
        refine ⟨⟨m', hm', by rw [hd]; exact hpar.acc, ?_, ?_⟩, hfrm⟩
        · rw [hpar.items_eq, items_ppSlip, hd, Drained.before_out, List.append_assoc]
        · rw [hpar.slip_eq, diagSlip_ppSlip, hd, Drained.before_out, List.singleton_append,
            slips_slip]
          omega
      | frame f =>
        obtain ⟨me, hr, ha, hw, hf, hle, -⟩ := ppRound_frame_acc h hp
        simp only [ppLoop, ppEntries, hr] at hsafe ⊢
        obtain ⟨hkeep, hitems⟩ := sesOnframe_keeps (hsafe me List.mem_cons_self)
        obtain ⟨⟨m', hm', hpar⟩, hfrm⟩ := ih fuel hf' (ha.congr hkeep)
          (fun me' hme' => hsafe me' (List.mem_cons_of_mem _ hme'))
        have hslip : (sesOnframe me).rd diagSlip = m.rd diagSlip := by
          rw [hkeep _ (by decide), hw.keep _ (by unfold area; decide)]
        refine ⟨⟨m', hm', by rw [hd]; exact hpar.acc, ?_, ?_⟩, ?_⟩
        · rw [hpar.items_eq, hitems, hf, hd, Drained.before_out, List.append_assoc, Mach.items,
            Mach.items, hw.ev_eq, List.append_nil]
        · rw [hpar.slip_eq, hslip, hd, Drained.before_out, List.singleton_append, slips_frame]
        · rintro me' (_ | ⟨_, hme'⟩)
          · exact hle
          · exact hfrm me' hme'

/-- One pump: the read fits behind the unread bytes, and the loop parses all of it. -/
theorem sesPump_parsed {m : Mach} {bs : List Byte} (h : Acc m bs) (hbs : bs.length ≤ 99)
    {got : List Byte} (hgot : got.length ≤ 64)
    (hsafe : ∀ me ∈ ppEntries ppFuel (ppCp m got), PumpSafe me) :
    Acc (ppCp m got) (bs ++ got) ∧ (∃ m', sesPump m got = some m' ∧ Parsed m (bs ++ got) m') ∧
      ∀ me ∈ ppEntries ppFuel (ppCp m got), me.rd frmBuf + 1 ≤ 100 := by
  have hacc := ppCp_acc h got (by omega)
  have hcp := within_ppCp m got
  obtain ⟨⟨m', hm', hpar⟩, hfrm⟩ := ppLoop_parsed ppFuel hacc.length_lt hacc hsafe
  refine ⟨hacc, ⟨m', hm', hpar.acc, ?_, ?_⟩, hfrm⟩
  · rw [hpar.items_eq, Mach.items, hcp.ev_eq, List.append_nil, Mach.items]
  · rw [hpar.slip_eq, hcp.keep _ (by unfold area; decide)]

/-- Parsing in two goes. -/
theorem Parsed.trans {m m1 m2 : Mach} {xs ys : List Byte} (h1 : Parsed m xs m1)
    (h2 : Parsed m1 ((reference xs).rest ++ ys) m2) : Parsed m (xs ++ ys) m2 := by
  have hd := reference_append xs ys
  refine ⟨by rw [hd]; exact h2.acc, ?_, ?_⟩
  · rw [h2.items_eq, h1.items_eq, hd, Drained.before_out, List.append_assoc]
  · have hs : slips (reference (xs ++ ys)).out =
        slips (reference xs).out + slips (reference ((reference xs).rest ++ ys)).out := by
      rw [hd, Drained.before_out, slips, List.filter_append, List.length_append]
      rfl
    rw [h2.slip_eq, h1.slip_eq, hs]
    omega

/-- Successive pumps from an accumulator that holds `bs` do what the reference does to `bs`
    and the bytes read. -/
theorem pumpAll_parsed (reads : List (List Byte)) {m : Mach} {bs : List Byte} (h : Acc m bs)
    (hm : sesPeek bs = .more) (hlen : ∀ got ∈ reads, got.length ≤ 64)
    (hsafe : ∀ me ∈ pumpEntries m reads, PumpSafe me) :
    (∃ m', pumpAll m reads = some m' ∧ Parsed m (bs ++ reads.flatten) m') ∧
      ∀ me ∈ pumpEntries m reads, me.rd frmBuf + 1 ≤ 100 := by
  induction reads generalizing m bs with
  | nil =>
    have hd : reference bs = Drained.start bs := sesScanner.drain_of_more hm
    have hb := m.rd_lt_cart (a := diagSlip) (by decide)
    refine ⟨⟨m, rfl, ?_⟩, fun _ hme => absurd hme List.not_mem_nil⟩
    rw [List.flatten_nil, List.append_nil]
    refine ⟨by rw [hd]; exact h, by rw [hd]; exact (List.append_nil _).symm, ?_⟩
    rw [hd, show slips (Drained.start bs : Drained Byte Item).out = 0 from rfl]
    omega
  | cons got reads ih =>
    simp only [pumpEntries, List.mem_append] at hsafe ⊢
    obtain ⟨-, ⟨m1, hm1, hpar⟩, hfrm⟩ := sesPump_parsed h (length_le_of_more hm)
      (hlen got List.mem_cons_self) (fun me hme => hsafe me (Or.inl hme))
    simp only [hm1, pumpAll] at hsafe ⊢
    obtain ⟨⟨m2, hm2, hpar2⟩, hfrm2⟩ := ih hpar.acc
      (sesScanner.peek_drain_rest _ (reference_halted _))
      (fun g hg => hlen g (List.mem_cons_of_mem _ hg)) (fun me hme => hsafe me (Or.inr hme))
    refine ⟨⟨m2, hm2, ?_⟩, ?_⟩
    · rw [List.flatten_cons, ← List.append_assoc]
      exact hpar.trans hpar2
    · rintro me (hme | hme)
      · exact hfrm me hme
      · exact hfrm2 me hme

theorem mem_pumpEntries_left {m me : Mach} {pre : List (List Byte)} (post : List (List Byte))
    (h : me ∈ pumpEntries m pre) : me ∈ pumpEntries m (pre ++ post) := by
  induction pre generalizing m with
  | nil => exact absurd h List.not_mem_nil
  | cons got pre ih =>
    rw [List.cons_append, pumpEntries, List.mem_append]
    rw [pumpEntries, List.mem_append] at h
    refine h.imp_right (fun h => ?_)
    cases hp : sesPump m got with
    | none => rw [hp] at h; exact h
    | some m' => rw [hp] at h; exact ih h

/-- Any byte stream in any reads of at most 64 bytes, from an empty accumulator. If no
    INPUT stores to the parser's cells: after every read each parse loop has ended, the
    frames dispatched and the slips are those of the reference on the bytes so far, at
    most 99 bytes stay buffered, the next read is stored past them without touching one,
    and no frame reaches LOBBY_CACHE. -/
theorem pump_is_reference (m : Mach) (reads : List (List Byte)) (hempty : m.rd rxWr = m.rd rxRd)
    (hlen : ∀ got ∈ reads, got.length ≤ 64) (hsafe : ∀ me ∈ pumpEntries m reads, PumpSafe me) :
    (∀ pre post, reads = pre ++ post → ∃ m1, pumpAll m pre = some m1 ∧
      m1.items = m.items ++ (reference pre.flatten).out ∧
      m1.rd diagSlip = min 255 (m.rd diagSlip + slips (reference pre.flatten).out) ∧
      Acc m1 (reference pre.flatten).rest ∧ (reference pre.flatten).rest.length ≤ 99 ∧
      ∀ got ∈ post.head?, Acc (ppCp m1 got) ((reference pre.flatten).rest ++ got)) ∧
    ∀ me ∈ pumpEntries m reads, frmBuf + (me.rd frmBuf + 1) ≤ lobbyCache := by
  refine ⟨?_, fun me hme => ?_⟩
  · rintro pre post rfl
    obtain ⟨⟨m1, hm1, hpar⟩, -⟩ := pumpAll_parsed pre (Acc.nil hempty) rfl
      (fun got hg => hlen got (List.mem_append_left _ hg))
      (fun me hme => hsafe me (mem_pumpEntries_left post hme))
    rw [List.nil_append] at hpar
    have hle := reference_rest_le pre.flatten
    refine ⟨m1, hm1, hpar.items_eq, hpar.slip_eq, hpar.acc, hle, fun got hg => ?_⟩
    have := hlen got (List.mem_append_right _ (List.mem_of_mem_head? hg))
    exact ppCp_acc hpar.acc got (by omega)
  · have := (pumpAll_parsed reads (Acc.nil hempty) rfl hlen hsafe).2 me hme
    simp only [frmBuf, lobbyCache] at *
    omega

theorem pump_is_reference_pong :
    (∀ pre post, [[1], [0x0D, 1]] = pre ++ post → ∃ m1, pumpAll Mach.zero pre = some m1 ∧
      m1.items = Mach.zero.items ++ (reference pre.flatten).out ∧
      m1.rd diagSlip = min 255 (Mach.zero.rd diagSlip + slips (reference pre.flatten).out) ∧
      Acc m1 (reference pre.flatten).rest ∧ (reference pre.flatten).rest.length ≤ 99 ∧
      ∀ got ∈ post.head?, Acc (ppCp m1 got) ((reference pre.flatten).rest ++ got)) ∧
    ∀ me ∈ pumpEntries Mach.zero [[1], [0x0D, 1]], frmBuf + (me.rd frmBuf + 1) ≤ lobbyCache :=
  pump_is_reference Mach.zero [[1], [0x0D, 1]] rfl (by decide) (by decide +kernel)

/-- START with a player count of 255, INPUT for seat 253 at tick $0034, PONG. -/
def startInputPong : List Byte :=
  [38, 0x05, 0, 255, 0, 0, 0] ++ List.replicate 32 0x41 ++ [6, 0x06, 253, 0x34, 0, 46, 0] ++
    [1, 0x0D]

/-- The INPUT is stored to RX_WR, and the PONG behind it is never dispatched. -/
theorem input_for_seat_253_hides_pong :
    startInputPong.length ≤ 64 ∧
      (pumpAll Mach.zero [startInputPong]).map Mach.items ≠
        some (Mach.zero.items ++ (reference startInputPong).out) := by
  decide +kernel

/-! ## Matches of at most four -/

/-- A START in `f` names at most four players. -/
def StartOk (f : List Byte) : Prop := f.getD 1 0 = 0x05 → (f.getD 3 0).toNat ≤ 4

theorem pumpSafe_of_count {m : Mach} (h : m.rd netCount ≤ 4) : PumpSafe m := by
  rintro ⟨-, hacc, a, ha, hp⟩
  have hseat : m.rd (frmBuf + 2) < 4 := by
    simp only [inputAccepted, Bool.and_eq_true, decide_eq_true_eq] at hacc
    omega
  have := inputCells_inputArea hseat a ha
  simp only [inputArea, parserCell, area, seatRing, seatWm, rxWr, rxRd, diagSlip, rxAcc] at this hp
  omega

/-- A START that is long enough takes over its header and sets NET_ACTIVE. -/
theorem ofStart_header {m : Mach} (h : 38 ≤ m.rd frmBuf) :
    (ofStart m).rd netSeat = m.rd (frmBuf + 2) ∧ (ofStart m).rd netCount = m.rd (frmBuf + 3) ∧
      (ofStart m).rd netActive = 1 := by
  have hseat := m.rd_lt_cart (a := frmBuf + 2) (by decide)
  have hcount := m.rd_lt_cart (a := frmBuf + 3) (by decide)
  have hkeep : ∀ a ∈ [netSeat, netCount], (ofStart m).rd a = (stHeader m).rd a := by
    have hout : ∀ a ∈ [netSeat, netCount], a ≠ netActive ∧ a ≠ tickHi ∧ a ≠ tickLo ∧
        ¬ area seatWm 8 a ∧ ¬ area ownCrc 32 a ∧ ¬ area seatRing 2048 a ∧ ¬ area nameTbl 36 a := by
      unfold area
      decide
    intro a ha
    obtain ⟨h1, h2, h3, h4, h5, h6, h7⟩ := hout a ha
    rw [ofStart, if_neg (by omega)]
    dsimp only
    rw [Mach.rd_st_ne _ _ h1, Mach.rd_st_ne _ _ h2, Mach.rd_st_ne _ _ h3, stWm,
      (within_wmLoop _ _ _ _ _).keep a h4, (within_rsClrCrc _).keep a h5,
      (within_lsRingInit _).keep a h6, (within_sesCprGo _ _).keep a h7]
  have h1 : Within (fun a => a ∈ [rngLo, rngHi, netDelay])
      ((m.st netSeat (m.rd (frmBuf + 2))).st netCount
        ((m.st netSeat (m.rd (frmBuf + 2))).rd (frmBuf + 3))) (stHeader m) :=
    (((Does.refl _ _).st _ (by decide)).st _ (by decide)).st _ (by decide)
  refine ⟨?_, ?_, ?_⟩
  · rw [hkeep _ (by decide), h1.keep netSeat (by decide), Mach.rd_st_ne _ _ (by decide),
      Mach.rd_st_self, cellMod_cart (by decide), Nat.mod_eq_of_lt hseat]
  · rw [hkeep _ (by decide), h1.keep netCount (by decide), Mach.rd_st_self,
      cellMod_cart (by decide), Mach.rd_st_ne _ _ (by decide), Nat.mod_eq_of_lt hcount]
  · rw [ofStart, if_neg (by omega)]
    dsimp only
    rw [Mach.rd_st_self, cellMod_cart (by decide)]

/-- Cells some frame other than START and STATE can reach in a match of at most four. -/
def reachCell (a : Nat) : Prop :=
  inputArea a ∨ roomArea a ∨ lobbyArea a ∨ leftArea a ∨ pendCell a ∨
  ∃ r < 256, listCell r a ∨ rowCell r a

/-- The rows of a list or a roster, however many there are, stay in the text scratch and
    below the handler table. -/
theorem rows_low {a r : Nat} (hr : r < 256) (h : listCell r a ∨ rowCell r a) :
    a = uiColor ∨ a = ppTmp ∨ (a < 0x8000 ∧ a ≠ execHtbl) := by
  rcases h with h | h
  · have hne : a = execHtbl → False := by
      rintro rfl
      simp only [listCell, area, execHtbl, uiColor, ppTmp] at h
      omega
    exact (listCell_low h).imp_right (Or.imp_right (fun hl => ⟨hl, hne⟩))
  · have hne : a = execHtbl → False := by
      rintro rfl
      simp only [rowCell, area, execHtbl] at h
      omega
    exact Or.inr (Or.inr ⟨rowCell_low hr h, hne⟩)

/-- The cells of the match set-up, and the handler table, are out of their reach. -/
theorem not_reachCell {a : Nat}
    (ha : a ∈ [netSeat, netCount, netActive, peerScr, execHtbl, gameTblLo, gameTblHi]) :
    ¬ reachCell a := by
  have hfix : ∀ a ∈ [netSeat, netCount, netActive, peerScr, execHtbl, gameTblLo, gameTblHi],
      ¬ (inputArea a ∨ roomArea a ∨ lobbyArea a ∨ leftArea a ∨ pendCell a) ∧
        ¬ (a = uiColor ∨ a = ppTmp ∨ (a < 0x8000 ∧ a ≠ execHtbl)) := by
    unfold inputArea roomArea lobbyArea area
    decide
  obtain ⟨h1, h2⟩ := hfix a ha
  rintro (h | h | h | h | h | ⟨r, hr, h⟩)
  · exact h1 (Or.inl h)
  · exact h1 (Or.inr (Or.inl h))
  · exact h1 (Or.inr (Or.inr (Or.inl h)))
  · exact h1 (Or.inr (Or.inr (Or.inr (Or.inl h))))
  · exact h1 (Or.inr (Or.inr (Or.inr (Or.inr h))))
  · exact h2 (rows_low hr h)

/-- In a match of at most four a frame changes no cell but those, START's and STATE's. -/
theorem sesDispatch_keep {m : Mach} (hc : m.rd netCount ≤ 4) {a : Nat} (ha : ¬ reachCell a)
    (hstart : m.rd (frmBuf + 1) = ftStart → ¬ startArea a)
    (hstate : m.rd (frmBuf + 1) = ftState → ¬ stateCell a) : (sesDispatch m).rd a = m.rd a := by
  simp only [reachCell, not_or] at ha
  obtain ⟨hin, hroom, hlob, hleft, hpend, hrows⟩ := ha
  have hscreen : ¬ screenArea a := fun h => hroom (roomArea_screen h)
  unfold sesDispatch
  dsimp only
  split_ifs with h1 h2 h3 h4 h5 h6 h7 h8
  · refine (within_ofInput m).keep a ?_
    rintro ⟨hacc, h⟩
    simp only [inputAccepted, Bool.and_eq_true, decide_eq_true_eq] at hacc
    exact hin (inputCells_inputArea (by omega) a h)
  · exact (within_ofLobby m).keep a hlob
  · exact (within_ofStart m).keep a (hstart h3)
  · exact (within_ofPl m).keep a hleft
  · have hlc := m.rd_lt_cart (a := lobbyCnt) (by decide)
    have hb := m.rd_lt_cart (a := frmBuf + 2) (by decide)
    refine (within_ofRoom m).keep a ?_
    rintro (h | (h | ⟨r, hr, h⟩) | ⟨-, -, h | ⟨r, hr, h⟩⟩)
    · exact hroom h
    · exact hscreen h
    · exact hrows ⟨r, by omega, Or.inl h⟩
    · exact hscreen h
    · exact hrows ⟨r, by omega, Or.inr h⟩
  · obtain ⟨tx, ev, h, -⟩ := does_rsOnCrc m
    exact h.keep a hpend
  · obtain ⟨ev, h, -⟩ := does_rsOnState m
    exact h.keep a (hstate h7)
  · obtain ⟨ev, h, -⟩ := does_rsOnReq m
    exact h.keep a hpend
  · rfl

theorem sesDispatch_start {m : Mach} (h : m.rd (frmBuf + 1) = ftStart) :
    sesDispatch m = ofStart m := by
  rw [sesDispatch, h]
  rfl

/-- Only START changes NET_COUNT, as long as it is at most four. -/
theorem sesDispatch_netCount {m : Mach} (h : m.rd netCount ≤ 4) :
    (sesDispatch m).rd netCount = m.rd netCount ∨
      (m.rd (frmBuf + 1) = ftStart ∧ 38 ≤ m.rd frmBuf ∧
        (sesDispatch m).rd netCount = m.rd (frmBuf + 3)) := by
  by_cases ht : m.rd (frmBuf + 1) = ftStart
  · have hdisp := sesDispatch_start ht
    by_cases hlen : 38 ≤ m.rd frmBuf
    · exact Or.inr ⟨ht, hlen, hdisp ▸ (ofStart_header hlen).2.1⟩
    · rw [hdisp, ofStart, if_pos (by omega)]
      exact Or.inl rfl
  · refine Or.inl (sesDispatch_keep h (not_reachCell (by decide)) (fun h => absurd h ht) (fun _ => ?_))
    unfold stateCell dlCell
    decide

/-- Along one pump: NET_COUNT stays at most four if every START says so, and then no
    INPUT reaches the parser. -/
theorem ppEntries_safe {bs : List Byte} (fuel : Nat) {m : Mach} (h : Acc m bs)
    (hc : m.rd netCount ≤ 4) (hs : ∀ f, .frame f ∈ (reference bs).out → StartOk f) :
    (∀ me ∈ ppEntries fuel m, PumpSafe me) ∧
      ∀ m', ppLoop fuel m = some m' → m'.rd netCount ≤ 4 := by
  induction bs using sesScanner.drain_induction generalizing fuel m with
  | more bs hp =>
    cases fuel with
    | zero => exact ⟨fun _ hm => absurd hm List.not_mem_nil, fun _ hm => by cases hm⟩
    | succ fuel =>
      simp only [ppEntries, ppLoop, ppRound_more h hp]
      exact ⟨fun _ hm => absurd hm List.not_mem_nil, fun m' hm => by cases hm; exact hc⟩
  | halt bs e hp => exact absurd hp (sesPeek_ne_halt bs e)
  | emit bs e k hp ih =>
    have hd : reference bs = (reference (bs.drop k)).before [e] := sesScanner.drain_of_emit hp
    rw [hd, Drained.before_out] at hs
    have hs' := fun f hf => hs f (List.mem_append_right _ hf)
    cases fuel with
    | zero => exact ⟨fun _ hm => absurd hm List.not_mem_nil, fun _ hm => by cases hm⟩
    | succ fuel =>
      cases e with
      | slip =>
        obtain ⟨hr, ha⟩ := ppRound_slip_acc h hp
        simp only [ppEntries, ppLoop, hr]
        exact ih fuel ha (by rw [(does_ppSlip m).keep netCount (by decide)]; exact hc) hs'
      | frame f =>
        obtain ⟨me, hr, ha, hw, hf, hle, hbuf⟩ := ppRound_frame_acc h hp
        simp only [ppEntries, ppLoop, hr]
        have hce : me.rd netCount ≤ 4 := by
          rw [hw.keep netCount (by unfold area; decide)]
          exact hc
        have hsafe := pumpSafe_of_count hce
        have hcount : (sesOnframe me).rd netCount ≤ 4 := by
          have hlen : f.length = me.rd frmBuf + 1 := by
            rw [← hf, frameBytes, List.length_map, List.length_range]
          rcases sesDispatch_netCount (m := me.log (.frame (frameBytes me))) hce with h1 | ⟨ht, hl, h1⟩
          · rw [sesOnframe, h1]
            exact hce
          · rw [Mach.rd_log] at ht hl h1
            have hok := hs f (List.mem_append_left _ (List.mem_singleton_self _))
            have htype : f.getD 1 0 = 0x05 := by
              rw [List.getD_eq_getElem _ _ (by omega)]
              exact UInt8.toNat_inj.mp ((hbuf 1 (by omega)).symm.trans ht)
            rw [sesOnframe, h1, hbuf 3 (by omega), ← List.getD_eq_getElem _ 0 (by omega)]
            exact hok htype
        obtain ⟨h1, h2⟩ := ih fuel (ha.congr (sesOnframe_keeps hsafe).1) hcount hs'
        refine ⟨?_, h2⟩
        rintro me' (_ | ⟨_, hme'⟩)
        · exact hsafe
        · exact h1 me' hme'

/-- Along successive pumps. -/
theorem pumpEntries_safe (reads : List (List Byte)) {m : Mach} {bs : List Byte} (h : Acc m bs)
    (hm : sesPeek bs = .more) (hlen : ∀ got ∈ reads, got.length ≤ 64) (hc : m.rd netCount ≤ 4)
    (hs : ∀ f, .frame f ∈ (reference (bs ++ reads.flatten)).out → StartOk f) :
    ∀ me ∈ pumpEntries m reads, PumpSafe me := by
  induction reads generalizing m bs with
  | nil => exact fun _ hm => absurd hm List.not_mem_nil
  | cons got reads ih =>
    have hbs := length_le_of_more hm
    have hgot := hlen got List.mem_cons_self
    rw [List.flatten_cons, ← List.append_assoc, reference_append, Drained.before_out] at hs
    have hcp : (ppCp m got).rd netCount ≤ 4 := by
      rw [(within_ppCp m got).keep netCount (by unfold area; decide)]
      exact hc
    obtain ⟨hsafe, hend⟩ := ppEntries_safe ppFuel (ppCp_acc h got (by omega)) hcp
      (fun f hf => hs f (List.mem_append_left _ hf))
    obtain ⟨-, ⟨m1, hm1, hpar⟩, -⟩ := sesPump_parsed h hbs hgot hsafe
    intro me hme
    simp only [pumpEntries, hm1, List.mem_append] at hme
    rcases hme with hme | hme
    · exact hsafe me hme
    · exact ih hpar.acc (sesScanner.peek_drain_rest _ (reference_halted _))
        (fun g hg => hlen g (List.mem_cons_of_mem _ hg)) (hend m1 hm1)
        (fun f hf => hs f (List.mem_append_right _ hf)) me hme

end IntvBasketball.Console
