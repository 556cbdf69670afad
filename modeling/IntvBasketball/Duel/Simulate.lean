/-
  The pair of consoles runs the protocol.

  `Sim` relates the two: each console mirrors its party, the bytes it has not parsed yet
  are the frames of the messages its party has not read, and its tale is that of the
  party. A move of a console is a sequence of steps of its party: one `recv` for each
  frame dispatched, and a capture, a tick or a push where the move makes one
  (`Sim.step`). So every run of the pair is a run of the protocol (`Duo.Runs.sim`), and
  every move that does not give up goes on with the run (`Duo.Runs.step`).
-/
import IntvBasketball.Duel.Seats
import IntvBasketball.Duel.Pair

namespace IntvBasketball.Duel

open Lib Console
open Mach (Within Does Only)
open Relation (ReflTransGen)

/-! ## A piece of code and the steps it makes -/

/-- From `m` to `m'` the console of seat `s` does what the protocol does from `y` to `y'`;
    `q` is left to be read. -/
structure Both (d s : Nat) (y y' : Sys) (q : List (Nat × Msg)) (m m' : Mach) : Prop where
  reach : Reach d y'
  path : ReflTransGen (Step d) y y'
  onward : ∃ out evs, Onward s y y' (y'.party s) q out evs ∧ (∀ x ∈ out, x.2.Fits) ∧
    Did d s (y'.party s) (out.map Prod.snd) evs m m'

section
variable {d s : Nat} {y y' y'' : Sys} {q q' : List (Nat × Msg)} {m m' m'' : Mach}

theorem Both.mirrors (h : Both d s y y' q m m') : Mirrors d s (y'.party s) m' := by
  obtain ⟨out, evs, -, -, hd⟩ := h.onward
  exact hd.mirrors

theorem Both.inbox (h : Both d s y y' q m m') : y'.inbox s = q := by
  obtain ⟨out, evs, ho, -, -⟩ := h.onward
  exact ho.inbox

theorem Both.trans (h : Both d s y y' q m m') (h' : Both d s y' y'' q' m' m'') :
    Both d s y y'' q' m m'' := by
  obtain ⟨out, evs, ho, hf, hd⟩ := h.onward
  obtain ⟨out', evs', ho', hf', hd'⟩ := h'.onward
  refine ⟨h'.reach, h.path.trans h'.path, out ++ out', evs ++ evs', ho.trans ho',
    fun x hx => ?_, ?_⟩
  · rcases List.mem_append.mp hx with hx | hx
    · exact hf x hx
    · exact hf' x hx
  · rw [List.map_append]
    exact hd.trans hd'

/-- Code that the party does not show. -/
theorem Both.still (hr : Reach d y) (hd : Did d s (y.party s) [] [] m m') :
    Both d s y y (y.inbox s) m m' :=
  ⟨hr, .refl, [], [], Onward.refl s y, fun _ hx => absurd hx List.not_mem_nil, hd⟩

theorem map_tagged (e : Nat) (ms : List Msg) : (tagged e ms).map Prod.snd = ms := by
  rw [tagged, List.map_map]
  exact List.map_id ms

/-- Code that does one step. -/
theorem Both.one {p : Party} {e : Nat} {ms : List Msg} {evs : List Ev} (hr : Reach d y)
    (hs : Step d y y') (ho : Onward s y y' p q (tagged e ms) evs) (hf : ∀ x ∈ ms, x.Fits)
    (hd : Did d s p ms evs m m') : Both d s y y' q m m' := by
  have hme := ho.me
  subst hme
  refine ⟨.step hr hs, .single hs, _, evs, ho, fun x hx => ?_, ?_⟩
  · obtain ⟨x', hx', rfl⟩ := List.mem_map.mp hx
    exact hf x' hx'
  · rw [map_tagged]
    exact hd

/-! ## Frames -/

theorem answer_fits {p : Party} {x : Msg} (s : Nat) : ∀ z ∈ p.answer s x, z.Fits := by
  intro z hz
  unfold Party.answer at hz
  split at hz
  · exact absurd hz List.not_mem_nil
  · cases x with
    | crc t v =>
      rw [Party.reply] at hz
      split at hz
      · rw [List.mem_singleton.mp hz]
        trivial
      · exact absurd hz List.not_mem_nil
    | _ => exact absurd hz List.not_mem_nil

theorem recv_cap (d : Nat) (host : Bool) (p : Party) (x : Msg) : (p.recv d host x).cap = p.cap := by
  by_cases hf : x = .fin
  · subst hf
    rw [Party.recv]
    split <;> rfl
  · exact (recv_clock host p hf).2.2.1

/-- The parse loop reads whole messages, one after the other. -/
theorem both_ppLoop (hd : 1 ≤ d) (hd' : d ≤ 15) {fuel : Nat} {bs rest : List Byte}
    (hr : Reach d y) (hm : Mirrors d s (y.party s) m) (hfit : ∀ x ∈ y.inbox s, x.2.Fits)
    (ha : Acc m bs) (hb : bs ++ rest = flat (1 - s) (y.inbox s)) (hl : ppLoop fuel m = some m') :
    ∃ y' q, Both d s y y' q m m' ∧ (y'.party s).cap = (y.party s).cap ∧
      (∀ x ∈ q, x ∈ y.inbox s) ∧ ∃ bs', Acc m' bs' ∧ sesPeek bs' = .more ∧
        bs' ++ rest = flat (1 - s) q := by
  induction fuel generalizing y m bs with
  | zero => cases hl
  | succ fuel ih =>
    have hs := hm.setup.two
    cases hp : sesPeek bs with
    | more =>
      rw [ppLoop, ppRound_more ha hp, Option.some.injEq] at hl
      subst hl
      exact ⟨y, _, Both.still hr (Did.refl hm), rfl, fun _ hx => hx, bs, ha, hp, hb⟩
    | halt e => exact absurd hp (sesPeek_ne_halt bs e)
    | emit e n =>
      obtain ⟨⟨ep, x⟩, q, hq, rfl, hrest⟩ := peek_flat hfit hb hp
      obtain ⟨me, hround, hacc, hw, -, -, hholds⟩ := ppRound_frame_acc ha hp
      rw [ppLoop, hround] at hl
      -- the frame is in FRMBUF
      have hno : ∀ a, mirrorCell a ∨ lossCell a → ¬ (a = rxRd ∨ area frmBuf 100 a) := by
        intro a hma
        revert hma
        simp only [mirrorCell, setupCells, lossCell, area, List.mem_cons, List.not_mem_nil,
          or_false, netSeat, netCount, netDelay, peerScr, tickLo, tickHi, resyncHold, rsPend, rsRLo,
          rsRHi, seatWm, seatRing, ownCrc, diagSlip, diagRej, rxRd, frmBuf]
        omega
      have hload : Did d s (y.party s) [] [] m me := Did.still hm hw hno rfl
      have hx := hfit (ep, x) (by rw [hq]; exact List.mem_cons_self)
      have hframe := did_frame hd hload.mirrors hholds hx (hr.inOrder hd hd' hs hq)
      obtain ⟨y1, hstep, hon⟩ := onward_recv hd hd' hr hs hq
      have hboth : Both d s y y1 q m (sesOnframe me) := by
        have h1 := hload.trans hframe
        exact Both.one hr hstep hon (answer_fits s) h1
      have hin := hboth.inbox
      have hsub : ∀ z ∈ q, z ∈ y.inbox s := fun z hz => by
        rw [hq]
        exact List.mem_cons_of_mem _ hz
      have hsafe : PumpSafe me := pumpSafe_of_count (by
        rw [hload.mirrors.setup.count]
        decide)
      have hacc' : Acc (sesOnframe me) (bs.drop n) := hacc.congr (sesOnframe_keeps hsafe).1
      obtain ⟨y2, q2, hboth2, hcap, hsub2, bs', hacc2, hmore, hrest2⟩ :=
        ih hboth.reach hboth.mirrors (fun z hz => hfit z (hsub z (hin ▸ hz))) hacc'
          (by rw [hin]; exact hrest) hl
      refine ⟨y2, q2, hboth.trans hboth2, ?_, fun z hz => hsub z (hin ▸ hsub2 z hz), bs', hacc2,
        hmore, hrest2⟩
      rw [hcap, hon.me]
      exact recv_cap _ _ _ _

/-- One pump. -/
theorem both_pump (hd : 1 ≤ d) (hd' : d ≤ 15) {got bs rest : List Byte} (hr : Reach d y)
    (hm : Mirrors d s (y.party s) m) (hfit : ∀ x ∈ y.inbox s, x.2.Fits) (ha : Acc m bs)
    (hmore : sesPeek bs = .more) (hlen : got.length ≤ 64)
    (hb : bs ++ (got ++ rest) = flat (1 - s) (y.inbox s)) (hp : sesPump m got = some m') :
    ∃ y' q, Both d s y y' q m m' ∧ (y'.party s).cap = (y.party s).cap ∧
      (∀ x ∈ q, x ∈ y.inbox s) ∧ ∃ bs', Acc m' bs' ∧ sesPeek bs' = .more ∧
        bs' ++ rest = flat (1 - s) q := by
  have hbs := length_le_of_more hmore
  have hacc := ppCp_acc ha got (by omega)
  have hno : ∀ a, mirrorCell a ∨ lossCell a → ¬ (a = rxWr ∨ area rxAcc 256 a) := by
    intro a hma
    revert hma
    simp only [mirrorCell, setupCells, lossCell, area, List.mem_cons, List.not_mem_nil, or_false,
      netSeat, netCount, netDelay, peerScr, tickLo, tickHi, resyncHold, rsPend, rsRLo, rsRHi,
      seatWm, seatRing, ownCrc, diagSlip, diagRej, rxWr, rxAcc]
    omega
  have hcp : Did d s (y.party s) [] [] m (ppCp m got) := Did.still hm (within_ppCp m got) hno rfl
  rw [← List.append_assoc] at hb
  obtain ⟨y', q, hboth, hrest⟩ := both_ppLoop hd hd' hr hcp.mirrors hfit hacc hb hp
  have h1 := Both.still hr hcp
  exact ⟨y', q, h1.trans hboth, hrest⟩

/-! ## The parser is left alone between pumps -/

theorem parser_not_ls {a : Nat} (h : parserCell a) : ¬ lsCell a := by
  rintro (hc | hc | hc | hc)
  · exact not_parserCell_of_rebaseCell hc h
  · revert hc
    simp only [pushCell, rsTmp2, lsTmpb, rsPosLo, rsPosHi]
    simp only [parserCell, area, rxWr, rxRd, diagSlip, rxAcc] at h
    omega
  · simp only [parserCell, area, rxWr, rxRd, diagSlip, rxAcc, scCnt2] at h hc
    omega
  · have hall : ∀ a ∈ [lsFroze, lsSave102, isrPhase, peerWhy, netDropped, lsTmpb, lsTmpb2,
        shadowCtrl, shadowCtrlR, vdTmp, vdSide, vdCur, vdPrev, vdKp, vdKppre, vdCtrl, rsGate,
        rsWaited, rsRLo, rsRHi], ¬ parserCell a := by decide
    exact hall a hc h

theorem parser_not_game {a : Nat} (h : parserCell a) : ¬ gameCell a := by
  simp only [parserCell, area, rxWr, rxRd, diagSlip, rxAcc, gameCell, rngLo, rngHi] at h ⊢
  omega

theorem parser_not_tick {a : Nat} (h : parserCell a) : ¬ tickCell a := by
  rintro (((hc | hc | hc) | hc | hc) | hc | hc)
  · exact parser_not_game h hc
  · simp only [parserCell, area, rxWr, rxRd, diagSlip, rxAcc, scCnt2] at h hc
    omega
  · exact parser_not_ls h
      (playCell_of_act (Or.inr (Or.inr hc)) |>.resolve_right (parser_not_game h))
  · simp only [parserCell, area, rxWr, rxRd, diagSlip, rxAcc, ownCrc] at h hc
    omega
  · have hall : ∀ a ∈ [shadowCtrl, shadowCtrlR, gameTblLo, gameTblHi, lsTmpb, lsTmpb2],
        ¬ parserCell a := by decide
    exact hall a hc h
  · exact parser_not_ls h (lsCell_of_sent hc)
  · have hall : ∀ a ∈ [tickLo, tickHi, rsPtmo, rsGate, rsWaited], ¬ parserCell a := by decide
    exact hall a hc h

theorem parser_not_menu {a : Nat} (h : parserCell a) : ¬ menuCell a := by
  rintro (hc | hc)
  · exact not_parserCell_of_screenArea hc h
  · have hall : ∀ a ∈ [sesTmrLo, 0x32, isrPhase], ¬ parserCell a := by decide
    exact hall a hc h

theorem acc_only {S : Nat → Prop} {bs : List Byte} (h : Acc m bs) (ho : Only S m m')
    (hS : ∀ a, parserCell a → ¬ S a) : Acc m' bs := by
  obtain ⟨tx, ev, hdoes⟩ := ho
  exact h.congr (fun a ha => hdoes.keep a (hS a ha))

/-! ## Moves -/

/-- A console in the match: its party has captured exactly when it is at the gate, and less
    than a frame of what it has read is not parsed. -/
structure Live (d s : Nat) (p : Party) (q : List (Nat × Msg)) (rest : List Byte) (c : Con) :
    Prop where
  mirrors : Mirrors d s p c.m
  pos : (c.pos = .top ∧ p.cap = false) ∨ (c.pos = .gate ∧ p.cap = true)
  unread : ∃ bs, Acc c.m bs ∧ sesPeek bs = .more ∧ bs ++ rest = flat (1 - s) q

theorem Live.top {p : Party} {rest : List Byte} (h : Live d s p q rest ⟨m, .top⟩) :
    p.cap = false := by
  rcases h.pos with hp | hp
  · exact hp.2
  · cases hp.1

theorem Live.gate {p : Party} {rest : List Byte} (h : Live d s p q rest ⟨m, .gate⟩) :
    p.cap = true := by
  rcases h.pos with hp | hp
  · cases hp.1
  · exact hp.2

/-- Where a move leads: its party makes steps, and the console is in the match again. -/
def Led (d s : Nat) (y : Sys) (rest : List Byte) (m : Mach) (c : Con) : Prop :=
  ∃ y' q, Both d s y y' q m c.m ∧ (∀ x ∈ q, x ∈ y.inbox s) ∧ Live d s (y'.party s) q rest c

section
variable {got bs rest : List Byte}

/-- Work between two pumps, at the same place. -/
theorem led_still {S : Nat → Prop} {pos : At} (hr : Reach d y)
    (hl : Live d s (y.party s) (y.inbox s) rest ⟨m, pos⟩) (hdid : Did d s (y.party s) [] [] m m')
    (ho : Only S m m') (hS : ∀ a, parserCell a → ¬ S a) : Led d s y rest m ⟨m', pos⟩ := by
  obtain ⟨bs, hacc, hmore, hb⟩ := hl.unread
  exact ⟨y, _, Both.still hr hdid, fun _ hx => hx, hdid.mirrors, hl.pos, bs, acc_only hacc ho hS,
    hmore, hb⟩

/-- A pump at the same place. -/
theorem led_pump (hd : 1 ≤ d) (hd' : d ≤ 15) {pos : At} (hr : Reach d y)
    (hfit : ∀ x ∈ y.inbox s, x.2.Fits)
    (hl : Live d s (y.party s) (y.inbox s) (got ++ rest) ⟨m, pos⟩) (hlen : got.length ≤ 64)
    (hp : sesPump m got = some m') : Led d s y rest m ⟨m', pos⟩ := by
  obtain ⟨bs, hacc, hmore, hb⟩ := hl.unread
  obtain ⟨y', q, hboth, hcap, hsub, hun⟩ :=
    both_pump hd hd' hr hl.mirrors hfit hacc hmore hlen hb hp
  refine ⟨y', q, hboth, hsub, hboth.mirrors, ?_, hun⟩
  rw [hcap]
  exact hl.pos

/-- One piece of work after the other. -/
theorem Led.trans {c c' : Con} (h : Led d s y rest m c)
    (h' : ∀ y', Reach d y' → (∀ x ∈ y'.inbox s, x ∈ y.inbox s) →
      Live d s (y'.party s) (y'.inbox s) rest c → Led d s y' rest c.m c') :
    Led d s y rest m c' := by
  obtain ⟨y1, q1, hboth, hsub, hlive⟩ := h
  have hin := hboth.inbox
  rw [← hin] at hsub hlive
  obtain ⟨y2, q2, hboth2, hsub2, hlive2⟩ := h' y1 hboth.reach hsub hlive
  exact ⟨y2, q2, hboth.trans hboth2, fun x hx => hsub x (hsub2 x hx), hlive2⟩

/-- Freeze, pump, count. -/
theorem led_round (hd : 1 ≤ d) (hd' : d ≤ 15) {pos : At} {round : Mach → Mach}
    (hround : ∀ {p : Party} {m : Mach}, Mirrors d s p m → (round m).rd netDropped = 0 →
      Did d s p [] [] m (round m))
    (honly : ∀ m, Only lsCell m (round m)) (hr : Reach d y) (hfit : ∀ x ∈ y.inbox s, x.2.Fits)
    (hl : Live d s (y.party s) (y.inbox s) (got ++ rest) ⟨m, pos⟩) (hlen : got.length ≤ 64)
    (hp : sesPump (lsFreeze m) got = some m') (hdrop : (round m').rd netDropped = 0) :
    Led d s y rest m ⟨round m', pos⟩ := by
  obtain ⟨bs, hacc, hmore, hb⟩ := hl.unread
  have hfreeze := did_freeze hl.mirrors
  have hlive : Live d s (y.party s) (y.inbox s) (got ++ rest) ⟨lsFreeze m, pos⟩ :=
    ⟨hfreeze.mirrors, hl.pos, bs, acc_only hacc (within_lsFreeze m).only (fun _ => parser_not_ls),
      hmore, hb⟩
  obtain ⟨y1, q1, hboth, hsub, hlive1⟩ := led_pump hd hd' hr hfit hlive hlen hp
  have h1 : Led d s y rest m ⟨m', pos⟩ :=
    ⟨y1, q1, (Both.still hr hfreeze).trans hboth, hsub, hlive1⟩
  refine h1.trans (fun y' hr' _ hl' => ?_)
  exact led_still hr' hl' (hround hl'.mirrors hdrop) (honly m') (fun _ => parser_not_ls)

/-- Pump and capture. -/
theorem led_turn (hd : 1 ≤ d) (hd' : d ≤ 15) (hr : Reach d y) (hfit : ∀ x ∈ y.inbox s, x.2.Fits)
    (hl : Live d s (y.party s) (y.inbox s) (got ++ rest) ⟨m, .top⟩) (hlen : got.length ≤ 64)
    (hp : sesPump m got = some m') : Led d s y rest m ⟨lsCapture m', .gate⟩ := by
  refine (led_pump hd hd' hr hfit hl hlen hp).trans (fun y1 hr1 _ hl1 => ?_)
  have hs := hl1.mirrors.setup.two
  obtain ⟨hc, hdid⟩ := did_capture hl1.mirrors
  obtain ⟨y2, hstep, hon⟩ := onward_capture hs _ hl1.top
  obtain ⟨bs, hacc, hmore, hb⟩ := hl1.unread
  have hseat : m'.rd netSeat < 4 := by
    have := hl1.mirrors.setup.seat
    change m'.rd netSeat = s at this
    omega
  refine ⟨y2, _, Both.one hr1 hstep hon (fun x hx => ?_) hdid, fun _ hx => hx, ?_, ?_, bs,
    acc_only hacc (only_lsCapture hseat) (fun _ => parser_not_ls), hmore, hb⟩
  · rw [List.mem_singleton.mp hx]
    exact hc
  · rw [hon.me]
    exact hdid.mirrors
  · rw [hon.me]
    exact Or.inr ⟨rfl, rfl⟩

/-- The tick, and the push behind it. -/
theorem led_run (k : Cart) (hd : 1 ≤ d) (hd' : d ≤ 15) (hr : Reach d y)
    (hl : Live d s (y.party s) (y.inbox s) rest ⟨m, .gate⟩) (ho : lsOpen m = true) :
    Led d s y rest m ⟨lsRun k m, .top⟩ := by
  have hs := hl.mirrors.setup.two
  obtain ⟨hlo, hhi⟩ := hr.mark_near hd hd' hs
  have hw := (hl.mirrors.open_iff hlo hhi).mp ho
  obtain ⟨v, hv, hdid⟩ := did_run k hl.mirrors
  obtain ⟨y1, hstep, hon⟩ := onward_run hs v hl.gate hw
  obtain ⟨bs, hacc, hmore, hb⟩ := hl.unread
  have hacc' : Acc (lsRun k m) bs := by
    have h1 := acc_only hacc (within_lsUnfreeze m).only (fun _ => parser_not_ls)
    exact acc_only h1 (only_lsRun k m) (fun _ => parser_not_tick)
  have hreport : ∀ x ∈ (y.party s).report v, x.Fits := by
    intro x hx
    unfold Party.report at hx
    split at hx
    · next hz =>
      rw [List.mem_singleton.mp hx]
      exact ⟨hz, hv⟩
    · exact absurd hx List.not_mem_nil
  have hboth := Both.one hr hstep hon hreport hdid
  have hin := hboth.inbox
  have hcap : (y1.party s).cap = false := by
    rw [hon.me]
    rfl
  rw [lsRun_eq] at hacc' ⊢
  rcases did_pending hd hboth.mirrors with hstill | ⟨rfl, hpend, fs, hfs, hpush⟩
  · have h2 := hboth.trans (Both.still hboth.reach hstill)
    rw [hin] at h2
    exact ⟨y1, _, h2, fun _ hx => hx, h2.mirrors, Or.inl ⟨rfl, hcap⟩, bs, hacc', hmore, hb⟩
  · obtain ⟨y2, hstep2, hon2⟩ := onward_push hd hd' hboth.reach fs hcap hpend
    have hfits : ∀ x ∈ pushMsgs (y1.party 0).t fs, x.Fits := by
      intro x hx
      rcases List.mem_cons.mp hx with rfl | hx
      · trivial
      · rcases List.mem_append.mp hx with hx | hx
        · obtain ⟨f, hf, rfl⟩ := List.mem_map.mp hx
          exact hfs f hf
        · rw [List.mem_singleton.mp hx]
          trivial
    have h2 := hboth.trans (Both.one hboth.reach hstep2 hon2 hfits hpush)
    rw [hin] at h2
    refine ⟨y2, _, h2, fun _ hx => hx, h2.mirrors, Or.inl ⟨rfl, ?_⟩, bs, hacc', hmore, hb⟩
    rw [hon2.me]
    exact hcap

/-- A move in the match. -/
theorem led_move {k : Cart} (hd : 1 ≤ d) (hd' : d ≤ 15) (hr : Reach d y)
    (hfit : ∀ x ∈ y.inbox s, x.2.Fits) {c c' : Con}
    (hl : Live d s (y.party s) (y.inbox s) (got ++ rest) c) (hdrop : c.m.rd netDropped = 0)
    (hm : Move k d s (some c) m got c') (hdrop' : c'.m.rd netDropped = 0) :
    Led d s y rest m c' := by
  cases hm with
  | screen hw =>
    exact led_still hr hl (did_screen hl.mirrors hw) hw.only (fun _ => parser_not_menu)
  | pump hlen hp => exact led_pump hd hd' hr hfit hl hlen hp
  | exec m f =>
    have hg : Within gameCell m (m.game f) := (Does.refl gameCell m).game f (fun _ hg => hg)
    exact led_still hr hl (did_game hl.mirrors f) hg.only (fun _ => parser_not_game)
  | turn hlen hdue hp => exact led_turn hd hd' hr hfit hl hlen hp
  | wait hlen hd0 ho hp =>
    exact led_round hd hd' did_waitRound (fun m => (within_lsWaitRound m).only) hr hfit hl hlen hp
      hdrop'
  | run ho => exact led_run k hd hd' hr hl (ho.resolve_left (not_not.mpr hdrop))
  | hold hlen hs0 hd0 hh hp =>
    exact led_round hd hd' did_holdRound (fun m => (within_lsHoldRound m).only) hr hfit hl hlen hp
      hdrop'

/-- START. -/
theorem led_start {k : Cart} (hd : 1 ≤ d) (hd' : d ≤ 15) (hr : Reach d y)
    (hfit : ∀ x ∈ y.inbox s, x.2.Fits) (hp : y.party s = Party.start d)
    (hb : got ++ rest = flat (1 - s) (y.inbox s)) {c : Con} (hm : Move k d s none m got c) :
    Led d s y rest m c := by
  cases hm with
  | start hst ha hl =>
    have hdid := did_start hd hst
    rw [← hp] at hdid
    have hkeep : ∀ a, parserCell a → (sesOnframe m).rd a = m.rd a := by
      intro a hpa
      rw [sesOnframe_start hst.start]
      exact (within_ofStart _).keep a (fun hx => not_parserCell_of_startArea hx hpa)
    obtain ⟨y', q, hboth, hcap, hsub, hun⟩ :=
      both_ppLoop hd hd' hr hdid.mirrors hfit (ha.congr hkeep) hb hl
    have h2 := (Both.still hr hdid).trans hboth
    refine ⟨y', q, h2, hsub, h2.mirrors, Or.inl ⟨rfl, ?_⟩, hun⟩
    rw [hcap, hp]
    rfl

end

/-! ## Runs -/

/-- The pair and the protocol. -/
structure Sim (d : Nat) (u : Duo) (y : Sys) : Prop where
  reach : Reach d y
  fits : ∀ s < 2, ∀ x ∈ y.inbox s, x.2.Fits
  asleep : ∀ s < 2, u.con s = none →
    y.party s = Party.start d ∧ u.box s = flat (1 - s) (y.inbox s)
  awake : ∀ s < 2, ∀ c, u.con s = some c →
    Live d s (y.party s) (y.inbox s) (u.box s) c ∧ c.m.rd netDropped = 0
  tale : ∀ s < 2, (u.tale s).filterMap Ev.told = y.tale s
  owed : y.owed ≤ (u.tale 0).countP Ev.alarm + (u.tale 1).countP Ev.alarm
  differ : ∀ s < 2, ∀ e t c, .onCrc t c .bad ∈ epochOf e (u.tale s) → Differ y s e t c

theorem flat_eq_flatMap (s : Nat) (q : List (Nat × Msg)) :
    flat s q = (q.map Prod.snd).flatMap (Msg.bytes s) := by
  induction q with
  | nil => rfl
  | cons x q ih => rw [flat, ih, List.map_cons, List.flatMap_cons]

theorem sim_start (d : Nat) : Sim d Duo.start (Sys.start d) where
  reach := .start
  fits s hs x hx := by
    rcases seat_cases hs with rfl | rfl
    · exact absurd hx List.not_mem_nil
    · exact absurd hx List.not_mem_nil
  asleep s hs _ := by
    rcases seat_cases hs with rfl | rfl
    · exact ⟨rfl, rfl⟩
    · exact ⟨rfl, rfl⟩
  awake s _ c hc := by cases hc
  tale s hs := by
    rcases seat_cases hs with rfl | rfl
    · rfl
    · rfl
  owed := Nat.le_refl _
  differ _ _ _ _ _ h := absurd h List.not_mem_nil

/-- What seat `s` did, seen from both seats. -/
theorem Sim.next {u : Duo} {c : Con} {rest out : List Byte} {evs : List Ev} (h : Sim d u y)
    (hs : s < 2) (hled : Led d s y rest m c) (htx : c.m.tx = m.tx ++ out)
    (hev : c.m.ev = m.ev ++ evs) (hdrop : c.m.rd netDropped = 0) :
    ∃ y', Sim d (u.next s c rest out evs) y' ∧ ReflTransGen (Step d) y y' := by
  obtain ⟨y', q, hboth, hsub, hlive⟩ := hled
  obtain ⟨out', evs', hon, hf, hdid⟩ := hboth.onward
  have hin := hon.inbox
  have hsent : out = flat s out' := by
    have := hdid.sent
    rw [htx, ← flat_eq_flatMap] at this
    exact List.append_cancel_left this
  have hseen : evs.filterMap Ev.seen = evs' := by
    have := hdid.seen
    rw [hev, List.filterMap_append] at this
    exact List.append_cancel_left this
  obtain ⟨hcon, hbox, htale⟩ := u.next_self c rest out evs hs
  obtain ⟨hcon', hbox', htale'⟩ := u.next_peer c rest out evs hs
  have hback : 1 - (1 - s) = s := by omega
  have hflat : u.box (1 - s) ++ out = u.box (1 - s) ++ flat (1 - (1 - s)) out' := by
    rw [hback, hsent]
  have hboth' : ∀ t < 2, t = s ∨ t = 1 - s := fun t ht => by omega
  have hep : (resumes (u.tale s)).length = (y.party s).ep := by
    rw [← resumes_told, h.tale s hs, Sys.tale, resumes_story, List.length_map, List.length_range]
  refine ⟨y', ⟨hboth.reach, fun t ht x hx => ?_, fun t ht hc => ?_, fun t ht c' hc => ?_,
    fun t ht => ?_, ?_, fun t ht e n v hx => ?_⟩, hboth.path⟩
  · rcases hboth' t ht with rfl | rfl
    · exact h.fits t ht x (hsub x (hin ▸ hx))
    · rw [hon.outbox] at hx
      rcases List.mem_append.mp hx with hx | hx
      · exact h.fits (1 - s) ht x hx
      · exact hf x hx
  · rcases hboth' t ht with rfl | rfl
    · rw [hcon] at hc
      cases hc
    · rw [hcon'] at hc
      obtain ⟨h1, h2⟩ := h.asleep _ ht hc
      rw [hon.peer, hbox', hon.outbox, flat_append, ← h2]
      exact ⟨h1, hflat⟩
  · rcases hboth' t ht with rfl | rfl
    · rw [hcon, Option.some.injEq] at hc
      subst hc
      rw [hbox, hin]
      exact ⟨hlive, hdrop⟩
    · rw [hcon'] at hc
      obtain ⟨hl, hd0⟩ := h.awake _ ht c' hc
      obtain ⟨bs, hacc, hmore, hb⟩ := hl.unread
      rw [hon.peer, hbox', hon.outbox]
      refine ⟨⟨hl.mirrors, hl.pos, bs, hacc, hmore, ?_⟩, hd0⟩
      rw [flat_append, ← hb, hflat, List.append_assoc]
  · rcases hboth' t ht with rfl | rfl
    · rw [htale, List.filterMap_append, h.tale t ht, hon.tale, ← hseen, told_seen]
    · rw [htale', h.tale _ ht, hon.peerTale]
  · have h1 := h.owed
    have h2 := hon.owed
    rw [← hseen, alarm_seen] at h2
    rcases seat_cases hs with rfl | rfl
    · change (u.next 0 c rest out evs).tale 1 = u.tale 1 at htale'
      rw [htale, htale', List.countP_append]
      omega
    · change (u.next 1 c rest out evs).tale 0 = u.tale 0 at htale'
      rw [htale, htale', List.countP_append]
      omega
  · rcases hboth' t ht with rfl | rfl
    · rw [htale] at hx
      rcases mem_epochOf_append.mp hx with hold | ⟨j, hj, hnew⟩
      · exact (h.differ t ht e n v hold).grow hon.grow
      · have hmem : Ev.onCrc n v .bad ∈ (epochOf j evs).filterMap Ev.seen :=
          List.mem_filterMap.mpr ⟨.onCrc n v .bad, hnew, rfl⟩
        rw [← epochOf_filterMap marks_seen, hseen] at hmem
        rw [hj, hep]
        exact hon.differ j n v hmem
    · rw [htale'] at hx
      exact (h.differ _ ht e n v hx).grow hon.grow

/-- A move of the pair leads the console where it leads its party. -/
theorem Sim.led {k : Cart} {u : Duo} {c : Con} {got rest : List Byte} (h : Sim d u y) (hd : 1 ≤ d)
    (hd' : d ≤ 15) (hs : s < 2) (hb : u.box s = got ++ rest) (hm : Move k d s (u.con s) m got c)
    (hdrop : c.m.rd netDropped = 0) : Led d s y rest m c := by
  cases hc : u.con s with
  | none =>
    rw [hc] at hm
    obtain ⟨h1, h2⟩ := h.asleep s hs hc
    exact led_start hd hd' h.reach (h.fits s hs) h1 (hb.symm.trans h2) hm
  | some c0 =>
    rw [hc] at hm
    obtain ⟨hl, hd0⟩ := h.awake s hs c0 hc
    rw [hb] at hl
    exact led_move hd hd' h.reach (h.fits s hs) hl hd0 hm hdrop

theorem Led.loss {rest : List Byte} {c : Con} (h : Led d s y rest m c) {a : Nat} (ha : lossCell a) :
    c.m.rd a = m.rd a := by
  obtain ⟨y', q, hboth, -⟩ := h
  obtain ⟨out, evs, -, -, hdid⟩ := hboth.onward
  exact hdid.loss a ha

theorem Led.logs {rest : List Byte} {c : Con} (h : Led d s y rest m c) :
    m.tx <+: c.m.tx ∧ m.ev <+: c.m.ev := by
  obtain ⟨y', q, hboth, -⟩ := h
  obtain ⟨out, evs, -, -, hdid⟩ := hboth.onward
  exact ⟨⟨_, hdid.sent.symm⟩, hdid.log⟩

theorem Sim.step {k : Cart} {u u' : Duo} (h : Sim d u y) (hd : 1 ≤ d) (hd' : d ≤ 15)
    (hs : Duo.Step k d u u') : ∃ y', Sim d u' y' ∧ ReflTransGen (Step d) y y' := by
  cases hs with
  | move hs hb hm htx hev hdrop => exact h.next hs (h.led hd hd' hs hb hm hdrop) htx hev hdrop

/-- A run of the pair is a run of the protocol. -/
theorem Sim.runs {k : Cart} {u u' : Duo} (h : Sim d u y) (hd : 1 ≤ d) (hd' : d ≤ 15)
    (hr : ReflTransGen (Duo.Step k d) u u') : ∃ y', Sim d u' y' ∧ ReflTransGen (Step d) y y' := by
  induction hr with
  | refl => exact ⟨y, h, .refl⟩
  | tail _ hs ih =>
    obtain ⟨y1, hy1, hpath⟩ := ih
    obtain ⟨y2, hy2, hpath2⟩ := hy1.step hd hd' hs
    exact ⟨y2, hy2, hpath.trans hpath2⟩

theorem Duo.Runs.sim {k : Cart} {u : Duo} (h : Duo.Runs k d u) (hd : 1 ≤ d) (hd' : d ≤ 15) :
    ∃ y, Sim d u y := by
  obtain ⟨y, hy, -⟩ := (sim_start d).runs hd hd' h
  exact ⟨y, hy⟩

end

/-- Seat `s` goes from `m` to `m'` on the first `n` bytes that wait for it. -/
def Duo.go (u : Duo) (s n : Nat) (m m' : Mach) (pos : At) : Duo :=
  u.next s ⟨m', pos⟩ ((u.box s).drop n) (m'.tx.drop m.tx.length) (m'.ev.drop m.ev.length)

/-- Every move of a console that does not give up on its peer is a step of the pair. -/
theorem Duo.Runs.step {k : Cart} {d s n : Nat} {u : Duo} {m m' : Mach} {pos : At}
    (h : Duo.Runs k d u) (hd : 1 ≤ d) (hd' : d ≤ 15) (hs : s < 2)
    (hm : Move k d s (u.con s) m ((u.box s).take n) ⟨m', pos⟩) (hdrop : m'.rd netDropped = 0) :
    Duo.Step k d u (u.go s n m m' pos) := by
  obtain ⟨y, hy⟩ := h.sim hd hd'
  have hb : u.box s = (u.box s).take n ++ (u.box s).drop n := (List.take_append_drop n _).symm
  obtain ⟨htx, hev⟩ := (hy.led hd hd' hs hb hm hdrop).logs
  exact .move hs hb hm (List.prefix_iff_eq_append.mp htx).symm
    (List.prefix_iff_eq_append.mp hev).symm hdrop

end IntvBasketball.Duel
