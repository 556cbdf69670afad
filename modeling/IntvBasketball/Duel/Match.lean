/-
  A match between two consoles.

  What holds in every run of the pair, with resyncs or without, whatever the game, the
  buttons and the timing are, as long as neither console gives up on the other.

  The run the results are tried on (`opening`) has a resync in it: two consoles with delay 1
  play tick 0 on different memories, exchange its checksums, and the host, whose button 1
  is down, pushes after tick 1 (`pushed`).
-/
import Mathlib.Data.List.Infix
import IntvBasketball.Duel.Level
import IntvBasketball.Duel.Simulate
import IntvBasketball.Duel.Tale

namespace IntvBasketball.Duel

open Lib Console
open Relation (ReflTransGen)

/-! ## Logs by seat -/

section
variable {d s : Nat} {u : Duo} {y : Sys}

theorem Reach.base_zero (h : Reach d y) : y.base 0 = 0 := by
  induction h with
  | start => rfl
  | @step y _ _ hs ih =>
    cases hs with
    | pushH fs hc hp =>
      have hne : 0 ≠ y.h.ep + 1 := (Nat.succ_ne_zero _).symm
      exact (Function.update_of_ne hne (y.h.t + 16) y.base).trans ih
    | _ => exact ih

/-- Nothing was run of an epoch the seat has not reached. -/
theorem Logs.next (hl : Logs d y) (hs : s < 2) {e : Nat} (he : (y.party s).ep < e) :
    y.log s e = [] := by
  rcases seat_cases hs with rfl | rfl
  · exact hl.hostNext e he
  · exact hl.guestNext e he

theorem Played.ticks {I J : Nat → Option Cell} {b n : Nat} {l : List Beat}
    (h : Played I J b n l) : l.map Beat.t = List.range' b n := by
  have := congrArg (List.map Prod.fst) h
  rw [List.map_map, List.map_map] at this
  exact this.trans (List.map_id _)

/-- The ticks of an epoch follow one another. -/
theorem Logs.numbered (hl : Logs d y) (hs : s < 2) (e : Nat) :
    ∃ n, (y.log s e).map Beat.t = List.range' (y.base e) n := by
  by_cases he : e ≤ (y.party s).ep
  · rcases seat_cases hs with rfl | rfl
    · obtain ⟨n, hn, -⟩ := hl.host e he
      exact ⟨n, hn.ticks⟩
    · obtain ⟨n, hn, -⟩ := hl.guest e he
      exact ⟨n, hn.ticks⟩
  · rw [hl.next hs (by omega)]
    exact ⟨0, rfl⟩

/-- An epoch of a console's tale shows its party's log. -/
theorem Sim.epoch (h : Sim d u y) (hd : 1 ≤ d) (hd' : d ≤ 15) (hs : s < 2) (e : Nat) :
    (epochOf e (u.tale s)).filterMap Ev.told = epochEvs (y.log s e) := by
  rw [← epochOf_filterMap marks_told, h.tale s hs, Sys.tale, epochOf_story]
  split
  · rfl
  · next hgt =>
    rw [(h.reach.logs hd hd').next hs (by omega)]
    rfl

theorem Sim.resumes (h : Sim d u y) (hs : s < 2) : resumes (u.tale s) =
    (List.range (y.party s).ep).map (fun e => y.base (e + 1) % 65536) := by
  rw [← resumes_told, h.tale s hs]
  exact resumes_story _ _ _

theorem Sim.ticks (h : Sim d u y) (hd : 1 ≤ d) (hd' : d ≤ 15) (hs : s < 2) (e : Nat) :
    ticks (epochOf e (u.tale s)) = (y.log s e).map (fun b => b.t % 65536) := by
  rw [← ticks_told, h.epoch hd hd' hs, ticks_epochEvs]

theorem Sim.play (h : Sim d u y) (hd : 1 ≤ d) (hd' : d ≤ 15) (hs : s < 2) (e : Nat) :
    (epochOf e (u.tale s)).filter Ev.play = ((y.log s e).map Beat.run).flatMap playEvs := by
  rw [← filter_told, h.epoch hd hd' hs, play_epochEvs]

theorem Sim.checks (h : Sim d u y) (hd : 1 ≤ d) (hd' : d ≤ 15) (hs : s < 2) (e : Nat) :
    checks (epochOf e (u.tale s)) = checks (epochEvs (y.log s e)) := by
  rw [← checks_told, h.epoch hd hd' hs]

end

/-! ## An opening -/

section
variable {k : Cart} {d s : Nat} {p m : Mach} {got : List Byte}

theorem Move.startIdle (hs : Starts d s p) (hp : p.rd rxWr = p.rd rxRd)
    (h : (sesOnframe p).rd rxWr = (sesOnframe p).rd rxRd) :
    Move k d s none p [] ⟨sesOnframe p, .top⟩ :=
  .start hs (.nil hp) (ppLoop_idle h 0).1

theorem Move.turnIdle (hd : lsDue m = true) (h : m.rd rxWr = m.rd rxRd) :
    Move k d s (some ⟨m, .top⟩) m [] ⟨lsCapture m, .gate⟩ :=
  .turn (Nat.zero_le _) hd (ppLoop_idle h 255).1

def pumped (m : Mach) (got : List Byte) : Mach := (sesPump m got).getD m

theorem sesPump_pumped (h : (sesPump m got).isSome = true) :
    sesPump m got = some (pumped m got) := by
  obtain ⟨m1, hm1⟩ := Option.isSome_iff_exists.mp h
  rw [pumped, hm1, Option.getD_some]

end

/-- START for seat `s` of two, delay 1. -/
def seatFrame (s : Nat) : Mach :=
  Mach.zero.stList frmBuf ([38, ftStart, s, 2, 0x34, 0x12, 1] ++ List.replicate 32 0x41)

/-- Before its first tick the game of seat `s` has stored `v` everywhere, and the scanner has
    found button `s + 1` down. -/
def ready (s v : Nat) : Mach :=
  (sesOnframe (seatFrame s)).game (fun _ a => if a = execKpL then s + 1 else v)

def once (s v : Nat) : Mach := lsRun stillCart (lsCapture (ready s v))

def kickoff : Duo :=
  (Duo.start.go 0 0 (seatFrame 0) (sesOnframe (seatFrame 0)) .top).go 1 0 (seatFrame 1)
    (sesOnframe (seatFrame 1)) .top

/-- Seat `s` captures for tick 0. -/
def Duo.catch (u : Duo) (s v : Nat) : Duo :=
  (u.go s 0 (sesOnframe (seatFrame s)) (ready s v) .top).go s 0 (ready s v)
    (lsCapture (ready s v)) .gate

/-- And runs it. -/
def Duo.first (u : Duo) (s v : Nat) : Duo :=
  (u.catch s v).go s 0 (lsCapture (ready s v)) (once s v) .top

/-- Both have run tick 0. -/
def tipped (v w : Nat) : Duo := (kickoff.first 0 v).first 1 w

/-- What the first tick of a seat rests on. -/
def Sound (s v : Nat) : Prop :=
  (ready s v).rd rxWr = (ready s v).rd rxRd ∧ (ready s v).rd netDropped = 0 ∧
    lsDue (ready s v) = true ∧ (lsCapture (ready s v)).rd netDropped = 0 ∧
    lsOpen (lsCapture (ready s v)) = true ∧ (once s v).rd netDropped = 0

instance (s v : Nat) : Decidable (Sound s v) := by unfold Sound; infer_instance

theorem kickoff_runs (k : Cart) : Duo.Runs k 1 kickoff := by
  have h0 : Starts 1 0 (seatFrame 0) := by
    constructor <;> decide +kernel
  have h1 : Starts 1 1 (seatFrame 1) := by
    constructor <;> decide +kernel
  have hidle : ∀ s < 2, (seatFrame s).rd rxWr = (seatFrame s).rd rxRd ∧
      (sesOnframe (seatFrame s)).rd rxWr = (sesOnframe (seatFrame s)).rd rxRd ∧
      (sesOnframe (seatFrame s)).rd netDropped = 0 := by
    decide +kernel
  obtain ⟨ha, hb, hc⟩ := hidle 0 (by decide)
  obtain ⟨ha', hb', hc'⟩ := hidle 1 (by decide)
  have hrun : Duo.Runs k 1 (Duo.start.go 0 0 (seatFrame 0) (sesOnframe (seatFrame 0)) .top) :=
    .single (Duo.Runs.step .refl (by decide) (by decide) (by decide) (.startIdle h0 ha hb) hc)
  exact hrun.tail (hrun.step (by decide) (by decide) (by decide) (.startIdle h1 ha' hb') hc')

section
variable {u : Duo} {s v w : Nat}

theorem go_con (u : Duo) (s n : Nat) (m m' : Mach) (pos : At) :
    (u.go s n m m' pos).con s = some ⟨m', pos⟩ := Function.update_self _ _ _

theorem catch_path (h : Duo.Runs stillCart 1 u) (hs : s < 2) (hf : Sound s v)
    (hu : u.con s = some ⟨sesOnframe (seatFrame s), .top⟩) :
    ReflTransGen (Duo.Step stillCart 1) u (u.catch s v) := by
  obtain ⟨h1, h2, h3, h4, -⟩ := hf
  let u1 := u.go s 0 (sesOnframe (seatFrame s)) (ready s v) .top
  have hs1 : Duo.Step stillCart 1 u u1 := by
    refine h.step (by decide) (by decide) hs ?_ h2
    rw [hu]
    exact .exec _ _
  have hr1 : Duo.Runs stillCart 1 u1 := h.tail hs1
  have hs2 : Duo.Step stillCart 1 u1 (u.catch s v) := by
    refine hr1.step (by decide) (by decide) hs ?_ h4
    rw [go_con]
    exact .turnIdle h3 h1
  exact (ReflTransGen.single hs1).tail hs2

theorem run_path (h : Duo.Runs stillCart 1 (u.catch s v)) (hs : s < 2) (hf : Sound s v) :
    ReflTransGen (Duo.Step stillCart 1) (u.catch s v) (u.first s v) := by
  obtain ⟨-, -, -, -, h5, h6⟩ := hf
  have hm : Move stillCart 1 s ((u.catch s v).con s) (lsCapture (ready s v)) []
      ⟨once s v, .top⟩ := by
    rw [Duo.catch, go_con]
    exact .run (Or.inr h5)
  exact .single (h.step (n := 0) (by decide) (by decide) hs hm h6)

theorem catch_runs (hv : Sound 0 v) : Duo.Runs stillCart 1 (kickoff.catch 0 v) :=
  (kickoff_runs stillCart).trans (catch_path (kickoff_runs stillCart) (by decide) hv rfl)

theorem tipped_path (hv : Sound 0 v) (hw : Sound 1 w) :
    ReflTransGen (Duo.Step stillCart 1) (kickoff.catch 0 v) (tipped v w) := by
  have h1 := run_path (catch_runs hv) (by decide) hv
  have hr1 : Duo.Runs stillCart 1 (kickoff.first 0 v) := (catch_runs hv).trans h1
  have h2 := catch_path hr1 (by decide) hw rfl
  exact (h1.trans h2).trans (run_path (hr1.trans h2) (by decide) hw)

theorem tipped_runs (hv : Sound 0 v) (hw : Sound 1 w) : Duo.Runs stillCart 1 (tipped v w) :=
  (catch_runs hv).trans (tipped_path hv hw)

end

/-- The first ticks go through, and on equal memories their checksums agree. -/
theorem tipped_facts : Sound 0 0xC0 ∧ Sound 1 0x80 ∧ Sound 1 0xC0 ∧
    checks (epochOf 0 ((tipped 0xC0 0xC0).tale 0)) =
      checks (epochOf 0 ((tipped 0xC0 0xC0).tale 1)) := by
  decide +kernel

theorem sound_host : Sound 0 0xC0 := tipped_facts.1

theorem sound_guest : Sound 1 0x80 := tipped_facts.2.1

def fromHost : List Byte :=
  [6, 6, 0, 1, 0, 0xC0, 1, 6, 7, 0, 0, 0, 0x6C, 0x9F, 6, 6, 0, 2, 0, 0xC0, 1]

def fromGuest : List Byte :=
  [6, 6, 1, 1, 0, 0x80, 2, 6, 7, 1, 0, 0, 0x9D, 0x5F, 3, 9, 0, 0, 6, 6, 1, 2, 0, 0x80, 2]

def hostGate : Mach := lsCapture (once 0 0xC0)
def guestGate : Mach := lsCapture (pumped (once 1 0x80) fromHost)
def hostHeard : Mach := lsWaitRound (pumped (lsFreeze hostGate) fromGuest)

def hosted : Duo := (tipped 0xC0 0x80).go 0 0 (once 0 0xC0) hostGate .gate
def answered : Duo := hosted.go 1 21 (once 1 0x80) guestGate .gate

/-- The checksums of tick 0 differ, and each console has heard of it before tick 1. -/
def opening : Duo := answered.go 0 25 hostGate hostHeard .gate

/-- The host runs tick 1 and pushes. -/
def pushed : Duo := opening.go 0 0 hostHeard (lsRun stillCart hostHeard) .top

/-- What the run computes: the host captures for tick 1, the guest reads and captures, the
    host reads at the gate; the bytes on the way; the difference found; the push; the host's
    button in tick 1. -/
theorem opening_facts : ((once 0 0xC0).rd rxWr = (once 0 0xC0).rd rxRd ∧
    lsDue (once 0 0xC0) = true ∧ hostGate.rd netDropped = 0 ∧ lsOpen hostGate = false) ∧
      (lsDue (once 1 0x80) = true ∧ (sesPump (once 1 0x80) fromHost).isSome = true ∧
        guestGate.rd netDropped = 0) ∧
      ((sesPump (lsFreeze hostGate) fromGuest).isSome = true ∧ hostHeard.rd netDropped = 0) ∧
      ((hosted.box 1).take 21 = fromHost ∧ (answered.box 0).take 25 = fromGuest ∧
        opening.box 0 = [] ∧ opening.box 1 = []) ∧
      .onCrc 0 0x9F6C .bad ∈ epochOf 0 (opening.tale 1) ∧
      lsOpen hostHeard = true ∧ (lsRun stillCart hostHeard).rd netDropped = 0 ∧
        (resumes (pushed.tale 0))[0]? = some 18 ∧ .vcall 0 4 1 ∈ epochOf 0 (pushed.tale 0) := by
  decide +kernel

theorem opening_path : ReflTransGen (Duo.Step stillCart 1) (tipped 0xC0 0x80) opening := by
  obtain ⟨⟨ha, hb, hc, hd⟩, ⟨ha', hb', hc'⟩, ⟨hg, hn⟩, ⟨hbox, hbox', -⟩, -⟩ := opening_facts
  have hr := tipped_runs sound_host sound_guest
  have hs1 : Duo.Step stillCart 1 (tipped 0xC0 0x80) hosted :=
    hr.step (by decide) (by decide) (by decide) (.turnIdle hb ha) hc
  have hr1 : Duo.Runs stillCart 1 hosted := hr.tail hs1
  have hm : Move stillCart 1 1 (hosted.con 1) (once 1 0x80) ((hosted.box 1).take 21)
      ⟨guestGate, .gate⟩ := by
    rw [hbox]
    exact .turn (by decide) ha' (sesPump_pumped hb')
  have hs2 : Duo.Step stillCart 1 hosted answered := hr1.step (by decide) (by decide) (by decide)
    hm hc'
  have hr2 : Duo.Runs stillCart 1 answered := hr1.tail hs2
  have hm' : Move stillCart 1 0 (answered.con 0) hostGate ((answered.box 0).take 25)
      ⟨hostHeard, .gate⟩ := by
    rw [hbox']
    exact .wait (by decide) hc hd (sesPump_pumped hg)
  exact ((ReflTransGen.single hs1).tail hs2).tail
    (hr2.step (by decide) (by decide) (by decide) hm' hn)

theorem opening_runs : Duo.Runs stillCart 1 opening :=
  (tipped_runs sound_host sound_guest).trans opening_path

theorem pushed_path : ReflTransGen (Duo.Step stillCart 1) opening pushed := by
  obtain ⟨-, -, -, -, -, ho, hn, -⟩ := opening_facts
  have hm : Move stillCart 1 0 (opening.con 0) hostHeard [] ⟨lsRun stillCart hostHeard, .top⟩ := by
    rw [opening, go_con]
    exact .run (Or.inr ho)
  exact .single (opening_runs.step (n := 0) (by decide) (by decide) (by decide) hm hn)

theorem pushed_runs : Duo.Runs stillCart 1 pushed := opening_runs.trans pushed_path

/-! ## Every run -/

section
variable {k : Cart} {d : Nat} {u : Duo}

/-- In every epoch both games are given the same ticks, on the same cells of both seats, and
    the same handler calls, as far as each has come. -/
theorem games_agree (hd : 1 ≤ d) (hd' : d ≤ 15) (h : Duo.Runs k d u) (e : Nat) :
    (epochOf e (u.tale 0)).filter Ev.play <+: (epochOf e (u.tale 1)).filter Ev.play ∨
      (epochOf e (u.tale 1)).filter Ev.play <+: (epochOf e (u.tale 0)).filter Ev.play := by
  obtain ⟨y, hy⟩ := h.sim hd hd'
  rw [hy.play hd hd' (by decide), hy.play hd hd' (by decide)]
  exact (hy.reach.agree hd hd' e).imp (fun h => h.flatMap _) (fun h => h.flatMap _)

theorem games_agree_opening :
    (epochOf 0 (opening.tale 0)).filter Ev.play <+: (epochOf 0 (opening.tale 1)).filter Ev.play ∨
      (epochOf 0 (opening.tale 1)).filter Ev.play <+: (epochOf 0 (opening.tale 0)).filter Ev.play :=
  games_agree (by decide) (by decide) opening_runs 0

/-- The tick an epoch begins with. -/
def firstTick (l : List Ev) (e : Nat) : Nat := if e = 0 then 0 else (resumes l).getD (e - 1) 0

theorem Sim.firstTick {s : Nat} {y : Sys} (h : Sim d u y) (hs : s < 2) {e : Nat}
    (he : e ≤ (y.party s).ep) : firstTick (u.tale s) e = y.base e % 65536 := by
  unfold Duel.firstTick
  split
  · next h0 =>
    rw [h0, h.reach.base_zero]
  · next h0 =>
    obtain ⟨e, rfl⟩ := Nat.exists_eq_succ_of_ne_zero h0
    rw [h.resumes hs, Nat.succ_sub_one, List.getD_eq_getElem?_getD, List.getElem?_map,
      List.getElem?_range (by omega)]
    rfl

/-- The ticks of an epoch are numbered from its first, which is 0 or the tick of the
    re-base, and none is left out. -/
theorem ticks_numbered (hd : 1 ≤ d) (hd' : d ≤ 15) (h : Duo.Runs k d u) {s : Nat} (hs : s < 2)
    (e : Nat) : ∃ n, ticks (epochOf e (u.tale s)) =
      (List.range n).map (fun i => (firstTick (u.tale s) e + i) % 65536) := by
  obtain ⟨y, hy⟩ := h.sim hd hd'
  by_cases he : e ≤ (y.party s).ep
  · obtain ⟨n, hn⟩ := (hy.reach.logs hd hd').numbered hs e
    refine ⟨n, ?_⟩
    have hmod : (y.log s e).map (fun b => b.t % 65536) =
        ((y.log s e).map Beat.t).map (· % 65536) := by
      rw [List.map_map]
      rfl
    rw [hy.ticks hd hd' hs, hy.firstTick hs he, hmod, hn, List.range'_eq_map_range, List.map_map]
    refine List.map_congr_left (fun i _ => ?_)
    exact (Nat.mod_add_mod _ _ _).symm
  · refine ⟨0, ?_⟩
    rw [hy.ticks hd hd' hs, (hy.reach.logs hd hd').next hs (by omega)]
    rfl

theorem ticks_numbered_opening : ∃ n, ticks (epochOf 0 (opening.tale 1)) =
    (List.range n).map (fun i => (firstTick (opening.tale 1) 0 + i) % 65536) :=
  ticks_numbered (by decide) (by decide) opening_runs (by decide) 0

/-- The guest makes the host's re-bases, in their order, and is at most two behind; each is
    to the tick 16 after the last the host ran before it. -/
theorem resumes_agree (hd : 1 ≤ d) (hd' : d ≤ 15) (h : Duo.Runs k d u) :
    resumes (u.tale 1) <+: resumes (u.tale 0) ∧
      (resumes (u.tale 0)).length ≤ (resumes (u.tale 1)).length + 2 ∧
      ∀ e r, (resumes (u.tale 0))[e]? = some r →
        r = (firstTick (u.tale 0) e + (ticks (epochOf e (u.tale 0))).length + 16) % 65536 := by
  obtain ⟨y, hy⟩ := h.sim hd hd'
  have hi := hy.reach.inv hd hd'
  have hle : y.g.ep ≤ y.h.ep := hi.core.ep_le
  have hH := hy.resumes (s := 0) (by decide)
  have hG := hy.resumes (s := 1) (by decide)
  change _ = (List.range y.h.ep).map _ at hH
  change _ = (List.range y.g.ep).map _ at hG
  refine ⟨?_, ?_, fun e r hr => ?_⟩
  · obtain ⟨j, hj⟩ := Nat.exists_eq_add_of_le hle
    rw [hH, hG, hj, List.range_add, List.map_append]
    exact List.prefix_append _ _
  · have hdebt := hi.debt.debt
    have hpend : y.g.pend.toNat ≤ 1 := Bool.toNat_le _
    rw [hH, hG, List.length_map, List.length_map, List.length_range, List.length_range]
    omega
  · rw [hH] at hr
    obtain ⟨hlt, hr⟩ := List.getElem?_eq_some_iff.mp hr
    rw [List.length_map, List.length_range] at hlt
    rw [List.getElem_map, List.getElem_range] at hr
    have hend := (hy.reach.level hd hd').ends e hlt
    have hfirst := hy.firstTick (s := 0) (by decide) (e := e) (Nat.le_of_lt hlt)
    have hlen : (ticks (epochOf e (u.tale 0))).length = (y.logH e).length := by
      rw [hy.ticks hd hd' (by decide), List.length_map]
      rfl
    rw [hfirst, hlen, ← hr, ← hend]
    omega

theorem resumes_agree_pushed : resumes (pushed.tale 1) <+: resumes (pushed.tale 0) ∧
    18 = (firstTick (pushed.tale 0) 0 + (ticks (epochOf 0 (pushed.tale 0))).length + 16) %
      65536 := by
  obtain ⟨-, -, -, -, -, -, -, hpush, -⟩ := opening_facts
  have h := resumes_agree (by decide) (by decide) pushed_runs
  exact ⟨h.1, h.2.2 0 18 hpush⟩

/-- In no epoch does either console run more than `d + 1` ticks more than the other. -/
theorem ticks_near (hd : 1 ≤ d) (hd' : d ≤ 15) (h : Duo.Runs k d u) (e : Nat) :
    (ticks (epochOf e (u.tale 0))).length ≤ (ticks (epochOf e (u.tale 1))).length + d + 1 ∧
      (ticks (epochOf e (u.tale 1))).length ≤ (ticks (epochOf e (u.tale 0))).length + d + 1 := by
  obtain ⟨y, hy⟩ := h.sim hd hd'
  rw [hy.ticks hd hd' (by decide), hy.ticks hd hd' (by decide), List.length_map, List.length_map]
  exact (hy.reach.level hd hd').near e

theorem ticks_near_opening :
    (ticks (epochOf 0 (opening.tale 0))).length ≤
        (ticks (epochOf 0 (opening.tale 1))).length + 1 + 1 ∧
      (ticks (epochOf 0 (opening.tale 1))).length ≤
        (ticks (epochOf 0 (opening.tale 0))).length + 1 + 1 :=
  ticks_near (by decide) (by decide) opening_runs 0

/-- As long as the checksums of the first epoch agree, neither console wants a resync. -/
theorem no_false_alarm (hd : 1 ≤ d) (hd' : d ≤ 15) (h : Duo.Runs k d u)
    (hsame : checks (epochOf 0 (u.tale 0)) <+: checks (epochOf 0 (u.tale 1)) ∨
      checks (epochOf 0 (u.tale 1)) <+: checks (epochOf 0 (u.tale 0))) :
    ∀ s < 2, resumes (u.tale s) = [] ∧ ∀ c, u.con s = some c → c.m.rd rsPend = 0 := by
  obtain ⟨y, hy⟩ := h.sim hd hd'
  have hl := hy.reach.logs hd hd'
  have hbase := hy.reach.base_zero
  rw [hy.checks hd hd' (by decide), hy.checks hd hd' (by decide)] at hsame
  obtain ⟨n, hn⟩ := hl.numbered (s := 0) (by decide) 0
  obtain ⟨n', hn'⟩ := hl.numbered (s := 1) (by decide) 0
  rw [hbase] at hn hn'
  have hquiet := hy.reach.calm hd hd' (sameSums_of_checks hn hn' hsame)
  have hle := (hy.reach.inv hd hd').core.ep_le
  have hzero : ∀ s < 2, (y.party s).ep = 0 ∧ (y.party s).pend = false := by
    intro s hs
    rcases seat_cases hs with rfl | rfl
    · exact ⟨hquiet.host, hquiet.pendH⟩
    · refine ⟨?_, hquiet.pendG⟩
      have := hquiet.host
      change y.g.ep = 0
      omega
  intro s hs
  obtain ⟨hep, hpend⟩ := hzero s hs
  refine ⟨?_, fun c hc => ?_⟩
  · rw [hy.resumes hs, hep]
    rfl
  · have hflag := (hy.awake s hs c hc).1.mirrors.flags.pend
    rw [hpend] at hflag
    exact hflag

theorem no_false_alarm_level : resumes ((tipped 0xC0 0xC0).tale 0) = [] ∧
    ∀ c, (tipped 0xC0 0xC0).con 0 = some c → c.m.rd rsPend = 0 := by
  obtain ⟨hhost, -, hguest, hchecks⟩ := tipped_facts
  exact no_false_alarm (by decide) (by decide) (tipped_runs hhost hguest)
    (Or.inl ⟨[], (List.append_nil _).trans hchecks⟩) 0 (by decide)

/-- RS_ON_CRC finds a difference only where there is one: both consoles recorded a checksum
    for that tick of that epoch, the peer the one in the frame and this console another. -/
theorem alarms_genuine (hd : 1 ≤ d) (hd' : d ≤ 15) (h : Duo.Runs k d u) {s : Nat} (hs : s < 2)
    {e t c : Nat} (hx : .onCrc t c .bad ∈ epochOf e (u.tale s)) :
    (t, c) ∈ checks (epochOf e (u.tale (1 - s))) ∧
      ∃ c', (t, c') ∈ checks (epochOf e (u.tale s)) ∧ c' ≠ c := by
  obtain ⟨y, hy⟩ := h.sim hd hd'
  obtain ⟨b, hb, b', hb', heq, hz, ht, hc, hne⟩ := hy.differ s hs e t c hx
  rw [hy.checks hd hd' hs, hy.checks hd hd' (by omega), ← ht, ← hc]
  have h1 := mem_checks hb' (heq ▸ hz)
  rw [← heq] at h1
  exact ⟨h1, b.sum, mem_checks hb hz, hc ▸ hne⟩

theorem alarms_genuine_opening : (0, 0x9F6C) ∈ checks (epochOf 0 (opening.tale 0)) ∧
    ∃ c', (0, c') ∈ checks (epochOf 0 (opening.tale 1)) ∧ c' ≠ 0x9F6C := by
  obtain ⟨-, -, -, -, halarm, -⟩ := opening_facts
  exact alarms_genuine (s := 1) (by decide) (by decide) opening_runs (by decide) halarm

/-- The host pushes at most once for each difference found. -/
theorem pushes_le_alarms (hd : 1 ≤ d) (hd' : d ≤ 15) (h : Duo.Runs k d u) :
    (resumes (u.tale 0)).length ≤ (u.tale 0).countP Ev.alarm + (u.tale 1).countP Ev.alarm := by
  obtain ⟨y, hy⟩ := h.sim hd hd'
  have howed := hy.owed
  have hep : (y.party 0).ep = y.h.ep := rfl
  rw [hy.resumes (by decide), List.length_map, List.length_range, hep]
  unfold Sys.owed at howed
  omega

theorem pushes_le_alarms_pushed : (resumes (pushed.tale 0)).length ≤
    (pushed.tale 0).countP Ev.alarm + (pushed.tale 1).countP Ev.alarm :=
  pushes_le_alarms (by decide) (by decide) pushed_runs

/-- When all that was sent has been read, no console is left in a hold, and of two that
    wait at the gate one finds it open. -/
theorem no_deadlock (hd : 1 ≤ d) (hd' : d ≤ 15) (h : Duo.Runs k d u) {c0 c1 : Con}
    (h0 : u.con 0 = some c0) (h1 : u.con 1 = some c1) (hb0 : u.box 0 = []) (hb1 : u.box 1 = []) :
    c0.m.rd resyncHold = 0 ∧ c1.m.rd resyncHold = 0 ∧
      (c0.pos = .gate → c1.pos = .gate → lsOpen c0.m = true ∨ lsOpen c1.m = true) := by
  obtain ⟨y, hy⟩ := h.sim hd hd'
  have hl0 := (hy.awake 0 (by decide) c0 h0).1
  have hl1 := (hy.awake 1 (by decide) c1 h1).1
  have hread : ∀ s < 2, ∀ c, Live d s (y.party s) (y.inbox s) [] c → y.inbox s = [] := by
    intro s hs c hl
    obtain ⟨bs, -, hmore, hb⟩ := hl.unread
    rw [List.append_nil] at hb
    cases hq : y.inbox s with
    | nil => rfl
    | cons x q =>
      -- a whole message would have been parsed
      rw [hq] at hb
      have hu := x.2.unit (1 - s) (hy.fits s hs x (by rw [hq]; exact List.mem_cons_self))
      have hpeek := sesScanner.emit_append hu (flat (1 - s) q)
      change sesPeek (flat (1 - s) (x :: q)) = _ at hpeek
      rw [← hb, hmore] at hpeek
      cases hpeek
  rw [hb0] at hl0
  rw [hb1] at hl1
  have hH : y.toH = [] := hread 0 (by decide) c0 hl0
  have hG : y.toG = [] := hread 1 (by decide) c1 hl1
  have hscript := (hy.reach.inv hd hd').core.script
  rw [hG] at hscript
  have hhold0 := hl0.mirrors.flags.hold
  have hhold1 := hl1.mirrors.flags.hold
  have hfree0 : (y.party 0).hold = false := (hy.reach.inv hd hd').core.holdH
  have hfree1 : (y.party 1).hold = false := hscript.1
  rw [hfree0] at hhold0
  rw [hfree1] at hhold1
  refine ⟨hhold0, hhold1, fun hp0 hp1 => ?_⟩
  have hcap : ∀ s c, Live d s (y.party s) (y.inbox s) [] c → c.pos = .gate →
      (y.party s).cap = true := by
    intro s c hl hp
    rcases hl.pos with hx | hx
    · rw [hx.1] at hp
      cases hp
    · exact hx.2
  obtain ⟨-, hmove⟩ := hy.reach.moves hd hd' hG hH (hcap 0 c0 hl0 hp0) (hcap 1 c1 hl1 hp1)
  obtain ⟨ha, hb⟩ := hy.reach.mark_near hd hd' (s := 0) (by decide)
  obtain ⟨ha', hb'⟩ := hy.reach.mark_near hd hd' (s := 1) (by decide)
  exact hmove.imp (hl0.mirrors.open_iff ha hb).mpr (hl1.mirrors.open_iff ha' hb').mpr

theorem no_deadlock_opening : hostHeard.rd resyncHold = 0 ∧ guestGate.rd resyncHold = 0 ∧
    (lsOpen hostHeard = true ∨ lsOpen guestGate = true) := by
  have h0 : opening.con 0 = some ⟨hostHeard, .gate⟩ := rfl
  have h1 : opening.con 1 = some ⟨guestGate, .gate⟩ := rfl
  obtain ⟨-, -, -, ⟨-, -, hb0, hb1⟩, -⟩ := opening_facts
  have h := no_deadlock (by decide) (by decide) opening_runs h0 h1 hb0 hb1
  dsimp only at h
  exact ⟨h.1, h.2.1, h.2.2 rfl rfl⟩

/-- A console of the match goes on as the same console, with the same counts of what was
    refused. -/
theorem step_loss (hd : 1 ≤ d) (hd' : d ≤ 15) (h : Duo.Runs k d u) {u' : Duo}
    (hs : Duo.Step k d u u') {s : Nat} (hs2 : s < 2) {c : Con} (hc : u.con s = some c) :
    ∃ c', u'.con s = some c' ∧ ∀ a, lossCell a → c'.m.rd a = c.m.rd a := by
  obtain ⟨y, hy⟩ := h.sim hd hd'
  cases hs with
  | @move r m c' got rest out evs hr hb hm htx hev hdrop =>
    by_cases hsr : s = r
    · subst hsr
      refine ⟨c', (u.next_self c' rest out evs hr).1, fun a ha => ?_⟩
      have hloss := (hy.led hd hd' hr hb hm hdrop).loss ha
      rw [hc] at hm
      have hfrom : m = c.m := by
        cases hm <;> rfl
      rw [hloss, hfrom]
    · have hpeer : s = 1 - r := by omega
      subst hpeer
      exact ⟨c, (u.next_peer c' rest out evs hr).1.trans hc, fun _ _ => rfl⟩

/-- In a match the parser discards no byte, and no frame of a push is refused: DIAG_SLIP and
    DIAG_REJ stay what they were. -/
theorem nothing_lost (hd : 1 ≤ d) (hd' : d ≤ 15) (h : Duo.Runs k d u) {u' : Duo}
    (h' : ReflTransGen (Duo.Step k d) u u') {s : Nat} (hs : s < 2) {c : Con}
    (hc : u.con s = some c) : Ev.slip ∉ u'.tale s ∧ ∃ c', u'.con s = some c' ∧
      c'.m.rd diagSlip = c.m.rd diagSlip ∧ c'.m.rd diagRej = c.m.rd diagRej := by
  refine ⟨fun hslip => ?_, ?_⟩
  · have hrun : Duo.Runs k d u' := h.trans h'
    obtain ⟨y, hy⟩ := hrun.sim hd hd'
    have htold : Ev.slip ∈ (u'.tale s).filterMap Ev.told :=
      List.mem_filterMap.mpr ⟨.slip, hslip, rfl⟩
    rw [hy.tale s hs] at htold
    exact slip_not_mem_story _ _ _ htold
  · induction h' with
    | refl => exact ⟨c, hc, rfl, rfl⟩
    | tail h1 hstep ih =>
      obtain ⟨c1, hc1, hslip, hrej⟩ := ih
      obtain ⟨c2, hc2, hloss⟩ := step_loss hd hd' (h.trans h1) hstep hs hc1
      exact ⟨c2, hc2, (hloss _ (Or.inl rfl)).trans hslip, (hloss _ (Or.inr rfl)).trans hrej⟩

theorem nothing_lost_opening : Ev.slip ∉ opening.tale 0 ∧ ∃ c', opening.con 0 = some c' ∧
    c'.m.rd diagSlip = (once 0 0xC0).rd diagSlip ∧ c'.m.rd diagRej = (once 0 0xC0).rd diagRej := by
  have hc : (tipped 0xC0 0x80).con 0 = some ⟨once 0 0xC0, .top⟩ := rfl
  have h := nothing_lost (by decide) (by decide) (tipped_runs sound_host sound_guest) opening_path
    (by decide) hc
  dsimp only at h
  exact h

end

end IntvBasketball.Duel
