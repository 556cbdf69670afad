/-
  Who sees the game's handler table (PORTING.md 5.3).

  In one pass the EXEC runs MASTER_TICK, then the native timer entries 2-5, then the
  controller scan, which hands real local input to the table at $035D. LS_PASS has the
  game's table there only while it replays; it adopts the table into GAME_TBL and leaves
  NET_NULL_TBL behind.

  The native entries run after LS_PASS has returned. `NativesQuiet` says that they leave $035D
  as they found it; with it, every scan of a run sees the null table and every replay
  starts from the last table the game installed (`input_isolated`). One entry that
  installs a table is seen by the scan of the same pass (`native_install_seen`).
-/
import IntvBasketball.Console.Lockstep

namespace IntvBasketball.Console

open Mach (Within Does Only)

/-! ## One EXEC pass -/

/-- Where the scan finds only null entries. -/
def netNull (k : Cart) : Nat := k.nullTbl + 4

/-- What is not ours in one pass: the reads of LS_PASS, the native entries that fire, in
    slot order, and what the rest of the EXEC loop leaves in the game's cells. -/
structure Pass where
  reads : List (List Byte)
  native : List (Mem → Nat → Nat)
  exec : Mem → Nat → Nat

/-- The native entries of a pass. -/
def runNative (fs : List (Mem → Nat → Nat)) (m : Mach) : Mach := fs.foldl Mach.game m

/-- The state in which the controller scan starts, if LS_PASS returns. -/
def atScan (k : Cart) (p : Pass) (m : Mach) : Option Mach :=
  match masterTick k p.reads m with
  | .back m => some (runNative p.native m)
  | _ => none

/-- The scan and the rest of the loop. The EXEC itself never stores to $035D; a handler
    reached through it may. -/
def afterScan (k : Cart) (p : Pass) (m : Mach) : Mach :=
  if m.rd execHtbl = netNull k then
    m.game (fun mem a => if a = execHtbl then mem.cell a else p.exec mem a)
  else m.game p.exec

/-! ## The last table the game installed -/

/-- GAME_TBL. -/
def gameTbl (m : Mach) : Nat := word (m.rd gameTblLo) (m.rd gameTblHi)

/-- A table the game can have installed: LS_PASS takes 0 for "none yet". -/
def IsTable (k : Cart) (v : Nat) : Prop := v ≠ 0 ∧ v ≠ netNull k

/-- The last table installed, after game code that took `m` to `m'`. -/
def installed (l : Nat) (m m' : Mach) : Nat :=
  if m'.rd execHtbl = m.rd execHtbl then l else m'.rd execHtbl

/-- The same after pumps: a state image brings the table the host's game installed. -/
def handed (l : Nat) (m m' : Mach) : Nat := if gameTbl m' = gameTbl m then l else gameTbl m'

/-- The same after LS_PASS. -/
def lastPass (k : Cart) (p : Pass) (l : Nat) (m : Mach) : Nat :=
  if lsDue m then
    match lsTurn p.reads m with
    | none => l
    | some m' => installed (handed l m m') (lsRunHead k m') (lsPlay k (lsRunHead k m'))
  else
    match lsPass k p.reads m with
    | .back m' => handed l m m'
    | _ => l

/-- The same after a whole pass. -/
def lastAfter (k : Cart) (p : Pass) (l : Nat) (m : Mach) : Nat :=
  match masterTick k p.reads m with
  | .back m1 =>
    let ms := runNative p.native m1
    installed (installed (lastPass k p l m) m1 ms) ms (afterScan k p ms)
  | _ => l

/-! ## Runs -/

/-- A START as the relay builds it: one of at most four seats. -/
def SaneStart (m : Mach) : Prop :=
  m.rd (frmBuf + 1) = ftStart → m.rd (frmBuf + 2) < 4 ∧ m.rd (frmBuf + 3) ≤ 4

instance (m : Mach) : Decidable (SaneStart m) := by unfold SaneStart; infer_instance

/-- A match is on. -/
structure Playing (m : Mach) : Prop where
  seat : m.rd netSeat < 4
  count : m.rd netCount ≤ 4
  active : m.rd netActive ≠ 0
  scr : m.rd peerScr = 0

/-- The reads are an honest relay's. While the table .START installed is still live, no
    state push has come: the host pushes on a checksum of a tick we have run. -/
structure Honest (k : Cart) (p : Pass) (m : Mach) : Prop where
  start : ∀ me ∈ passEntries p.reads m, SaneStart me
  fresh : m.rd execHtbl ≠ netNull k →
    m.rd resyncHold = 0 ∧ ∀ me ∈ passEntries p.reads m, me.rd (frmBuf + 1) ≠ ftState

/-- The native entries of the pass leave $035D as they find it. -/
def NativesQuiet (k : Cart) (p : Pass) (m : Mach) : Prop :=
  ∀ m', masterTick k p.reads m = .back m' →
    (runNative p.native m').rd execHtbl = m'.rd execHtbl

/-- The states between passes after START, each with the last table the game installed.
    `.START` left the first one at $035D. -/
inductive Reaches (ok : Pass → Mach → Prop) (k : Cart) (m0 : Mach) : Mach → Nat → Prop where
  | start : Reaches ok k m0 m0 (m0.rd execHtbl)
  | pass {m ms : Mach} {l : Nat} {p : Pass} (h : Reaches ok k m0 m l) (hp : ok p m)
      (hs : atScan k p m = some ms) : Reaches ok k m0 (afterScan k p ms) (lastAfter k p l m)

/-- In a pass from `m` the scan sees the null table, and LS_PASS replays from the last
    table the game installed. -/
structure Isolated (k : Cart) (p : Pass) (m : Mach) (l : Nat) : Prop where
  scan : ∀ ms, atScan k p m = some ms → ms.rd execHtbl = netNull k
  replay : ∀ m', lsDue m = true → lsTurn p.reads m = some m' → IsTable k (handed l m m') →
    (lsRunHead k m').rd execHtbl = handed l m m'

/-! ## A match stays a match -/

theorem Playing.congr {m m' : Mach} (h : Playing m)
    (hk : ∀ a ∈ [netSeat, netCount, netActive, peerScr], m'.rd a = m.rd a) : Playing m' where
  seat := by rw [hk _ (by decide)]; exact h.seat
  count := by rw [hk _ (by decide)]; exact h.count
  active := by rw [hk _ (by decide)]; exact h.active
  scr := by rw [hk _ (by decide)]; exact h.scr

theorem Playing.only {S : Nat → Prop} {m m' : Mach} (h : Playing m) (ho : Only S m m')
    (hS : ∀ a ∈ [netSeat, netCount, netActive, peerScr], ¬ S a) : Playing m' :=
  h.congr (fun a ha => ho.keep (hS a ha))

theorem playing_sesOnframe {m : Mach} (h : Playing m) (hs : SaneStart m) :
    Playing (sesOnframe m) := by
  have hcount : (m.log (.frame (frameBytes m))).rd netCount ≤ 4 := h.count
  have hkeep : ∀ a ∈ [netSeat, netCount, netActive, peerScr],
      (m.rd (frmBuf + 1) = ftStart → ¬ startArea a) → (sesOnframe m).rd a = m.rd a := by
    have hout : ∀ a ∈ [netSeat, netCount, netActive, peerScr], ¬ stateCell a := by
      unfold stateCell dlCell
      decide
    intro a ha hst
    refine sesDispatch_keep hcount (not_reachCell ?_) hst (fun _ => hout a ha)
    simp only [List.mem_cons, List.not_mem_nil, or_false] at ha ⊢
    tauto
  by_cases ht : m.rd (frmBuf + 1) = ftStart
  · have hdisp : sesOnframe m = ofStart (m.log (.frame (frameBytes m))) :=
      sesDispatch_start ht
    have hscr := hkeep peerScr (by decide) (fun _ => by decide)
    by_cases hlen : 38 ≤ m.rd frmBuf
    · obtain ⟨h1, h2, h3⟩ := ofStart_header (m := m.log (.frame (frameBytes m))) hlen
      obtain ⟨h4, h5⟩ := hs ht
      rw [← hdisp] at h1 h2 h3
      exact ⟨by rw [h1]; exact h4, by rw [h2]; exact h5, by rw [h3]; decide, hscr.trans h.scr⟩
    · rw [hdisp, ofStart, Mach.rd_log, if_pos (Nat.lt_of_not_le hlen)]
      exact h.congr (fun _ _ => rfl)
  · exact h.congr (fun a ha => hkeep a ha (fun h => absurd h ht))

/-- No frame stores to $035D. -/
theorem htbl_sesOnframe {m : Mach} (h : Playing m) :
    (sesOnframe m).rd execHtbl = m.rd execHtbl := by
  refine sesDispatch_keep (m := m.log (.frame (frameBytes m))) h.count (not_reachCell (by decide))
    (fun _ => by decide) (fun _ => ?_)
  unfold stateCell dlCell
  decide

/-- Only STATE stores to GAME_TBL. -/
theorem gameTbl_sesOnframe {m : Mach} (h : Playing m) (ht : m.rd (frmBuf + 1) ≠ ftState) :
    gameTbl (sesOnframe m) = gameTbl m := by
  have hkeep : ∀ a ∈ [gameTblLo, gameTblHi], (sesOnframe m).rd a = m.rd a := by
    have hout : ∀ a ∈ [gameTblLo, gameTblHi], ¬ startArea a := by decide
    intro a ha
    refine sesDispatch_keep (m := m.log (.frame (frameBytes m))) h.count (not_reachCell ?_)
      (fun _ => hout a ha) (fun h => absurd h ht)
    simp only [List.mem_cons, List.not_mem_nil, or_false] at ha ⊢
    tauto
  rw [gameTbl, hkeep _ (by decide), hkeep _ (by decide), gameTbl]

theorem gameTbl_only {S : Nat → Prop} {m m' : Mach} (ho : Only S m m') (hlo : ¬ S gameTblLo)
    (hhi : ¬ S gameTblHi) : gameTbl m' = gameTbl m := by
  rw [gameTbl, ho.keep hlo, ho.keep hhi, gameTbl]

/-- What a pass needs of the frames it dispatches: the match goes on and $035D holds `c`. -/
def Still (c : Nat) (m : Mach) : Prop := Playing m ∧ m.rd execHtbl = c

theorem Still.only {S : Nat → Prop} {c : Nat} {m m' : Mach} (h : Still c m) (ho : Only S m m')
    (hS : ∀ a ∈ [netSeat, netCount, netActive, peerScr, execHtbl], ¬ S a) : Still c m' := by
  refine ⟨h.1.only ho (fun a ha => hS a ?_), by rw [ho.keep (hS _ (by decide))]; exact h.2⟩
  simp only [List.mem_cons, List.not_mem_nil, or_false] at ha ⊢
  tauto

theorem Still.pump {c : Nat} (m m' : Mach) (ho : Only pumpCell m m') (h : Still c m) : Still c m' :=
  h.only ho (by unfold pumpCell area; decide)

theorem Still.ls {c : Nat} (m m' : Mach) (ho : Only lsCell m m') (h : Still c m) : Still c m' :=
  h.only ho (by decide)

theorem Still.frame {c : Nat} {m : Mach} (h : Still c m) (hs : SaneStart m) :
    Still c (sesOnframe m) :=
  ⟨playing_sesOnframe h.1 hs, (htbl_sesOnframe h.1).trans h.2⟩

/-! ## Up to the tick -/

theorem still_turn {k : Cart} {p : Pass} {c : Nat} {m m' : Mach} (h : Still c m)
    (hp : Honest k p m) (hdue : lsDue m = true) (ht : lsTurn p.reads m = some m') : Still c m' :=
  lsTurn_ind Still.pump Still.ls (fun _ h => h.1.seat) hdue
    (fun me hme h => h.frame (hp.start me hme)) h ht

/-- While the table .START installed is live, the pumps leave GAME_TBL alone. -/
theorem gameTbl_turn {k : Cart} {p : Pass} {m m' : Mach} (h : Playing m) (hp : Honest k p m)
    (hlive : m.rd execHtbl ≠ netNull k) (hdue : lsDue m = true)
    (ht : lsTurn p.reads m = some m') : gameTbl m' = gameTbl m := by
  have hcell : ∀ m1 m2, Only pumpCell m1 m2 → Playing m1 ∧ gameTbl m1 = gameTbl m →
      Playing m2 ∧ gameTbl m2 = gameTbl m := by
    intro m1 m2 ho h1
    refine ⟨h1.1.only ho (by unfold pumpCell area; decide), ?_⟩
    rw [gameTbl_only ho (by unfold pumpCell; decide) (by unfold pumpCell; decide), h1.2]
  have hls : ∀ m1 m2, Only lsCell m1 m2 → Playing m1 ∧ gameTbl m1 = gameTbl m →
      Playing m2 ∧ gameTbl m2 = gameTbl m := by
    intro m1 m2 ho h1
    exact ⟨h1.1.only ho (by decide), by rw [gameTbl_only ho (by decide) (by decide), h1.2]⟩
  refine (lsTurn_ind hcell hls (fun _ h => h.1.seat) hdue (fun me hme h1 => ?_) ⟨h, rfl⟩ ht).2
  exact ⟨playing_sesOnframe h1.1 (hp.start me hme),
    (gameTbl_sesOnframe h1.1 ((hp.fresh hlive).2 me hme)).trans h1.2⟩

/-- With no tick due LS_PASS returns from a hold only. -/
theorem lsPass_hold {k : Cart} {reads : List (List Byte)} {m m' : Mach} (h : Playing m)
    (hdue : lsDue m = false) (hb : lsPass k reads m = .back m') :
    m.rd resyncHold ≠ 0 ∧ ∃ got rest m1, reads = got :: rest ∧
      sesPump (lsFreeze m) got = some m1 ∧ m' = lsHoldRound m1 := by
  unfold lsPass at hb
  rw [if_neg (not_not.mpr h.scr)] at hb
  split_ifs at hb with hd hh
  · refine ⟨hh, ?_⟩
    cases reads with
    | nil => simp at hb
    | cons got rest =>
      cases hs : sesPump (lsFreeze m) got with
      | none => simp [hs] at hb
      | some m1 =>
        simp only [hs, LsEnd.back.injEq] at hb
        exact ⟨got, rest, m1, rfl, hs, hb.symm⟩
  · have : lsDue m = true := by
      simp only [lsDue, h.scr, Bool.and_eq_true, decide_eq_true_eq]
      exact ⟨⟨trivial, not_not.mp hd⟩, not_not.mp hh⟩
    rw [this] at hdue
    cases hdue

/-- Such a pass leaves $035D alone. -/
theorem still_hold {k : Cart} {p : Pass} {c : Nat} {m m' : Mach} (h : Still c m)
    (hp : Honest k p m) (hdue : lsDue m = false) (hb : lsPass k p.reads m = .back m') :
    Still c m' := by
  obtain ⟨-, got, rest, m1, hr, hs, rfl⟩ := lsPass_hold h.1 hdue hb
  have hstart := hp.start
  rw [hr] at hstart
  exact lsHold_ind Still.pump Still.ls hdue (fun me hme h => h.frame (hstart me hme)) h hs

/-- With a tick due LS_PASS runs it, once the gate opens. -/
theorem lsPass_due {k : Cart} {reads : List (List Byte)} {m m' : Mach} (hdue : lsDue m = true)
    (hb : lsPass k reads m = .back m') : ∃ mt, lsTurn reads m = some mt ∧ m' = lsRun k mt := by
  simp only [lsDue, Bool.and_eq_true, decide_eq_true_eq] at hdue
  obtain ⟨⟨h1, h2⟩, h3⟩ := hdue
  unfold lsPass at hb
  rw [if_neg (not_not.mpr h1), if_neg (not_not.mpr h2), if_neg (not_not.mpr h3)] at hb
  cases ht : lsTurn reads m with
  | none => simp [ht] at hb
  | some mt =>
    simp only [ht, LsEnd.back.injEq] at hb
    exact ⟨mt, rfl, hb.symm⟩

/-! ## The tick -/

theorem gameTbl_lt (m : Mach) : gameTbl m < 65536 := by
  have := m.rd_lt_cart (a := gameTblLo) (by decide)
  have := m.rd_lt_cart (a := gameTblHi) (by decide)
  unfold gameTbl word
  omega

theorem gameTbl_set (m : Mach) {v : Nat} (hv : v < 65536) :
    gameTbl ((m.st gameTblLo v).st gameTblHi (v / 256)) = v := by
  rw [gameTbl, Mach.rd_st_self, Mach.rd_st_ne _ _ (show gameTblLo ≠ gameTblHi by decide),
    Mach.rd_st_self, cellMod_cart (by decide), cellMod_cart (by decide), word]
  omega

theorem lsTblAdopt_null {k : Cart} {m : Mach} (h : m.rd execHtbl = netNull k) :
    lsTblAdopt k m = m := if_pos h

theorem lsTblAdopt_live {k : Cart} {m : Mach} (h : m.rd execHtbl ≠ netNull k) :
    lsTblAdopt k m = (m.st gameTblLo (m.rd execHtbl)).st gameTblHi (m.rd execHtbl / 256) :=
  if_neg h

theorem gameTbl_lsTblAdopt (k : Cart) (m : Mach) :
    gameTbl (lsTblAdopt k m) = if m.rd execHtbl = netNull k then gameTbl m else m.rd execHtbl := by
  by_cases h : m.rd execHtbl = netNull k
  · rw [lsTblAdopt_null h, if_pos h]
  · rw [lsTblAdopt_live h, if_neg h]
    exact gameTbl_set m (m.rd_lt_word _)

theorem only_lsTblAdopt (k : Cart) (m : Mach) :
    Only (fun a => a = gameTblLo ∨ a = gameTblHi) m (lsTblAdopt k m) := by
  by_cases h : m.rd execHtbl = netNull k
  · rw [lsTblAdopt_null h]
    exact (Does.refl _ m).only
  · rw [lsTblAdopt_live h]
    exact (((Does.refl _ m).st _ (Or.inl rfl)).st _ (Or.inr rfl)).only

theorem lsInstall_none {m : Mach} (h : gameTbl m = 0) : lsInstall m = m := if_pos h

theorem lsInstall_some {m : Mach} (h : gameTbl m ≠ 0) :
    lsInstall m = m.st execHtbl (gameTbl m) := if_neg h

theorem only_lsInstall (m : Mach) : Only (· = execHtbl) m (lsInstall m) := by
  by_cases h : gameTbl m = 0
  · rw [lsInstall_none h]
    exact (Does.refl _ m).only
  · rw [lsInstall_some h]
    exact ((Does.refl (· = execHtbl) m).st _ rfl).only

theorem htbl_lsInstall {m : Mach} (h : gameTbl m ≠ 0) :
    (lsInstall m).rd execHtbl = gameTbl m := by
  rw [lsInstall_some h, Mach.rd_st_self, cellMod_system (by decide) (by decide)]
  exact Nat.mod_eq_of_lt (gameTbl_lt m)

/-- The replay starts with the live table in GAME_TBL, if there is one. -/
theorem gameTbl_lsRunHead (k : Cart) (m : Mach) :
    gameTbl (lsRunHead k m) =
      if m.rd execHtbl = netNull k then gameTbl m else m.rd execHtbl := by
  have h0 : Within lsCell m (shadowFromRings (lsUnfreeze m)) :=
    (within_lsUnfreeze m).within (within_shadowFromRings _)
  rw [lsRunHead, gameTbl_only (only_lsInstall _) (by decide) (by decide), gameTbl_lsTblAdopt,
    h0.keep execHtbl (by decide), gameTbl_only h0.only (by decide) (by decide)]

/-- And installed. -/
theorem htbl_lsRunHead {k : Cart} {m : Mach} (h : gameTbl (lsRunHead k m) ≠ 0) :
    (lsRunHead k m).rd execHtbl = gameTbl (lsRunHead k m) := by
  have hg : gameTbl (lsRunHead k m) = gameTbl (lsTblAdopt k (shadowFromRings (lsUnfreeze m))) :=
    gameTbl_only (only_lsInstall _) (by decide) (by decide)
  rw [hg] at h ⊢
  exact htbl_lsInstall h

/-- Where the run of a tick stores. -/
def runCell (a : Nat) : Prop := playCell a ∨ a = gameTblLo ∨ a = gameTblHi

instance (a : Nat) : Decidable (runCell a) := by unfold runCell; infer_instance

/-- From the end of the replay to the end of the pass: the null table. -/
theorem lsRun_spec {k : Cart} (hk : netNull k < 65536) (m : Mach) :
    Only runCell m (lsRun k m) ∧ (lsRun k m).rd execHtbl = netNull k ∧
    gameTbl (lsRun k m) = gameTbl (lsTblAdopt k (lsPlay k (lsRunHead k m))) := by
  have hhead : Only runCell m (lsRunHead k m) := by
    refine ((((within_lsUnfreeze m).within (within_shadowFromRings _)).only.mono
      (fun _ h => Or.inl (Or.inl h))).trans ((only_lsTblAdopt k _).mono (fun _ => Or.inr))).trans
      ((only_lsInstall _).mono ?_)
    rintro a rfl
    decide
  have hplay := (only_lsPlay k (lsRunHead k m)).mono (T := runCell) (fun _ => Or.inl)
  have hadopt := (only_lsTblAdopt k (lsPlay k (lsRunHead k m))).mono (T := runCell) (fun _ => Or.inr)
  have hnull : Only (· = execHtbl) (lsTblAdopt k (lsPlay k (lsRunHead k m)))
      (lsNull k (lsPlay k (lsRunHead k m))) := ((Does.refl (· = execHtbl) _).st _ rfl).only
  have htail : Only lsCell (lsNull k (lsPlay k (lsRunHead k m))) (lsRun k m) :=
    ((only_lsCrc _).trans (within_lsTickInc _).only).trans (only_rsPending _)
  refine ⟨?_, ?_, ?_⟩
  · refine (((hhead.trans hplay).trans hadopt).trans (hnull.mono ?_)).trans
      (htail.mono (fun _ h => Or.inl (Or.inl h)))
    rintro a rfl
    decide
  · rw [htail.keep (by decide), lsNull, Mach.rd_st_self, cellMod_system (by decide) (by decide)]
    exact Nat.mod_eq_of_lt hk
  · rw [gameTbl_only htail (by decide) (by decide), gameTbl_only hnull (by decide) (by decide)]

/-! ## The invariant -/

/-- Between passes: the null table, with the last table in GAME_TBL; or still the table
    .START installed. -/
structure Kept (k : Cart) (l : Nat) (m : Mach) : Prop where
  playing : Playing m
  tbl : (m.rd execHtbl = netNull k ∧ (IsTable k l → gameTbl m = l)) ∨
    (m.rd execHtbl = l ∧ l ≠ netNull k)

/-- After LS_PASS. -/
structure Nulled (k : Cart) (l : Nat) (m : Mach) : Prop where
  playing : Playing m
  null : m.rd execHtbl = netNull k
  tbl : IsTable k l → gameTbl m = l

/-- Pumps that leave $035D at the null table hand over what they leave in GAME_TBL. -/
theorem handed_spec {k : Cart} {l : Nat} {m m' : Mach} (h : IsTable k l → gameTbl m = l) :
    IsTable k (handed l m m') → gameTbl m' = handed l m m' := by
  unfold handed
  split
  · next heq => exact fun hl => heq.trans (h hl)
  · exact fun _ => rfl

/-- The replay starts from the last table. -/
theorem head_spec {k : Cart} {p : Pass} {l : Nat} {m m' : Mach} (h : Kept k l m)
    (hp : Honest k p m) (hdue : lsDue m = true) (ht : lsTurn p.reads m = some m')
    (hl : IsTable k (handed l m m')) :
    gameTbl (lsRunHead k m') = handed l m m' ∧
      (lsRunHead k m').rd execHtbl = handed l m m' := by
  have hstill := still_turn ⟨h.playing, rfl⟩ hp hdue ht
  have hg : gameTbl (lsRunHead k m') = handed l m m' := by
    rw [gameTbl_lsRunHead, hstill.2]
    rcases h.tbl with ⟨hn, htb⟩ | ⟨hlive, hne⟩
    · rw [if_pos hn]
      exact handed_spec htb hl
    · have hlive' : m.rd execHtbl ≠ netNull k := hlive ▸ hne
      rw [if_neg hlive', hlive, handed, if_pos (gameTbl_turn h.playing hp hlive' hdue ht)]
  exact ⟨hg, (htbl_lsRunHead (hg ▸ hl.1)).trans hg⟩

/-- One call of MASTER_TICK. -/
theorem nulled_masterTick {k : Cart} (hk : netNull k < 65536) {p : Pass} {l : Nat} {m m1 : Mach}
    (h : Kept k l m) (hp : Honest k p m) (hb : masterTick k p.reads m = .back m1) :
    Nulled k (lastPass k p l m) m1 := by
  rw [masterTick, if_pos h.playing.active] at hb
  unfold lastPass
  by_cases hdue : lsDue m = true
  · obtain ⟨mt, ht, rfl⟩ := lsPass_due hdue hb
    have hstill := still_turn ⟨h.playing, rfl⟩ hp hdue ht
    obtain ⟨honly, hnull, htbl⟩ := lsRun_spec hk mt
    simp only [hdue, if_true, ht]
    refine ⟨hstill.1.only honly (by decide), hnull, fun hl => ?_⟩
    rw [htbl, gameTbl_lsTblAdopt]
    unfold installed at hl ⊢
    split at hl
    · next heq =>
      -- nothing was installed during the tick
      obtain ⟨-, hhead⟩ := head_spec h hp hdue ht hl
      rw [if_pos heq, heq, hhead, if_neg hl.2]
    · next hne => rw [if_neg hne, if_neg hl.2]
  · have hd : lsDue m = false := by simpa using hdue
    have hstill := still_hold ⟨h.playing, rfl⟩ hp hd hb
    simp only [hd, Bool.false_eq_true, if_false, hb]
    rcases h.tbl with ⟨hn, htb⟩ | ⟨hlive, hne⟩
    · exact ⟨hstill.1, hstill.2.trans hn, handed_spec htb⟩
    · -- .START's table is live only while no hold is open
      exact absurd (hp.fresh (hlive ▸ hne)).1 (lsPass_hold h.playing hd hb).1

/-! ## Whole runs -/

theorem only_runNative (fs : List (Mem → Nat → Nat)) (m : Mach) :
    Only gameCell m (runNative fs m) := by
  induction fs generalizing m with
  | nil => exact (Does.refl _ m).only
  | cons f fs ih => exact ((Does.refl _ m).game f (fun _ h => h)).only.trans (ih _)

theorem only_afterScan (k : Cart) (p : Pass) (m : Mach) : Only gameCell m (afterScan k p m) := by
  unfold afterScan
  split
  · exact ((Does.refl _ m).game _ (fun _ h => h)).only
  · exact ((Does.refl _ m).game _ (fun _ h => h)).only

/-- Through the null table the scan reaches no game code. -/
theorem htbl_afterScan {k : Cart} {m : Mach} (p : Pass) (h : m.rd execHtbl = netNull k) :
    (afterScan k p m).rd execHtbl = m.rd execHtbl := by
  rw [afterScan, if_pos h, Mach.rd_game, if_pos (by decide), if_pos rfl]
  exact Nat.mod_eq_of_lt (m.rd_lt execHtbl)

theorem Nulled.only {k : Cart} {l : Nat} {m m' : Mach} (h : Nulled k l m)
    (ho : Only gameCell m m') (ht : m'.rd execHtbl = m.rd execHtbl) : Nulled k l m' where
  playing := h.playing.only ho (by decide)
  null := ht.trans h.null
  tbl := by
    rw [gameTbl_only ho (by decide) (by decide)]
    exact h.tbl

/-- A pass whose native entries are quiet. -/
theorem nulled_atScan {k : Cart} (hk : netNull k < 65536) {p : Pass} {l : Nat} {m ms : Mach}
    (h : Kept k l m) (hp : Honest k p m) (hq : NativesQuiet k p m) (hs : atScan k p m = some ms) :
    Nulled k (lastPass k p l m) ms := by
  unfold atScan at hs
  cases hb : masterTick k p.reads m with
  | back m1 =>
    simp only [hb, Option.some.injEq] at hs
    rw [← hs]
    exact (nulled_masterTick hk h hp hb).only (only_runNative _ _) (hq m1 hb)
  | parked m1 => simp [hb] at hs
  | waiting => simp [hb] at hs

theorem kept_pass {k : Cart} (hk : netNull k < 65536) {p : Pass} {l : Nat} {m ms : Mach}
    (h : Kept k l m) (hp : Honest k p m) (hq : NativesQuiet k p m) (hs : atScan k p m = some ms) :
    Kept k (lastAfter k p l m) (afterScan k p ms) := by
  have hn := nulled_atScan hk h hp hq hs
  have hscan := htbl_afterScan p hn.null
  have hlast : lastAfter k p l m = lastPass k p l m := by
    unfold atScan at hs
    cases hb : masterTick k p.reads m with
    | back m1 =>
      simp only [hb, Option.some.injEq] at hs
      have hquiet : (runNative p.native m1).rd execHtbl = m1.rd execHtbl := hq m1 hb
      simp only [lastAfter, hb, hs, installed, hscan, if_true]
      rw [← hs, hquiet, if_pos rfl]
    | parked m1 => simp [hb] at hs
    | waiting => simp [hb] at hs
  have hnext := hn.only (only_afterScan k p ms) hscan
  rw [hlast]
  exact ⟨hnext.playing, Or.inl ⟨hnext.null, hnext.tbl⟩⟩

/-- The condition on a pass. -/
def Meets (k : Cart) (p : Pass) (m : Mach) : Prop := Honest k p m ∧ NativesQuiet k p m

theorem kept_reaches {k : Cart} (hk : netNull k < 65536) {m0 m : Mach} {l : Nat}
    (h0 : Playing m0) (h : Reaches (Meets k) k m0 m l) : Kept k l m := by
  induction h with
  | start =>
    by_cases hn : m0.rd execHtbl = netNull k
    · exact ⟨h0, Or.inl ⟨hn, fun hl => absurd hn hl.2⟩⟩
    · exact ⟨h0, Or.inr ⟨rfl, hn⟩⟩
  | pass _ hp hs ih => exact kept_pass hk ih hp.1 hp.2 hs

/-- In every run after START whose native entries leave $035D as they find it, every scan
    sees the null table and every replay starts from the last table the game installed. -/
theorem input_isolated {k : Cart} (hk : netNull k < 65536) {m0 m : Mach} {l : Nat}
    (h0 : Playing m0) (h : Reaches (Meets k) k m0 m l) (p : Pass) (hp : Meets k p m) :
    Isolated k p m l := by
  have hkept := kept_reaches hk h0 h
  refine ⟨fun ms hs => (nulled_atScan hk hkept hp.1 hp.2 hs).null, fun m' hdue ht hl => ?_⟩
  exact (head_spec hkept hp.1 hdue ht hl).2

/-- A game that stores nothing. -/
def stillCart : Cart := ⟨fun mem a => mem.cell a, fun _ _ _ mem a => mem.cell a, 0x6100⟩

/-- The host of a match of two with delay 3, after .START installed the table $58D6. -/
def tipOff : Mach := ((((Mach.zero.st netCount 2).st netDelay 3).st netActive 1).st execHtbl 0x58D6)

/-- A pass with nothing to read, in which these native entries fire. -/
def passOf (native : List (Mem → Nat → Nat)) : Pass := ⟨[[]], native, fun mem a => mem.cell a⟩

theorem playing_tipOff : Playing tipOff := ⟨by decide, by decide, by decide, by decide⟩

theorem honest_passOf {k : Cart} {m : Mach} (native : List (Mem → Nat → Nat))
    (hnone : (passEntries [[]] m).length = 0)
    (hhold : m.rd execHtbl ≠ netNull k → m.rd resyncHold = 0) : Honest k (passOf native) m := by
  have hnil : passEntries (passOf native).reads m = [] := List.length_eq_zero_iff.mp hnone
  refine ⟨?_, fun h => ⟨hhold h, ?_⟩⟩ <;> simp [hnil]

/-- A game whose tick installs the table $55AF. -/
def dribble : Cart :=
  { stillCart with nbTick1 := fun mem a => if a = execHtbl then 0x55AF else mem.cell a }

/-- A native entry that counts in a cell of its own. -/
def tally (mem : Mem) (a : Nat) : Nat := if a = 0x0150 then mem.cell a + 1 else mem.cell a

theorem quiet_tally (k : Cart) (m : Mach) : NativesQuiet k (passOf [tally]) m := by
  intro m' _
  change (m'.game tally).rd execHtbl = m'.rd execHtbl
  rw [Mach.rd_game, if_pos (by decide)]
  exact Nat.mod_eq_of_lt (m'.rd_lt execHtbl)

/-- With the watermark START gives seat 1. -/
def armedOff : Mach := tipOff.st (seatWm + 2) 2

theorem playing_armedOff : Playing armedOff := ⟨by decide, by decide, by decide, by decide⟩

/-- In the first pass the game installs a table and a native entry fires; the second pass
    replays from that table. -/
theorem input_isolated_tipOff : ∃ m, Reaches (Meets dribble) dribble armedOff m 0x55AF ∧
    (atScan dribble (passOf [tally]) m).isSome = true ∧
    Isolated dribble (passOf [tally]) m 0x55AF := by
  have hfacts : (passEntries [[]] armedOff).length = 0 ∧ armedOff.rd resyncHold = 0 ∧
      lastAfter dribble (passOf [tally]) (armedOff.rd execHtbl) armedOff = 0x55AF ∧
      (atScan dribble (passOf [tally]) armedOff).map (fun ms =>
        let m := afterScan dribble (passOf [tally]) ms
        (m.rd execHtbl, (passEntries [[]] m).length,
          (atScan dribble (passOf [tally]) m).isSome)) = some (netNull dribble, 0, true) := by
    decide +kernel
  obtain ⟨hnone, hhold, hlast, hscan⟩ := hfacts
  cases hs : atScan dribble (passOf [tally]) armedOff with
  | none => simp [hs] at hscan
  | some ms =>
    simp only [hs, Option.map_some, Option.some.injEq, Prod.mk.injEq] at hscan
    obtain ⟨hnull, hnone', hsome⟩ := hscan
    have hmeets : Meets dribble (passOf [tally]) armedOff :=
      ⟨honest_passOf _ hnone (fun _ => hhold), quiet_tally _ _⟩
    have hrun : Reaches (Meets dribble) dribble armedOff
        (afterScan dribble (passOf [tally]) ms) 0x55AF := by
      rw [← hlast]
      exact .pass .start hmeets hs
    refine ⟨_, hrun, hsome, ?_⟩
    exact input_isolated (by decide) playing_armedOff hrun _
      ⟨honest_passOf _ hnone' (fun h => absurd hnull h), quiet_tally _ _⟩

theorem honest_tipOff (native : List (Mem → Nat → Nat)) :
    Honest stillCart (passOf native) tipOff :=
  honest_passOf native (by decide +kernel) (fun _ => by decide)

/-- A native entry that installs the table $55AF. -/
def installer (mem : Mem) (a : Nat) : Nat := if a = execHtbl then 0x55AF else mem.cell a

theorem native_install_seen :
    ¬ ∀ (k : Cart) (m0 m : Mach) (l : Nat) (p : Pass), netNull k < 65536 → Playing m0 →
      Reaches (Honest k) k m0 m l → Honest k p m → Isolated k p m l := by
  intro hall
  have hiso := hall stillCart tipOff tipOff _ (passOf [installer]) (by decide) playing_tipOff
    Reaches.start (honest_tipOff _)
  have hseen : (atScan stillCart (passOf [installer]) tipOff).map (fun m => m.rd execHtbl) =
      some 0x55AF := by decide +kernel
  cases hs : atScan stillCart (passOf [installer]) tipOff with
  | none => simp [hs] at hseen
  | some ms =>
    have hnull := hiso.scan ms hs
    simp only [hs, Option.map_some, Option.some.injEq] at hseen
    rw [hseen] at hnull
    revert hnull
    decide

end IntvBasketball.Console
