/-
  The console in steps of one pump.

  LS_PASS is one call that may pump many times before the gate opens. Here a step is what
  happens up to the next pump or return: the start of a pass with a tick due (`turn`), a
  stalled round of the gate (`wait`), the tick (`run`), a round in a hold (`hold`), the
  terminal screen (`park`), and whatever the EXEC and the game do between passes
  (`exec`). `lsPass_steps` and `lsPass_parks` say that a call of LS_PASS is such a sequence.

  `lsRun_parts` takes the tick apart: quiet work, the tick's event, quiet work, the tick
  counter, and RS_PENDING, which pushes or only counts.
-/
import Mathlib.Logic.Relation
import IntvBasketball.Console.Lockstep

namespace IntvBasketball.Console

open Mach (Within Does Only Mute)
open Relation (ReflTransGen)

/-! ## Steps -/

/-- Where a console stands: between passes, at `@@ls_gate`, or at `@@pl_park`. -/
inductive At where
  | top | gate | parked
deriving DecidableEq

structure Con where
  m : Mach
  pos : At

/-- One step. Every dispatched frame meets `ok` as SES_ONFRAME is entered. -/
inductive Step (k : Cart) (ok : Mach → Prop) : Con → Con → Prop where
  | exec (m : Mach) (f : Mem → Nat → Nat) : Step k ok ⟨m, .top⟩ ⟨m.game f, .top⟩
  | turn {m m1 : Mach} {got : List Byte} (hd : lsDue m = true) (hp : sesPump m got = some m1)
      (hf : ∀ me ∈ ppEntries ppFuel (ppCp m got), ok me) :
      Step k ok ⟨m, .top⟩ ⟨lsCapture m1, .gate⟩
  | wait {m m1 : Mach} {got : List Byte} (hd : m.rd netDropped = 0) (ho : lsOpen m = false)
      (hp : sesPump (lsFreeze m) got = some m1)
      (hf : ∀ me ∈ ppEntries ppFuel (ppCp (lsFreeze m) got), ok me) :
      Step k ok ⟨m, .gate⟩ ⟨lsWaitRound m1, .gate⟩
  | run {m : Mach} (ho : m.rd netDropped ≠ 0 ∨ lsOpen m = true) :
      Step k ok ⟨m, .gate⟩ ⟨lsRun k m, .top⟩
  | hold {m m1 : Mach} {got : List Byte} (hs : m.rd peerScr = 0) (hd : m.rd netDropped = 0)
      (hh : m.rd resyncHold ≠ 0) (hp : sesPump (lsFreeze m) got = some m1)
      (hf : ∀ me ∈ ppEntries ppFuel (ppCp (lsFreeze m) got), ok me) :
      Step k ok ⟨m, .top⟩ ⟨lsHoldRound m1, .top⟩
  | park {m : Mach} (hs : m.rd peerScr = 0) (hd : m.rd netDropped ≠ 0) :
      Step k ok ⟨m, .top⟩ ⟨(lsPeerLeft (lsFreeze m)).st peerScr 1, .parked⟩

/-- Runs. -/
abbrev Steps (k : Cart) (ok : Mach → Prop) : Con → Con → Prop := ReflTransGen (Step k ok)

theorem step_mono {k : Cart} {ok ok' : Mach → Prop} (hok : ∀ m, ok m → ok' m) {c c' : Con}
    (h : Step k ok c c') : Step k ok' c c' := by
  cases h with
  | exec m f => exact .exec m f
  | turn hd hp hf => exact .turn hd hp (fun me hme => hok me (hf me hme))
  | wait hd ho hp hf => exact .wait hd ho hp (fun me hme => hok me (hf me hme))
  | run ho => exact .run ho
  | hold hs hd hh hp hf => exact .hold hs hd hh hp (fun me hme => hok me (hf me hme))
  | park hs hd => exact .park hs hd

theorem steps_mono {k : Cart} {ok ok' : Mach → Prop} (hok : ∀ m, ok m → ok' m) {c c' : Con}
    (h : Steps k ok c c') : Steps k ok' c c' := ReflTransGen.mono (fun _ _ => step_mono hok) _ _ h

/-! ## A pass is a sequence of steps -/

theorem lsGate_steps {k : Cart} {ok : Mach → Prop} (reads : List (List Byte)) {m m' : Mach}
    (hg : lsGate reads m = some m') (hf : ∀ me ∈ gateEntries reads m, ok me) :
    Steps k ok ⟨m, .gate⟩ ⟨m', .gate⟩ ∧ (m'.rd netDropped ≠ 0 ∨ lsOpen m' = true) := by
  induction reads generalizing m with
  | nil =>
    simp only [lsGate, Option.ite_none_right_eq_some, Option.some.injEq] at hg
    exact ⟨hg.2 ▸ .refl, hg.2 ▸ hg.1⟩
  | cons got reads ih =>
    simp only [lsGate, gateEntries] at hg hf
    split_ifs at hg hf with ho
    · cases hg
      exact ⟨.refl, ho⟩
    · cases hp : sesPump (lsFreeze m) got with
      | none => simp [hp] at hg
      | some m1 =>
        simp only [hp, List.mem_append] at hg hf
        simp only [ne_eq, not_or, not_not, Bool.not_eq_true] at ho
        obtain ⟨hrest, hopen⟩ := ih hg (fun me hme => hf me (Or.inr hme))
        exact ⟨.head (.wait ho.1 ho.2 hp (fun me hme => hf me (Or.inl hme))) hrest, hopen⟩

/-- LS_PASS that returns. -/
theorem lsPass_steps {k : Cart} {ok : Mach → Prop} {reads : List (List Byte)} {m m' : Mach}
    (hb : lsPass k reads m = .back m') (hf : ∀ me ∈ passEntries reads m, ok me) :
    Steps k ok ⟨m, .top⟩ ⟨m', .top⟩ := by
  unfold lsPass at hb
  split_ifs at hb with h1 h2 h3
  · cases hb
    exact .refl
  · have hdue : lsDue m = false := by rw [lsDue, decide_eq_false h3, Bool.and_false]
    cases reads with
    | nil => simp at hb
    | cons got reads =>
      simp only [passEntries, hdue, Bool.false_eq_true, if_false] at hf
      cases hp : sesPump (lsFreeze m) got with
      | none => simp [hp] at hb
      | some m1 =>
        simp only [hp, LsEnd.back.injEq] at hb
        rw [← hb]
        exact .single (.hold (not_not.mp h1) (not_not.mp h2) h3 hp hf)
  · have hdue : lsDue m = true := by
      simp only [lsDue, not_not.mp h1, not_not.mp h2, not_not.mp h3]
      rfl
    cases reads with
    | nil => simp [lsTurn] at hb
    | cons got reads =>
      simp only [passEntries, hdue, if_true] at hf
      simp only [lsTurn] at hb
      cases hp : sesPump m got with
      | none => simp [hp] at hb
      | some m1 =>
        simp only [hp, List.mem_append] at hb hf
        cases hg : lsGate reads (lsCapture m1) with
        | none => simp [hg] at hb
        | some m2 =>
          simp only [hg, LsEnd.back.injEq] at hb
          obtain ⟨hgate, hopen⟩ : Steps k ok ⟨lsCapture m1, .gate⟩ ⟨m2, .gate⟩ ∧
              (m2.rd netDropped ≠ 0 ∨ lsOpen m2 = true) :=
            lsGate_steps reads hg (fun me hme => hf me (Or.inr hme))
          rw [← hb]
          exact (ReflTransGen.head (.turn hdue hp (fun me hme => hf me (Or.inl hme))) hgate).tail
            (.run hopen)

/-- LS_PASS that parks. -/
theorem lsPass_parks {k : Cart} {ok : Mach → Prop} {reads : List (List Byte)} {m m' : Mach}
    (hb : lsPass k reads m = .parked m') : Steps k ok ⟨m, .top⟩ ⟨m', .parked⟩ := by
  unfold lsPass at hb
  split_ifs at hb with h1 h2 h3
  · cases hb
    exact .single (.park (not_not.mp h1) h2)
  · cases reads with
    | nil => simp at hb
    | cons got reads =>
      cases hp : sesPump (lsFreeze m) got with
      | none => simp [hp] at hb
      | some m1 => simp [hp] at hb
  · cases ht : lsTurn reads m with
    | none => simp [ht] at hb
    | some m1 => simp [ht] at hb

/-- With NET_DROPPED set the next pass parks, whatever is read. -/
theorem lsPass_dropped {k : Cart} {m : Mach} (hs : m.rd peerScr = 0) (hd : m.rd netDropped ≠ 0)
    (reads : List (List Byte)) :
    lsPass k reads m = .parked ((lsPeerLeft (lsFreeze m)).st peerScr 1) := by
  unfold lsPass
  rw [if_neg (not_not.mpr hs), if_pos hd]

/-! ## The tick taken apart -/

/-- Cells of a tick, the counter and RS_PENDING apart. -/
def beatCell (a : Nat) : Prop :=
  actCell a ∨ area ownCrc 32 a ∨
    a ∈ [shadowCtrl, shadowCtrlR, gameTblLo, gameTblHi, lsTmpb, lsTmpb2]

instance (a : Nat) : Decidable (beatCell a) := by unfold beatCell; infer_instance

theorem mute_lsRunHead (k : Cart) (m : Mach) : Mute beatCell (lsUnfreeze m) (lsRunHead k m) := by
  have hsh : Mute beatCell (lsUnfreeze m) (shadowFromRings (lsUnfreeze m)) :=
    (((Does.refl _ _).st _ (by decide)).st _ (by decide)).mute
  have hadopt : ∀ m, Mute beatCell m (lsTblAdopt k m) := by
    intro m
    unfold lsTblAdopt
    dsimp only
    split
    · exact Mute.refl _ m
    · exact (((Does.refl _ m).st _ (by decide)).st _ (by decide)).mute
  have hinst : ∀ m, Mute beatCell m (lsInstall m) := by
    intro m
    unfold lsInstall
    dsimp only
    split
    · exact Mute.refl _ m
    · exact ((Does.refl _ m).st _ (by decide)).mute
  exact (hsh.trans (hadopt _)).trans (hinst _)

theorem mute_rsRecordCrc (m : Mach) : Mute beatCell m (rsRecordCrc m) := by
  have hslot : ∀ i < 4, beatCell (crcSlot (m.rd tickLo) + i) := by
    intro i hi
    refine Or.inr (Or.inl ?_)
    simp only [area, crcSlot]
    omega
  have hst : Mute beatCell m ((((m.st (crcSlot (m.rd tickLo)) (m.rd tickLo)).st
      (crcSlot (m.rd tickLo) + 1) ((m.st (crcSlot (m.rd tickLo)) (m.rd tickLo)).rd tickHi)).st
      (crcSlot (m.rd tickLo) + 2) (((m.st (crcSlot (m.rd tickLo)) (m.rd tickLo)).st
      (crcSlot (m.rd tickLo) + 1) ((m.st (crcSlot (m.rd tickLo)) (m.rd tickLo)).rd tickHi)).rd
        lsTmpb)).st (crcSlot (m.rd tickLo) + 3) ((((m.st (crcSlot (m.rd tickLo)) (m.rd tickLo)).st
      (crcSlot (m.rd tickLo) + 1) ((m.st (crcSlot (m.rd tickLo)) (m.rd tickLo)).rd tickHi)).st
      (crcSlot (m.rd tickLo) + 2) (((m.st (crcSlot (m.rd tickLo)) (m.rd tickLo)).st
      (crcSlot (m.rd tickLo) + 1) ((m.st (crcSlot (m.rd tickLo)) (m.rd tickLo)).rd tickHi)).rd
        lsTmpb)).rd lsTmpb2)) :=
    (((((Does.refl _ m).st _ (hslot 0 (by decide))).st _ (hslot 1 (by decide))).st _
      (hslot 2 (by decide))).st _ (hslot 3 (by decide))).mute
  exact hst.trans (Mute.log _ rfl)

theorem mute_lsCrc (m : Mach) : Mute beatCell m (lsCrc m) := by
  unfold lsCrc
  split
  · exact Mute.refl _ m
  · have hd : Mute beatCell m (rsDisplayReset m) := by
      refine (within_rsDisplayReset m).mute.mono ?_
      intro b hb
      refine Or.inl (Or.inl (Or.inl ?_))
      rcases hb with rfl | hb
      · decide
      · simp only [area] at hb
        omega
    have hck : Mute beatCell (rsDisplayReset m) (((rsDisplayReset m).st lsTmpb
        (lsCksum (rsDisplayReset m))).st lsTmpb2 (lsCksum (rsDisplayReset m) / 256)) :=
      (((Does.refl _ _).st _ (by decide)).st _ (by decide)).mute
    have hw : ∀ (m : Mach) (bs : List Nat), Mute beatCell m (m.netWrite bs) := fun m bs =>
      ((Does.refl _ m).netWrite bs).mute
    exact ((hd.trans hck).trans (mute_rsRecordCrc _)).trans (hw _ _)

/-- `@@ls_run`: what the tick does, in order. -/
theorem lsRun_parts (k : Cart) (m : Mach) : ∃ m1 m2, Mute beatCell (lsUnfreeze m) m1 ∧
    Mute beatCell (m1.log (lsTickEv m1)) m2 ∧ lsRun k m = rsPending (lsTickInc m2) := by
  have hnull : ∀ m, Mute beatCell m (lsNull k m) := by
    intro m
    unfold lsNull lsTblAdopt
    dsimp only
    split
    · exact ((Does.refl _ m).st _ (by decide)).mute
    · exact ((((Does.refl _ m).st _ (by decide)).st _ (by decide)).st _ (by decide)).mute
  refine ⟨lsRunHead k m, _, mute_lsRunHead k m, ?_, rfl⟩
  exact (((mute_lsPlay k _).mono (fun _ => Or.inl)).trans (hnull _)).trans (mute_lsCrc _)

/-- RS_PENDING counts, or pushes. -/
theorem rsPending_cases (m : Mach) : Mute (· = rsPtmo) m (rsPending m) ∨
    ∃ m1, Mute (· ∈ [rsPtmo, rsGate, rsWaited]) m m1 ∧ rsPending m = rsPush m1 := by
  have hst : ∀ v, Mute (· ∈ [rsPtmo, rsGate, rsWaited]) m
      (((m.st rsPtmo (m.rd rsPtmo + 1)).st rsGate v).st rsWaited
        (((m.st rsPtmo (m.rd rsPtmo + 1)).st rsGate v).rd rsPtmo)) := fun v =>
    ((((Does.refl _ m).st _ (by decide)).st _ (by decide)).st _ (by decide)).mute
  unfold rsPending
  dsimp only
  split_ifs
  · exact Or.inl (Mute.refl _ m)
  · exact Or.inr ⟨_, hst 1, rfl⟩
  · exact Or.inl ((Does.refl (· = rsPtmo) m).st _ rfl).mute
  · exact Or.inr ⟨_, hst 2, rfl⟩

/-- Cells of a whole tick. -/
def tickCell (a : Nat) : Prop :=
  beatCell a ∨ sentCell a ∨ a ∈ [tickLo, tickHi, rsPtmo, rsGate, rsWaited]

instance (a : Nat) : Decidable (tickCell a) := by unfold tickCell; infer_instance

theorem mute_lsTickInc (m : Mach) : Mute (fun a => a = tickLo ∨ a = tickHi) m (lsTickInc m) := by
  have h1 : Within (fun a => a = tickLo ∨ a = tickHi) m (m.st tickLo (m.rd tickLo + 1)) :=
    (Does.refl _ m).st _ (Or.inl rfl)
  unfold lsTickInc
  dsimp only
  split
  · exact h1.mute
  · exact (h1.st _ (Or.inr rfl)).mute

theorem only_rsPending_tick (m : Mach) : Only tickCell m (rsPending m) := by
  rcases rsPending_cases m with h | ⟨m1, h, he⟩
  · exact h.only.mono (by rintro a rfl; decide)
  · have hin : ∀ a ∈ [rsPtmo, rsGate, rsWaited], tickCell a := by decide
    rw [he]
    exact (h.only.mono hin).trans ((only_rsPush m1).mono (fun _ h => Or.inr (Or.inl h)))

theorem only_lsRun (k : Cart) (m : Mach) : Only tickCell (lsUnfreeze m) (lsRun k m) := by
  obtain ⟨m1, m2, h1, h2, he⟩ := lsRun_parts k m
  rw [he]
  refine (((h1.only.mono (fun _ => Or.inl)).trans
    (((Does.refl tickCell m1).log (lsTickEv m1)).only.trans (h2.only.mono (fun _ => Or.inl)))).trans
    ((mute_lsTickInc m2).only.mono ?_)).trans (only_rsPending_tick _)
  intro a ha
  rcases ha with rfl | rfl
  · decide
  · decide

end IntvBasketball.Console
