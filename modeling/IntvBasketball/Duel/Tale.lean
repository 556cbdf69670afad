/-
  Tales.

  The events a console leaves are read in epochs, which lie between two re-bases: what its
  game was given, the ticks, the checksums. Of a party's tale each is a function of the log
  of the epoch.
-/
import IntvBasketball.Duel.Agree
import IntvBasketball.Duel.Act

namespace IntvBasketball.Duel

open Lib Console

/-! ## Tales -/

/-- What a party's log can tell of what is seen. -/
def Ev.told : Ev → Option Ev
  | .tick t c0 c1 => some (.tick t c0 c1)
  | .vcall side sl r0 => some (.vcall side sl r0)
  | .record t c _ _ => some (.record t c 0 0)
  | .rebase r => some (.rebase r)
  | .slip => some .slip
  | _ => none

def Ev.isRebase : Ev → Bool
  | .rebase _ => true
  | _ => false

/-- What the game is given: ticks and handler calls. -/
def Ev.play : Ev → Bool
  | .tick .. => true
  | .vcall .. => true
  | _ => false

/-- A checksum of the peer that differs. -/
def Ev.alarm : Ev → Bool
  | .onCrc _ _ .bad => true
  | _ => false

/-- The events behind the `n`-th re-base, up to the next. -/
def epochOf : Nat → List Ev → List Ev
  | _, [] => []
  | n, e :: l =>
    if Ev.isRebase e then
      match n with
      | 0 => []
      | n + 1 => epochOf n l
    else
      match n with
      | 0 => e :: epochOf 0 l
      | n + 1 => epochOf (n + 1) l

def resumeOf : Ev → Option Nat
  | .rebase r => some r
  | _ => none

def tickOf : Ev → Option Nat
  | .tick t _ _ => some t
  | _ => none

def checkOf : Ev → Option (Nat × Nat)
  | .record t c _ _ => some (t, c)
  | _ => none

/-- The resume ticks of the re-bases. -/
def resumes (l : List Ev) : List Nat := l.filterMap resumeOf

/-- The ticks run. -/
def ticks (l : List Ev) : List Nat := l.filterMap tickOf

/-- The checksums recorded, with their ticks. -/
def checks (l : List Ev) : List (Nat × Nat) := l.filterMap checkOf

/-- What a console that is in epoch `n` has to tell. -/
def story (base : Nat → Nat) (log : Nat → List Beat) : Nat → List Ev
  | 0 => (log 0).flatMap beatEvs
  | n + 1 => story base log n ++ .rebase (base (n + 1) % 65536) :: (log (n + 1)).flatMap beatEvs

section
variable {base base' : Nat → Nat} {log log' : Nat → List Beat} {n : Nat}

theorem story_congr (hb : ∀ e ≤ n, base' e = base e) (hl : ∀ e ≤ n, log' e = log e) :
    story base' log' n = story base log n := by
  induction n with
  | zero => rw [story, story, hl 0 (Nat.le_refl 0)]
  | succ n ih =>
    rw [story, story, ih (fun e he => hb e (by omega)) (fun e he => hl e (by omega)),
      hb _ (Nat.le_refl _), hl _ (Nat.le_refl _)]

/-- One tick more. -/
theorem story_putBeat (base : Nat → Nat) (log : Nat → List Beat) (n : Nat) (b : Beat) :
    story base (putBeat log n b) n = story base log n ++ beatEvs b := by
  cases n with
  | zero => rw [story, story, putBeat_self, List.flatMap_append, List.flatMap_singleton]
  | succ n =>
    have hold : story base (putBeat log (n + 1) b) n = story base log n :=
      story_congr (fun _ _ => rfl) (fun e he => putBeat_ne _ _ (by omega))
    rw [story, story, hold, putBeat_self, List.flatMap_append, List.flatMap_singleton,
      List.append_assoc, List.cons_append]

/-- One epoch more, of which nothing has been run yet. -/
theorem story_next (hl : log (n + 1) = []) :
    story base log (n + 1) = story base log n ++ [.rebase (base (n + 1) % 65536)] := by
  rw [story, hl]
  rfl

end

/-! ## What is told -/

/-- A re-base stays one, and nothing else becomes one. -/
structure Marks (f : Ev → Option Ev) : Prop where
  same : ∀ e e', f e = some e' → Ev.isRebase e' = Ev.isRebase e
  kept : ∀ e, Ev.isRebase e = true → f e = some e

theorem marks_seen : Marks Ev.seen where
  same e e' h := by
    cases e with
    | onCrc t c v =>
      cases v <;> cases h
      rfl
    | _ =>
      cases h
      try rfl
  kept e h := by
    cases e with
    | rebase r => rfl
    | _ => cases h

theorem marks_told : Marks Ev.told where
  same e e' h := by
    cases e <;> cases h <;> rfl
  kept e h := by
    cases e with
    | rebase r => rfl
    | _ => cases h

theorem epochOf_filterMap {f : Ev → Option Ev} (hf : Marks f) (n : Nat) (l : List Ev) :
    epochOf n (l.filterMap f) = (epochOf n l).filterMap f := by
  induction l generalizing n with
  | nil => rfl
  | cons e l ih =>
    by_cases hr : Ev.isRebase e = true
    · rw [List.filterMap_cons, hf.kept e hr]
      simp only [epochOf, if_pos hr]
      cases n with
      | zero => rfl
      | succ n => exact ih n
    · rw [List.filterMap_cons]
      cases ht : f e with
      | none =>
        simp only [epochOf, if_neg hr]
        cases n with
        | zero =>
          rw [List.filterMap_cons, ht]
          exact ih 0
        | succ n => exact ih (n + 1)
      | some e' =>
        have hr' : ¬ Ev.isRebase e' = true := by rwa [hf.same e e' ht]
        simp only [epochOf, if_neg hr, if_neg hr']
        cases n with
        | zero =>
          rw [List.filterMap_cons, ht]
          exact congrArg _ (ih 0)
        | succ n => exact ih (n + 1)

theorem filter_told (l : List Ev) : (l.filterMap Ev.told).filter Ev.play = l.filter Ev.play := by
  induction l with
  | nil => rfl
  | cons e l ih => cases e <;> simp [List.filterMap_cons, List.filter_cons, Ev.told, Ev.play, ih]

/-- What is kept keeps what `f` looks for. -/
theorem filterMap_kept {α : Type} {g : Ev → Option Ev} {f : Ev → Option α}
    (h : ∀ e, (g e).bind f = f e) (l : List Ev) : (l.filterMap g).filterMap f = l.filterMap f := by
  rw [List.filterMap_filterMap]
  exact congrArg (fun g => List.filterMap g l) (funext h)

/-- What is told is seen. -/
theorem told_seen (l : List Ev) :
    (l.filterMap Ev.seen).filterMap Ev.told = l.filterMap Ev.told := by
  apply filterMap_kept
  intro e
  cases e with
  | onCrc t c v => cases v <;> rfl
  | _ => rfl

theorem alarm_seen (l : List Ev) : (l.filterMap Ev.seen).countP Ev.alarm = l.countP Ev.alarm := by
  induction l with
  | nil => rfl
  | cons e l ih =>
    cases e with
    | onCrc t c v => cases v <;> simp [List.filterMap_cons, List.countP_cons, Ev.seen, Ev.alarm, ih]
    | _ => simp [List.filterMap_cons, Ev.seen, Ev.alarm, ih]

theorem resumes_told (l : List Ev) : resumes (l.filterMap Ev.told) = resumes l := by
  apply filterMap_kept
  intro e
  cases e <;> rfl

theorem ticks_told (l : List Ev) : ticks (l.filterMap Ev.told) = ticks l := by
  apply filterMap_kept
  intro e
  cases e <;> rfl

theorem checks_told (l : List Ev) : checks (l.filterMap Ev.told) = checks l := by
  apply filterMap_kept
  intro e
  cases e <;> rfl

theorem resumes_append (l l' : List Ev) : resumes (l ++ l') = resumes l ++ resumes l' :=
  List.filterMap_append

theorem epochOf_sublist (e : Nat) (l : List Ev) : (epochOf e l).Sublist l := by
  induction l generalizing e with
  | nil => exact List.Sublist.refl _
  | cons a l ih =>
    by_cases ha : Ev.isRebase a = true
    · cases e with
      | zero =>
        simp only [epochOf, if_pos ha]
        exact List.nil_sublist _
      | succ e =>
        simp only [epochOf, if_pos ha]
        exact (ih e).cons a
    · cases e with
      | zero =>
        simp only [epochOf, if_neg ha]
        exact (ih 0).cons_cons a
      | succ e =>
        simp only [epochOf, if_neg ha]
        exact (ih (e + 1)).cons a

/-- What is found in an epoch of a longer tale. -/
theorem mem_epochOf_append {l l' : List Ev} {x : Ev} {e : Nat} : x ∈ epochOf e (l ++ l') ↔
    x ∈ epochOf e l ∨ ∃ j, e = (resumes l).length + j ∧ x ∈ epochOf j l' := by
  induction l generalizing e with
  | nil =>
    rw [List.nil_append, epochOf]
    constructor
    · exact fun h => Or.inr ⟨e, (Nat.zero_add e).symm, h⟩
    · rintro (h | ⟨j, rfl, h⟩)
      · exact absurd h List.not_mem_nil
      · rwa [show (resumes []).length + j = j from Nat.zero_add j]
  | cons a l ih =>
    rw [List.cons_append]
    by_cases ha : Ev.isRebase a = true
    · have hlen : (resumes (a :: l)).length = (resumes l).length + 1 := by
        cases a with
        | rebase r => rfl
        | _ => cases ha
      rw [hlen]
      cases e with
      | zero =>
        simp only [epochOf, if_pos ha, List.not_mem_nil, false_or, false_iff]
        rintro ⟨j, hj, -⟩
        omega
      | succ e =>
        simp only [epochOf, if_pos ha]
        rw [ih]
        have hj : ∀ j, e = (resumes l).length + j ↔ e + 1 = (resumes l).length + 1 + j := by omega
        simp only [hj]
    · have hlen : resumes (a :: l) = resumes l := by
        cases a with
        | rebase r => exact absurd rfl ha
        | _ => rfl
      rw [hlen]
      cases e with
      | zero =>
        simp only [epochOf, if_neg ha, List.mem_cons]
        rw [ih, or_assoc]
      | succ e =>
        simp only [epochOf, if_neg ha]
        exact ih

/-! ## The tale of a party -/

/-- What an epoch of these ticks tells. -/
def epochEvs (l : List Beat) : List Ev := l.flatMap beatEvs

theorem mem_beatEvs {b : Beat} {e : Ev} (he : e ∈ beatEvs b) :
    (∃ t c0 c1, e = .tick t c0 c1) ∨ (∃ side slot r0, e = .vcall side slot r0) ∨
      ∃ t c, e = .record t c 0 0 := by
  rcases List.mem_cons.mp he with rfl | he
  · exact Or.inl ⟨_, _, _, rfl⟩
  · rcases List.mem_append.mp he with he | he
    · refine Or.inr (Or.inl ?_)
      rcases List.mem_append.mp he with he | he
      · obtain ⟨slot, r0, rfl⟩ := vdCalls_vcall he
        exact ⟨_, _, _, rfl⟩
      · obtain ⟨slot, r0, rfl⟩ := vdCalls_vcall he
        exact ⟨_, _, _, rfl⟩
    · split at he
      · rw [List.mem_singleton.mp he]
        exact Or.inr (Or.inr ⟨_, _, rfl⟩)
      · exact absurd he List.not_mem_nil

/-- No tick re-bases, discards a byte or raises an alarm, and all of it is told. -/
theorem beatEvs_plain {b : Beat} {e : Ev} (he : e ∈ beatEvs b) : Ev.isRebase e = false ∧
    e ≠ .slip ∧ Ev.alarm e = false ∧ Ev.told e = some e := by
  rcases mem_beatEvs he with ⟨t, c0, c1, rfl⟩ | ⟨side, slot, r0, rfl⟩ | ⟨t, c, rfl⟩
  · exact ⟨rfl, (fun h => by cases h), rfl, rfl⟩
  · exact ⟨rfl, (fun h => by cases h), rfl, rfl⟩
  · exact ⟨rfl, (fun h => by cases h), rfl, rfl⟩

theorem told_beatEvs (b : Beat) : (beatEvs b).filterMap Ev.told = beatEvs b :=
  (List.filterMap_congr (fun _ he => (beatEvs_plain he).2.2.2)).trans List.filterMap_some

theorem alarm_beatEvs (b : Beat) : (beatEvs b).countP Ev.alarm = 0 :=
  List.countP_eq_zero.mpr (fun _ he => by
    rw [(beatEvs_plain he).2.2.1]
    exact Bool.false_ne_true)

theorem mem_epochEvs {l : List Beat} {e : Ev} (he : e ∈ epochEvs l) : Ev.isRebase e = false ∧
    e ≠ .slip := by
  obtain ⟨b, -, hb⟩ := List.mem_flatMap.mp he
  exact ⟨(beatEvs_plain hb).1, (beatEvs_plain hb).2.1⟩

section
variable {base : Nat → Nat} {log : Nat → List Beat}

theorem resumes_plain {l : List Ev} (h : ∀ e ∈ l, Ev.isRebase e = false) : resumes l = [] := by
  unfold resumes
  refine List.filterMap_eq_nil_iff.mpr (fun e he => ?_)
  have hr := h e he
  cases e with
  | rebase r => cases hr
  | _ => rfl

theorem resumes_story (base : Nat → Nat) (log : Nat → List Beat) (n : Nat) :
    resumes (story base log n) = (List.range n).map (fun e => base (e + 1) % 65536) := by
  induction n with
  | zero => exact resumes_plain (fun e he => (mem_epochEvs (l := log 0) he).1)
  | succ n ih =>
    have hlast : resumes (epochEvs (log (n + 1))) = [] :=
      resumes_plain (fun e he => (mem_epochEvs he).1)
    rw [story, resumes_append, ih, List.range_succ, List.map_append]
    exact congrArg (_ ++ ·) (congrArg (_ :: ·) hlast)

theorem epochOf_plain (n : Nat) {l : List Ev} (h : ∀ e ∈ l, Ev.isRebase e = false) :
    epochOf n l = if n = 0 then l else [] := by
  induction l with
  | nil =>
    rw [epochOf, ite_self]
  | cons e l ih =>
    have he : ¬ Ev.isRebase e = true := by
      rw [h e List.mem_cons_self]
      exact Bool.false_ne_true
    have hl := ih (fun e' he' => h e' (List.mem_cons_of_mem _ he'))
    cases n with
    | zero =>
      rw [epochOf, if_neg he]
      exact congrArg (e :: ·) hl
    | succ n =>
      rw [epochOf, if_neg he]
      exact hl

/-- An epoch more. -/
theorem epochOf_snoc (n : Nat) (l : List Ev) (r : Nat) {last : List Ev}
    (h : ∀ e ∈ last, Ev.isRebase e = false) : epochOf n (l ++ .rebase r :: last) =
      if n ≤ (resumes l).length then epochOf n l
      else if n = (resumes l).length + 1 then last else [] := by
  induction l generalizing n with
  | nil =>
    cases n with
    | zero => rfl
    | succ n =>
      change epochOf n last = if n + 1 ≤ 0 then _ else if n + 1 = 0 + 1 then last else []
      rw [epochOf_plain n h, if_neg (Nat.not_succ_le_zero n)]
      simp only [Nat.add_right_cancel_iff]
  | cons e l ih =>
    rw [List.cons_append]
    by_cases he : Ev.isRebase e = true
    · have hlen : (resumes (e :: l)).length = (resumes l).length + 1 := by
        cases e with
        | rebase r => rfl
        | _ => cases he
      rw [hlen]
      cases n with
      | zero => simp only [epochOf, if_pos he, Nat.zero_le, if_true]
      | succ n =>
        simp only [epochOf, if_pos he, Nat.add_le_add_iff_right, Nat.add_right_cancel_iff]
        exact ih n
    · have hlen : resumes (e :: l) = resumes l := by
        cases e with
        | rebase r => exact absurd rfl he
        | _ => rfl
      rw [hlen]
      cases n with
      | zero =>
        have h0 := ih 0
        rw [if_pos (Nat.zero_le _)] at h0 ⊢
        simp only [epochOf, if_neg he, h0]
      | succ n =>
        simp only [epochOf, if_neg he]
        exact ih (n + 1)

/-- The epochs of a party's tale are those of its log. -/
theorem epochOf_story (base : Nat → Nat) (log : Nat → List Beat) (e n : Nat) :
    epochOf e (story base log n) = if e ≤ n then epochEvs (log e) else [] := by
  induction n with
  | zero =>
    rw [story]
    refine (epochOf_plain e (fun e' he' => (mem_epochEvs (l := log 0) he').1)).trans ?_
    by_cases he : e = 0
    · subst he
      rfl
    · rw [if_neg he, if_neg (by omega)]
  | succ n ih =>
    have hlen : (resumes (story base log n)).length = n := by
      rw [resumes_story, List.length_map, List.length_range]
    rw [story]
    refine (epochOf_snoc e _ _ (fun e' he' => (mem_epochEvs (l := log (n + 1)) he').1)).trans ?_
    rw [hlen, ih]
    by_cases h1 : e ≤ n
    · rw [if_pos h1, if_pos h1, if_pos (by omega)]
    · by_cases h2 : e = n + 1
      · subst h2
        rw [if_neg h1, if_pos rfl, if_pos (Nat.le_refl _)]
      · rw [if_neg h1, if_neg h2, if_neg (by omega)]

end

/-- A tale tells of no discarded byte. -/
theorem slip_not_mem_story (base : Nat → Nat) (log : Nat → List Beat) (n : Nat) :
    Ev.slip ∉ story base log n := by
  intro h
  induction n with
  | zero => exact (mem_epochEvs (l := log 0) h).2 rfl
  | succ n ih =>
    rw [story] at h
    rcases List.mem_append.mp h with h | h
    · exact ih h
    · rcases List.mem_cons.mp h with h | h
      · cases h
      · exact (mem_epochEvs (l := log (n + 1)) h).2 rfl

/-! ## What an epoch shows -/

/-- What the game is given in a tick. -/
def playEvs (x : Nat × SeatCells × SeatCells) : List Ev :=
  .tick (x.1 % 65536) x.2.1 x.2.2 :: (vdCalls 0 x.2.1 ++ vdCalls 1 x.2.2)

theorem play_beatEvs (b : Beat) : (beatEvs b).filter Ev.play = playEvs b.run := by
  have hcalls : ∀ side c, (vdCalls side c).filter Ev.play = vdCalls side c := fun side c =>
    List.filter_eq_self.mpr (fun e he => by
      obtain ⟨slot, r0, rfl⟩ := vdCalls_vcall he
      rfl)
  have hcheck : (if b.t % 64 = 0 then [Ev.record (b.t % 65536) b.sum 0 0] else []).filter Ev.play =
      [] := by
    split <;> rfl
  have htick : ∀ l, (Ev.tick (b.t % 65536) b.seat0 b.seat1 :: l).filter Ev.play =
      .tick (b.t % 65536) b.seat0 b.seat1 :: l.filter Ev.play := fun l => rfl
  rw [beatEvs, htick, List.filter_append, List.filter_append, hcalls, hcalls, hcheck,
    List.append_nil]
  rfl

theorem play_epochEvs (l : List Beat) :
    (epochEvs l).filter Ev.play = (l.map Beat.run).flatMap playEvs := by
  induction l with
  | nil => rfl
  | cons b l ih =>
    have hcons : epochEvs (b :: l) = beatEvs b ++ epochEvs l := rfl
    rw [hcons, List.filter_append, ih, play_beatEvs, List.map_cons, List.flatMap_cons]

theorem none_vcalls {α : Type} {f : Ev → Option α}
    (h : ∀ side slot r0, f (.vcall side slot r0) = none) (side : Nat) (c : SeatCells) :
    (vdCalls side c).filterMap f = [] := by
  refine List.filterMap_eq_nil_iff.mpr (fun e he => ?_)
  obtain ⟨slot, r0, rfl⟩ := vdCalls_vcall he
  exact h side slot r0

/-- Of a tick, `f` sees the tick's own event and the checksum. -/
theorem filterMap_beatEvs {α : Type} {f : Ev → Option α}
    (h : ∀ side slot r0, f (.vcall side slot r0) = none) (b : Beat) :
    (beatEvs b).filterMap f = [Ev.tick (b.t % 65536) b.seat0 b.seat1].filterMap f ++
      (if b.t % 64 = 0 then [Ev.record (b.t % 65536) b.sum 0 0] else []).filterMap f := by
  rw [beatEvs, ← List.singleton_append, List.filterMap_append, List.filterMap_append,
    List.filterMap_append, none_vcalls h, none_vcalls h, List.nil_append, List.nil_append]

/-- What is read off the ticks alone. -/
theorem filterMap_epochEvs {α : Type} {f : Ev → Option α}
    (hv : ∀ side slot r0, f (.vcall side slot r0) = none)
    (hr : ∀ t c p h, f (.record t c p h) = none) (l : List Beat) : (epochEvs l).filterMap f =
      l.filterMap (fun b => f (.tick (b.t % 65536) b.seat0 b.seat1)) := by
  induction l with
  | nil => rfl
  | cons b l ih =>
    have hcons : epochEvs (b :: l) = beatEvs b ++ epochEvs l := rfl
    have hsum : (if b.t % 64 = 0 then [Ev.record (b.t % 65536) b.sum 0 0] else []).filterMap f =
        [] := by
      split
      · exact List.filterMap_cons_none (hr _ _ _ _)
      · rfl
    rw [hcons, List.filterMap_append, filterMap_beatEvs hv, hsum, List.append_nil, ih]
    cases hf : f (.tick (b.t % 65536) b.seat0 b.seat1) with
    | none =>
      rw [List.filterMap_cons_none hf, List.filterMap_nil, List.nil_append,
        List.filterMap_cons_none]
      exact hf
    | some x =>
      rw [List.filterMap_cons_some hf, List.filterMap_nil, List.singleton_append,
        List.filterMap_cons_some]
      exact hf

theorem ticks_epochEvs (l : List Beat) : ticks (epochEvs l) = l.map (fun b => b.t % 65536) := by
  rw [ticks, filterMap_epochEvs (fun _ _ _ => rfl) (fun _ _ _ _ => rfl)]
  exact congrFun List.filterMap_eq_map' l

theorem checks_append (l l' : List Ev) : checks (l ++ l') = checks l ++ checks l' :=
  List.filterMap_append

theorem checks_epochEvs_cons (b : Beat) (l : List Beat) : checks (epochEvs (b :: l)) =
    (if b.t % 64 = 0 then [(b.t % 65536, b.sum)] else []) ++ checks (epochEvs l) := by
  have hcons : epochEvs (b :: l) = beatEvs b ++ epochEvs l := rfl
  have hbeat : (beatEvs b).filterMap checkOf =
      if b.t % 64 = 0 then [(b.t % 65536, b.sum)] else [] := by
    rw [filterMap_beatEvs (fun _ _ _ => rfl)]
    split <;> rfl
  rw [hcons, checks_append]
  exact congrArg (· ++ _) hbeat

theorem epochEvs_append (l l' : List Beat) : epochEvs (l ++ l') = epochEvs l ++ epochEvs l' :=
  List.flatMap_append

theorem mem_checks {l : List Beat} {b : Beat} (hb : b ∈ l) (hz : b.t % 64 = 0) :
    (b.t % 65536, b.sum) ∈ checks (epochEvs l) := by
  obtain ⟨l1, l2, rfl⟩ := List.append_of_mem hb
  rw [epochEvs_append, checks_append, checks_epochEvs_cons, if_pos hz]
  exact List.mem_append_right _ List.mem_cons_self

theorem length_checks (l : List Beat) :
    (checks (epochEvs l)).length = (l.map Beat.t).countP (fun t => t % 64 = 0) := by
  induction l with
  | nil => rfl
  | cons b l ih =>
    rw [checks_epochEvs_cons, List.length_append, ih, List.map_cons, List.countP_cons]
    by_cases hz : b.t % 64 = 0
    · rw [if_pos hz, if_pos (by simpa using hz)]
      exact Nat.add_comm _ _
    · rw [if_neg hz, if_neg (by simpa using hz)]
      exact Nat.zero_add _

/-- The checksum of tick `t` in an epoch that began with tick 0. -/
theorem check_at {l : List Beat} {n : Nat} (hl : l.map Beat.t = List.range' 0 n) {b : Beat}
    (hb : b ∈ l) (hz : b.t % 64 = 0) :
    (checks (epochEvs l))[(List.range' 0 b.t).countP (fun t => t % 64 = 0)]? =
      some (b.t % 65536, b.sum) := by
  obtain ⟨l1, l2, rfl⟩ := List.append_of_mem hb
  have hlen : l1.length < n := by
    have := congrArg List.length hl
    rw [List.length_map, List.length_append, List.length_cons, List.length_range'] at this
    omega
  obtain ⟨j, rfl⟩ := Nat.exists_eq_add_of_lt hlen
  have hsplit : List.range' 0 (l1.length + j + 1) =
      List.range' 0 l1.length ++ l1.length :: List.range' (l1.length + 1) j := by
    rw [← List.range'_succ, Nat.add_assoc, ← List.range'_append_1, Nat.zero_add]
  rw [hsplit, List.map_append, List.map_cons] at hl
  obtain ⟨hpre, hrest⟩ := List.append_inj hl (by rw [List.length_map, List.length_range'])
  have ht : b.t = l1.length := (List.cons.inj hrest).1
  rw [← ht] at hpre
  rw [← hpre, ← length_checks, epochEvs_append, checks_append, List.getElem?_append_right
    (Nat.le_refl _), Nat.sub_self, checks_epochEvs_cons, if_pos hz]
  rfl

theorem getElem?_of_prefix {α : Type} {l l' : List α} (h : l <+: l') {i : Nat} {x : α}
    (hx : l[i]? = some x) : l'[i]? = some x := by
  obtain ⟨t, rfl⟩ := h
  rw [List.getElem?_append_left (List.getElem?_eq_some_iff.mp hx).1]
  exact hx

/-- Checksums that agree as far as both consoles recorded them. -/
theorem sameSums_of_checks {y : Sys} {n n' : Nat} (hH : (y.logH 0).map Beat.t = List.range' 0 n)
    (hG : (y.logG 0).map Beat.t = List.range' 0 n')
    (h : checks (epochEvs (y.logH 0)) <+: checks (epochEvs (y.logG 0)) ∨
      checks (epochEvs (y.logG 0)) <+: checks (epochEvs (y.logH 0))) : SameSums y := by
  intro b hb b' hb' ht hz
  have h1 := check_at hH hb hz
  have h2 := check_at hG hb' (ht ▸ hz)
  rw [← ht] at h2
  have hsame : some (b.t % 65536, b.sum) = some (b.t % 65536, b'.sum) := by
    rcases h with h | h
    · rw [← h2, ← getElem?_of_prefix h h1]
    · rw [← h1, ← getElem?_of_prefix h h2]
  exact (Prod.mk.inj (Option.some.inj hsame)).2

end IntvBasketball.Duel
