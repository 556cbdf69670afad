/-
  The debounce of the Lobby publishers (Relay.Publisher): what stands between two POSTs of
  the worker.

  `Quiet` is the invariant: the POSTs so far are spaced, and a worker that may POST next
  has rested since the last one. A step of `Next` keeps it unless it is an update that
  finds the worker in its debounce and shares the condition variable with it.
-/
import IntvBasketball.Relay.Publisher

namespace IntvBasketball.Relay

open Lib

variable {γ : Type} {B : Int → Bool → Option γ} {shared : Bool}

/-! ## Spacing -/

/-- The event ends a debounce by its timeout or by shutdown. -/
def Event.ends : Event γ → Prop
  | .elapsed => True
  | .stopped => True
  | _ => False

/-- Between two POSTs of the worker a debounce has so ended. -/
def Spaced (hist : List (Event γ)) : Prop :=
  ∀ pre b mid b' suf, hist = pre ++ .post b :: (mid ++ .post b' :: suf) → ∃ e ∈ mid, e.ends

/-- One has since the last of them. -/
def Rested (hist : List (Event γ)) : Prop :=
  ∀ pre b suf, hist = pre ++ .post b :: suf → ∃ e ∈ suf, e.ends

theorem snoc_split {α : Type} {l pre suf : List α} {e x : α} (h : l ++ [e] = pre ++ x :: suf) :
    (suf = [] ∧ e = x ∧ l = pre) ∨ ∃ suf', suf = suf' ++ [e] ∧ l = pre ++ x :: suf' := by
  cases suf using List.reverseRecOn with
  | nil =>
    obtain ⟨hl, he⟩ := List.append_inj' h rfl
    exact Or.inl ⟨rfl, (List.cons.inj he).1, hl⟩
  | append_singleton suf y =>
    rw [← List.cons_append, ← List.append_assoc] at h
    obtain ⟨hl, he⟩ := List.append_inj' h rfl
    exact Or.inr ⟨suf, by rw [(List.cons.inj he).1], hl⟩

theorem Rested.ended (hist : List (Event γ)) {e : Event γ} (he : e.ends) :
    Rested (hist ++ [e]) := by
  intro pre b suf h
  obtain ⟨-, hb, -⟩ | ⟨suf', rfl, -⟩ := snoc_split h
  · rw [hb] at he
    exact he.elim
  · exact ⟨e, List.mem_append_right _ List.mem_cons_self, he⟩

theorem Rested.snoc {hist : List (Event γ)} (hr : Rested hist) {e : Event γ}
    (he : ∀ b, e ≠ .post b) : Rested (hist ++ [e]) := by
  intro pre b suf h
  obtain ⟨-, hb, -⟩ | ⟨suf', rfl, hl⟩ := snoc_split h
  · exact absurd hb (he b)
  · obtain ⟨x, hx, hends⟩ := hr pre b suf' hl
    exact ⟨x, List.mem_append_left _ hx, hends⟩

theorem Spaced.snoc {hist : List (Event γ)} (hs : Spaced hist) {e : Event γ}
    (he : ∀ b, e ≠ .post b) : Spaced (hist ++ [e]) := by
  intro pre b mid b' suf h
  rw [← List.cons_append, ← List.append_assoc] at h
  obtain ⟨-, hb, -⟩ | ⟨suf', -, hl⟩ := snoc_split h
  · exact absurd hb (he b')
  · rw [List.append_assoc, List.cons_append] at hl
    exact hs pre b mid b' suf' hl

theorem Spaced.post {hist : List (Event γ)} (hs : Spaced hist) (hr : Rested hist) (b : γ) :
    Spaced (hist ++ [.post b]) := by
  intro pre b₁ mid b₂ suf h
  rw [← List.cons_append, ← List.append_assoc] at h
  obtain ⟨-, -, hl⟩ | ⟨suf', -, hl⟩ := snoc_split h
  · exact hr pre b₁ mid hl
  · rw [List.append_assoc, List.cons_append] at hl
    exact hs pre b₁ mid b₂ suf' hl

/-- The worker may POST without another debounce. -/
def Spot.rested : Spot γ → Prop
  | .top => True
  | .idle _ => True
  | .ready _ => True
  | .debounce w => w ≠ .waiting
  | _ => False

/-- The worker's POSTs are spaced, and it has rested where it may POST next. -/
structure Quiet (p : Spot γ) (hist : List (Event γ)) : Prop where
  spaced : Spaced hist
  rested : p.rested → Rested hist

theorem Spot.notified_rested {p : Spot γ} (h : p.notified.rested) : p.rested := by
  cases p with
  | idle w => trivial
  | _ => exact h

theorem Spot.rested_of_atHead {p : Spot γ} (h : p.atHead) : p.rested := by
  cases p with
  | top => trivial
  | idle w => trivial
  | _ => exact h.elim

/-- A stop signal ends the debounce, and says so. -/
theorem Quiet.stop {p : Spot γ} {hist : List (Event γ)} (h : Quiet p hist) :
    Quiet p.cut (hist ++ p.endsBy) := by
  cases p with
  | debounce w =>
    cases w with
    | waiting => exact ⟨h.spaced.snoc nofun, fun _ => Rested.ended hist trivial⟩
    | signalled =>
      rw [Spot.endsBy, List.append_nil]
      · exact h
      · nofun
    | expired =>
      rw [Spot.endsBy, List.append_nil]
      · exact h
      · nofun
  | _ =>
    rw [Spot.endsBy, List.append_nil]
    · exact h
    · nofun

theorem Spot.endsBy_notified (p : Spot γ) : p.notified.endsBy = p.endsBy := by
  cases p <;> rfl

/-- Every step keeps it, if no update cuts a debounce short. -/
theorem Next.quiet {v v' : View γ} {a : Act} (h : Next B shared v a v')
    (hcut : shared = true → ∀ n, a = .update n → v.spot ≠ .debounce .waiting)
    (hq : Quiet v.spot v.hist) : Quiet v'.spot v'.hist := by
  have hkeep : ∀ {p : Spot γ}, (p.rested → v.spot.rested) → Quiet p v.hist :=
    fun hp => ⟨hq.spaced, fun h => hq.rested (hp h)⟩
  cases h with
  | sleep hp _ _ => exact hkeep (fun _ => Spot.rested_of_atHead hp)
  | quit _ _ => exact hkeep False.elim
  | take hp _ =>
    exact ⟨hq.spaced.snoc nofun, fun _ => (hq.rested (Spot.rested_of_atHead hp)).snoc nofun⟩
  | publish hp =>
    exact ⟨hq.spaced.post (hq.rested (by rw [hp]; trivial)) _, False.elim⟩
  | skip _ => exact hkeep False.elim
  | answered _ _ hp => exact hkeep (by rcases hp with rfl | rfl | rfl <;> exact False.elim)
  | doze _ => exact hkeep (fun h => absurd rfl h)
  | hurry _ => exact ⟨hq.spaced.snoc nofun, fun _ => Rested.ended v.hist trivial⟩
  | rise hp hw => exact hkeep (fun _ => by rw [hp]; exact hw)
  | tire hp => exact hkeep (fun _ => by rw [hp]; trivial)
  | elapse _ => exact ⟨hq.spaced.snoc nofun, fun _ => Rested.ended v.hist trivial⟩
  | ignore _ => exact hq
  | update _ =>
    refine hkeep (fun h => ?_)
    cases shared with
    | false => exact Spot.notified_rested h
    | true =>
      -- an update that finds no debounce waiting changes nothing there
      have hn := hcut rfl _ rfl
      simp only [if_true] at h
      cases hp : v.spot with
      | debounce w => exact fun hw => hn (by rw [hp, hw])
      | idle w => trivial
      | _ =>
        rw [hp] at h
        exact h
  | shutdown _ _ hp =>
    obtain ⟨rfl, rfl⟩ | ⟨rfl, rfl⟩ := hp
    · exact hkeep Spot.notified_rested
    · have hn : Quiet v.spot.notified v.hist := hkeep Spot.notified_rested
      rw [← Spot.endsBy_notified]
      exact hn.stop
  | setStop _ => exact hq.stop
  | joined _ _ => exact hq
  | joinTimeout _ => exact hq
  | offline _ => exact ⟨hq.spaced.snoc nofun, fun h => (hq.rested h).snoc nofun⟩
  | silent _ => exact hq

theorem quiet_nil (p : Spot γ) : Quiet p ([] : List (Event γ)) := by
  refine ⟨?_, ?_⟩
  · intro pre b mid b' suf h
    cases pre <;> cases h
  · intro _ pre b suf h
    cases pre <;> cases h

/-! ## Runs -/

/-- The update does not arrive while the worker waits in its debounce. -/
def CPub.Undisturbed (s : CPub) (a : Act) : Prop := ∀ n, a = .update n → s.spot ≠ .debounce .waiting

/-- The POSTs of the Python worker are spaced; those of lobby_worker are as long as no
    lobby_update arrives in a debounce. -/
theorem posts_spaced {up : Bool} {a : LobbyArgs} {l : Lobby} (h : lobbyStart up a = some l) :
    (∀ as s, runs PyPub.step as (.start a) = some s → Spaced s.hist) ∧
    ∀ as s, Along CPub.step CPub.Undisturbed as (.start l) →
      runs CPub.step as (.start l) = some s → Spaced s.hist := by
  constructor
  · intro as s hrun
    have hinv : s.Fits a ∧ Quiet s.spot s.hist :=
      runs_rule (P := fun _ s => s.Fits a ∧ Quiet s.spot s.hist) ⟨⟨rfl, rfl⟩, quiet_nil _⟩
        (fun _ s _ s' hi hs =>
          ⟨(PyPub.next hi.1 hs).2, (PyPub.next hi.1 hs).1.quiet nofun hi.2⟩) hrun
    exact hinv.2.spaced
  · intro as s hc hrun
    have hinv : s.Fits l ∧ Quiet s.spot s.hist :=
      runs_rule_along (P := fun _ s => s.Fits l ∧ Quiet s.spot s.hist)
        ⟨CPub.start_fits h, quiet_nil _⟩
        (fun _ s _ s' hi hu hs =>
          ⟨(CPub.next hi.1 hs).2, (CPub.next hi.1 hs).1.quiet (fun _ => hu) hi.2⟩) hc hrun
    exact hinv.2.spaced

/-- A body that fits the buffer is rendered. -/
theorem renders {up : Bool} {a : LobbyArgs} {l : Lobby} (h : lobbyStart up a = some l) {n : Int}
    (hlen : bodyLen a n false < jsonMax) :
    ∃ b, renderJson { l with curplayers := n } jsonMax = some b := by
  have hl : { l with curplayers := n } = l.update n false := by
    have hf : l = l.update l.curplayers false := CPub.start_fits h
    rw [hf]
    rfl
  refine ⟨(body esc (l.update n false)).flatten, ?_⟩
  rw [hl, renderJson_eq, snprintf, body_length h, if_neg (Nat.not_le_of_lt hlen)]

/-- An update that does is followed by a POST right behind the last event. -/
theorem CPub.update_cuts {s : CPub} (hp : s.spot = .debounce .waiting) (hs : s.stopping = false)
    (hd : s.down = .up) {n : Int} {b : List Byte}
    (hb : renderJson { s.l with curplayers := n } jsonMax = some b) :
    ∃ s', runs CPub.step [.update n, .work, .work, .work] s = some s' ∧
      s'.hist = s.hist ++ [.took (some b), .post b] := by
  obtain ⟨l, dirty, stopping, stopEvt, failures, spot, down, hist⟩ := s
  cases hp
  cases hs
  cases hd
  refine ⟨{ l := { l with curplayers := n }, dirty := false, stopping := false, stopEvt, failures
            spot := .posting, down := .up, hist := hist ++ [.took (some b)] ++ [.post b] }, ?_, ?_⟩
  · simp only [runs, CPub.step, CPub.update, CPub.broadcast, CPub.work, CPub.loop, CPub.leave, hb,
      Wait.notify, Option.bind_some, Bool.not_true, Bool.false_and, Bool.false_eq_true, if_false]
  · rw [List.append_assoc]
    rfl

/-- From the start: an update, its POST, and the debounce behind it. -/
theorem CPub.reach_debounce {l : Lobby} {n : Int} {b : List Byte}
    (hb : renderJson { l with curplayers := n } jsonMax = some b) :
    runs CPub.step [.update n, .work, .work, .answer .ok, .work] (.start l) =
      some { l := { l with curplayers := n }, dirty := false, stopping := false, stopEvt := false
             failures := 0, spot := .debounce .waiting, down := .up
             hist := [.took (some b), .post b] } := by
  simp only [runs, CPub.step, CPub.start, CPub.update, CPub.broadcast, CPub.work, CPub.loop,
    CPub.leave, hb, Option.bind_some, Bool.not_true, Bool.false_and, Bool.false_eq_true, if_false,
    List.nil_append, List.cons_append]

/-- The registration of these runs. -/
def nbaArgs : LobbyArgs := defaultArgs ⟨txt "NBA Basketball", by decide +kernel⟩

theorem nba_starts : ∃ l, lobbyStart true nbaArgs = some l :=
  lobbyStart_accepts (by decide +kernel) (by decide +kernel) (by decide +kernel)

/-- Two POSTs of lobby_worker, the second by the keepalive. -/
theorem posts_spaced_keepalive : ∃ l as s, lobbyStart true nbaArgs = some l ∧
    runs CPub.step as (.start l) = some s ∧
    (∃ b, s.hist = [.took (some b), .post b, .elapsed, .took (some b), .post b]) ∧
    Spaced s.hist := by
  obtain ⟨l, hl⟩ := nba_starts
  obtain ⟨b, hb⟩ := renders (n := 0) hl (by decide +kernel)
  let as : List Act := [.update 0, .work, .work, .answer .ok, .work] ++
    [.expire, .work, .work, .expire, .work, .work]
  have hrun : ∃ s, runs CPub.step as (.start l) = some s ∧
      s.hist = [.took (some b), .post b, .elapsed, .took (some b), .post b] := by
    rw [runs_append, CPub.reach_debounce hb, Option.bind_some]
    simp only [runs, CPub.step, CPub.work, CPub.loop, CPub.leave, hb, Option.bind_some,
      Bool.not_true, Bool.not_false, Bool.and_self, Bool.false_and, Bool.false_eq_true, if_false,
      if_true]
    exact ⟨_, rfl, rfl⟩
  obtain ⟨s, hs, hh⟩ := hrun
  refine ⟨l, as, s, hl, hs, ⟨b, hh⟩, (posts_spaced hl).2 as s ?_ hs⟩
  intro pre a suf has t ht n ha
  cases pre with
  | nil =>
    cases ht
    intro h
    cases h
  | cons x pre =>
    have hmem : a ∈ as.tail := by
      rw [has]
      exact List.mem_append_right _ List.mem_cons_self
    rw [ha] at hmem
    simp [as] at hmem

/-- Two updates and two POSTs, with no debounce between them. -/
theorem churn_posts_twice : ∃ l as s, lobbyStart true nbaArgs = some l ∧
    runs CPub.step as (.start l) = some s ∧ ¬ Spaced s.hist := by
  obtain ⟨l, hl⟩ := nba_starts
  obtain ⟨b, hb⟩ := renders (n := 0) hl (by decide +kernel)
  obtain ⟨b', hb'⟩ := renders (n := 1) hl (by decide +kernel)
  obtain ⟨s, hs, hh⟩ := CPub.update_cuts (n := 1) (b := b')
    (s := { l := { l with curplayers := 0 }, dirty := false, stopping := false, stopEvt := false
            failures := 0, spot := .debounce .waiting, down := .up
            hist := [.took (some b), .post b] }) rfl rfl rfl hb'
  refine ⟨l, [.update 0, .work, .work, .answer .ok, .work] ++ [.update 1, .work, .work, .work], s,
    hl, ?_, ?_⟩
  · rw [runs_append, CPub.reach_debounce hb]
    exact hs
  · intro hsp
    obtain ⟨e, he, hends⟩ := hsp [.took (some b)] b [.took (some b')] b' [] hh
    cases List.mem_singleton.mp he
    exact hends

end IntvBasketball.Relay
