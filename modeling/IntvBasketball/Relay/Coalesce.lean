/-
  Coalescing and shutdown of the Lobby publishers (Relay.Publisher): which counts are
  published, and which POST is the last.

  `Told` ties the snapshots and POSTs of the worker to the updates so far, `Parting` what
  shutdown holds to the worker it joins. Both are kept by every step of `Next`.
-/
import IntvBasketball.Relay.Debounce

namespace IntvBasketball.Relay

open Lib

variable {γ : Type} {B : Int → Bool → Option γ} {shared : Bool}

/-! ## What is promised -/

/-- The count of the most recent update. -/
def newest (as : List Act) : Option Int := (as.filterMap Act.count).getLast?

def Event.snapshot : Event γ → Option (Option γ)
  | .took r => some r
  | _ => none

/-- The last snapshot the worker took. -/
def lastTook (hist : List (Event γ)) : Option (Option γ) := (hist.filterMap Event.snapshot).getLast?

def Event.posted : Event γ → Option γ
  | .post b => some b
  | _ => none

/-- The last body the worker tried to POST. -/
def lastPost (hist : List (Event γ)) : Option γ := (hist.filterMap Event.posted).getLast?

/-- A POST of either thread; is it shutdown's? -/
def Event.attempt : Event γ → Option (Bool × γ)
  | .post b => some (false, b)
  | .offline b => some (true, b)
  | _ => none

/-- The last POST attempted. -/
def lastAttempt (hist : List (Event γ)) : Option (Bool × γ) :=
  (hist.filterMap Event.attempt).getLast?

/-- What a publisher with the given steps keeps to, `B` being the bodies it can render. -/
structure KeepsTold {σ : Type} (step : σ → Act → Option σ) (view : σ → View γ) (start : σ)
    (B : Int → Bool → Option γ) : Prop where
  /-- A worker that waits with both flags clear has taken, and tried to POST, the count of
      the most recent update. -/
  told : ∀ as s n, runs step as start = some s → (view s).spot.waits → (view s).dirty = false →
    (view s).stopping = false → newest as = some n →
      lastTook (view s).hist = some (B n false) ∧
        ∀ b, B n false = some b → lastPost (view s).hist = some b
  /-- A snapshot carries the newest count at the time it is taken. -/
  newest : ∀ as s a s' r, runs step as start = some s → step s a = some s' →
    (view s').hist = (view s).hist ++ [.took r] → r = B ((newest as).getD 0) false
  /-- Updates behind shutdown change nothing. -/
  closed : ∀ pre suf s, runs step (pre ++ .shutdown :: suf) start = some s →
    runs step (pre ++ .shutdown :: suf.filter (fun a => a.count.isNone)) start = some s
  /-- If the worker was joined, the offline POST is the last one attempted. -/
  offline : ∀ as s, runs step as start = some s → (view s).down = .over true →
    ∀ b, B (view s).value true = some b → lastAttempt (view s).hist = some (true, b)

theorem newest_snoc (as : List Act) (a : Act) :
    newest (as ++ [a]) = a.count.or (newest as) := by
  unfold newest
  cases h : a.count <;> simp [h]

theorem lastTook_snoc (hist : List (Event γ)) (e : Event γ) :
    lastTook (hist ++ [e]) = e.snapshot.or (lastTook hist) := by
  unfold lastTook
  cases h : e.snapshot <;> simp [h]

theorem lastPost_snoc (hist : List (Event γ)) (e : Event γ) :
    lastPost (hist ++ [e]) = e.posted.or (lastPost hist) := by
  unfold lastPost
  cases h : e.posted <;> simp [h]

theorem lastAttempt_snoc (hist : List (Event γ)) (e : Event γ) :
    lastAttempt (hist ++ [e]) = e.attempt.or (lastAttempt hist) := by
  unfold lastAttempt
  cases h : e.attempt <;> simp [h]

/-! ## What is told -/

/-- What was taken and tried, beside the updates so far. -/
structure Told (B : Int → Bool → Option γ) (as : List Act) (v : View γ) : Prop where
  value : v.stopping = false → v.value = (newest as).getD 0
  fresh : v.stopping = false → v.dirty = false → ∀ n, newest as = some n →
    lastTook v.hist = some (B n false)
  ready : ∀ r, v.spot = .ready r → lastTook v.hist = some r
  tried : (∀ r, v.spot ≠ .ready r) → ∀ b, lastTook v.hist = some (some b) → lastPost v.hist = some b

/-- A step that shows nothing of all this. -/
theorem Told.same {as as' : List Act} {v v' : View γ} (h : Told B as v)
    (hn : v'.stopping = false → newest as' = newest as)
    (hs : v'.stopping = false → v.stopping = false ∧ v'.value = v.value ∧ v'.dirty = v.dirty)
    (ht : lastTook v'.hist = lastTook v.hist) (hpost : lastPost v'.hist = lastPost v.hist)
    (hr : ∀ r, v'.spot = .ready r ↔ v.spot = .ready r) : Told B as' v' := by
  refine ⟨fun h0 => ?_, fun h0 hd n hnew => ?_, fun r hp => ?_, fun hp b hb => ?_⟩
  · rw [(hs h0).2.1, hn h0]
    exact h.value (hs h0).1
  · rw [ht]
    rw [hn h0] at hnew
    exact h.fresh (hs h0).1 ((hs h0).2.2 ▸ hd) n hnew
  · rw [ht]
    exact h.ready r ((hr r).mp hp)
  · rw [hpost]
    rw [ht] at hb
    exact h.tried (fun r hp' => hp r ((hr r).mpr hp')) b hb

theorem Spot.notified_ready (p : Spot γ) (r : Option γ) : p.notified = .ready r ↔ p = .ready r := by
  cases p <;> simp [Spot.notified]

theorem Spot.cut_ready (p : Spot γ) (r : Option γ) : p.cut = .ready r ↔ p = .ready r := by
  cases p <;> simp [Spot.cut]

theorem Spot.ready_of_atHead {p : Spot γ} (h : p.atHead) (r : Option γ) : p ≠ .ready r := by
  intro hp
  rw [hp] at h
  exact h

/-- The end of a debounce is neither a snapshot nor a POST. -/
theorem hist_endsBy (p : Spot γ) (hist : List (Event γ)) :
    lastTook (hist ++ p.endsBy) = lastTook hist ∧ lastPost (hist ++ p.endsBy) = lastPost hist ∧
      lastAttempt (hist ++ p.endsBy) = lastAttempt hist := by
  have hcase : p.endsBy = [] ∨ p.endsBy = [.stopped] := by
    unfold Spot.endsBy
    split
    · exact Or.inr rfl
    · exact Or.inl rfl
  rcases hcase with h | h
  · rw [h, List.append_nil]
    exact ⟨rfl, rfl, rfl⟩
  · rw [h, lastTook_snoc, lastPost_snoc, lastAttempt_snoc]
    exact ⟨rfl, rfl, rfl⟩

theorem Next.told {v v' : View γ} {a : Act} {as : List Act} (h : Next B shared v a v')
    (ht : Told B as v) : Told B (as ++ [a]) v' := by
  have hnew : a.count = none → newest (as ++ [a]) = newest as := by
    intro ha
    rw [newest_snoc, ha, Option.none_or]
  -- the worker moves between two places that hold no snapshot
  have hmove : ∀ {p : Spot γ}, a.count = none → (∀ r, v.spot ≠ .ready r) → (∀ r, p ≠ .ready r) →
      Told B (as ++ [a]) { v with spot := p } := by
    intro p ha hv hp
    exact ht.same (fun _ => hnew ha) (fun h0 => ⟨h0, rfl, rfl⟩) rfl rfl
      (fun r => ⟨fun h => absurd h (hp r), fun h => absurd h (hv r)⟩)
  cases h with
  | sleep hp _ _ => exact hmove rfl (Spot.ready_of_atHead hp) nofun
  | quit hp hs =>
    refine ht.same (fun _ => hnew rfl) (fun h0 => ?_) rfl rfl ?_
    · rw [hs] at h0
      cases h0
    · exact fun r => ⟨nofun, fun h => absurd h (Spot.ready_of_atHead hp r)⟩
  | take hp hs =>
    have hval : v.value = (newest as).getD 0 := ht.value hs
    refine ⟨fun _ => ?_, fun _ _ n hn => ?_, fun r hr => ?_, fun hr => ?_⟩
    · rw [hnew rfl]
      exact hval
    · rw [hnew rfl] at hn
      rw [hn] at hval
      rw [lastTook_snoc, hval]
      rfl
    · cases hr
      rw [lastTook_snoc]
      rfl
    · exact absurd rfl (hr _)
  | @publish b hp =>
    have hlast : lastTook v.hist = some (some b) := ht.ready _ hp
    refine ⟨fun h0 => ?_, fun h0 hd n hn => ?_, nofun, fun _ b' hb' => ?_⟩
    · rw [hnew rfl]
      exact ht.value h0
    · rw [hnew rfl] at hn
      rw [lastTook_snoc]
      exact ht.fresh h0 hd n hn
    · rw [lastTook_snoc] at hb'
      cases hlast.symm.trans hb'
      rw [lastPost_snoc]
      rfl
  | skip hp =>
    have hlast : lastTook v.hist = some none := ht.ready _ hp
    refine ⟨fun h0 => ?_, fun h0 hd n hn => ?_, nofun, fun _ b' hb' => ?_⟩
    · rw [hnew rfl]
      exact ht.value h0
    · rw [hnew rfl] at hn
      exact ht.fresh h0 hd n hn
    · cases hlast.symm.trans hb'
  | answered ha hv hp =>
    refine hmove (by obtain rfl | ⟨r, rfl⟩ := ha <;> rfl) ?_ (by rcases hp with rfl | rfl | rfl <;> nofun)
    intro r hr
    rw [hr] at hv
    rcases hv with h | h <;> cases h
  | doze hp => exact hmove rfl (by rw [hp]; nofun) nofun
  | hurry hp =>
    refine (hmove rfl (by rw [hp]; nofun) (p := .top) nofun).same (fun _ => rfl)
      (fun h0 => ⟨h0, rfl, rfl⟩) ?_ ?_ (fun _ => Iff.rfl)
    · rw [lastTook_snoc]
      rfl
    · rw [lastPost_snoc]
      rfl
  | rise hp _ => exact hmove rfl (by rw [hp]; nofun) nofun
  | tire hp => exact hmove rfl (by rw [hp]; nofun) nofun
  | elapse hp =>
    refine (hmove rfl (by rw [hp]; nofun) (p := .debounce .expired) nofun).same (fun _ => rfl)
      (fun h0 => ⟨h0, rfl, rfl⟩) ?_ ?_ (fun _ => Iff.rfl)
    · rw [lastTook_snoc]
      rfl
    · rw [lastPost_snoc]
      rfl
  | ignore hs =>
    refine ht.same ?_ ?_ rfl rfl (fun _ => Iff.rfl)
    · intro h0
      rw [hs] at h0
      cases h0
    · intro h0
      rw [hs] at h0
      cases h0
  | @update n hs =>
    have hr : ∀ r, (if shared then v.spot.notified.cut else v.spot.notified) = .ready r ↔
        v.spot = .ready r := by
      intro r
      split
      · rw [Spot.cut_ready, Spot.notified_ready]
      · rw [Spot.notified_ready]
    refine ⟨fun _ => ?_, nofun, fun r hp => ?_, fun hp b hb => ?_⟩
    · rw [newest_snoc]
      rfl
    · exact ht.ready r ((hr r).mp hp)
    · exact ht.tried (fun r hp' => hp r ((hr r).mpr hp')) b hb
  | shutdown _ _ hp =>
    obtain ⟨rfl, rfl⟩ | ⟨rfl, rfl⟩ := hp
    · exact ht.same (fun _ => hnew rfl) nofun rfl rfl (Spot.notified_ready _)
    · obtain ⟨h1, h2, -⟩ := hist_endsBy v.spot v.hist
      refine ht.same (fun _ => hnew rfl) nofun h1 h2 (fun r => ?_)
      rw [Spot.cut_ready, Spot.notified_ready]
  | setStop _ =>
    obtain ⟨h1, h2, -⟩ := hist_endsBy v.spot v.hist
    exact ht.same (fun _ => hnew rfl) (fun h0 => ⟨h0, rfl, rfl⟩) h1 h2 (Spot.cut_ready _)
  | joined _ _ => exact ht.same (fun _ => hnew rfl) (fun h0 => ⟨h0, rfl, rfl⟩) rfl rfl (fun _ => Iff.rfl)
  | joinTimeout _ => exact ht.same (fun _ => hnew rfl) (fun h0 => ⟨h0, rfl, rfl⟩) rfl rfl (fun _ => Iff.rfl)
  | offline _ =>
    refine ht.same (fun _ => hnew rfl) (fun h0 => ⟨h0, rfl, rfl⟩) ?_ ?_ (fun _ => Iff.rfl)
    · rw [lastTook_snoc]
      rfl
    · rw [lastPost_snoc]
      rfl
  | silent _ => exact ht.same (fun _ => hnew rfl) (fun h0 => ⟨h0, rfl, rfl⟩) rfl rfl (fun _ => Iff.rfl)

/-! ## Shutdown -/

/-- Shutdown and the worker it joins. -/
structure Parting (B : Int → Bool → Option γ) (v : View γ) : Prop where
  stopping : v.down ≠ .up → v.stopping = true
  snap : ∀ r, v.down = .flagged r ∨ v.down = .joining r ∨ (∃ j, v.down = .left j r) →
    r = B v.value true
  gone : (∃ r, v.down = .left true r) ∨ v.down = .over true → v.spot = .gone
  last : v.down = .over true → ∀ b, B v.value true = some b → lastAttempt v.hist = some (true, b)

/-- A step of a worker that is not gone, or of its timer. -/
theorem Parting.works {v v' : View γ} (h : Parting B v) (hp : v.spot ≠ .gone)
    (hv : v'.value = v.value) (hs : v'.stopping = v.stopping) (hd : v'.down = v.down) :
    Parting B v' := by
  have hjoin : ¬((∃ r, v'.down = .left true r) ∨ v'.down = .over true) := by
    rw [hd]
    exact fun hj => hp (h.gone hj)
  refine ⟨?_, ?_, fun hj => absurd hj hjoin, fun hj => absurd (Or.inr hj) hjoin⟩
  · rw [hd, hs]
    exact h.stopping
  · rw [hd, hv]
    exact h.snap

theorem Next.parting {v v' : View γ} {a : Act} (h : Next B shared v a v') (hw : Parting B v) :
    Parting B v' := by
  have hhead : v.spot.atHead → v.spot ≠ .gone := by
    intro hp hg
    rw [hg] at hp
    exact hp
  cases h with
  | sleep hp _ _ => exact hw.works (hhead hp) rfl rfl rfl
  | quit hp _ => exact hw.works (hhead hp) rfl rfl rfl
  | take hp _ => exact hw.works (hhead hp) rfl rfl rfl
  | publish hp => exact hw.works (by rw [hp]; nofun) rfl rfl rfl
  | skip hp => exact hw.works (by rw [hp]; nofun) rfl rfl rfl
  | answered _ hp _ => exact hw.works (by rcases hp with hp | hp <;> rw [hp] <;> nofun) rfl rfl rfl
  | doze hp => exact hw.works (by rw [hp]; nofun) rfl rfl rfl
  | hurry hp => exact hw.works (by rw [hp]; nofun) rfl rfl rfl
  | rise hp _ => exact hw.works (by rw [hp]; nofun) rfl rfl rfl
  | tire hp => exact hw.works (by rw [hp]; nofun) rfl rfl rfl
  | elapse hp => exact hw.works (by rw [hp]; nofun) rfl rfl rfl
  | ignore _ => exact hw
  | update hs =>
    -- shutdown has not begun
    have hup : v.down = .up := by
      by_contra hd
      rw [hw.stopping hd] at hs
      cases hs
    refine ⟨fun hd => absurd hup hd, fun r hr => ?_, fun hj => ?_, fun hj => ?_⟩
    · change v.down = _ ∨ v.down = _ ∨ (∃ j, v.down = _) at hr
      rw [hup] at hr
      obtain h | h | ⟨_, h⟩ := hr <;> cases h
    · change (∃ r, v.down = _) ∨ v.down = _ at hj
      rw [hup] at hj
      obtain ⟨_, h⟩ | h := hj <;> cases h
    · exact absurd (hup.symm.trans hj) nofun
  | shutdown _ hd _ =>
    obtain rfl | rfl := hd
    · refine ⟨fun _ => rfl, fun r hr => ?_, nofun, nofun⟩
      obtain h | h | ⟨_, h⟩ := hr <;> cases h
      rfl
    · refine ⟨fun _ => rfl, fun r hr => ?_, nofun, nofun⟩
      obtain h | h | ⟨_, h⟩ := hr <;> cases h
      rfl
  | setStop hd =>
    refine ⟨fun _ => hw.stopping (by rw [hd]; nofun), fun r hr => ?_, nofun, nofun⟩
    obtain h | h | ⟨_, h⟩ := hr <;> cases h
    exact hw.snap _ (Or.inl hd)
  | joined hd hp =>
    refine ⟨fun _ => hw.stopping (by rw [hd]; nofun), fun r hr => ?_, fun _ => hp, nofun⟩
    obtain h | h | ⟨_, h⟩ := hr <;> cases h
    exact hw.snap _ (Or.inr (Or.inl hd))
  | joinTimeout hd =>
    refine ⟨fun _ => hw.stopping (by rw [hd]; nofun), fun r hr => ?_, nofun, nofun⟩
    obtain h | h | ⟨_, h⟩ := hr <;> cases h
    exact hw.snap _ (Or.inr (Or.inl hd))
  | @offline j b _ hd =>
    have hb : some b = B v.value true := hw.snap _ (Or.inr (Or.inr ⟨j, hd⟩))
    refine ⟨fun _ => hw.stopping (by rw [hd]; nofun), nofun, fun hj => ?_, fun _ b' hb' => ?_⟩
    · obtain ⟨_, h⟩ | h := hj <;> cases h
      exact hw.gone (Or.inl ⟨_, hd⟩)
    · cases hb.trans hb'
      rw [lastAttempt_snoc]
      rfl
  | @silent j _ hd =>
    have hb : none = B v.value true := hw.snap _ (Or.inr (Or.inr ⟨j, hd⟩))
    refine ⟨fun _ => hw.stopping (by rw [hd]; nofun), nofun, fun hj => ?_, fun _ b' hb' => ?_⟩
    · obtain ⟨_, h⟩ | h := hj <;> cases h
      exact hw.gone (Or.inl ⟨_, hd⟩)
    · cases hb.trans hb'

/-- A snapshot is of the count at hand. -/
theorem Next.took {v v' : View γ} {a : Act} (h : Next B shared v a v') {r : Option γ}
    (hr : v'.hist = v.hist ++ [.took r]) : v.stopping = false ∧ r = B v.value false := by
  have hlast : ∀ {e : Event γ}, v.hist ++ [e] = v.hist ++ [.took r] → e = .took r := by
    intro e he
    exact (List.cons.inj (List.append_cancel_left he)).1
  have hnil : ¬v.hist = v.hist ++ [.took r] := by
    intro he
    exact absurd (congrArg List.length he) (by simp)
  have hends : ∀ p : Spot γ, ¬v.hist ++ p.endsBy = v.hist ++ [.took r] := by
    intro p he
    have he := List.append_cancel_left he
    unfold Spot.endsBy at he
    split at he <;> cases he
  cases h with
  | take _ hs =>
    cases hlast hr
    exact ⟨hs, rfl⟩
  | publish _ => cases hlast hr
  | hurry _ => cases hlast hr
  | elapse _ => cases hlast hr
  | offline _ => cases hlast hr
  | setStop _ => exact absurd hr (hends _)
  | shutdown _ _ hp =>
    obtain ⟨-, rfl⟩ | ⟨-, rfl⟩ := hp
    · exact absurd hr hnil
    · exact absurd hr (hends _)
  | _ => exact absurd hr hnil

theorem Next.stopping {v v' : View γ} {a : Act} (h : Next B shared v a v')
    (hs : v.stopping = true) : v'.stopping = true := by
  cases h with
  | shutdown _ _ _ => rfl
  | _ => exact hs

theorem Next.shut {v v' : View γ} (h : Next B shared v .shutdown v') : v'.stopping = true := by
  cases h with
  | answered ha _ _ => obtain h | ⟨_, h⟩ := ha <;> cases h
  | shutdown _ _ _ => rfl

/-! ## Runs -/

/-- A publisher whose steps are those of `Next`, and whose updates do nothing once the flag
    is set, keeps to all of it. -/
theorem keepsTold {σ : Type} {step : σ → Act → Option σ} {view : σ → View γ} {start : σ}
    (Fits : σ → Prop) (h0 : Fits start) (hstart : view start = ⟨0, false, false, .top, .up, []⟩)
    (hnext : ∀ {s s' a}, Fits s → step s a = some s' →
      Next B shared (view s) a (view s') ∧ Fits s')
    (hign : ∀ {s s' n}, (view s).stopping = true → step s (.update n) = some s' → s' = s) :
    KeepsTold step view start B := by
  have hinv : ∀ {as s}, runs step as start = some s →
      Fits s ∧ Told B as (view s) ∧ Parting B (view s) := by
    intro as s hrun
    refine runs_rule (P := fun as s => Fits s ∧ Told B as (view s) ∧ Parting B (view s)) ?_ ?_ hrun
    · rw [hstart]
      refine ⟨h0, ⟨fun _ => rfl, nofun, nofun, nofun⟩, ⟨fun h => absurd rfl h, ?_, ?_, nofun⟩⟩
      · intro r h
        obtain h | h | ⟨_, h⟩ := h <;> cases h
      · intro h
        obtain ⟨_, h⟩ | h := h <;> cases h
    · intro as s a s' hi hs
      obtain ⟨hn, hf⟩ := hnext hi.1 hs
      exact ⟨hf, hn.told hi.2.1, hn.parting hi.2.2⟩
  -- once the flag is set the updates of a run may be left out
  have herase : ∀ {suf s s'}, Fits s → (view s).stopping = true → runs step suf s = some s' →
      runs step (suf.filter (fun a => a.count.isNone)) s = some s' := by
    intro suf
    induction suf with
    | nil => exact fun _ _ h => h
    | cons a suf ih =>
      intro s s' hf hs hrun
      obtain ⟨t, ht, hrun⟩ := Option.bind_eq_some_iff.mp hrun
      obtain ⟨hn, hft⟩ := hnext hf ht
      have hrest := ih hft (hn.stopping hs) hrun
      cases a with
      | update n =>
        rw [hign hs ht] at hrest
        exact hrest
      | _ => exact Option.bind_eq_some_iff.mpr ⟨t, ht, hrest⟩
  refine ⟨?_, ?_, ?_, ?_⟩
  · intro as s n hrun hp hd hs hn
    obtain ⟨-, ht, -⟩ := hinv hrun
    have hlast := ht.fresh hs hd n hn
    refine ⟨hlast, fun b hb => ht.tried (fun r hr => ?_) b (by rw [hlast, hb])⟩
    rw [hr] at hp
    exact hp
  · intro as s a s' r hrun hs hr
    obtain ⟨hf, ht, -⟩ := hinv hrun
    obtain ⟨hstop, hsnap⟩ := (hnext hf hs).1.took hr
    rw [hsnap, ht.value hstop]
  · intro pre suf s hrun
    rw [runs_append, Option.bind_eq_some_iff] at hrun
    obtain ⟨t, hpre, hrun⟩ := hrun
    obtain ⟨u, hu, hsuf⟩ := Option.bind_eq_some_iff.mp hrun
    obtain ⟨hn, hfu⟩ := hnext (hinv hpre).1 hu
    rw [runs_append, hpre, Option.bind_some]
    exact Option.bind_eq_some_iff.mpr ⟨u, hu, herase hfu hn.shut hsuf⟩
  · intro as s hrun hd b hb
    exact (hinv hrun).2.2.last hd b hb

/-- LobbyPublisher and lobby.c keep to it. lobby.c POSTs a body only if it fits its buffer. -/
theorem updates_kept {up : Bool} {a : LobbyArgs} {l : Lobby} (h : lobbyStart up a = some l) :
    KeepsTold PyPub.step PyPub.view (.start a) (PyPub.dumped a) ∧
      KeepsTold CPub.step CPub.view (.start l) (CPub.rendered l) := by
  constructor
  · refine keepsTold (fun s => s.Fits a) ⟨rfl, rfl⟩ rfl (fun hf hs => PyPub.next hf hs) ?_
    intro s s' n hs hstep
    cases hstep
    exact if_pos hs
  · refine keepsTold (fun s => s.Fits l) (CPub.start_fits h) ?_
      (fun hf hs => CPub.next hf hs) ?_
    · rw [CPub.view, CPub.start, (lobbyStart_fresh h).1]
    · intro s s' n hs hstep
      simp only [CPub.step] at hstep
      split at hstep
      · cases hstep
      · cases hstep
        exact if_pos hs

/-- What lobby.c renders for an online count. -/
theorem CPub.rendered_online {up : Bool} {a : LobbyArgs} {l : Lobby}
    (h : lobbyStart up a = some l) (n : Int) :
    CPub.rendered l n false = renderJson { l with curplayers := n } jsonMax := by
  have hup : { l with curplayers := n } = l.update n false := by
    change { l with curplayers := n } = { l with curplayers := n, offline := false }
    rw [← (lobbyStart_fresh h).2]
  rw [hup, CPub.rendered]

/-- An update, its POST, and the debounce: both publishers have tried to POST that count. -/
theorem updates_kept_nba : ∃ l b s t, lobbyStart true nbaArgs = some l ∧
    KeepsTold PyPub.step PyPub.view (.start nbaArgs) (PyPub.dumped nbaArgs) ∧
    KeepsTold CPub.step CPub.view (.start l) (CPub.rendered l) ∧
    runs CPub.step [.update 1, .work, .work, .answer .ok, .work] (.start l) = some s ∧
    renderJson { l with curplayers := 1 } jsonMax = some b ∧ lastPost s.hist = some b ∧
    runs PyPub.step [.update 1, .work, .work, .answer .ok, .work] (.start nbaArgs) = some t ∧
    lastPost t.hist = some (payload nbaArgs 1 false) := by
  obtain ⟨l, hl⟩ := nba_starts
  obtain ⟨b, hb⟩ := renders (n := 1) hl (by decide +kernel)
  obtain ⟨hpy, hc⟩ := updates_kept hl
  have hrun := CPub.reach_debounce hb
  obtain ⟨t, ht, hwait, hclean, hon⟩ : ∃ t, runs PyPub.step
      [.update 1, .work, .work, .answer .ok, .work] (.start nbaArgs) = some t ∧
      t.view.spot.waits ∧ t.view.dirty = false ∧ t.view.stopping = false :=
    ⟨_, rfl, trivial, rfl, rfl⟩
  refine ⟨l, b, _, t, hl, hpy, hc, hrun, hb, ?_, ht, ?_⟩
  · exact (hc.told _ _ 1 hrun trivial rfl rfl rfl).2 b ((CPub.rendered_online hl 1).trans hb)
  · exact (hpy.told _ t 1 ht hwait hclean hon rfl).2 _ rfl

/-- Names lobby_start accepts, whose escapes need 4590 bytes. -/
def bigArgs : LobbyArgs :=
  { nbaArgs with gameName := ⟨List.replicate 255 1, by decide +kernel⟩
                 serverName := ⟨List.replicate 255 1, by decide +kernel⟩
                 clientUrl := ⟨List.replicate 255 1, by decide +kernel⟩ }

/-- The worker waits with both flags clear behind an update, and has POSTed nothing. -/
theorem big_never_posted : ∃ l as s, lobbyStart true bigArgs = some l ∧
    runs CPub.step as (.start l) = some s ∧ s.spot = .idle .waiting ∧ s.dirty = false ∧
    s.stopping = false ∧ newest as = some 1 ∧ lastPost s.hist = none := by
  obtain ⟨l, hl⟩ := lobbyStart_accepts (a := bigArgs)
    (by decide +kernel) (by decide +kernel) (by decide +kernel)
  have hb : renderJson { l with curplayers := 1 } jsonMax = none := by
    rw [← CPub.rendered_online hl, CPub.rendered, renderJson_eq, snprintf, body_length hl,
      if_pos (by decide +kernel)]
  have hrun : ∃ s, runs CPub.step [.update 1, .work, .work, .work, .expire, .work, .work]
      (.start l) = some s ∧ s.spot = .idle .waiting ∧ s.dirty = false ∧ s.stopping = false ∧
      lastPost s.hist = none := by
    simp only [runs, CPub.step, CPub.start, CPub.update, CPub.broadcast, CPub.work, CPub.loop,
      CPub.leave, hb, Option.bind_some, Bool.not_true, Bool.not_false, Bool.and_self,
      Bool.false_and, Bool.false_eq_true, if_false, if_true, List.nil_append]
    exact ⟨_, rfl, rfl, rfl, rfl, rfl⟩
  obtain ⟨s, hs, hspot, hdirty, hstop, hpost⟩ := hrun
  exact ⟨l, _, s, hl, hs, hspot, hdirty, hstop, rfl, hpost⟩

end IntvBasketball.Relay
