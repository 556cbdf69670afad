/-
  The threads of the Lobby publisher: lobby_worker, lobby_update and lobby_shutdown of
  server/c/src/lobby.c, and LobbyPublisher's _run, update and shutdown, as steps under
  their mutex.

  A step of the worker runs from taking the mutex to giving it back, in a wait or an
  unlock; a POST stands between two steps. `hist` is what happened so far, for the
  statements only: no step reads it.

  The worker of lobby.c waits twice on one condition variable. lobby_update broadcasts on
  it to end the wait for work, and ends the debounce with it.
-/
import IntvBasketball.Lib.Monitor
import IntvBasketball.Relay.Lobby

namespace IntvBasketball.Relay

open Lib

/-! ## Steps -/

/-- Where the worker stands; `γ` is a body. -/
inductive Spot (γ : Type) where
  | top
  | idle (w : Wait)
  | ready (snapshot : Option γ)
  | posting
  | failed
  | posted
  | debounce (w : Wait)
  | gone

/-- The worker is in one of its two waits. -/
def Spot.waits {γ : Type} : Spot γ → Prop
  | .idle _ => True
  | .debounce _ => True
  | _ => False

/-- Where shutdown stands, with its snapshot: not called, before `_stop_evt.set()`, in the
    join, behind it (was the worker joined?), done. -/
inductive Down (γ : Type) where
  | up
  | flagged (snapshot : Option γ)
  | joining (snapshot : Option γ)
  | left (joined : Bool) (snapshot : Option γ)
  | over (joined : Bool)

/-- What happened: a snapshot of the worker, a POST of the worker, the end of a debounce by
    its timeout or by shutdown, the POST of shutdown. -/
inductive Event (γ : Type) where
  | took (snapshot : Option γ)
  | post (body : γ)
  | elapsed
  | stopped
  | offline (body : γ)

/-- What a stop signal ends: a debounce that is still waiting. -/
def Spot.endsBy {γ : Type} : Spot γ → List (Event γ)
  | .debounce .waiting => [.stopped]
  | _ => []

/-- How a POST ends. `raised` is an exception _post does not catch. -/
inductive Answer where
  | ok
  | failed
  | raised
deriving DecidableEq, Repr

/-- The steps: the worker's next one, the timer of its wait, the end of its POST, an
    update, and those of shutdown. -/
inductive Act where
  | work
  | expire
  | answer (r : Answer)
  | update (curplayers : Int)
  | shutdown
  | setStop
  | joined
  | joinTimeout
  | offline (r : Answer)
deriving DecidableEq, Repr

/-- The count of an update. -/
def Act.count : Act → Option Int
  | .update n => some n
  | _ => none

/-! ## lobby.c -/

/-- `struct lobby` and the threads. -/
structure CPub where
  l : Lobby
  dirty : Bool
  stopping : Bool
  stopEvt : Bool
  failures : UInt32
  spot : Spot (List Byte)
  down : Down (List Byte)
  hist : List (Event (List Byte))

namespace CPub

/-- lobby_start: the struct is calloc'ed, the worker spawned. -/
def start (l : Lobby) : CPub :=
  { l, dirty := false, stopping := false, stopEvt := false, failures := 0, spot := .top
    down := .up, hist := [] }

/-- pthread_cond_broadcast on `cv`, wherever the worker waits on it. -/
def broadcast (s : CPub) : CPub :=
  match s.spot with
  | .idle w => { s with spot := .idle w.notify }
  | .debounce w => { s with spot := .debounce w.notify }
  | _ => s

/-- lobby_worker behind its wait for work. -/
def leave (s : CPub) : CPub :=
  if s.stopping then { s with dirty := false, spot := .gone }
  else
    let rendered := renderJson s.l jsonMax
    { s with dirty := false, spot := .ready rendered, hist := s.hist ++ [.took rendered] }

/-- The test of its wait loop. -/
def loop (s : CPub) : CPub :=
  if !s.dirty && !s.stopping then { s with spot := .idle .waiting } else s.leave

/-- The next step of lobby_worker. -/
def work (s : CPub) : Option CPub :=
  match s.spot with
  | .top => some s.loop
  | .idle .waiting => none
  | .idle .signalled => some s.loop
  | .idle .expired => some { s with dirty := true }.loop
  | .ready (some body) => some { s with spot := .posting, hist := s.hist ++ [.post body] }
  | .ready none => some { s with spot := .posted }
  | .posting => none
  | .failed => some { s with failures := s.failures + 1, spot := .posted }
  | .posted =>
    if s.stopEvt then some { s with spot := .top, hist := s.hist ++ [.stopped] }
    else some { s with spot := .debounce .waiting }
  | .debounce .waiting => none
  | .debounce _ => some { s with spot := .top }
  | .gone => none

/-- lobby_update's critical section. -/
def update (s : CPub) (curplayers : Int) : CPub :=
  if s.stopping then s
  else { s with l := { s.l with curplayers }, dirty := true }.broadcast

/-- lobby_shutdown's critical section. -/
def shutdown (s : CPub) : CPub :=
  let l := { s.l with offline := true }
  { s with l, stopping := true, stopEvt := true, down := .joining (renderJson l jsonMax)
           hist := s.hist ++ s.spot.endsBy }.broadcast

/-- One step. After a successful join the handle is freed, and no update may follow. -/
def step (s : CPub) : Act → Option CPub
  | .work => s.work
  | .expire =>
    match s.spot with
    | .idle .waiting => some { s with spot := .idle .expired }
    | .debounce .waiting =>
      some { s with spot := .debounce .expired, hist := s.hist ++ [.elapsed] }
    | _ => none
  | .answer r =>
    match s.spot, r with
    | .posting, .ok => some { s with spot := .posted }
    | .posting, .failed => some { s with spot := .failed }
    | _, _ => none
  | .update n =>
    match s.down with
    | .over true => none
    | _ => some (s.update n)
  | .shutdown =>
    match s.down with
    | .up => some s.shutdown
    | _ => none
  | .setStop => none
  | .joined =>
    match s.down, s.spot with
    | .joining snapshot, .gone => some { s with down := .left true snapshot }
    | _, _ => none
  | .joinTimeout =>
    match s.down with
    | .joining snapshot => some { s with down := .left false snapshot }
    | _ => none
  | .offline r =>
    match s.down, r with
    | .left _ _, .raised => none
    | .left joined (some body), r =>
      some { s with down := .over joined, hist := s.hist ++ [.offline body]
                    failures := if joined ∧ r = .failed then s.failures + 1 else s.failures }
    | .left joined none, _ => some { s with down := .over joined }
    | _, _ => none

end CPub

/-! ## LobbyPublisher -/

/-- A LobbyPublisher and its threads; of the payload, the two values that change. -/
structure PyPub where
  args : LobbyArgs
  curplayers : Int
  isOffline : Bool
  dirty : Bool
  stopping : Bool
  stopEvt : Bool
  failures : Nat
  spot : Spot Json
  down : Down Json
  hist : List (Event Json)

namespace PyPub

/-- LobbyPublisher.__init__. -/
def start (args : LobbyArgs) : PyPub :=
  { args, curplayers := 0, isOffline := false, dirty := false, stopping := false
    stopEvt := false, failures := 0, spot := .top, down := .up, hist := [] }

/-- `dict(self.payload)`. -/
def snapshot (s : PyPub) : Json := payload s.args s.curplayers s.isOffline

/-- `self._cond.notify()`: only the wait for work is on `_cond`. -/
def notify (s : PyPub) : PyPub :=
  match s.spot with
  | .idle w => { s with spot := .idle w.notify }
  | _ => s

/-- _run behind its wait for work. -/
def leave (s : PyPub) : PyPub :=
  if s.stopping then { s with dirty := false, spot := .gone }
  else
    { s with dirty := false, spot := .ready (some s.snapshot)
             hist := s.hist ++ [.took (some s.snapshot)] }

/-- The test of its wait loop. -/
def loop (s : PyPub) : PyPub :=
  if !s.dirty && !s.stopping then { s with spot := .idle .waiting } else s.leave

/-- The next step of _run; `_stop_evt.wait` takes the mutex of the event. -/
def work (s : PyPub) : Option PyPub :=
  match s.spot with
  | .top => some s.loop
  | .idle .waiting => none
  | .idle .signalled => some s.loop
  | .idle .expired => some { s with dirty := true }.loop
  | .ready (some body) => some { s with spot := .posting, hist := s.hist ++ [.post body] }
  | .ready none => none
  | .posting => none
  | .failed => some { s with failures := s.failures + 1, spot := .posted }
  | .posted =>
    if s.stopEvt then some { s with spot := .top, hist := s.hist ++ [.stopped] }
    else some { s with spot := .debounce .waiting }
  | .debounce .waiting => none
  | .debounce _ => some { s with spot := .top }
  | .gone => none

/-- update's critical section. -/
def update (s : PyPub) (curplayers : Int) : PyPub :=
  if s.stopping then s else { s with curplayers, dirty := true }.notify

/-- shutdown's critical section. -/
def shutdown (s : PyPub) : PyPub :=
  { s with stopping := true, isOffline := true
           down := .flagged (some { s with isOffline := true }.snapshot) }.notify

/-- `self._stop_evt.set()`: it ends the debounce. -/
def setStop (s : PyPub) (snapshot : Option Json) : PyPub :=
  let s := { s with stopEvt := true, down := .joining snapshot, hist := s.hist ++ s.spot.endsBy }
  match s.spot with
  | .debounce w => { s with spot := .debounce w.notify }
  | _ => s

/-- One step. -/
def step (s : PyPub) : Act → Option PyPub
  | .work => s.work
  | .expire =>
    match s.spot with
    | .idle .waiting => some { s with spot := .idle .expired }
    | .debounce .waiting =>
      some { s with spot := .debounce .expired, hist := s.hist ++ [.elapsed] }
    | _ => none
  | .answer r =>
    match s.spot, r with
    | .posting, .ok => some { s with spot := .posted }
    | .posting, .failed => some { s with spot := .failed }
    | .posting, .raised => some { s with spot := .gone }
    | _, _ => none
  | .update n => some (s.update n)
  | .shutdown =>
    match s.down with
    | .up => some s.shutdown
    | _ => none
  | .setStop =>
    match s.down with
    | .flagged snapshot => some (s.setStop snapshot)
    | _ => none
  | .joined =>
    match s.down, s.spot with
    | .joining snapshot, .gone => some { s with down := .left true snapshot }
    | _, _ => none
  | .joinTimeout =>
    match s.down with
    | .joining snapshot => some { s with down := .left false snapshot }
    | _ => none
  | .offline r =>
    match s.down with
    | .left joined (some body) =>
      some { s with down := .over joined, hist := s.hist ++ [.offline body]
                    failures := if r = .failed then s.failures + 1 else s.failures }
    | _ => none

end PyPub

/-! ## What both have in common -/

/-- The count, the two flags, the threads and the history of either publisher. -/
structure View (γ : Type) where
  value : Int
  dirty : Bool
  stopping : Bool
  spot : Spot γ
  down : Down γ
  hist : List (Event γ)

def CPub.view (s : CPub) : View (List Byte) :=
  ⟨s.l.curplayers, s.dirty, s.stopping, s.spot, s.down, s.hist⟩

def PyPub.view (s : PyPub) : View Json :=
  ⟨s.curplayers, s.dirty, s.stopping, s.spot, s.down, s.hist⟩

variable {γ : Type} {B : Int → Bool → Option γ} {shared : Bool}

/-- The worker holds the mutex and looks at the flags. -/
def Spot.atHead : Spot γ → Prop
  | .top => True
  | .idle w => w ≠ .waiting
  | _ => False

/-- The wait for work hears a notification. -/
def Spot.notified : Spot γ → Spot γ
  | .idle w => .idle w.notify
  | p => p

/-- The debounce hears one. -/
def Spot.cut : Spot γ → Spot γ
  | .debounce w => .debounce w.notify
  | p => p

/-- What one step may do. `B` renders a count and the offline flag; `shared` says that
    the debounce waits on the variable an update notifies. -/
inductive Next (B : Int → Bool → Option γ) (shared : Bool) : View γ → Act → View γ → Prop
  | sleep {v} : v.spot.atHead → v.dirty = false → v.stopping = false →
      Next B shared v .work { v with spot := .idle .waiting }
  | quit {v} : v.spot.atHead → v.stopping = true →
      Next B shared v .work { v with dirty := false, spot := .gone }
  | take {v} : v.spot.atHead → v.stopping = false →
      Next B shared v .work
        { v with dirty := false, spot := .ready (B v.value false)
                 hist := v.hist ++ [.took (B v.value false)] }
  | publish {v b} : v.spot = .ready (some b) →
      Next B shared v .work { v with spot := .posting, hist := v.hist ++ [.post b] }
  | skip {v} : v.spot = .ready none → Next B shared v .work { v with spot := .posted }
  | answered {v a p} : a = .work ∨ (∃ r, a = .answer r) → v.spot = .posting ∨ v.spot = .failed →
      p = .posted ∨ p = .failed ∨ p = .gone → Next B shared v a { v with spot := p }
  | doze {v} : v.spot = .posted → Next B shared v .work { v with spot := .debounce .waiting }
  | hurry {v} : v.spot = .posted →
      Next B shared v .work { v with spot := .top, hist := v.hist ++ [.stopped] }
  | rise {v w} : v.spot = .debounce w → w ≠ .waiting →
      Next B shared v .work { v with spot := .top }
  | tire {v} : v.spot = .idle .waiting →
      Next B shared v .expire { v with spot := .idle .expired }
  | elapse {v} : v.spot = .debounce .waiting →
      Next B shared v .expire
        { v with spot := .debounce .expired, hist := v.hist ++ [.elapsed] }
  | ignore {v n} : v.stopping = true → Next B shared v (.update n) v
  | update {v n} : v.stopping = false →
      Next B shared v (.update n)
        { v with value := n, dirty := true
                 spot := if shared then v.spot.notified.cut else v.spot.notified }
  | shutdown {v d p h} : v.down = .up → d = .flagged (B v.value true) ∨
      d = .joining (B v.value true) →
      p = v.spot.notified ∧ h = v.hist ∨
        p = v.spot.notified.cut ∧ h = v.hist ++ v.spot.endsBy →
      Next B shared v .shutdown { v with stopping := true, down := d, spot := p, hist := h }
  | setStop {v r} : v.down = .flagged r →
      Next B shared v .setStop
        { v with down := .joining r, spot := v.spot.cut, hist := v.hist ++ v.spot.endsBy }
  | joined {v r} : v.down = .joining r → v.spot = .gone →
      Next B shared v .joined { v with down := .left true r }
  | joinTimeout {v r} : v.down = .joining r →
      Next B shared v .joinTimeout { v with down := .left false r }
  | offline {v j b a} : v.down = .left j (some b) →
      Next B shared v (.offline a) { v with down := .over j, hist := v.hist ++ [.offline b] }
  | silent {v j a} : v.down = .left j none →
      Next B shared v (.offline a) { v with down := .over j }

/-- The bodies lobby.c renders for the struct lobby_start made. -/
def CPub.rendered (l₀ : Lobby) (curplayers : Int) (isOffline : Bool) : Option (List Byte) :=
  renderJson (l₀.update curplayers isOffline) jsonMax

/-- Of the struct, only the count and the offline flag change, the flag with `stopping`. -/
def CPub.Fits (l₀ : Lobby) (s : CPub) : Prop := s.l = l₀.update s.l.curplayers s.stopping

theorem CPub.Fits.rendered {l₀ : Lobby} {s : CPub} (h : s.Fits l₀) (hs : s.stopping = false) :
    renderJson s.l jsonMax = CPub.rendered l₀ s.l.curplayers false := by
  rw [h, hs]
  rfl

theorem CPub.next_leave {l₀ : Lobby} {s : CPub} (hf : s.Fits l₀) (hp : s.spot.atHead) :
    Next (CPub.rendered l₀) true s.view .work s.leave.view ∧ s.leave.Fits l₀ := by
  unfold CPub.leave
  split
  · next h => exact ⟨.quit hp h, hf⟩
  · next h =>
    have hs : s.stopping = false := Bool.eq_false_iff.mpr h
    have ht : Next (CPub.rendered l₀) true s.view .work _ := .take hp hs
    rw [show CPub.rendered l₀ s.view.value false = renderJson s.l jsonMax from
      (hf.rendered hs).symm] at ht
    exact ⟨ht, hf⟩

theorem CPub.next_loop {l₀ : Lobby} {s : CPub} (hf : s.Fits l₀) (hp : s.spot.atHead) :
    Next (CPub.rendered l₀) true s.view .work s.loop.view ∧ s.loop.Fits l₀ := by
  unfold CPub.loop
  split
  · next h =>
    simp only [Bool.and_eq_true, Bool.not_eq_true'] at h
    exact ⟨.sleep hp h.1 h.2, hf⟩
  · exact CPub.next_leave hf hp

/-- A broadcast reaches both waits. -/
theorem CPub.broadcast_eq (s : CPub) : s.broadcast = { s with spot := s.spot.notified.cut } := by
  unfold CPub.broadcast
  cases h : s.spot <;> simp only [Spot.notified, Spot.cut] <;> rw [← h]

/-- Every step of lobby.c is one of them. -/
theorem CPub.next {l₀ : Lobby} {s s' : CPub} {a : Act} (hf : s.Fits l₀)
    (h : s.step a = some s') : Next (CPub.rendered l₀) true s.view a s'.view ∧ s'.Fits l₀ := by
  cases a with
  | work =>
    simp only [CPub.step, CPub.work] at h
    split at h
    · next hp =>
      cases h
      exact CPub.next_loop hf (by rw [hp]; trivial)
    · cases h
    · next hp =>
      cases h
      exact CPub.next_loop hf (by rw [hp]; nofun)
    · next hp =>
      cases h
      -- the timeout sets `dirty`, so the worker leaves the loop
      exact CPub.next_leave hf (by rw [hp]; nofun)
    · next b hp =>
      cases h
      exact ⟨.publish hp, hf⟩
    · next hp =>
      cases h
      exact ⟨.skip hp, hf⟩
    · cases h
    · next hp =>
      cases h
      exact ⟨.answered (Or.inl rfl) (Or.inr hp) (Or.inl rfl), hf⟩
    · next hp =>
      split at h
      · cases h
        exact ⟨.hurry hp, hf⟩
      · cases h
        exact ⟨.doze hp, hf⟩
    · cases h
    · next w hw hp =>
      cases h
      exact ⟨.rise hp (fun hw' => hw (hw' ▸ rfl)), hf⟩
    · cases h
  | expire =>
    simp only [CPub.step] at h
    split at h
    · next hp =>
      cases h
      exact ⟨.tire hp, hf⟩
    · next hp =>
      cases h
      exact ⟨.elapse hp, hf⟩
    · cases h
  | answer r =>
    simp only [CPub.step] at h
    split at h
    · next hp =>
      cases h
      exact ⟨.answered (Or.inr ⟨_, rfl⟩) (Or.inl hp) (Or.inl rfl), hf⟩
    · next hp =>
      cases h
      exact ⟨.answered (Or.inr ⟨_, rfl⟩) (Or.inl hp) (Or.inr (Or.inl rfl)), hf⟩
    · cases h
  | update n =>
    simp only [CPub.step] at h
    split at h
    · cases h
    · cases h
      unfold CPub.update
      split
      · next hs => exact ⟨.ignore hs, hf⟩
      · next hs =>
        rw [CPub.broadcast_eq]
        refine ⟨.update (Bool.eq_false_iff.mpr hs), ?_⟩
        change { s.l with curplayers := n } = l₀.update n s.stopping
        rw [hf]
        rfl
  | shutdown =>
    simp only [CPub.step] at h
    split at h
    · next hd =>
      cases h
      rw [CPub.shutdown, CPub.broadcast_eq]
      have hl : { s.l with offline := true } = l₀.update s.l.curplayers true := by
        rw [hf]
        rfl
      rw [hl]
      exact ⟨.shutdown hd (Or.inr rfl) (Or.inr ⟨rfl, rfl⟩), rfl⟩
    · cases h
  | setStop => cases h
  | joined =>
    simp only [CPub.step] at h
    split at h
    · next hd hp =>
      cases h
      exact ⟨.joined hd hp, hf⟩
    · cases h
  | joinTimeout =>
    simp only [CPub.step] at h
    split at h
    · next hd =>
      cases h
      exact ⟨.joinTimeout hd, hf⟩
    · cases h
  | offline r =>
    simp only [CPub.step] at h
    split at h
    · cases h
    · next hd _ =>
      cases h
      exact ⟨.offline hd, hf⟩
    · next hd _ =>
      cases h
      exact ⟨.silent hd, hf⟩
    · cases h

/-- The bodies of a LobbyPublisher; there always is one. -/
def PyPub.dumped (args : LobbyArgs) (curplayers : Int) (isOffline : Bool) : Option Json :=
  some (payload args curplayers isOffline)

/-- Of the payload, only the two values change. -/
def PyPub.Fits (args : LobbyArgs) (s : PyPub) : Prop :=
  s.args = args ∧ s.isOffline = s.stopping

theorem PyPub.notify_eq (s : PyPub) : s.notify = { s with spot := s.spot.notified } := by
  unfold PyPub.notify
  cases h : s.spot <;> simp only [Spot.notified] <;> rw [← h]

theorem PyPub.setStop_eq (s : PyPub) (r : Option Json) : s.setStop r =
    { s with stopEvt := true, down := .joining r, spot := s.spot.cut
             hist := s.hist ++ s.spot.endsBy } := by
  unfold PyPub.setStop
  cases s.spot <;> simp only [Spot.cut]

theorem PyPub.next_leave {args : LobbyArgs} {s : PyPub} (hf : s.Fits args) (hp : s.spot.atHead) :
    Next (PyPub.dumped args) false s.view .work s.leave.view ∧ s.leave.Fits args := by
  obtain ⟨ha, ho⟩ := hf
  unfold PyPub.leave
  split
  · next h => exact ⟨.quit hp h, ha, ho⟩
  · next h =>
    have hs : s.stopping = false := Bool.eq_false_iff.mpr h
    have ht : Next (PyPub.dumped args) false s.view .work _ := .take hp hs
    have hsnap : PyPub.dumped args s.view.value false = some s.snapshot := by
      rw [PyPub.dumped, PyPub.snapshot, ha, ho, hs]
      rfl
    rw [hsnap] at ht
    exact ⟨ht, ha, ho⟩

theorem PyPub.next_loop {args : LobbyArgs} {s : PyPub} (hf : s.Fits args) (hp : s.spot.atHead) :
    Next (PyPub.dumped args) false s.view .work s.loop.view ∧ s.loop.Fits args := by
  unfold PyPub.loop
  split
  · next h =>
    simp only [Bool.and_eq_true, Bool.not_eq_true'] at h
    exact ⟨.sleep hp h.1 h.2, hf⟩
  · exact PyPub.next_leave hf hp

/-- Every step of LobbyPublisher is one of them. -/
theorem PyPub.next {args : LobbyArgs} {s s' : PyPub} {a : Act} (hf : s.Fits args)
    (h : s.step a = some s') : Next (PyPub.dumped args) false s.view a s'.view ∧ s'.Fits args := by
  cases a with
  | work =>
    simp only [PyPub.step, PyPub.work] at h
    split at h
    · next hp =>
      cases h
      exact PyPub.next_loop hf (by rw [hp]; trivial)
    · cases h
    · next hp =>
      cases h
      exact PyPub.next_loop hf (by rw [hp]; nofun)
    · next hp =>
      cases h
      exact PyPub.next_leave hf (by rw [hp]; nofun)
    · next b hp =>
      cases h
      exact ⟨.publish hp, hf⟩
    · cases h
    · cases h
    · next hp =>
      cases h
      exact ⟨.answered (Or.inl rfl) (Or.inr hp) (Or.inl rfl), hf⟩
    · next hp =>
      split at h
      · cases h
        exact ⟨.hurry hp, hf⟩
      · cases h
        exact ⟨.doze hp, hf⟩
    · cases h
    · next w hw hp =>
      cases h
      exact ⟨.rise hp (fun hw' => hw (hw' ▸ rfl)), hf⟩
    · cases h
  | expire =>
    simp only [PyPub.step] at h
    split at h
    · next hp =>
      cases h
      exact ⟨.tire hp, hf⟩
    · next hp =>
      cases h
      exact ⟨.elapse hp, hf⟩
    · cases h
  | answer r =>
    simp only [PyPub.step] at h
    split at h
    · next hp =>
      cases h
      exact ⟨.answered (Or.inr ⟨_, rfl⟩) (Or.inl hp) (Or.inl rfl), hf⟩
    · next hp =>
      cases h
      exact ⟨.answered (Or.inr ⟨_, rfl⟩) (Or.inl hp) (Or.inr (Or.inl rfl)), hf⟩
    · next hp =>
      cases h
      exact ⟨.answered (Or.inr ⟨_, rfl⟩) (Or.inl hp) (Or.inr (Or.inr rfl)), hf⟩
    · cases h
  | update n =>
    cases h
    unfold PyPub.update
    split
    · next hs => exact ⟨.ignore hs, hf⟩
    · next hs =>
      rw [PyPub.notify_eq]
      exact ⟨.update (Bool.eq_false_iff.mpr hs), hf⟩
  | shutdown =>
    simp only [PyPub.step] at h
    split at h
    · next hd =>
      cases h
      have hsnap : some { s with isOffline := true }.snapshot =
          PyPub.dumped args s.view.value true := by
        rw [PyPub.dumped, PyPub.snapshot, hf.1]
        rfl
      rw [PyPub.shutdown, PyPub.notify_eq, hsnap]
      exact ⟨.shutdown hd (Or.inl rfl) (Or.inl ⟨rfl, rfl⟩), hf.1, rfl⟩
    · cases h
  | setStop =>
    simp only [PyPub.step] at h
    split at h
    · next hd =>
      cases h
      rw [PyPub.setStop_eq]
      exact ⟨.setStop hd, hf⟩
    · cases h
  | joined =>
    simp only [PyPub.step] at h
    split at h
    · next hd hp =>
      cases h
      exact ⟨.joined hd hp, hf⟩
    · cases h
  | joinTimeout =>
    simp only [PyPub.step] at h
    split at h
    · next hd =>
      cases h
      exact ⟨.joinTimeout hd, hf⟩
    · cases h
  | offline r =>
    simp only [PyPub.step] at h
    split at h
    · next hd =>
      cases h
      exact ⟨.offline hd, hf⟩
    · cases h

theorem lobbyStart_fresh {up : Bool} {a : LobbyArgs} {l : Lobby} (h : lobbyStart up a = some l) :
    l.curplayers = 0 ∧ l.offline = false := by
  cases up with
  | false => cases h
  | true =>
    obtain ⟨_, -, h⟩ := Option.bind_eq_some_iff.mp h
    obtain ⟨_, -, h⟩ := Option.bind_eq_some_iff.mp h
    obtain ⟨_, -, h⟩ := Option.bind_eq_some_iff.mp h
    obtain ⟨_, -, h⟩ := Option.bind_eq_some_iff.mp h
    obtain ⟨_, -, h⟩ := Option.bind_eq_some_iff.mp h
    cases h
    exact ⟨rfl, rfl⟩

theorem CPub.start_fits {up : Bool} {a : LobbyArgs} {l : Lobby} (h : lobbyStart up a = some l) :
    (CPub.start l).Fits l := by
  change l = { l with offline := false }
  rw [← (lobbyStart_fresh h).2]

end IntvBasketball.Relay
