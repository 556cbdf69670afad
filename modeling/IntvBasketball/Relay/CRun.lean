/-
  Runs of the C relay.

  An event is a list of jobs for one client: handle() calls, drop() and flush(). feed()
  fills a buffer of RX_CAP bytes again and again, but what it hands to handle() are the
  frames of the bytes received and not yet handled (`service_data`). An invariant that
  every job keeps (`CKeeping`) holds after every event.
-/
import IntvBasketball.Relay.CTables

namespace IntvBasketball.Relay

/-- One thing the event loop does for a client. -/
inductive Job where
  | handle (ftype : Byte) (payload : List Byte)
  | drop
  | flush
deriving DecidableEq, Repr

/-- A job, and the server it finds. -/
structure CCall (σ : Type) where
  srv : CServer σ
  slot : Nat
  job : Job

namespace CServer
variable {σ : Type}

/-- Less than a frame waits in the buffer of every client. -/
def Buffered (t : CServer σ) : Prop := ∀ i, t.Up i → rxPeek (t.rx i) = .more

/-- The tables between two events. -/
structure Ready (t : CServer σ) : Prop where
  sound : Sound [] [] t
  buffered : t.Buffered

variable [Transport σ]

def does (t : CServer σ) (ci : Nat) : Job → CServer σ
  | .handle ftype payload => t.handle ci ftype payload
  | .drop => t.drop ci
  | .flush => t.flush ci

/-- What feed() does with a verdict on its buffer. -/
def jobOf : RxEvent → Job
  | .handle ftype payload => .handle ftype payload
  | _ => .drop

/-- The jobs of these verdicts, until the client is dead. -/
def itemCalls (ci : Nat) : CServer σ → List RxEvent → List (CCall σ)
  | _, [] => []
  | t, e :: es => ⟨t, ci, jobOf e⟩ ::
    if ((t.does ci (jobOf e)).client ci).dead then [] else itemCalls ci (t.does ci (jobOf e)) es

def recvCalls (t : CServer σ) (ci : Nat) : Recv → List (CCall σ)
  | .wouldBlock => []
  | .error => [⟨t, ci, .drop⟩]
  | .data [] => [⟨t, ci, .drop⟩]
  | .data (b :: bs) => itemCalls ci t (rxReference (t.rx ci ++ b :: bs)).out

def stepCalls (t : CServer σ) : Server.Event → List (CCall σ)
  | .connect _ => []
  | .recv c r => ((t.slotOf c).map (fun ci => t.recvCalls ci r)).getD []
  | .writable c => ((t.slotOf c).map (fun ci => [⟨t, ci, .flush⟩])).getD []
  | .timeout c =>
    ((t.slotOf c).map (fun ci => if (t.client ci).name = [] then [⟨t, ci, .drop⟩] else [])).getD []

def runCalls (t : CServer σ) : List Server.Event → List (CCall σ)
  | [] => []
  | e :: es => t.stepCalls e ++ (t.step e).runCalls es

theorem host_act (ci : Nat) (t : CServer σ) (e : RxEvent) :
    (host ci).act t e = t.does ci (jobOf e) := by
  cases e <;> rfl

/-- One recv(): the jobs are those of the frames not yet handled. -/
theorem service_data {t : CServer σ} {ci : Nat} (hd : (t.client ci).dead = false)
    (hrx : rxPeek (t.rx ci) = .more) (b : Byte) (bs : List Byte) :
    ∃ rx, (t.service ci (.data (b :: bs)) =
        { (runItems (host ci).act (host ci).dead t (rxReference (t.rx ci ++ b :: bs)).out).1 with
          rx := fun k => if k = ci then rx else
            (runItems (host ci).act (host ci).dead t (rxReference (t.rx ci ++ b :: bs)).out).1.rx k }) ∧
      (((runItems (host ci).act (host ci).dead t
        (rxReference (t.rx ci ++ b :: bs)).out).1.client ci).dead = false → rxPeek rx = .more) := by
  have hstart : Ran (host ci).act (host ci).dead t (t.rx ci) (⟨⟨t, t.rx ci, []⟩, 0⟩ : CConn _).toConn := by
    have hdrain : rxReference (t.rx ci) = ⟨[], t.rx ci, false⟩ := by
      rw [rxReference, rxScanner.drain_of_more hrx]
      rfl
    exact ⟨by rw [hdrain]; rfl, by rw [hdrain]; rfl, fun _ => by rw [hdrain]⟩
  obtain ⟨hran, -⟩ := feed_ran (host ci) hd hstart hd (Nat.zero_le _) (b :: bs)
  have hsrv := hran.srv_eq
  refine ⟨(feed (host ci) ⟨⟨t, t.rx ci, []⟩, 0⟩ (b :: bs)).rx, ?_, fun hlive => ?_⟩
  · rw [← hsrv]
    rfl
  · rw [← hsrv] at hlive
    rw [hran.rx_eq hlive]
    exact rxScanner.peek_drain_rest _ (hran.not_halted (host ci).dead_bad hlive)

/-- What an invariant has to survive. -/
structure CKeeping (I : CServer σ → Prop) (P : CCall σ → Prop) : Prop where
  ready : ∀ t, I t → Ready t
  accept : ∀ t ip, I t → I (t.acceptClient ip)
  rx : ∀ t rx, I t → Buffered { t with rx } → I { t with rx }
  does : ∀ x : CCall σ, I x.srv → x.srv.Up x.slot → P x → I (x.srv.does x.slot x.job)

section Keeping
variable {I : CServer σ → Prop} {P : CCall σ → Prop}

omit [Transport σ] in
theorem Serves.start {t : CServer σ} (h : Sound [] [] t) {ci : Nat} (hci : t.Up ci) :
    Serves ci t t := ⟨h, hci.known, Fixed.refl t, fun _ hi => hi, fun _ => rfl, fun _ => Handed.refl _⟩

theorem Serves.flush {ci : Nat} {t0 t : CServer σ} (h : Serves ci t0 t) :
    Serves ci t0 (t.flush ci) := by
  have hnet : ∀ net, Serves ci t0 { t with net } := fun net =>
    h.alike (alike_net t net) ⟨rfl, rfl, rfl, rfl, rfl, rfl⟩
  rw [CServer.flush]
  split
  · exact hnet _
  · next net _ => exact (hnet net).drop (hnet net).known

theorem Serves.does {ci : Nat} {t0 t : CServer σ} (h : Serves ci t0 t) (hci : t.Up ci) (j : Job) :
    Serves ci t0 (t.does ci j) := by
  cases j with
  | handle ftype payload => exact h.handle hci ftype payload
  | drop => exact h.drop h.known
  | flush => exact h.flush

theorem Ready.does {t : CServer σ} (h : Ready t) {ci : Nat} (hci : t.Up ci) (j : Job) :
    Ready (t.does ci j) := by
  have hs := (Serves.start h.sound hci).does hci j
  refine ⟨hs.sound, fun i hi => ?_⟩
  rw [hs.fixed.rx]
  exact h.buffered i (hs.up i hi)

theorem CKeeping.items (hk : CKeeping I P) {t : CServer σ} (h : I t) {ci : Nat} (hci : t.Up ci)
    (es : List RxEvent) (hP : ∀ x ∈ itemCalls ci t es, P x) :
    I (runItems (host ci).act (host ci).dead t es).1 := by
  induction es generalizing t with
  | nil => exact h
  | cons e es ih =>
    have h1 := hk.does ⟨t, ci, jobOf e⟩ h hci (hP _ List.mem_cons_self)
    have hs := (Serves.start (hk.ready t h).sound hci).does hci (jobOf e)
    rw [runItems, host_act]
    split
    · exact h1
    · next hd =>
      have hlive : ((t.does ci (jobOf e)).client ci).dead = false := Bool.eq_false_iff.mpr hd
      refine ih h1 (hs.known.up hlive) (fun x hx => hP x (List.mem_cons_of_mem _ ?_))
      rw [if_neg (by rw [hlive]; exact Bool.false_ne_true)]
      exact hx

omit [Transport σ] in
theorem slotOf_up {t : CServer σ} (h : Sound [] [] t) {c ci : Nat} (hs : t.slotOf c = some ci) :
    t.Up ci := by
  have hm := List.mem_of_find?_eq_some hs
  rw [slots, List.mem_filter, List.mem_range] at hm
  refine ⟨hm.1, hm.2, ?_⟩
  by_contra hd
  exact absurd (h.dying ci hm.2 (Bool.not_eq_false _ ▸ hd)) List.not_mem_nil

omit [Transport σ] in
/-- A buffer is written back to its slot. -/
theorem Ready.store {t : CServer σ} (h : Ready t) {ci : Nat} {rx : List Byte}
    (hrx : t.Up ci → rxPeek rx = .more) :
    Buffered { t with rx := fun k => if k = ci then rx else t.rx k } := by
  intro i hi
  dsimp only
  split
  · next he => exact hrx (he ▸ hi)
  · exact h.buffered i hi

theorem CKeeping.service (hk : CKeeping I P) {t : CServer σ} (h : I t) {ci : Nat} (hci : t.Up ci)
    (r : Recv) (hP : ∀ x ∈ t.recvCalls ci r, P x) : I (t.service ci r) := by
  have hready := hk.ready t h
  have hdrop : P ⟨t, ci, .drop⟩ → I { t.drop ci with
      rx := fun k => if k = ci then t.rx ci else (t.drop ci).rx k } := by
    intro hp
    have h1 := hk.does ⟨t, ci, .drop⟩ h hci hp
    exact hk.rx _ _ h1 ((hk.ready _ h1).store (fun _ => hready.buffered ci hci))
  match r with
  | .wouldBlock => exact hk.rx _ _ h (hready.store (fun hi => hready.buffered ci hi))
  | .error => exact hdrop (hP _ List.mem_cons_self)
  | .data [] => exact hdrop (hP _ List.mem_cons_self)
  | .data (b :: bs) =>
    obtain ⟨rx, heq, hmore⟩ := service_data hci.2.2 (hready.buffered ci hci) b bs
    have h1 := hk.items h hci _ hP
    rw [heq]
    exact hk.rx _ _ h1 ((hk.ready _ h1).store (fun hi => hmore hi.2.2))

theorem CKeeping.step (hk : CKeeping I P) {t : CServer σ} (h : I t) (e : Server.Event)
    (hP : ∀ x ∈ t.stepCalls e, P x) : I (t.step e) := by
  have hsound := (hk.ready t h).sound
  cases e with
  | connect addr => exact hk.accept t addr h
  | recv c r =>
    rw [stepCalls] at hP
    rw [CServer.step]
    split
    · next ci hs =>
      rw [hs] at hP
      exact hk.service h (slotOf_up hsound hs) r hP
    · exact h
  | writable c =>
    rw [stepCalls] at hP
    rw [CServer.step]
    split
    · next ci hs =>
      rw [hs] at hP
      exact hk.does ⟨t, ci, .flush⟩ h (slotOf_up hsound hs) (hP _ List.mem_cons_self)
    · exact h
  | timeout c =>
    rw [stepCalls] at hP
    rw [CServer.step]
    split
    · next ci hs =>
      rw [hs, Option.map_some, Option.getD_some] at hP
      split
      · next hn =>
        rw [if_pos hn] at hP
        exact hk.does ⟨t, ci, .drop⟩ h (slotOf_up hsound hs) (hP _ List.mem_cons_self)
      · exact h
    · exact h

theorem CKeeping.run (hk : CKeeping I P) {t : CServer σ} (h : I t) (es : List Server.Event)
    (hP : ∀ x ∈ t.runCalls es, P x) : I (t.run es) := by
  induction es generalizing t with
  | nil => exact h
  | cons e es ih =>
    have h1 := hk.step h e (fun x hx => hP x (List.mem_append_left _ hx))
    exact ih h1 (fun x hx => hP x (List.mem_append_right _ hx))

end Keeping

/-! ## Accepting -/

omit [Transport σ] in
theorem accept_cases (t : CServer σ) (ip : Nat) : t.acceptClient ip = t ∨
    ∃ ci < maxClients, (t.client ci).inUse = false ∧ t.acceptClient ip = t.clientAlloc ci ip := by
  rw [acceptClient]
  split
  · exact Or.inl rfl
  · split
    · exact Or.inl rfl
    · split
      · exact Or.inl rfl
      · next ci hf =>
        have hu := List.find?_some hf
        rw [Bool.not_eq_true'] at hu
        exact Or.inr ⟨ci, List.mem_range.mp (List.mem_of_find?_eq_some hf), hu, rfl⟩

omit [Transport σ] in
theorem clientAlloc_client (t : CServer σ) (ci ip i : Nat) :
    (t.clientAlloc ci ip).client i =
      if i = ci then ⟨true, t.nextConn, ip, [], none, false, (t.client i).gen⟩ else t.client i := rfl

omit [Transport σ] in
theorem Sound.clientAlloc {t : CServer σ} (h : Sound [] [] t) {ci : Nat} (hlt : ci < maxClients)
    (hu : (t.client ci).inUse = false) (ip : Nat) : Sound [] [] (t.clientAlloc ci ip) := by
  have hne : ∀ {i}, t.Up i → i ≠ ci := by
    rintro i hi rfl
    rw [hi.2.1] at hu
    cases hu
  have hold : ∀ {i}, t.Up i → (t.clientAlloc ci ip).client i = t.client i := fun hi => by
    rw [clientAlloc_client, if_neg (hne hi)]
  refine { h with named := ?_, counted := ?_, dying := ?_, room := ?_, seat := ?_, left := ?_ }
  · intro e he
    obtain ⟨hup, hname⟩ := h.named e he
    rw [Up, hold hup]
    exact ⟨hup, hname⟩
  · have hp : (t.clientAlloc ci ip).slots.Perm (ci :: t.slots) :=
      slots_perm hlt (by rw [clientAlloc_client, if_pos rfl]) hu
        (fun i hi => by rw [clientAlloc_client, if_neg hi])
    rw [hp.length_eq, List.length_cons, ← h.counted]
    rfl
  · intro i hiu hid
    rw [clientAlloc_client] at hiu hid
    split at hid
    · cases hid
    · next hi =>
      rw [if_neg hi] at hiu
      exact h.dying i hiu hid
  · intro ri hri hused
    have hh := h.room ri hri hused
    exact hh.of_clients rfl rfl (fun m hm => hold (hh.member m hm).1)
  · intro i ri hi
    rw [clientAlloc_client] at hi
    split at hi
    · cases hi
    · exact h.seat i ri hi
  · exact fun _ _ _ => List.not_mem_nil

omit [Transport σ] in
theorem Ready.accept {t : CServer σ} (h : Ready t) (ip : Nat) : Ready (t.acceptClient ip) := by
  rcases accept_cases t ip with heq | ⟨ci, hlt, hu, heq⟩
  · rw [heq]
    exact h
  · rw [heq]
    refine ⟨h.sound.clientAlloc hlt hu ip, fun i hi => ?_⟩
    show rxPeek (if i = ci then [] else t.rx i) = .more
    split
    · rfl
    · next hne =>
      rw [Up, clientAlloc_client, if_neg hne] at hi
      exact h.buffered i hi

theorem keeping_ready : CKeeping (Ready : CServer σ → Prop) (fun _ => True) where
  ready _ h := h
  accept _ ip h := h.accept ip
  rx _ _ h hb := ⟨h.sound.alike ⟨rfl, fun _ => rfl, fun _ => rfl, rfl, rfl, rfl, rfl, rfl⟩, hb⟩
  does x h hup _ := h.does hup x.job

omit [Transport σ] in
theorem ready_init (o : Options) (seeds : Nat → UInt16) (net : σ) : Ready (init o seeds net) where
  sound := {
    keyed := List.nodup_nil
    named := fun _ he => absurd he List.not_mem_nil
    counted := by
      have hs : (init o seeds net).slots = [] := by
        rw [slots, List.filter_eq_nil_iff]
        exact fun _ _ => Bool.false_ne_true
      rw [hs]
      rfl
    dying := fun _ h => nomatch h
    room := fun _ _ h => nomatch h
    seat := fun _ _ h => nomatch h
    vacant := fun _ _ => rfl
    within := fun _ h => nomatch h
    seats := o.ok
    clean := rfl
    left := fun _ _ h => nomatch h }
  buffered _ h := nomatch h.2.1

/-! ## The tables after every event -/

/-- by_name[], clients[] and rooms[] agree, and nothing that cannot happen did happen. -/
structure Tables (maxSeats : Nat) (t : CServer σ) : Prop where
  names : (t.byName.map Prod.fst).Nodup
  named : ∀ e ∈ t.byName, e.2 < maxClients ∧ (t.client e.2).inUse = true ∧
    (t.client e.2).dead = false ∧ (t.client e.2).name = e.1
  nByName : t.byName.length ≤ maxClients
  counted : t.nClients = t.slots.length
  nClients : t.nClients ≤ maxClients
  living : ∀ i, (t.client i).inUse = true → (t.client i).dead = false
  room : ∀ ri, (t.room ri).used = true → ri < maxRooms ∧ 2 ≤ (t.room ri).members.length ∧
    (t.room ri).members.length ≤ maxSeats ∧ (t.room ri).members.Nodup ∧
    ∀ m ∈ (t.room ri).members, m < maxClients ∧ (t.client m).inUse = true ∧
      (t.client m).room = some ri
  seated : ∀ i ri, (t.client i).inUse = true → (t.client i).room = some ri →
    (t.room ri).used = true ∧ i ∈ (t.room ri).members
  clean : t.faults = []

omit [Transport σ] in
theorem Sound.tables {t : CServer σ} (h : Sound [] [] t) : Tables t.maxSeats t where
  names := h.keyed
  named e he := by
    obtain ⟨hup, hname, -⟩ := h.named e he
    exact ⟨hup.1, hup.2.1, hup.2.2, hname⟩
  nByName := by
    have hsub : (t.byName.map Prod.snd).Subperm (List.range maxClients) := by
      refine h.entries.subperm (fun i hi => ?_)
      obtain ⟨e, he, rfl⟩ := List.mem_map.mp hi
      exact List.mem_range.mpr (h.named e he).1.1
    have := hsub.length_le
    rwa [List.length_map, List.length_range] at this
  counted := h.counted
  nClients := by
    have := List.length_filter_le (fun i => (t.client i).inUse) (List.range maxClients)
    rw [List.length_range] at this
    rw [h.counted]
    exact this
  living i hu := by
    by_contra hd
    exact absurd (h.dying i hu (Bool.not_eq_false _ ▸ hd)) List.not_mem_nil
  room ri hu := by
    have hh := h.room ri List.not_mem_nil hu
    refine ⟨h.within ri hu, hh.two, hh.cap, hh.nodup, fun m hm => ?_⟩
    obtain ⟨hup, hroom⟩ := hh.member m hm
    exact ⟨hup.1, hup.2.1, hroom⟩
  seated i ri _ hi := h.seat i ri hi
  clean := h.clean

theorem CKeeping.maxSeats {I : CServer σ → Prop} {P : CCall σ → Prop} (hk : CKeeping I P) (n : Nat) :
    CKeeping (fun t => I t ∧ t.maxSeats = n) P where
  ready t h := hk.ready t h.1
  accept t ip h := by
    refine ⟨hk.accept t ip h.1, ?_⟩
    rcases accept_cases t ip with heq | ⟨ci, -, -, heq⟩
    · rw [heq]
      exact h.2
    · rw [heq]
      exact h.2
  rx t rx h hb := ⟨hk.rx t rx h.1 hb, h.2⟩
  does x h hup hp := by
    have hs := (Serves.start (hk.ready _ h.1).sound hup).does hup x.job
    exact ⟨hk.does x h.1 hup hp, hs.fixed.maxSeats.trans h.2⟩

/-- After every event of every run, either protocol, whatever becomes of the sends. -/
theorem tables_hold (o : Options) (seeds : Nat → UInt16) (net : σ) (es : List Server.Event) :
    Tables o.maxSeats ((init o seeds net).run es) := by
  obtain ⟨h, hmax⟩ := (keeping_ready.maxSeats o.maxSeats).run ⟨ready_init o seeds net, rfl⟩ es
    (fun _ _ => trivial)
  exact hmax ▸ h.sound.tables

end CServer

end IntvBasketball.Relay
