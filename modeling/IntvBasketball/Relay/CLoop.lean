/-
  The event loop of intv-relay.c: one batch of epoll events after another, told apart by
  data.u64 only.

  A tag is a slot of clients[] and the slot's generation. `reg` is what epoll holds: the
  data.u64 registered for the descriptor of each connection. update_events() registers
  tag_of() again for a client that is not dead; `Armed.serves` says that this is the value
  already there, so that it is left out.

  `Aged` compares the slots with those at the start of the batch: a slot that is freed k
  times has moved its generation by k, and one that is not freed holds its connection.
-/
import IntvBasketball.Relay.CRun

namespace IntvBasketball.Relay

def tagListen : UInt64 := 0xFFFFFFFFFFFFFFFF
def tagSig : UInt64 := 0xFFFFFFFFFFFFFFFE

/-- The descriptor an event was raised for. -/
inductive Fd where
  | listen
  | signal
  | client (c : Nat)
deriving DecidableEq, Repr

/-- `struct epoll_event`, with what the calls on its descriptor find: accept() and
    EPOLL_CTL_ADD (the address; was it added?) or recv(). -/
structure EpollEvent where
  fd : Fd
  tag : UInt64
  output : Bool
  input : Bool
  accepts : Option (Nat × Bool)
  recv : Recv
deriving DecidableEq, Repr

/-- The relay and its epoll instance. -/
structure CLoop (σ : Type) where
  srv : CServer σ
  reg : Nat → UInt64

variable {σ : Type}

/-- `tag_of`. -/
def CServer.tagOf (t : CServer σ) (ci : Nat) : UInt64 :=
  (t.client ci).gen.toUInt64 <<< 32 ||| (UInt32.ofNat ci).toUInt64

namespace CLoop

/-- `accept_client`. -/
def acceptClient (s : CLoop σ) : Option (Nat × Bool) → CLoop σ
  | none => s
  | some (ip, added) =>
    let srv := s.srv.acceptClient ip
    if srv.nextConn = s.srv.nextConn then { s with srv }
    else
      match srv.slotOf s.srv.nextConn with
      | some ci =>
        if added then { srv, reg := Function.update s.reg s.srv.nextConn (srv.tagOf ci) }
        else { s with srv := srv.clientFree ci }
      | none => { s with srv }

/-- The slot of a tag, if its generation still matches. Half a tag that would make `ci`
    negative is at least 2^31. -/
def slotFor (t : CServer σ) (tag : UInt64) : Option Nat :=
  let ci := (tag &&& 0xFFFFFFFF).toNat
  if maxClients ≤ ci then none
  else if !(t.client ci).inUse ∨ (t.client ci).gen ≠ (tag >>> 32).toUInt32 then none
  else some ci

variable [Transport σ]

/-- flush() on EPOLLOUT. -/
def serveOut (t : CServer σ) (ci : Nat) (e : EpollEvent) : CServer σ :=
  if e.output ∧ !(t.client ci).dead then t.flush ci else t

/-- service() on EPOLLIN, EPOLLHUP or EPOLLERR. -/
def serveIn (t : CServer σ) (ci : Nat) (e : EpollEvent) : CServer σ :=
  if e.input ∧ !(t.client ci).dead then t.service ci e.recv else t

/-- The body of the loop over the batch. -/
def turn (s : CLoop σ) (e : EpollEvent) : CLoop σ :=
  if e.tag = tagListen then s.acceptClient e.accepts
  else if e.tag = tagSig then s
  else
    match slotFor s.srv e.tag with
    | none => s
    | some ci => { s with srv := serveIn (serveOut s.srv ci e) ci e }

def batch (s : CLoop σ) (es : List EpollEvent) : CLoop σ := es.foldl turn s

/-- `sweep`, one slot; `late` are the clients that connected too long ago. -/
def sweepAt (late : Nat → Bool) (t : CServer σ) (i : Nat) : CServer σ :=
  if (t.client i).inUse ∧ !(t.client i).dead ∧ (t.client i).name = [] ∧ late i then t.drop i else t

/-- `sweep`. -/
def sweep (s : CLoop σ) (late : Nat → Bool) : CLoop σ :=
  { s with srv := (List.range maxClients).foldl (sweepAt late) s.srv }

/-- A call of flush() or service(): the event, the server that it finds, and the slot. -/
structure Served (σ : Type) where
  event : EpollEvent
  srv : CServer σ
  slot : Nat

/-- The calls for one event. -/
def turnServed (s : CLoop σ) (e : EpollEvent) : List (Served σ) :=
  if e.tag = tagListen ∨ e.tag = tagSig then []
  else
    match slotFor s.srv e.tag with
    | none => []
    | some ci =>
      (if e.output ∧ !(s.srv.client ci).dead then [⟨e, s.srv, ci⟩] else []) ++
        if e.input ∧ !((serveOut s.srv ci e).client ci).dead then [⟨e, serveOut s.srv ci e, ci⟩] else []

/-- The calls for a batch. -/
def batchServed : CLoop σ → List EpollEvent → List (Served σ)
  | _, [] => []
  | s, e :: es => s.turnServed e ++ (s.turn e).batchServed es

/-- The states in which main() calls epoll_wait(), whatever the events were. -/
inductive Waits (o : Options) (seeds : Nat → UInt16) (net : σ) : CLoop σ → Prop
  | start (reg : Nat → UInt64) : Waits o seeds net ⟨CServer.init o seeds net, reg⟩
  | round {s : CLoop σ} (es : List EpollEvent) : Waits o seeds net s → Waits o seeds net (s.batch es)
  | swept {s : CLoop σ} (late : Nat → Bool) : Waits o seeds net s → Waits o seeds net (s.sweep late)

/-- What epoll_wait() may return: an event of a descriptor that is open, with the data.u64
    registered for it. -/
def Raised (s : CLoop σ) (e : EpollEvent) : Prop :=
  match e.fd with
  | .listen => e.tag = tagListen
  | .signal => e.tag = tagSig
  | .client c => (∃ ci, s.srv.Up ci ∧ (s.srv.client ci).conn = c) ∧ e.tag = s.reg c

end CLoop

/-- The connections freed so far. -/
def CServer.freed (t : CServer σ) : Nat := t.nextConn - t.nClients

/-! ## Tags -/

theorem toNat_tag (g c : UInt32) :
    (g.toUInt64 <<< 32 ||| c.toUInt64).toNat = g.toNat * 2 ^ 32 + c.toNat := by
  have hg := g.toNat_lt
  have hc := c.toNat_lt
  have hs : (g.toUInt64 <<< 32).toNat = g.toNat <<< 32 := by
    rw [UInt64.toNat_shiftLeft, UInt32.toNat_toUInt64]
    have h32 : (32 : UInt64).toNat % 64 = 32 := rfl
    rw [h32, Nat.shiftLeft_eq, Nat.mod_eq_of_lt (by omega)]
  rw [UInt64.toNat_or, hs, UInt32.toNat_toUInt64, ← Nat.shiftLeft_add_eq_or_of_lt (by omega),
    Nat.shiftLeft_eq]

theorem slot_of_tag (g c : UInt32) :
    ((g.toUInt64 <<< 32 ||| c.toUInt64) &&& 0xFFFFFFFF).toNat = c.toNat := by
  have hc := c.toNat_lt
  have hm : (0xFFFFFFFF : UInt64).toNat = 2 ^ 32 - 1 := rfl
  rw [UInt64.toNat_and, toNat_tag, hm, Nat.and_two_pow_sub_one_eq_mod]
  omega

theorem gen_of_tag (g c : UInt32) : ((g.toUInt64 <<< 32 ||| c.toUInt64) >>> 32).toUInt32 = g := by
  have hg := g.toNat_lt
  have hc := c.toNat_lt
  have h32 : (32 : UInt64).toNat % 64 = 32 := rfl
  apply UInt32.toNat_inj.mp
  rw [UInt64.toNat_toUInt32, UInt64.toNat_shiftRight, h32, toNat_tag, Nat.shiftRight_eq_div_pow]
  omega

namespace CServer

theorem tagOf_slot (t : CServer σ) {ci : Nat} (h : ci < maxClients) :
    ((t.tagOf ci) &&& 0xFFFFFFFF).toNat = ci := by
  rw [tagOf, slot_of_tag, UInt32.toNat_ofNat_of_lt']
  exact lt_trans h (by decide)

theorem tagOf_gen (t : CServer σ) (ci : Nat) : ((t.tagOf ci) >>> 32).toUInt32 = (t.client ci).gen :=
  gen_of_tag _ _

/-! ## What a call does to the slots -/

/-- A call gives no slot away: it only frees some, each once. -/
structure Moved (t t' : CServer σ) : Prop where
  ready : Ready t'
  up : ∀ i, t'.Up i → t.Up i
  conn : ∀ i, (t'.client i).conn = (t.client i).conn
  gen : ∀ i, Handed (t.client i) (t'.client i)
  next : t'.nextConn = t.nextConn

theorem Moved.refl {t : CServer σ} (h : Ready t) : Moved t t :=
  ⟨h, fun _ hi => hi, fun _ => rfl, fun _ => Handed.refl _, rfl⟩

theorem Moved.trans {t t' t'' : CServer σ} (h : Moved t t') (h' : Moved t' t'') : Moved t t'' :=
  ⟨h'.ready, fun i hi => h.up i (h'.up i hi), fun i => (h'.conn i).trans (h.conn i),
    fun i => (h.gen i).trans (h'.gen i), h'.next.trans h.next⟩

/-- A client that is up was up, in the same generation. -/
theorem Moved.same_gen {t t' : CServer σ} (h : Moved t t') {i : Nat} (hi : t'.Up i) :
    (t'.client i).gen = (t.client i).gen := by
  rcases h.gen i with hg | hg
  · exact hg.2
  · exact nomatch hi.2.1.symm.trans hg.2.1

theorem Serves.moved {ci : Nat} {t t' : CServer σ} (h : Serves ci t t') (hb : t.Buffered) :
    Moved t t' := by
  refine ⟨⟨h.sound, fun i hi => ?_⟩, h.up, h.conn, h.gen, h.fixed.nextConn⟩
  rw [h.fixed.rx]
  exact hb i (h.up i hi)

section Jobs
variable [Transport σ]

theorem Serves.items {ci : Nat} {t0 t : CServer σ} (h : Serves ci t0 t) (hci : t.Up ci)
    (es : List RxEvent) : Serves ci t0 (runItems (host ci).act (host ci).dead t es).1 := by
  induction es generalizing t with
  | nil => exact h
  | cons e es ih =>
    have h1 := h.does hci (jobOf e)
    rw [runItems, host_act]
    split
    · exact h1
    · next hd => exact ih h1 (h1.known.up (Bool.eq_false_iff.mpr hd))

theorem moved_drop {t : CServer σ} (h : Ready t) {ci : Nat} (hci : t.Up ci) : Moved t (t.drop ci) :=
  ((Serves.start h.sound hci).drop hci.known).moved h.buffered

theorem moved_flush {t : CServer σ} (h : Ready t) {ci : Nat} (hci : t.Up ci) :
    Moved t (t.flush ci) :=
  (Serves.start h.sound hci).flush.moved h.buffered

theorem moved_service {t : CServer σ} (h : Ready t) {ci : Nat} (hci : t.Up ci) (r : Recv) :
    Moved t (t.service ci r) := by
  have hserve : ∃ t1 rx, Serves ci t t1 ∧ t.service ci r = { t1 with rx } := by
    have hstart := Serves.start h.sound hci
    match r with
    | .wouldBlock => exact ⟨t, _, hstart, rfl⟩
    | .error => exact ⟨t.drop ci, _, hstart.drop hci.known, rfl⟩
    | .data [] => exact ⟨t.drop ci, _, hstart.drop hci.known, rfl⟩
    | .data (b :: bs) =>
      obtain ⟨rx, heq, -⟩ := service_data hci.2.2 (h.buffered ci hci) b bs
      exact ⟨_, _, hstart.items hci _, heq⟩
  have hready : Ready (t.service ci r) := keeping_ready.service h hci r (fun _ _ => trivial)
  obtain ⟨t1, rx, hs, heq⟩ := hserve
  rw [heq] at hready ⊢
  exact ⟨hready, hs.up, hs.conn, hs.gen, hs.fixed.nextConn⟩

end Jobs

/-- The slots in use shrink, by the freed ones. -/
theorem Moved.slots {t t' : CServer σ} (h : Moved t t') : t'.slots.length ≤ t.slots.length ∧
    ∀ i < maxClients, (t.client i).inUse = true → (t'.client i).inUse = false →
      t'.slots.length + 1 ≤ t.slots.length := by
  have hsub : ∀ i ∈ t'.slots, i ∈ t.slots := by
    intro i hi
    rw [CServer.slots, List.mem_filter] at hi ⊢
    refine ⟨hi.1, ?_⟩
    rcases h.gen i with hg | hg
    · exact hg.1.symm.trans hi.2
    · exact hg.1
  have hnodup : t'.slots.Nodup := List.nodup_range.filter _
  refine ⟨(hnodup.subperm hsub).length_le, fun i hlt hu hu' => ?_⟩
  have hn : i ∉ t'.slots := by
    rw [CServer.slots, List.mem_filter]
    intro hi
    cases hi.2.symm.trans hu'
  have hall : ∀ j ∈ i :: t'.slots, j ∈ t.slots := by
    intro j hj
    rcases List.mem_cons.mp hj with rfl | hj
    · exact List.mem_filter.mpr ⟨List.mem_range.mpr hlt, hu⟩
    · exact hsub j hj
  exact ((List.nodup_cons.mpr ⟨hn, hnodup⟩).subperm hall).length_le

/-! ## Generations count the frees -/

/-- The slots, beside those at the start of the batch. -/
structure Aged (t0 t : CServer σ) : Prop where
  ready : Ready t
  le : t.nClients ≤ t.nextConn
  lt : ∀ i, t.Up i → (t.client i).conn < t.nextConn
  age : ∀ i < maxClients, ∃ k, (t.client i).gen = (t0.client i).gen + UInt32.ofNat k ∧
    k + t0.freed ≤ t.freed ∧ (k = 0 → (t0.client i).inUse = true →
      (t.client i).inUse = true ∧ (t.client i).conn = (t0.client i).conn)

theorem Aged.start {t0 t : CServer σ} (h : Aged t0 t) : Aged t t :=
  ⟨h.ready, h.le, h.lt, fun i _ => ⟨0, by simp, by omega, fun _ hu => ⟨hu, rfl⟩⟩⟩

theorem ofNat_succ (g : UInt32) (k : Nat) : g + UInt32.ofNat k + 1 = g + UInt32.ofNat (k + 1) := by
  rw [UInt32.add_assoc, UInt32.ofNat_add]
  rfl

theorem Aged.moved {t0 t t' : CServer σ} (h : Aged t0 t) (m : Moved t t') :
    Aged t0 t' ∧ t.freed ≤ t'.freed := by
  obtain ⟨hle, hfree⟩ := m.slots
  have hle0 := h.le
  rw [h.ready.sound.counted] at hle0
  have hf : t.freed = t.nextConn - t.slots.length := by rw [freed, h.ready.sound.counted]
  have hf' : t'.freed = t.nextConn - t'.slots.length := by
    rw [freed, m.ready.sound.counted, m.next]
  refine ⟨⟨m.ready, ?_, fun i hi => ?_, fun i hlt => ?_⟩, by omega⟩
  · rw [m.ready.sound.counted, m.next]
    omega
  · rw [m.conn, m.next]
    exact h.lt i (m.up i hi)
  · obtain ⟨k, hg, hk, h0⟩ := h.age i hlt
    rcases m.gen i with ⟨hu, hgen⟩ | ⟨hu, hu', hgen⟩
    · refine ⟨k, by rw [hgen, hg], by omega, fun hz hin => ?_⟩
      rw [hu, m.conn]
      exact h0 hz hin
    · have hone := hfree i hlt hu hu'
      exact ⟨k + 1, by rw [hgen, hg, ofNat_succ], by omega, fun hz => absurd hz (by omega)⟩

/-- client_alloc() gives a free slot away. -/
theorem Aged.clientAlloc {t0 t : CServer σ} (h : Aged t0 t) {ci : Nat}
    (hu : (t.client ci).inUse = false) (ip : Nat) (hr : Ready (t.clientAlloc ci ip)) :
    Aged t0 (t.clientAlloc ci ip) ∧ (t.clientAlloc ci ip).freed = t.freed := by
  have hle := h.le
  have hfreed : (t.clientAlloc ci ip).freed = t.freed := by
    change t.nextConn + 1 - (t.nClients + 1) = t.nextConn - t.nClients
    omega
  refine ⟨⟨hr, ?_, fun i hi => ?_, fun i hi => ?_⟩, hfreed⟩
  · change t.nClients + 1 ≤ t.nextConn + 1
    omega
  · change ((t.clientAlloc ci ip).client i).conn < t.nextConn + 1
    rw [Up, clientAlloc_client] at hi
    rw [clientAlloc_client]
    split
    · exact Nat.lt_succ_self _
    · next hne =>
      rw [if_neg hne] at hi
      exact Nat.lt_succ_of_lt (h.lt i hi)
  · obtain ⟨k, hg, hk, h0⟩ := h.age i hi
    rw [hfreed, clientAlloc_client]
    refine ⟨k, ?_, hk, fun hz hin => ?_⟩
    · split <;> exact hg
    · split
      · next heq =>
        have hin' := (h0 hz hin).1
        rw [heq, hu] at hin'
        cases hin'
      · exact h0 hz hin

/-- EPOLL_CTL_ADD failed: the slot is given back. -/
theorem Ready.unalloc {t : CServer σ} (h : Ready t) {ci : Nat} (hlt : ci < maxClients)
    (hu : (t.client ci).inUse = false) (ip : Nat) (hr : Ready (t.clientAlloc ci ip)) :
    Ready ((t.clientAlloc ci ip).clientFree ci) := by
  have hself : (t.clientAlloc ci ip).client ci =
      ⟨true, t.nextConn, ip, [], none, false, (t.client ci).gen⟩ := by
    rw [clientAlloc_client, if_pos rfl]
  have hs : Sound [ci] [] (t.clientAlloc ci ip) :=
    { hr.sound with
      dying := fun i hi hd => absurd (hr.sound.dying i hi hd) List.not_mem_nil }
  refine ⟨hs.clientFree hlt (by rw [hself]) (fun e he heq => ?_) (by rw [hself]), fun i hi => ?_⟩
  · obtain ⟨hup, -, -⟩ := h.sound.named e he
    rw [heq, Up, hu] at hup
    cases hup.2.1
  · have hne : i ≠ ci := by
      rintro rfl
      rw [Up, clientFree_client, if_pos rfl] at hi
      cases hi.2.1
    rw [Up, clientFree_client, if_neg hne] at hi
    exact hr.buffered i hi

theorem moved_unalloc {t : CServer σ} {ci : Nat} (hu : (t.client ci).inUse = true)
    (hr : Ready (t.clientFree ci)) : Moved t (t.clientFree ci) := by
  refine ⟨hr, fun i hi => ?_, fun i => ?_, fun i => ?_, rfl⟩
  · rw [Up, clientFree_client] at hi
    split at hi
    · cases hi.2.1
    · exact hi
  · rw [clientFree_client]
    split <;> rfl
  · rw [clientFree_client]
    split
    · next heq =>
      rw [heq]
      exact Or.inr ⟨hu, rfl, rfl⟩
    · exact Handed.refl _

theorem slotOf_eq {t : CServer σ} {c i : Nat} (hi : i ∈ t.slots) (hc : (t.client i).conn = c)
    (huniq : ∀ j ∈ t.slots, (t.client j).conn = c → j = i) : t.slotOf c = some i := by
  rw [slotOf]
  cases hf : t.slots.find? (fun j => (t.client j).conn = c) with
  | none => exact absurd (decide_eq_true hc) (List.find?_eq_none.mp hf i hi)
  | some j =>
    have hj := List.find?_some hf
    rw [huniq j (List.mem_of_find?_eq_some hf) (of_decide_eq_true hj)]

end CServer

/-! ## The loop -/

namespace CLoop

open CServer (Up Aged Moved)

/-- epoll holds the tags of the clients that are up. -/
def Armed (s : CLoop σ) : Prop := ∀ ci, s.srv.Up ci → s.reg (s.srv.client ci).conn = s.srv.tagOf ci

/-- At any moment of a call the tag is the one it was: EPOLL_CTL_MOD changes nothing. -/
theorem Armed.serves {s : CLoop σ} (h : s.Armed) {ci : Nat} {t : CServer σ}
    (hs : CServer.Serves ci s.srv t) {i : Nat} (hi : t.Up i) :
    Function.update s.reg (t.client i).conn (t.tagOf i) = s.reg := by
  have hgen : (t.client i).gen = (s.srv.client i).gen := by
    rcases hs.gen i with hg | hg
    · exact hg.2
    · exact nomatch hi.2.1.symm.trans hg.2.1
  have htag : t.tagOf i = s.srv.tagOf i := by rw [CServer.tagOf, CServer.tagOf, hgen]
  rw [htag, hs.conn i, ← h i (hs.up i hi), Function.update_eq_self]

theorem Armed.moved {s : CLoop σ} (h : s.Armed) {t : CServer σ} (m : Moved s.srv t) :
    Armed { s with srv := t } := by
  intro ci hci
  change s.reg (t.client ci).conn = t.tagOf ci
  rw [m.conn, CServer.tagOf, m.same_gen hci]
  exact h ci (m.up ci hci)

/-- What a turn keeps, from the start of the batch. -/
structure Tracks (t0 : CServer σ) (s : CLoop σ) : Prop where
  aged : Aged t0 s.srv
  armed : s.Armed

theorem Tracks.moved {t0 : CServer σ} {s : CLoop σ} (h : Tracks t0 s) {t : CServer σ}
    (m : Moved s.srv t) : Tracks t0 { s with srv := t } ∧ s.srv.freed ≤ t.freed :=
  ⟨⟨(h.aged.moved m).1, h.armed.moved m⟩, (h.aged.moved m).2⟩

theorem Tracks.acceptClient {t0 : CServer σ} {s : CLoop σ} (h : Tracks t0 s)
    (a : Option (Nat × Bool)) :
    Tracks t0 (s.acceptClient a) ∧ s.srv.freed ≤ (s.acceptClient a).srv.freed := by
  cases a with
  | none => exact ⟨h, le_rfl⟩
  | some a =>
    obtain ⟨ip, added⟩ := a
    rw [CLoop.acceptClient]
    rcases CServer.accept_cases s.srv ip with heq | ⟨ci, hlt, hu, heq⟩
    · rw [heq, if_pos rfl]
      exact ⟨h, le_rfl⟩
    · have hready := h.aged.ready.accept ip
      rw [heq] at hready ⊢
      obtain ⟨haged, hfreed⟩ := h.aged.clientAlloc hu ip hready
      have hnext : (s.srv.clientAlloc ci ip).nextConn = s.srv.nextConn + 1 := rfl
      have hself : (s.srv.clientAlloc ci ip).client ci =
          ⟨true, s.srv.nextConn, ip, [], none, false, (s.srv.client ci).gen⟩ := by
        rw [CServer.clientAlloc_client, if_pos rfl]
      -- the others keep their slots, and their numbers are older
      have hother : ∀ i, i ≠ ci → (s.srv.clientAlloc ci ip).client i = s.srv.client i := by
        intro i hi
        rw [CServer.clientAlloc_client, if_neg hi]
      have hold : ∀ i, i ≠ ci → (s.srv.clientAlloc ci ip).Up i → s.srv.Up i := by
        intro i hi hup
        rw [Up, hother i hi] at hup
        exact hup
      have hslot : (s.srv.clientAlloc ci ip).slotOf s.srv.nextConn = some ci := by
        apply CServer.slotOf_eq
        · exact List.mem_filter.mpr ⟨List.mem_range.mpr hlt, by rw [hself]⟩
        · rw [hself]
        · intro j hj hc
          by_contra hne
          obtain ⟨hr, hin⟩ := List.mem_filter.mp hj
          have hup : (s.srv.clientAlloc ci ip).Up j := by
            refine ⟨List.mem_range.mp hr, hin, ?_⟩
            by_contra hd
            exact absurd (hready.sound.dying j hin (Bool.not_eq_false _ ▸ hd)) List.not_mem_nil
          rw [hother j hne] at hc
          exact absurd hc (Nat.ne_of_lt (h.aged.lt j (hold j hne hup)))
      rw [if_neg (by rw [hnext]; omega), hslot]
      dsimp only
      split
      · refine ⟨⟨haged, fun i hi => ?_⟩, hfreed.ge⟩
        dsimp only at hi ⊢
        by_cases hne : i = ci
        · rw [hne, hself]
          exact Function.update_self ..
        · have hup := hold i hne hi
          rw [hother i hne, Function.update_of_ne (Nat.ne_of_lt (h.aged.lt i hup)), CServer.tagOf,
            hother i hne]
          exact h.armed i hup
      · have m := CServer.moved_unalloc (by rw [hself])
          (h.aged.ready.unalloc hlt hu ip hready)
        obtain ⟨haged', hfreed'⟩ := haged.moved m
        refine ⟨⟨haged', fun i hi => ?_⟩, hfreed ▸ hfreed'⟩
        have hne : i ≠ ci := by
          rintro rfl
          rw [Up, CServer.clientFree_client, if_pos rfl] at hi
          cases hi.2.1
        have hup := hold i hne (m.up i hi)
        dsimp only
        rw [m.conn, hother i hne, CServer.tagOf, m.same_gen hi, hother i hne]
        exact h.armed i hup

theorem slotFor_some {t : CServer σ} {tag : UInt64} {ci : Nat} (h : slotFor t tag = some ci) :
    (tag &&& 0xFFFFFFFF).toNat = ci ∧ ci < maxClients ∧ (t.client ci).inUse = true ∧
      (t.client ci).gen = (tag >>> 32).toUInt32 := by
  rw [slotFor] at h
  split_ifs at h with hlt hg
  rw [not_or, not_not, Bool.not_eq_true', Bool.not_eq_false] at hg
  cases h
  exact ⟨rfl, Nat.lt_of_not_le hlt, hg⟩

section Turns
variable [Transport σ]

theorem moved_serveOut {t : CServer σ} (h : CServer.Ready t) {ci : Nat} (hlt : ci < maxClients)
    (hu : (t.client ci).inUse = true) (e : EpollEvent) : Moved t (serveOut t ci e) := by
  rw [serveOut]
  split
  · next hd => exact CServer.moved_flush h ⟨hlt, hu, (Bool.not_eq_true' _).mp hd.2⟩
  · exact Moved.refl h

/-- A client that is not dead after the flush is still up. -/
theorem up_serveOut {t : CServer σ} (h : CServer.Ready t) {ci : Nat} (hlt : ci < maxClients)
    (hu : (t.client ci).inUse = true) {e : EpollEvent}
    (hd : ((serveOut t ci e).client ci).dead = false) : (serveOut t ci e).Up ci := by
  rw [serveOut] at hd ⊢
  split at hd
  · next hc =>
    rw [if_pos hc]
    have hup : t.Up ci := ⟨hlt, hu, (Bool.not_eq_true' _).mp hc.2⟩
    exact (CServer.Serves.start h.sound hup).flush.known.up hd
  · next hc =>
    rw [if_neg hc]
    exact ⟨hlt, hu, hd⟩

theorem moved_serveIn {t : CServer σ} (h : CServer.Ready t) {ci : Nat}
    (hup : (t.client ci).dead = false → t.Up ci) (e : EpollEvent) : Moved t (serveIn t ci e) := by
  rw [serveIn]
  split
  · next hd => exact CServer.moved_service h (hup ((Bool.not_eq_true' _).mp hd.2)) e.recv
  · exact Moved.refl h

theorem Tracks.turn {t0 : CServer σ} {s : CLoop σ} (h : Tracks t0 s) (e : EpollEvent) :
    Tracks t0 (s.turn e) ∧ s.srv.freed ≤ (s.turn e).srv.freed := by
  rw [CLoop.turn]
  split
  · exact h.acceptClient e.accepts
  · split
    · exact ⟨h, le_rfl⟩
    · split
      · exact ⟨h, le_rfl⟩
      · next ci hs =>
        obtain ⟨-, hlt, hu, -⟩ := slotFor_some hs
        have hout := moved_serveOut h.aged.ready hlt hu e
        have hin := moved_serveIn hout.ready (up_serveOut h.aged.ready hlt hu) e
        exact h.moved (hout.trans hin)

theorem Tracks.batch {t0 : CServer σ} {s : CLoop σ} (h : Tracks t0 s) (es : List EpollEvent) :
    Tracks t0 (s.batch es) ∧ s.srv.freed ≤ (s.batch es).srv.freed := by
  induction es generalizing s with
  | nil => exact ⟨h, le_rfl⟩
  | cons e es ih =>
    obtain ⟨h1, hle1⟩ := h.turn e
    obtain ⟨h2, hle2⟩ := ih h1
    exact ⟨h2, hle1.trans hle2⟩

theorem Tracks.sweep {t0 : CServer σ} {s : CLoop σ} (h : Tracks t0 s) (late : Nat → Bool) :
    Tracks t0 (s.sweep late) := by
  have hall : ∀ (is : List Nat) (s : CLoop σ), Tracks t0 s → (∀ i ∈ is, i < maxClients) →
      Tracks t0 { s with srv := is.foldl (sweepAt late) s.srv } := by
    intro is
    induction is with
    | nil => exact fun _ h _ => h
    | cons i is ih =>
      intro s h hlt
      have hone : Moved s.srv (sweepAt late s.srv i) := by
        rw [sweepAt]
        split
        · next hc =>
          exact CServer.moved_drop h.aged.ready
            ⟨hlt i List.mem_cons_self, hc.1, (Bool.not_eq_true' _).mp hc.2.1⟩
        · exact Moved.refl h.aged.ready
      exact ih { s with srv := sweepAt late s.srv i } (h.moved hone).1
        (fun j hj => hlt j (List.mem_cons_of_mem _ hj))
  exact hall (List.range maxClients) s h (fun i hi => List.mem_range.mp hi)

/-- At every epoll_wait() the tags are right. -/
theorem Waits.tracks {o : Options} {seeds : Nat → UInt16} {net : σ} {s : CLoop σ}
    (h : Waits o seeds net s) : Tracks s.srv s := by
  induction h with
  | start reg =>
    refine ⟨⟨CServer.ready_init o seeds net, le_rfl, fun i hi => (nomatch hi.2.1), fun i _ => ?_⟩,
      fun i hi => (nomatch hi.2.1)⟩
    exact ⟨0, by simp, by omega, fun _ hu => ⟨hu, rfl⟩⟩
  | round es _ ih =>
    have h1 := (ih.batch es).1
    exact ⟨h1.aged.start, h1.armed⟩
  | swept late _ ih =>
    have h1 := ih.sweep late
    exact ⟨h1.aged.start, h1.armed⟩

/-- A call is for the slot and generation of its event's tag, and for a client that is up. -/
structure Matched (t0 : CServer σ) (bound : Nat) (x : Served σ) : Prop where
  aged : Aged t0 x.srv
  up : x.srv.Up x.slot
  few : x.srv.freed ≤ bound
  other : x.event.tag ≠ tagListen ∧ x.event.tag ≠ tagSig
  slot : (x.event.tag &&& 0xFFFFFFFF).toNat = x.slot
  gen : (x.srv.client x.slot).gen = (x.event.tag >>> 32).toUInt32

theorem matched_turn {t0 : CServer σ} {s : CLoop σ} (h : Tracks t0 s) {e : EpollEvent} {bound : Nat}
    (hb : (s.turn e).srv.freed ≤ bound) :
    ∀ x ∈ s.turnServed e, x.event = e ∧ Matched t0 bound x := by
  intro x hx
  rw [turnServed] at hx
  split at hx
  · exact absurd hx List.not_mem_nil
  · next htag =>
    rw [not_or] at htag
    rw [turn, if_neg htag.1, if_neg htag.2] at hb
    split at hx
    · exact absurd hx List.not_mem_nil
    · next ci hs =>
      rw [hs] at hb
      obtain ⟨hslot, hlt, hu, hgen⟩ := slotFor_some hs
      have hout := moved_serveOut h.aged.ready hlt hu e
      have hin := moved_serveIn hout.ready (up_serveOut h.aged.ready hlt hu) e
      obtain ⟨haged, hle⟩ := h.aged.moved hout
      have hle' := (haged.moved hin).2
      rcases List.mem_append.mp hx with hx | hx
      · split at hx
        · next hc =>
          cases List.mem_singleton.mp hx
          exact ⟨rfl, h.aged, ⟨hlt, hu, (Bool.not_eq_true' _).mp hc.2⟩, (hle.trans hle').trans hb,
            htag, hslot, hgen⟩
        · exact absurd hx List.not_mem_nil
      · split at hx
        · next hc =>
          cases List.mem_singleton.mp hx
          have hup := up_serveOut h.aged.ready hlt hu ((Bool.not_eq_true' _).mp hc.2)
          exact ⟨rfl, haged, hup, hle'.trans hb, htag, hslot, (hout.same_gen hup).trans hgen⟩
        · exact absurd hx List.not_mem_nil

theorem matched_batch {t0 : CServer σ} {s : CLoop σ} (h : Tracks t0 s) (es : List EpollEvent) :
    ∀ x ∈ s.batchServed es, x.event ∈ es ∧ Matched t0 (s.batch es).srv.freed x := by
  induction es generalizing s with
  | nil => exact fun _ hx => absurd hx List.not_mem_nil
  | cons e es ih =>
    intro x hx
    obtain ⟨h1, -⟩ := h.turn e
    rcases List.mem_append.mp hx with hx | hx
    · obtain ⟨he, hm⟩ := matched_turn h (h1.batch es).2 x hx
      exact ⟨he ▸ List.mem_cons_self, hm⟩
    · obtain ⟨he, hm⟩ := ih h1 x hx
      exact ⟨List.mem_cons_of_mem _ he, hm⟩

/-- flush() and service() are called for an event only while the connection it was raised
    for is alive in the slot. -/
theorem served_is_own {o : Options} {seeds : Nat → UInt16} {net : σ} {s : CLoop σ}
    (hs : Waits o seeds net s) {es : List EpollEvent} (hr : ∀ e ∈ es, s.Raised e)
    (hfew : (s.batch es).srv.freed < s.srv.freed + 2 ^ 32) :
    ∀ x ∈ s.batchServed es, x.srv.Up x.slot ∧
      x.event.fd = .client (x.srv.client x.slot).conn := by
  intro x hx
  have htr := hs.tracks
  obtain ⟨he, hm⟩ := matched_batch htr es x hx
  have hraised := hr x.event he
  rw [Raised] at hraised
  split at hraised
  · exact absurd hraised hm.other.1
  · exact absurd hraised hm.other.2
  · next c hfd =>
    obtain ⟨⟨ci, hup, hc⟩, htag⟩ := hraised
    -- the tag is that of the slot the connection had when the batch began
    rw [← hc, htr.armed ci hup] at htag
    have hslot := hm.slot
    have hgen := hm.gen
    rw [htag, CServer.tagOf_slot _ hup.1] at hslot
    rw [htag, CServer.tagOf_gen] at hgen
    obtain ⟨k, hk, hfreed, h0⟩ := hm.aged.age x.slot hm.up.1
    have hbound := hm.few
    rw [← hslot] at hgen hk h0
    -- equal generations, and fewer frees than a generation has values: no free at all
    have hz : k = 0 := by
      rw [hgen, UInt32.left_eq_add] at hk
      have hmod : k % 2 ^ 32 = 0 := by
        have := congrArg UInt32.toNat hk
        rwa [UInt32.toNat_ofNat'] at this
      omega
    refine ⟨hm.up, ?_⟩
    rw [hfd, ← hslot, (h0 hz hup.2.1).2, hc]

theorem two_seats_ok :
    (protoV2 = protoV1 ∧ 2 = 2) ∨ (protoV2 = protoV2 ∧ 2 ≤ 2 ∧ 2 ≤ maxSeatsCap) :=
  Or.inr ⟨rfl, by decide, by decide⟩

/-- One client, in slot 0. -/
def oneClient : CLoop (List SendResult) :=
  CLoop.batch ⟨CServer.init ⟨protoV2, 2, 3, 0, two_seats_ok⟩ (fun _ => 0x1234) [],
    fun _ => 0⟩ [⟨.listen, tagListen, false, true, some (1, true), .wouldBlock⟩]

/-- It hangs up, another is accepted, and a second event of the first is still in the batch. -/
def reuseBatch : List EpollEvent := [
  ⟨.client 0, 0, false, true, none, .data []⟩,
  ⟨.listen, tagListen, false, true, some (2, true), .wouldBlock⟩,
  ⟨.client 0, 0, true, true, none, .data []⟩]

theorem served_is_own_reuse :
    ((oneClient.batch reuseBatch).srv.client 0).conn = 1 ∧
    (oneClient.batchServed reuseBatch).length = 1 ∧
    ∀ x ∈ oneClient.batchServed reuseBatch, x.srv.Up x.slot ∧
      x.event.fd = .client (x.srv.client x.slot).conn := by
  refine ⟨by decide +kernel, by decide +kernel, ?_⟩
  have hup : oneClient.srv.Up 0 := by
    unfold Up
    decide +kernel
  have hopen : ∃ ci, oneClient.srv.Up ci ∧ (oneClient.srv.client ci).conn = 0 :=
    ⟨0, hup, by decide +kernel⟩
  refine served_is_own (.round _ (.start _)) ?_ (by decide +kernel)
  intro e he
  rcases List.mem_cons.mp he with rfl | he
  · exact ⟨hopen, by decide +kernel⟩
  · rcases List.mem_cons.mp he with rfl | he
    · rfl
    · cases List.mem_singleton.mp he
      exact ⟨hopen, by decide +kernel⟩

end Turns

end CLoop

end IntvBasketball.Relay
