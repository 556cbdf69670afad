/-
  How the two relays cut a client's byte stream into frames: `Server.service` of
  server/intv_relay_server.py and `feed` / `service` of server/c/src/intv-relay.c.

  Both are given over an arbitrary server behind them: `PyHost` and `CHost` say what
  handle() and drop() do to its state and when this client is dead. Python's handle()
  may raise ProtocolError, which service() turns into a drop; C's handle() drops by
  itself.

  `rxScanner` is the reference: one byte of length, 0 and more than 200 stop the
  stream, else that many bytes follow. `runItems` runs the calls of a list of its
  verdicts until the client is dead. Every cut of a stream gives, in either relay, the
  calls of the whole stream (`service_is_reference`, `feed_is_reference`).
-/
import IntvBasketball.Lib.Stream
import Mathlib.Tactic.SplitIfs

namespace IntvBasketball.Relay

open Lib (Scanner Peek Drained)

/-- A byte on the wire. -/
abbrev Byte := UInt8

/-- What a relay does with the bytes of one client. -/
inductive RxEvent where
  | handle (ftype : Byte) (payload : List Byte)
  | badLength (len : Byte)
  | overflow
deriving DecidableEq, Repr

/-- A recv() result. No bytes means the peer closed. -/
inductive Recv where
  | wouldBlock
  | error
  | data (bytes : List Byte)
deriving DecidableEq, Repr

/-! ## The reference -/

/-- `len` is no legal length byte. -/
def badLen (len : Byte) : Prop := len = 0 ∨ 200 < len.toNat

instance (len : Byte) : Decidable (badLen len) := by unfold badLen; infer_instance

/-- handle() of a frame body: its type byte and the rest. -/
def callOf (body : List Byte) : RxEvent := .handle (body.headD 0) (body.drop 1)

def rxPeek : List Byte → Peek RxEvent
  | [] => .more
  | len :: rest =>
    if badLen len then .halt (.badLength len)
    else if rest.length < len.toNat then .more
    else .emit (callOf (rest.take len.toNat)) (len.toNat + 1)

theorem rxPeek_bad {len : Byte} (rest : List Byte) (h : badLen len) :
    rxPeek (len :: rest) = .halt (.badLength len) := by
  rw [rxPeek, if_pos h]

theorem rxPeek_short {len : Byte} {rest : List Byte} (h : ¬ badLen len)
    (hs : rest.length < len.toNat) : rxPeek (len :: rest) = .more := by
  rw [rxPeek, if_neg h, if_pos hs]

theorem rxPeek_whole {len : Byte} {rest : List Byte} (h : ¬ badLen len)
    (hs : len.toNat ≤ rest.length) :
    rxPeek (len :: rest) = .emit (callOf (rest.take len.toNat)) (len.toNat + 1) := by
  rw [rxPeek, if_neg h, if_neg (Nat.not_lt.mpr hs)]

theorem rxPeek_emit {xs : List Byte} {e : RxEvent} {n : Nat} (h : rxPeek xs = .emit e n) :
    ∃ len rest, xs = len :: rest ∧ ¬ badLen len ∧ len.toNat ≤ rest.length ∧
      e = callOf (rest.take len.toNat) ∧ n = len.toNat + 1 := by
  cases xs with
  | nil => cases h
  | cons len rest =>
    rw [rxPeek] at h
    split_ifs at h with h1 h2
    cases h
    exact ⟨len, rest, rfl, h1, Nat.not_lt.mp h2, rfl, rfl⟩

theorem rxPeek_halt {xs : List Byte} {e : RxEvent} (h : rxPeek xs = .halt e) :
    ∃ len rest, xs = len :: rest ∧ badLen len ∧ e = .badLength len := by
  cases xs with
  | nil => cases h
  | cons len rest =>
    rw [rxPeek] at h
    split_ifs at h with h1 h2
    cases h
    exact ⟨len, rest, rfl, h1, rfl⟩

/-- An incomplete head is at most 200 bytes. -/
theorem length_le_of_more {xs : List Byte} (h : rxPeek xs = .more) : xs.length ≤ 200 := by
  cases xs with
  | nil => exact Nat.zero_le _
  | cons len rest =>
    rw [rxPeek] at h
    split_ifs at h with h1 h2
    rw [badLen, not_or] at h1
    rw [List.length_cons]
    omega

def rxScanner : Scanner Byte RxEvent where
  peek := rxPeek
  emit_pos h := by
    obtain ⟨_, _, -, -, -, -, rfl⟩ := rxPeek_emit h
    exact Nat.succ_pos _
  emit_le h := by
    obtain ⟨_, _, rfl, -, hl, -, rfl⟩ := rxPeek_emit h
    exact Nat.succ_le_succ hl
  emit_append h zs := by
    obtain ⟨_, _, rfl, hb, hl, rfl, rfl⟩ := rxPeek_emit h
    rw [List.cons_append, rxPeek_whole hb (by rw [List.length_append]; omega),
      List.take_append_of_le_length hl]
  halt_append h zs := by
    obtain ⟨_, _, rfl, hb, rfl⟩ := rxPeek_halt h
    exact rxPeek_bad _ hb

/-- A whole stream, parsed at once. -/
def rxReference (xs : List Byte) : Drained Byte RxEvent := rxScanner.drain xs

/-- The reference reports calls and at most one bad length. -/
theorem overflow_not_mem_reference (xs : List Byte) : .overflow ∉ (rxReference xs).out := by
  induction xs using rxScanner.drain_induction with
  | more xs hp =>
    rw [rxReference, rxScanner.drain_of_more hp]
    exact List.not_mem_nil
  | halt xs e hp =>
    obtain ⟨_, _, -, -, rfl⟩ := rxPeek_halt hp
    rw [rxReference, rxScanner.drain_of_halt hp]
    exact nofun
  | emit xs e k hp ih =>
    obtain ⟨_, _, -, -, -, rfl, -⟩ := rxPeek_emit hp
    rw [rxReference, rxScanner.drain_of_emit hp]
    intro h
    rcases List.mem_append.mp h with h | h
    · exact absurd (List.mem_singleton.mp h) nofun
    · exact ih h

/-! ## A server behind the framing -/

/-- What Python's service() needs of the server, for one client. handle() returns the
    text of the ProtocolError it raised, if any. -/
structure PyHost (σ : Type) where
  handle : σ → Byte → List Byte → σ × Option String
  drop : σ → String → σ
  dead : σ → Bool
  dead_drop : ∀ s why, dead (drop s why) = true

/-- What C's feed() needs of the server, for one client. -/
structure CHost (σ : Type) where
  handle : σ → Byte → List Byte → σ
  drop : σ → String → σ
  dead : σ → Bool
  dead_drop : ∀ s why, dead (drop s why) = true

def badText (len : Byte) : String := "bad frame length " ++ toString len.toNat

/-- handle() as service() uses it: a ProtocolError drops the client. -/
def PyHost.handled {σ : Type} (h : PyHost σ) (s : σ) (ftype : Byte) (payload : List Byte) : σ :=
  match h.handle s ftype payload with
  | (s, none) => s
  | (s, some e) => h.drop s e

/-- One verdict of the reference, carried out. -/
def PyHost.act {σ : Type} (h : PyHost σ) (s : σ) : RxEvent → σ
  | .handle ftype payload => h.handled s ftype payload
  | .badLength len => h.drop s (badText len)
  | .overflow => h.drop s "rx overflow"

def CHost.act {σ : Type} (h : CHost σ) (s : σ) : RxEvent → σ
  | .handle ftype payload => h.handle s ftype payload
  | .badLength len => h.drop s (badText len)
  | .overflow => h.drop s "rx overflow"

/-- Carry out verdicts until the client is dead: the state, and those carried out. -/
def runItems {σ : Type} (act : σ → RxEvent → σ) (dead : σ → Bool) (s : σ) :
    List RxEvent → σ × List RxEvent
  | [] => (s, [])
  | e :: es =>
    if dead (act s e) then (act s e, [e])
    else ((runItems act dead (act s e) es).1, e :: (runItems act dead (act s e) es).2)

/-- The state of one connection: the server, the receive buffer, and what was done with
    the bytes so far. -/
structure Conn (σ : Type) where
  srv : σ
  rx : List Byte
  log : List RxEvent

/-! ## Python -/

/-- The loop of `Server.service` over `client.rx`. -/
def serviceLoop {σ : Type} (h : PyHost σ) (c : Conn σ) : Conn σ :=
  match hrx : c.rx with
  | [] => c
  | len :: rest =>
    let need := len.toNat + 1
    if need < 2 ∨ len.toNat > 200 then
      { c with srv := h.drop c.srv (badText len), log := c.log ++ [.badLength len] }
    else if c.rx.length < need then c
    else
      let body := (c.rx.take need).drop 1
      let srv := h.handled c.srv (body.headD 0) (body.drop 1)
      let c := { c with srv, rx := c.rx.drop need, log := c.log ++ [callOf body] }
      if h.dead srv then c else serviceLoop h c
termination_by c.rx.length
decreasing_by
  simp only [List.length_drop, hrx, List.length_cons]
  omega

/-- `Server.service`. -/
def service {σ : Type} (h : PyHost σ) (c : Conn σ) (r : Recv) : Conn σ :=
  match r with
  | .wouldBlock => c
  | .error => { c with srv := h.drop c.srv "recv error" }
  | .data [] => { c with srv := h.drop c.srv "closed" }
  | .data data => serviceLoop h { c with rx := c.rx ++ data }

/-- The event loop over one client: a dead client is served no more. -/
def pyRun {σ : Type} (h : PyHost σ) (c : Conn σ) (rs : List Recv) : Conn σ :=
  rs.foldl (fun c r => if h.dead c.srv then c else service h c r) c

/-! ## C -/

def rxCap : Nat := 256

/-- The state of one connection in C, with the largest value `rx_len` ever had. -/
structure CConn (σ : Type) extends Conn σ where
  maxRx : Nat

/-- The inner loop of `feed`. -/
def feedInner {σ : Type} (h : CHost σ) (c : CConn σ) : CConn σ :=
  match hrx : c.rx with
  | [] => c
  | lenb :: rest =>
    let need := lenb.toNat + 1
    if need < 2 ∨ lenb.toNat > 200 then
      { c with srv := h.drop c.srv (badText lenb), log := c.log ++ [.badLength lenb] }
    else if c.rx.length < need then c
    else
      let body := (c.rx.drop 1).take lenb.toNat
      let srv := h.handle c.srv (body.headD 0) (body.drop 1)
      let c := { c with srv, rx := c.rx.drop need, log := c.log ++ [callOf body] }
      if h.dead srv then c else feedInner h c
termination_by c.rx.length
decreasing_by
  simp only [List.length_drop, hrx, List.length_cons]
  omega

/-- `feed`: fill the buffer as far as there is space, empty it, until `p` is used up. -/
def feed {σ : Type} (h : CHost σ) (c : CConn σ) (p : List Byte) : CConn σ :=
  if p = [] then c
  else
    let space := rxCap - c.rx.length
    if space = 0 then
      { c with srv := h.drop c.srv "rx overflow", log := c.log ++ [.overflow] }
    else
      let take := min p.length space
      let rx := c.rx ++ p.take take
      let c := feedInner h { c with rx, maxRx := max c.maxRx rx.length }
      if h.dead c.srv then c else feed h c (p.drop take)
termination_by p.length
decreasing_by
  have := List.length_pos_iff.mpr (show p ≠ [] by assumption)
  simp only [List.length_drop]
  omega

/-- `service` of the C relay. -/
def cService {σ : Type} (h : CHost σ) (c : CConn σ) (r : Recv) : CConn σ :=
  match r with
  | .wouldBlock => c
  | .error => { c with srv := h.drop c.srv "recv error" }
  | .data [] => { c with srv := h.drop c.srv "closed" }
  | .data data => feed h c data

def cRun {σ : Type} (h : CHost σ) (c : CConn σ) (rs : List Recv) : CConn σ :=
  rs.foldl (fun c r => if h.dead c.srv then c else cService h c r) c

/-! ## One round of either loop -/

/-- A loop over the receive buffer that carries out the reference's verdicts. -/
structure Rounds {σ : Type} (act : σ → RxEvent → σ) (dead : σ → Bool) (loop : Conn σ → Conn σ) :
    Prop where
  more : ∀ c, rxPeek c.rx = .more → loop c = c
  halt : ∀ c e, rxPeek c.rx = .halt e →
    (loop c).srv = act c.srv e ∧ (loop c).log = c.log ++ [e]
  emit : ∀ c e k, rxPeek c.rx = .emit e k →
    loop c = if dead (act c.srv e) then ⟨act c.srv e, c.rx.drop k, c.log ++ [e]⟩
      else loop ⟨act c.srv e, c.rx.drop k, c.log ++ [e]⟩

theorem not_badLen {len : Byte} (h : ¬ badLen len) : ¬ (len.toNat + 1 < 2 ∨ len.toNat > 200) := by
  rw [badLen, not_or] at h
  have : len.toNat ≠ 0 := fun h0 => h.1 (UInt8.toNat_inj.mp h0)
  omega

theorem of_badLen {len : Byte} (h : badLen len) : len.toNat + 1 < 2 ∨ len.toNat > 200 := by
  rcases h with rfl | h
  · exact Or.inl (by decide)
  · exact Or.inr h

theorem rounds_serviceLoop {σ : Type} (h : PyHost σ) : Rounds h.act h.dead (serviceLoop h) where
  more c hp := by
    obtain ⟨srv, rx, log⟩ := c
    rw [serviceLoop]
    split
    · rfl
    · next len rest hrx =>
      dsimp only at hrx hp
      subst hrx
      rw [rxPeek] at hp
      split_ifs at hp with hb hs
      rw [if_neg (not_badLen hb), if_pos (by simp only [List.length_cons]; omega)]
  halt c e hp := by
    obtain ⟨srv, rx, log⟩ := c
    obtain ⟨len, rest, hrx, hb, rfl⟩ := rxPeek_halt hp
    dsimp only at hrx
    subst hrx
    rw [serviceLoop]
    dsimp only
    rw [if_pos (of_badLen hb)]
    exact ⟨rfl, rfl⟩
  emit c e k hp := by
    obtain ⟨srv, rx, log⟩ := c
    obtain ⟨len, rest, hrx, hb, hl, rfl, rfl⟩ := rxPeek_emit hp
    dsimp only at hrx
    subst hrx
    rw [serviceLoop]
    dsimp only
    rw [if_neg (not_badLen hb), if_neg (by simp only [List.length_cons]; omega)]
    rfl

theorem feedInner_more {σ : Type} (h : CHost σ) (c : CConn σ) (hp : rxPeek c.rx = .more) :
    feedInner h c = c := by
  obtain ⟨⟨srv, rx, log⟩, n⟩ := c
  rw [feedInner]
  split
  · rfl
  · next len rest hrx =>
    dsimp only at hrx hp
    subst hrx
    rw [rxPeek] at hp
    split_ifs at hp with hb hs
    rw [if_neg (not_badLen hb), if_pos (by simp only [List.length_cons]; omega)]

theorem feedInner_halt {σ : Type} (h : CHost σ) (c : CConn σ) {e : RxEvent}
    (hp : rxPeek c.rx = .halt e) :
    feedInner h c = { c with srv := h.act c.srv e, log := c.log ++ [e] } := by
  obtain ⟨⟨srv, rx, log⟩, n⟩ := c
  obtain ⟨len, rest, hrx, hb, rfl⟩ := rxPeek_halt hp
  dsimp only at hrx
  subst hrx
  rw [feedInner]
  dsimp only
  rw [if_pos (of_badLen hb)]
  rfl

theorem feedInner_emit {σ : Type} (h : CHost σ) (c : CConn σ) {e : RxEvent} {k : Nat}
    (hp : rxPeek c.rx = .emit e k) :
    feedInner h c =
      if h.dead (h.act c.srv e) then ⟨⟨h.act c.srv e, c.rx.drop k, c.log ++ [e]⟩, c.maxRx⟩
      else feedInner h ⟨⟨h.act c.srv e, c.rx.drop k, c.log ++ [e]⟩, c.maxRx⟩ := by
  obtain ⟨⟨srv, rx, log⟩, n⟩ := c
  obtain ⟨len, rest, hrx, hb, hl, rfl, rfl⟩ := rxPeek_emit hp
  dsimp only at hrx
  subst hrx
  rw [feedInner]
  dsimp only
  rw [if_neg (not_badLen hb), if_neg (by simp only [List.length_cons]; omega)]
  rfl

theorem feedInner_maxRx {σ : Type} (h : CHost σ) (c : CConn σ) :
    (feedInner h c).maxRx = c.maxRx := by
  obtain ⟨⟨srv, rx, log⟩, n⟩ := c
  induction rx using rxScanner.drain_induction generalizing srv log with
  | more rx hp => rw [feedInner_more h ⟨⟨srv, rx, log⟩, n⟩ hp]
  | halt rx e hp => rw [feedInner_halt h ⟨⟨srv, rx, log⟩, n⟩ hp]
  | emit rx e k hp ih =>
    rw [feedInner_emit h ⟨⟨srv, rx, log⟩, n⟩ hp]
    split
    · rfl
    · exact ih _ _

theorem rounds_feedInner {σ : Type} (h : CHost σ) (n : Nat) :
    Rounds h.act h.dead (fun c => (feedInner h ⟨c, n⟩).toConn) where
  more c hp := by rw [feedInner_more h _ hp]
  halt c e hp := by
    rw [feedInner_halt h _ hp]
    exact ⟨rfl, rfl⟩
  emit c e k hp := by
    rw [feedInner_emit h _ hp]
    split <;> rfl

/-! ## Runs of verdicts -/

section Items
variable {σ : Type} {act : σ → RxEvent → σ} {dead : σ → Bool}

theorem runItems_append_dead {s : σ} {xs : List RxEvent} (hs : dead s = false)
    (h : dead (runItems act dead s xs).1 = true) (ys : List RxEvent) :
    runItems act dead s (xs ++ ys) = runItems act dead s xs := by
  induction xs generalizing s with
  | nil =>
    rw [runItems, hs] at h
    cases h
  | cons e es ih =>
    rw [List.cons_append, runItems, runItems]
    by_cases hd : dead (act s e) = true
    · rw [if_pos hd, if_pos hd]
    · rw [runItems, if_neg hd] at h
      rw [if_neg hd, if_neg hd, ih (Bool.eq_false_iff.mpr hd) h]

theorem runItems_append {s : σ} {xs : List RxEvent}
    (h : dead (runItems act dead s xs).1 = false) (ys : List RxEvent) :
    runItems act dead s (xs ++ ys) =
      ((runItems act dead (runItems act dead s xs).1 ys).1,
        (runItems act dead s xs).2 ++ (runItems act dead (runItems act dead s xs).1 ys).2) := by
  induction xs generalizing s with
  | nil => rfl
  | cons e es ih =>
    rw [List.cons_append, runItems]
    by_cases hd : dead (act s e) = true
    · rw [runItems, if_pos hd] at h
      rw [hd] at h
      cases h
    · rw [runItems, if_neg hd] at h
      rw [if_neg hd, runItems, if_neg hd, ih h]
      rfl

/-- A bad length leaves the client dead. -/
theorem runItems_halted (hbad : ∀ s len, dead (act s (.badLength len)) = true) (s : σ)
    (xs : List Byte) (h : (rxReference xs).halted = true) :
    dead (runItems act dead s (rxReference xs).out).1 = true := by
  induction xs using rxScanner.drain_induction generalizing s with
  | more xs hp =>
    rw [rxReference, rxScanner.drain_of_more hp] at h
    cases h
  | halt xs e hp =>
    obtain ⟨len, _, -, -, rfl⟩ := rxPeek_halt hp
    rw [rxReference, rxScanner.drain_of_halt hp, runItems, if_pos (hbad s len)]
    exact hbad s len
  | emit xs e k hp ih =>
    rw [rxReference, rxScanner.drain_of_emit hp] at h ⊢
    rw [Drained.before_out, List.singleton_append, runItems]
    by_cases hd : dead (act s e) = true
    · rw [if_pos hd]
      exact hd
    · rw [if_neg hd]
      exact ih _ h

/-- Only the reference's verdicts are carried out. -/
theorem mem_runItems {s : σ} {es : List RxEvent} {e : RxEvent}
    (h : e ∈ (runItems act dead s es).2) : e ∈ es := by
  induction es generalizing s with
  | nil => exact h
  | cons d es ih =>
    rw [runItems] at h
    split at h
    · exact List.mem_cons.mpr (Or.inl (List.mem_singleton.mp h))
    · exact List.mem_cons.mpr ((List.mem_cons.mp h).imp_right ih)

/-- What a loop over the buffer comes to. -/
theorem Rounds.run {loop : Conn σ → Conn σ} (hl : Rounds act dead loop) (c : Conn σ) :
    (loop c).srv = (runItems act dead c.srv (rxReference c.rx).out).1 ∧
    (loop c).log = c.log ++ (runItems act dead c.srv (rxReference c.rx).out).2 ∧
    (dead (loop c).srv = false → (rxReference c.rx).halted = false →
      (loop c).rx = (rxReference c.rx).rest) := by
  obtain ⟨srv, rx, log⟩ := c
  induction rx using rxScanner.drain_induction generalizing srv log with
  | more rx hp =>
    rw [hl.more ⟨srv, rx, log⟩ hp, rxReference, rxScanner.drain_of_more hp]
    exact ⟨rfl, (List.append_nil _).symm, fun _ _ => rfl⟩
  | halt rx e hp =>
    obtain ⟨hsrv, hlog⟩ := hl.halt ⟨srv, rx, log⟩ e hp
    rw [hsrv, hlog, rxReference, rxScanner.drain_of_halt hp]
    refine ⟨?_, ?_, fun _ h => absurd h nofun⟩
    · rw [runItems]
      split <;> rfl
    · rw [runItems]
      split <;> rfl
  | emit rx e k hp ih =>
    rw [hl.emit ⟨srv, rx, log⟩ e k hp, rxReference, rxScanner.drain_of_emit hp, Drained.before_out,
      List.singleton_append, runItems]
    by_cases hd : dead (act srv e) = true
    · rw [if_pos hd, if_pos hd]
      exact ⟨rfl, rfl, fun h => absurd hd (by rw [h]; exact Bool.false_ne_true)⟩
    · rw [if_neg hd, if_neg hd]
      obtain ⟨h1, h2, h3⟩ := ih (act srv e) (log ++ [e])
      refine ⟨h1, ?_, h3⟩
      rw [h2, List.append_assoc]
      rfl

/-- Where a connection stands after the bytes `xs`. -/
structure Ran (act : σ → RxEvent → σ) (dead : σ → Bool) (s : σ) (xs : List Byte) (c : Conn σ) :
    Prop where
  srv_eq : c.srv = (runItems act dead s (rxReference xs).out).1
  log_eq : c.log = (runItems act dead s (rxReference xs).out).2
  rx_eq : dead c.srv = false → c.rx = (rxReference xs).rest

/-- Bytes for a dead client change nothing. -/
theorem Ran.dead_append {s : σ} {xs : List Byte} {c : Conn σ} (h : Ran act dead s xs c)
    (hs : dead s = false) (hd : dead c.srv = true) (ys : List Byte) :
    Ran act dead s (xs ++ ys) c := by
  have happ : runItems act dead s (rxReference (xs ++ ys)).out =
      runItems act dead s (rxReference xs).out := by
    rw [rxReference, rxScanner.drain_append]
    split
    · rfl
    · exact runItems_append_dead hs (by rw [← rxReference, ← h.srv_eq]; exact hd) _
  exact ⟨by rw [happ, h.srv_eq], by rw [happ, h.log_eq], fun h0 => absurd hd (by rw [h0]; exact Bool.false_ne_true)⟩

theorem Ran.not_halted {s : σ} {xs : List Byte} {c : Conn σ} (h : Ran act dead s xs c)
    (hbad : ∀ s len, dead (act s (.badLength len)) = true) (hd : dead c.srv = false) :
    (rxReference xs).halted = false := by
  rw [← Bool.not_eq_true]
  intro hh
  rw [h.srv_eq, runItems_halted hbad s xs hh] at hd
  cases hd

/-- Less than a frame waits in the buffer of a live client. -/
theorem Ran.rx_length_le {s : σ} {xs : List Byte} {c : Conn σ} (h : Ran act dead s xs c)
    (hbad : ∀ s len, dead (act s (.badLength len)) = true) (hd : dead c.srv = false) :
    c.rx.length ≤ 200 := by
  rw [h.rx_eq hd]
  exact length_le_of_more (rxScanner.peek_drain_rest xs (h.not_halted hbad hd))

/-- A loop run on a live client whose buffer grew by `ys`. -/
theorem Ran.loop {s : σ} {xs : List Byte} {c : Conn σ} (h : Ran act dead s xs c)
    (hbad : ∀ s len, dead (act s (.badLength len)) = true) (hd : dead c.srv = false)
    {loop : Conn σ → Conn σ} (hl : Rounds act dead loop) (ys : List Byte) :
    Ran act dead s (xs ++ ys) (loop { c with rx := c.rx ++ ys }) := by
  have hhalt := h.not_halted hbad hd
  obtain ⟨srv, rx, log⟩ := c
  obtain ⟨hsrv, hlog, hrx⟩ := h
  dsimp only at hsrv hlog hrx hd ⊢
  replace hrx := hrx hd
  subst hsrv hlog hrx
  have happ : rxReference (xs ++ ys) =
      (rxReference ((rxReference xs).rest ++ ys)).before (rxReference xs).out := by
    have := rxScanner.drain_append xs ys
    rwa [show rxScanner.drain xs = rxReference xs from rfl, hhalt] at this
  have hrun := runItems_append hd (rxReference ((rxReference xs).rest ++ ys)).out
  obtain ⟨h1, h2, h3⟩ := hl.run ⟨_, (rxReference xs).rest ++ ys, (runItems act dead s
    (rxReference xs).out).2⟩
  refine ⟨?_, ?_, fun h0 => ?_⟩
  · rw [h1, happ, Drained.before_out, hrun]
  · rw [h2, happ, Drained.before_out, hrun]
  · rw [happ]
    refine h3 h0 ?_
    rw [← Bool.not_eq_true]
    intro hh
    rw [h1, runItems_halted hbad _ _ hh] at h0
    cases h0

end Items

/-! ## Whole runs -/

/-- The bytes a list of recv() results delivers. -/
def delivered : List Recv → List Byte
  | [] => []
  | .wouldBlock :: rs => delivered rs
  | .error :: rs => delivered rs
  | .data bytes :: rs => bytes ++ delivered rs

/-- recv() found bytes, or nothing yet. -/
def Recv.Open : Recv → Prop
  | .wouldBlock => True
  | .error => False
  | .data bytes => bytes ≠ []

theorem PyHost.dead_bad {σ : Type} (h : PyHost σ) (s : σ) (len : Byte) :
    h.dead (h.act s (.badLength len)) = true := h.dead_drop s _

theorem CHost.dead_bad {σ : Type} (h : CHost σ) (s : σ) (len : Byte) :
    h.dead (h.act s (.badLength len)) = true := h.dead_drop s _

theorem ran_start {σ : Type} (act : σ → RxEvent → σ) (dead : σ → Bool) (s : σ) :
    Ran act dead s [] ⟨s, [], []⟩ := ⟨rfl, rfl, fun _ => rfl⟩

theorem pyRun_ran {σ : Type} (h : PyHost σ) {s : σ} (hs : h.dead s = false) (rs : List Recv)
    (hrs : ∀ r ∈ rs, r.Open) {xs : List Byte} {c : Conn σ} (hc : Ran h.act h.dead s xs c) :
    Ran h.act h.dead s (xs ++ delivered rs) (pyRun h c rs) := by
  induction rs generalizing xs c with
  | nil => rwa [delivered, List.append_nil]
  | cons r rs ih =>
    have hr := hrs r List.mem_cons_self
    replace hrs := fun r' hr' => hrs r' (List.mem_cons_of_mem _ hr')
    rw [pyRun, List.foldl_cons, ← pyRun]
    cases r with
    | wouldBlock =>
      rw [delivered]
      split <;> exact ih hrs hc
    | error => exact absurd hr not_false
    | data bytes =>
      rw [delivered, ← List.append_assoc]
      refine ih hrs ?_
      by_cases hd : h.dead c.srv = true
      · rw [if_pos hd]
        exact hc.dead_append hs hd bytes
      · rw [if_neg hd]
        cases bytes with
        | nil => exact absurd rfl hr
        | cons b bytes => exact hc.loop h.dead_bad (Bool.eq_false_iff.mpr hd) (rounds_serviceLoop h) _

/-- feed() on a live client whose buffer holds less than a frame: the calls are those of
    the reference, the buffer never overflows, and `rx_len` stays within RX_CAP. -/
theorem feed_ran {σ : Type} (h : CHost σ) {s : σ} (hs : h.dead s = false) {xs : List Byte}
    {c : CConn σ} (hc : Ran h.act h.dead s xs c.toConn) (hd : h.dead c.srv = false)
    (hm : c.maxRx ≤ rxCap) (p : List Byte) :
    Ran h.act h.dead s (xs ++ p) (feed h c p).toConn ∧ (feed h c p).maxRx ≤ rxCap := by
  induction hn : p.length using Nat.strongRecOn generalizing xs c p with
  | ind n ih =>
    by_cases hp : p = []
    · rw [feed, if_pos hp, hp, List.append_nil]
      exact ⟨hc, hm⟩
    · have hpos := List.length_pos_iff.mpr hp
      have hlen := hc.rx_length_le h.dead_bad hd
      obtain ⟨⟨srv, rx, log⟩, m⟩ := c
      dsimp only at hc hd hm hlen
      rw [feed, if_neg hp]
      dsimp only
      rw [if_neg (by unfold rxCap; omega)]
      generalize htake : min p.length (rxCap - rx.length) = n1
      have hran := hc.loop h.dead_bad hd
        (rounds_feedInner h (max m (rx ++ p.take n1).length)) (p.take n1)
      have hm1 : (feedInner h ⟨⟨srv, rx ++ p.take n1, log⟩,
          max m (rx ++ p.take n1).length⟩).maxRx ≤ rxCap := by
        rw [feedInner_maxRx]
        dsimp only
        rw [List.length_append, List.length_take]
        unfold rxCap at *
        omega
      dsimp only at hran
      generalize feedInner h ⟨⟨srv, rx ++ p.take n1, log⟩,
        max m (rx ++ p.take n1).length⟩ = c1 at hran hm1 ⊢
      split
      · next hd1 =>
        refine ⟨?_, hm1⟩
        have := hran.dead_append hs hd1 (p.drop n1)
        rwa [List.append_assoc, List.take_append_drop] at this
      · next hd1 =>
        have := ih (p.drop n1).length (by rw [List.length_drop]; unfold rxCap at htake; omega)
          hran (Bool.eq_false_iff.mpr hd1) hm1 (p.drop n1) rfl
        rwa [List.append_assoc, List.take_append_drop] at this

theorem cRun_ran {σ : Type} (h : CHost σ) {s : σ} (hs : h.dead s = false) (rs : List Recv)
    (hrs : ∀ r ∈ rs, r.Open) {xs : List Byte} {c : CConn σ}
    (hc : Ran h.act h.dead s xs c.toConn) (hm : c.maxRx ≤ rxCap) :
    Ran h.act h.dead s (xs ++ delivered rs) (cRun h c rs).toConn ∧
      (cRun h c rs).maxRx ≤ rxCap := by
  induction rs generalizing xs c with
  | nil =>
    rw [delivered, List.append_nil]
    exact ⟨hc, hm⟩
  | cons r rs ih =>
    have hr := hrs r List.mem_cons_self
    replace hrs := fun r' hr' => hrs r' (List.mem_cons_of_mem _ hr')
    rw [cRun, List.foldl_cons, ← cRun]
    cases r with
    | wouldBlock =>
      rw [delivered]
      split <;> exact ih hrs hc hm
    | error => exact absurd hr not_false
    | data bytes =>
      rw [delivered, ← List.append_assoc]
      by_cases hd : h.dead c.srv = true
      · rw [if_pos hd]
        exact ih hrs (hc.dead_append hs hd bytes) hm
      · rw [if_neg hd]
        cases bytes with
        | nil => exact absurd rfl hr
        | cons b bytes =>
          obtain ⟨h1, h2⟩ := feed_ran h hs hc (Bool.eq_false_iff.mpr hd) hm (b :: bytes)
          exact ih hrs h1 h2

/-- Two servers that agree on who is dead carry out the same verdicts. -/
theorem runItems_agree {σ τ : Type} (p : PyHost σ) (q : CHost τ) (ρ : σ → τ → Prop)
    (hρ : ∀ s t, ρ s t → ∀ f b, ρ (p.handled s f b) (q.handle t f b))
    (hdead : ∀ s t, ρ s t → p.dead s = q.dead t) {s : σ} {t : τ} (h : ρ s t)
    (es : List RxEvent) :
    (runItems p.act p.dead s es).2 = (runItems q.act q.dead t es).2 := by
  induction es generalizing s t with
  | nil => rfl
  | cons e es ih =>
    rw [runItems, runItems]
    cases e with
    | handle f b =>
      have h1 := hρ s t h f b
      have hd : p.dead (p.act s (.handle f b)) = q.dead (q.act t (.handle f b)) := hdead _ _ h1
      rw [hd]
      split
      · rfl
      · exact congrArg _ (ih h1)
    | badLength len => rw [if_pos (p.dead_bad s len), if_pos (q.dead_bad t len)]
    | overflow =>
      have hp : p.dead (p.act s .overflow) = true := p.dead_drop s _
      have hq : q.dead (q.act t .overflow) = true := q.dead_drop t _
      rw [if_pos hp, if_pos hq]

/-- Any byte stream, cut in any way into recv() results. Either relay makes the handle()
    calls of the whole stream parsed at once, up to the one that leaves the client dead,
    and drops it for a bad length byte at that place. The C buffer never holds more than
    RX_CAP bytes and never overflows. If the two servers agree on who is dead, the calls
    are the same. -/
theorem relays_frame_alike {σ τ : Type} (p : PyHost σ) (q : CHost τ) (s : σ) (t : τ)
    (rs : List Recv) (hrs : ∀ r ∈ rs, r.Open) (hs : p.dead s = false) (ht : q.dead t = false) :
    let items := (rxReference (delivered rs)).out
    let py := pyRun p ⟨s, [], []⟩ rs
    let c := cRun q ⟨⟨t, [], []⟩, 0⟩ rs
    (py.srv, py.log) = runItems p.act p.dead s items ∧
    (c.srv, c.log) = runItems q.act q.dead t items ∧
    c.maxRx ≤ rxCap ∧ .overflow ∉ c.log ∧
    ∀ ρ : σ → τ → Prop, ρ s t →
      (∀ s t, ρ s t → ∀ f b, ρ (p.handled s f b) (q.handle t f b)) →
      (∀ s t, ρ s t → p.dead s = q.dead t) → py.log = c.log := by
  intro items py c
  have hpy := pyRun_ran p hs rs hrs (ran_start p.act p.dead s)
  obtain ⟨hc, hmax⟩ := cRun_ran q ht rs hrs (c := ⟨⟨t, [], []⟩, 0⟩) (ran_start q.act q.dead t)
    (Nat.zero_le _)
  rw [List.nil_append] at hpy hc
  refine ⟨Prod.ext hpy.srv_eq hpy.log_eq, Prod.ext hc.srv_eq hc.log_eq, hmax, ?_, ?_⟩
  · intro hmem
    have hmem : RxEvent.overflow ∈ (runItems q.act q.dead t items).2 := hc.log_eq ▸ hmem
    exact overflow_not_mem_reference _ (mem_runItems hmem)
  · intro ρ h hρ hdead
    have := runItems_agree p q ρ hρ hdead h items
    rwa [← hpy.log_eq, ← hc.log_eq] at this

/-- A server reduced to PING and BYE, its state being whether the client is dead. -/
def pingByePy : PyHost Bool where
  handle s ftype _ :=
    if ftype = 0x0C then (s, none)
    else if ftype = 0x0A then (true, none)
    else (s, some "unknown type")
  drop _ _ := true
  dead s := s
  dead_drop _ _ := rfl

def pingByeC : CHost Bool where
  handle s ftype _ := if ftype = 0x0C then s else true
  drop _ _ := true
  dead s := s
  dead_drop _ _ := rfl

/-- PING, BYE and a bad length byte in three recv() results. -/
theorem relays_frame_alike_pingBye :
    let rs := [.data [1], .wouldBlock, .data [0x0C, 1, 0x0A, 0]]
    let items := (rxReference (delivered rs)).out
    let py := pyRun pingByePy ⟨false, [], []⟩ rs
    let c := cRun pingByeC ⟨⟨false, [], []⟩, 0⟩ rs
    (py.srv, py.log) = runItems pingByePy.act pingByePy.dead false items ∧
    (c.srv, c.log) = runItems pingByeC.act pingByeC.dead false items ∧
    c.maxRx ≤ rxCap ∧ .overflow ∉ c.log ∧
    ∀ ρ : Bool → Bool → Prop, ρ false false →
      (∀ s t, ρ s t → ∀ f b, ρ (pingByePy.handled s f b) (pingByeC.handle t f b)) →
      (∀ s t, ρ s t → pingByePy.dead s = pingByeC.dead t) → py.log = c.log :=
  relays_frame_alike pingByePy pingByeC false false [.data [1], .wouldBlock, .data [0x0C, 1, 0x0A, 0]]
    (by
      intro r hr
      simp only [List.mem_cons, List.not_mem_nil, or_false] at hr
      rcases hr with rfl | rfl | rfl
      · exact List.cons_ne_nil _ _
      · trivial
      · exact List.cons_ne_nil _ _) rfl rfl

end IntvBasketball.Relay
