/-
  server/intv_relay_server.py: the matchmaking and relay server.

  Client and Room objects are numbered in the order they are made, and never reused.
  `by_name` is a Python dict: an association list in insertion order. A Python string is
  a list of code points; decode("ascii", "replace") gives U+FFFD for bytes from $80 on.

  What becomes of a frame handed to send() is a matter of `net`, whatever stands behind
  it (`Transport`): the frame is queued, refused because the backlog is full, or queued
  but failing in flush(). The simplest transport is a list of these results; when it has
  run out every send is queued. A failing send drops its client from inside send(), and
  drop() may send again: `dropN n` is drop() while at most `n` further clients are
  connected, and each drop disconnects one.

  `queued` records every frame appended to a client's `tx`, whether the relay made it
  itself, and the room it is about; `matched` every frame of a relay type that a matched
  client sent. Both are only recorded. The checksum log of handle() and the Lobby
  publisher have no effect on clients, rooms or frames, and are left out.
-/
import IntvBasketball.Relay.Framing
import Mathlib.Data.List.DropRight

namespace IntvBasketball.Relay

/-! ## Protocol constants -/

def tHello : Byte := 0x01
def tList : Byte := 0x02
def tLobby : Byte := 0x03
def tJoin : Byte := 0x04
def tStart : Byte := 0x05
def tInput : Byte := 0x06
def tCrc : Byte := 0x07
def tState : Byte := 0x08
def tResync : Byte := 0x09
def tBye : Byte := 0x0A
def tPeerLeft : Byte := 0x0B
def tPing : Byte := 0x0C
def tPong : Byte := 0x0D
def tRoom : Byte := 0x0E
def tGo : Byte := 0x0F

def relayTypes : List Byte := [tInput, tCrc, tState, tResync]

def protoVer : Byte := 2
def maxSeats : Nat := 2
def rosterSlots : Nat := 4
def maxClients : Nat := 64
def maxConnectionsPerIp : Nat := 8

/-- `frame`. -/
def frame (ftype : Byte) (payload : List Byte) : List Byte :=
  UInt8.ofNat (payload.length + 1) :: ftype :: payload

/-! ## Names -/

/-- A Python string. -/
abbrev Str := List Nat

/-- bytes.decode("ascii", "replace"). -/
def decodeAscii (bs : List Byte) : Str := bs.map (fun b => if b < 0x80 then b.toNat else 0xFFFD)

/-- str.rstrip("\\0 "). -/
def rstrip (s : Str) : Str := s.rdropWhile (fun ch => ch = 0 ∨ ch = 32)

/-- Membership in NAME_CHARS. -/
def nameChar (ch : Nat) : Bool := (65 ≤ ch ∧ ch ≤ 90) ∨ (48 ≤ ch ∧ ch ≤ 57)

/-- `pad_name`. -/
def padName (name : Str) : List Byte :=
  let bs := (name.map UInt8.ofNat).take 8
  bs ++ List.replicate (8 - bs.length) 0

/-! ## Data -/

structure Client where
  addr : Nat
  name : Option Str
  room : Option Nat
  dead : Bool
deriving DecidableEq, Repr

structure Room where
  members : List Nat
  started : Bool
  seed : UInt16
deriving DecidableEq, Repr

/-- What happens to a frame handed to send(). -/
inductive SendResult where
  | queued | backlog | error
deriving DecidableEq, Repr

/-- The sockets: what happens to a frame for a client, and whether a client's socket takes
    the rest of its backlog (`false`: it is broken). -/
class Transport (σ : Type) where
  send : σ → Nat → List Byte → σ × SendResult
  flush : σ → Nat → σ × Bool

/-- One result after the other, whoever the frame is for. -/
instance : Transport (List SendResult) where
  send net _ _ :=
    match net with
    | [] => ([], .queued)
    | r :: net => (net, r)
  flush net _ :=
    match net with
    | [] => ([], true)
    | r :: net => (net, r ≠ .error)

/-- A frame appended to the `tx` of `dest`; `origin` is the client it was relayed for,
    `about` the room whose members it tells something. -/
structure Sent where
  dest : Nat
  origin : Option Nat
  about : Option Nat
  bytes : List Byte
deriving DecidableEq, Repr

/-- A relay-type frame a matched client sent to its room. -/
structure Matched where
  sender : Nat
  room : Nat
  ftype : Byte
  payload : List Byte
deriving DecidableEq, Repr

structure Server (σ : Type) where
  client : Nat → Client
  room : Nat → Room
  clients : List Nat
  byName : List (Str × Nat)
  nextClient : Nat
  nextRoom : Nat
  delay : Int
  autoGo : Nat
  seeds : Nat → UInt16
  nextSeed : Nat
  net : σ
  rx : Nat → List Byte
  queued : List Sent
  matched : List Matched

namespace Server
variable {σ : Type}

/-- A server with nobody connected. -/
def init (delay : Int) (autoGo : Nat) (seeds : Nat → UInt16) (net : σ) : Server σ where
  client _ := ⟨0, none, none, false⟩
  room _ := ⟨[], false, 0⟩
  clients := []
  byName := []
  nextClient := 0
  nextRoom := 0
  delay := delay
  autoGo := autoGo
  seeds := seeds
  nextSeed := 0
  net := net
  rx _ := []
  queued := []
  matched := []

def modClient (s : Server σ) (c : Nat) (f : Client → Client) : Server σ :=
  { s with client := fun i => if i = c then f (s.client i) else s.client i }

def modRoom (s : Server σ) (r : Nat) (f : Room → Room) : Server σ :=
  { s with room := fun i => if i = r then f (s.room i) else s.room i }

/-- `client.name`, as pad_name() reads it. -/
def nameOf (s : Server σ) (c : Nat) : Str := (s.client c).name.getD []

/-- `Room.roster`. -/
def roster (s : Server σ) (r : Nat) : List Byte :=
  ((s.room r).members.map (fun m => padName (s.nameOf m))).flatten ++
    List.replicate (8 * (rosterSlots - (s.room r).members.length)) 0

/-- `for m in room.members`: the list is looked up at every step, so members removed on
    the way shorten the loop. -/
def eachMember (f : Server σ → Nat → Nat → Server σ) (r : Nat) : Nat → Nat → Server σ → Server σ
  | 0, _, s => s
  | n + 1, i, s =>
    match (s.room r).members[i]? with
    | none => s
    | some m => eachMember f r n (i + 1) (f s i m)

/-- The frames queued for a client, and their bytes. -/
def sentTo (s : Server σ) (c : Nat) : List Sent := s.queued.filter (fun q => q.dest = c)

def bytesTo (s : Server σ) (c : Nat) : List Byte := ((s.sentTo c).map Sent.bytes).flatten

/-! ## Sending and dropping -/

/-- Append to `client.tx`. -/
def push (s : Server σ) (c : Nat) (origin about : Option Nat) (data : List Byte) : Server σ :=
  { s with queued := s.queued ++ [⟨c, origin, about, data⟩] }

section Via
variable [Transport σ] (dropF : Server σ → Nat → String → Server σ)

/-- `send`, dropping with `dropF`. -/
def sendVia (s : Server σ) (c : Nat) (origin about : Option Nat) (data : List Byte) : Server σ :=
  if (s.client c).dead then s
  else
    match Transport.send s.net c data with
    | (net, .queued) => { s with net }.push c origin about data
    | (net, .backlog) => dropF { s with net } c "transmit backlog exceeded"
    | (net, .error) => dropF ({ s with net }.push c origin about data) c "send error"

/-- `room_broadcast`. -/
def broadcastVia (s : Server σ) (r : Nat) : Server σ :=
  let n := (s.room r).members.length
  let payload := UInt8.ofNat n :: s.roster r
  eachMember (fun s _ m => s.sendVia dropF m none (some r) (frame tRoom payload)) r n 0 s

/-- `dissolve`. -/
def dissolveVia (s : Server σ) (r : Nat) (notify : List Nat) : Server σ :=
  let s := (s.room r).members.foldl (fun s m => s.modClient m ({ · with room := none })) s
  let s := notify.foldl
    (fun s m => s.sendVia dropF m none (some r) (frame tRoom (0 :: List.replicate 32 0))) s
  s.modRoom r ({ · with members := [] })

/-- The end of `drop` for a client that sat at `seat` of room `r`, already removed. -/
def leaveVia (s : Server σ) (c r seat : Nat) : Server σ :=
  let members := (s.room r).members
  if (s.room r).started then
    let pl := frame tPeerLeft (UInt8.ofNat seat :: padName (s.nameOf c))
    members.foldl (fun s m => s.sendVia dropF m none (some r) pl) (s.dissolveVia dropF r [])
  else if seat = 0 then s.dissolveVia dropF r members
  else if members.length < 2 then s.dissolveVia dropF r members
  else s.broadcastVia dropF r

/-- The start of `drop`: the client is dead, and every name that points to it is gone. -/
def kill (s : Server σ) (c : Nat) : Server σ :=
  let s := s.modClient c ({ · with dead := true })
  { s with clients := s.clients.erase c, byName := s.byName.filter (fun e => e.2 ≠ c) }

/-- `drop`. -/
def dropVia (s : Server σ) (c : Nat) : Server σ :=
  if (s.client c).dead then s
  else
    let s := s.kill c
    match (s.client c).room with
    | none => s
    | some r =>
      let seat := (s.room r).members.idxOf c
      let s := s.modClient c ({ · with room := none })
      let s := s.modRoom r (fun room => { room with members := room.members.erase c })
      s.leaveVia dropF c r seat

end Via

/-- `drop` while at most so many other clients are connected; the reason is only logged. -/
def dropN [Transport σ] : Nat → Server σ → Nat → String → Server σ
  | 0, s, c, _ => s.dropVia (fun s _ _ => s) c
  | n + 1, s, c, _ => s.dropVia (dropN n) c

def drop [Transport σ] (s : Server σ) (c : Nat) (why : String) : Server σ :=
  dropN s.clients.length s c why

def send [Transport σ] (s : Server σ) (c : Nat) (origin about : Option Nat) (data : List Byte) :
    Server σ :=
  s.sendVia drop c origin about data

def roomBroadcast [Transport σ] (s : Server σ) (r : Nat) : Server σ := s.broadcastVia drop r

/-! ## Protocol -/

/-- `by_name.get`. -/
def lookup (s : Server σ) (name : Str) : Option Nat :=
  (s.byName.find? (fun e => e.1 = name)).map (·.2)

/-- `by_name[name] = client`: in place if the key is there, else at the end. -/
def setName (s : Server σ) (name : Str) (c : Nat) : Server σ :=
  if (s.lookup name).isSome then
    { s with byName := s.byName.map (fun e => if e.1 = name then (name, c) else e) }
  else { s with byName := s.byName ++ [(name, c)] }

/-- `_status`. -/
def status (s : Server σ) (c : Nat) : Byte :=
  match (s.client c).room with
  | none => 1
  | some r =>
    let n := (s.room r).members.length
    (if (s.room r).started ∨ maxSeats ≤ n then 0x80 else 0) ||| UInt8.ofNat n

/-- `on_list`. -/
def onList [Transport σ] (s : Server σ) (c : Nat) : Server σ :=
  let others := ((s.byName.map (·.2)).filter (fun o => o ≠ c ∧ s.nameOf o ≠ [])).take 8
  let entries := (others.map (fun o => padName (s.nameOf o) ++ [s.status o])).flatten
  s.send c none none (frame tLobby (UInt8.ofNat others.length :: entries))

/-- HELLO with a name another client has: that one is dropped. -/
def replaceOld [Transport σ] (s : Server σ) (c : Nat) (name : Str) : Server σ :=
  match s.lookup name with
  | some old => if old = c then s else s.drop old "replaced by new connection"
  | none => s

/-- A repeated HELLO with a new name: the old alias goes. -/
def unalias (s : Server σ) (c : Nat) (name : Str) : Server σ :=
  match (s.client c).name with
  | some was =>
    if was ≠ name ∧ s.lookup was = some c then
      { s with byName := s.byName.filter (fun e => e.1 ≠ was) }
    else s
  | none => s

/-- `on_hello` once the name is accepted. -/
def hello [Transport σ] (s : Server σ) (c : Nat) (name : Str) : Server σ :=
  let s := (s.replaceOld c name).unalias c name
  let s := s.modClient c ({ · with name := some name })
  (s.setName name c).onList c

/-- `on_hello`; the second component is the ProtocolError. -/
def onHello [Transport σ] (s : Server σ) (c : Nat) (payload : List Byte) : Server σ × Option String :=
  if payload.length < 3 then (s, some "short hello")
  else if payload.headD 0 ≠ protoVer then
    (s, some ("protocol version " ++ toString (payload.headD 0).toNat ++ ", want 2"))
  else
    let name := rstrip (decodeAscii (payload.drop 1))
    if ¬ (2 ≤ name.length ∧ name.length ≤ 8) ∨ ¬ name.all nameChar then (s, some "bad name")
    else (s.hello c name, none)

/-- `start_room`. bytes() raises ValueError on a delay that is no byte; the event loop
    turns that into a drop. -/
def startRoom [Transport σ] (s : Server σ) (r : Nat) : Server σ × Option String :=
  let seed := s.seeds s.nextSeed
  let s := { s with nextSeed := s.nextSeed + 1 }.modRoom r ({ · with started := true, seed })
  if s.delay < 0 ∨ 255 < s.delay then (s, some "internal protocol error")
  else
    let n := (s.room r).members.length
    let common := [UInt8.ofNat n, UInt8.ofNat (seed.toNat % 256), UInt8.ofNat (seed.toNat / 256),
      UInt8.ofNat s.delay.toNat] ++ s.roster r
    (eachMember (fun s i m => s.send m none (some r) (frame tStart (UInt8.ofNat i :: common))) r n 0 s, none)

/-- The client JOIN means, if it can be joined. -/
def joinTarget (s : Server σ) (c : Nat) (name : Str) : Option Nat :=
  match s.lookup name with
  | none => none
  | some t =>
    if t = c ∨ (s.client t).name = none then none
    else
      match (s.client t).room with
      | none => some t
      | some r => if (s.room r).started ∨ maxSeats ≤ (s.room r).members.length then none else some t

/-- The room of `t`, made if there is none yet. -/
def roomFor (s : Server σ) (t : Nat) : Server σ × Nat :=
  match (s.client t).room with
  | some r => (s, r)
  | none =>
    let r := s.nextRoom
    let s := { s with nextRoom := r + 1 }.modRoom r (fun _ => ⟨[t], false, 0⟩)
    (s.modClient t ({ · with room := some r }), r)

/-- `on_join` once the target is found. -/
def join [Transport σ] (s : Server σ) (c t : Nat) : Server σ × Option String :=
  let r := (s.roomFor t).2
  let s := (s.roomFor t).1.modRoom r (fun room => { room with members := room.members ++ [c] })
  let s := (s.modClient c ({ · with room := some r })).roomBroadcast r
  if s.autoGo ≠ 0 ∧ s.autoGo ≤ (s.room r).members.length then s.startRoom r else (s, none)

/-- `on_join`. -/
def onJoin [Transport σ] (s : Server σ) (c : Nat) (payload : List Byte) : Server σ × Option String :=
  if (s.client c).name = none then (s, some "join before hello")
  else if (s.client c).room ≠ none then (s, none)
  else
    match s.joinTarget c (rstrip (decodeAscii payload)) with
    | none => (s.onList c, none)
    | some t => s.join c t

/-- `on_go`. -/
def onGo [Transport σ] (s : Server σ) (c : Nat) : Server σ × Option String :=
  match (s.client c).room with
  | none => (s, none)
  | some r =>
    if (s.room r).started ∨ (s.room r).members.idxOf c ≠ 0 then (s, none)
    else if ¬ (2 ≤ (s.room r).members.length ∧ (s.room r).members.length ≤ maxSeats) then (s, none)
    else s.startRoom r

/-- `handle` of a relay type: fan out to the other members of a started room. -/
def relay [Transport σ] (s : Server σ) (c : Nat) (ftype : Byte) (payload : List Byte) : Server σ :=
  match (s.client c).room with
  | none => s
  | some r =>
    if (s.room r).started then
      let s := { s with matched := s.matched ++ [⟨c, r, ftype, payload⟩] }
      eachMember (fun s _ m => if m = c then s else s.send m (some c) (some r) (frame ftype payload)) r
        (s.room r).members.length 0 s
    else s

/-- `handle`. -/
def handle [Transport σ] (s : Server σ) (c : Nat) (ftype : Byte) (payload : List Byte) : Server σ × Option String :=
  if ftype ∈ relayTypes then (s.relay c ftype payload, none)
  else if ftype = tHello then s.onHello c payload
  else if ftype = tList then (s.onList c, none)
  else if ftype = tJoin then s.onJoin c payload
  else if ftype = tGo then s.onGo c
  else if ftype = tBye then (s.drop c "bye", none)
  else if ftype = tPing then (s.send c none none (frame tPong []), none)
  else (s, some "unknown type")

/-! ## The dead stay dead -/

section Dead
variable {x : Nat}

theorem dead_eachMember {f : Server σ → Nat → Nat → Server σ}
    (hf : ∀ s i m, (s.client x).dead = true → ((f s i m).client x).dead = true) (r n i : Nat)
    (s : Server σ) (h : (s.client x).dead = true) :
    ((eachMember f r n i s).client x).dead = true := by
  induction n generalizing i s with
  | zero => exact h
  | succ n ih =>
    rw [eachMember]
    split
    · exact h
    · exact ih _ _ (hf _ _ _ h)

theorem dead_foldl {f : Server σ → Nat → Server σ}
    (hf : ∀ s m, (s.client x).dead = true → ((f s m).client x).dead = true) (ms : List Nat)
    (s : Server σ) (h : (s.client x).dead = true) : ((ms.foldl f s).client x).dead = true := by
  induction ms generalizing s with
  | nil => exact h
  | cons m ms ih => exact ih _ (hf _ _ h)

theorem dead_modClient (s : Server σ) (c : Nat) {f : Client → Client} (hf : ∀ a, (f a).dead = a.dead)
    (h : (s.client x).dead = true) : ((s.modClient c f).client x).dead = true := by
  rw [modClient]
  dsimp only
  split
  · rw [hf]
    exact h
  · exact h

theorem dead_kill (s : Server σ) (c : Nat) (h : (s.client x).dead = true ∨ x = c) :
    ((s.kill c).client x).dead = true := by
  rw [kill, modClient]
  dsimp only
  split
  · rfl
  · next hne => exact h.resolve_right hne

variable [Transport σ] {dropF : Server σ → Nat → String → Server σ}

theorem dead_sendVia (hd : ∀ s c why, (s.client x).dead = true → ((dropF s c why).client x).dead = true)
    (s : Server σ) (c : Nat) (origin about : Option Nat) (data : List Byte)
    (h : (s.client x).dead = true) :
    ((s.sendVia dropF c origin about data).client x).dead = true := by
  unfold sendVia
  split
  · exact h
  · split
    · exact h
    · exact hd _ _ _ h
    · exact hd _ _ _ h

theorem dead_dissolveVia
    (hd : ∀ s c why, (s.client x).dead = true → ((dropF s c why).client x).dead = true)
    (s : Server σ) (r : Nat) (notify : List Nat) (h : (s.client x).dead = true) :
    ((s.dissolveVia dropF r notify).client x).dead = true := by
  have h1 := dead_foldl (x := x) (f := fun s m => s.modClient m ({ · with room := none }))
    (fun s m h => dead_modClient s m (fun _ => rfl) h) (s.room r).members s h
  exact dead_foldl (fun s m h => dead_sendVia hd s m none _ _ h) notify _ h1

theorem dead_leaveVia
    (hd : ∀ s c why, (s.client x).dead = true → ((dropF s c why).client x).dead = true)
    (s : Server σ) (c r seat : Nat) (h : (s.client x).dead = true) :
    ((s.leaveVia dropF c r seat).client x).dead = true := by
  unfold leaveVia
  dsimp only
  split_ifs
  · exact dead_foldl (fun s m h => dead_sendVia hd s m none _ _ h) _ _ (dead_dissolveVia hd _ _ _ h)
  · exact dead_dissolveVia hd _ _ _ h
  · exact dead_dissolveVia hd _ _ _ h
  · exact dead_eachMember (fun s _ m h => dead_sendVia hd s m none _ _ h) _ _ _ _ h

theorem dead_dropVia
    (hd : ∀ s c why, (s.client x).dead = true → ((dropF s c why).client x).dead = true)
    (s : Server σ) (c : Nat) (h : (s.client x).dead = true ∨ x = c) :
    ((s.dropVia dropF c).client x).dead = true := by
  unfold dropVia
  split
  · next hdead =>
    rcases h with h | rfl
    · exact h
    · exact hdead
  · have hk := dead_kill s c h
    dsimp only
    split
    · exact hk
    · exact dead_leaveVia hd _ _ _ _
        (dead_modClient (f := ({ · with room := none })) _ c (fun _ => rfl) hk)

theorem dead_dropN (n : Nat) (s : Server σ) (c : Nat) (why : String)
    (h : (s.client x).dead = true ∨ x = c) : ((dropN n s c why).client x).dead = true := by
  induction n generalizing s c why with
  | zero => exact dead_dropVia (fun _ _ _ h => h) s c h
  | succ n ih => exact dead_dropVia (fun s c why h => ih s c why (Or.inl h)) s c h

end Dead

/-! ## Events -/

/-- The server as service() sees it while it serves client `c`. -/
def host [Transport σ] (c : Nat) : PyHost (Server σ) where
  handle s ftype payload := s.handle c ftype payload
  drop s why := s.drop c why
  dead s := (s.client c).dead
  dead_drop s why := dead_dropN s.clients.length s c why (Or.inr rfl)

/-- What the event loop reacts to. -/
inductive Event where
  | connect (addr : Nat)          -- a connection waits on the listening socket
  | recv (c : Nat) (r : Recv)     -- EVENT_READ
  | writable (c : Nat)            -- EVENT_WRITE
  | timeout (c : Nat)             -- sweep() finds HELLO_TIMEOUT passed
deriving DecidableEq, Repr

/-- `accept`. -/
def accept (s : Server σ) (addr : Nat) : Server σ :=
  if maxClients ≤ s.clients.length then s
  else if maxConnectionsPerIp ≤ (s.clients.filter (fun c => (s.client c).addr = addr)).length then s
  else
    let c := s.nextClient
    let s := { s with nextClient := c + 1, clients := s.clients ++ [c] }
    s.modClient c (fun _ => ⟨addr, none, none, false⟩)

/-- `flush` on EVENT_WRITE. -/
def flush [Transport σ] (s : Server σ) (c : Nat) : Server σ :=
  match Transport.flush s.net c with
  | (net, true) => { s with net }
  | (net, false) => { s with net }.drop c "send error"

/-- `service`, with the receive buffer kept by client. -/
def service [Transport σ] (s : Server σ) (c : Nat) (r : Recv) : Server σ :=
  let conn := Relay.service (host c) ⟨s, s.rx c, []⟩ r
  { conn.srv with rx := fun i => if i = c then conn.rx else conn.srv.rx i }

/-- One turn of the event loop. Only clients in `clients` are registered. -/
def step [Transport σ] (s : Server σ) : Event → Server σ
  | .connect addr => s.accept addr
  | .recv c r => if c ∈ s.clients then s.service c r else s
  | .writable c => if c ∈ s.clients then s.flush c else s
  | .timeout c =>
    if c ∈ s.clients ∧ (s.client c).name = none then s.drop c "no hello within 60s" else s

def run [Transport σ] (s : Server σ) (es : List Event) : Server σ := es.foldl step s

/-- BO (client 0) and AL (client 1) share a room, and BO says GO. -/
def goEvents : List Event :=
  [.connect 1, .connect 2, .recv 0 (.data (frame tHello [2, 66, 79])),
    .recv 1 (.data (frame tHello [2, 65, 76])), .recv 1 (.data (frame tJoin [66, 79])),
    .recv 0 (.data (frame tGo []))]

end Server

end IntvBasketball.Relay
