/-
  server/c/src/intv-relay.c: the C relay, either protocol.

  clients[] and rooms[] are tables indexed by slot; a slot is reused once its client or
  room is gone. by_name[] is the list of its used entries. A C string is the list of its
  bytes, without the NUL; `cstr` cuts a buffer at its first NUL. Two ghosts name what a
  slot holds: `conn` is the number of the connection, `gid` the number of the room, each
  counted from 0 in the order they are made.

  send_raw(), flush() and drop() call each other. As in the Python model the sockets are
  behind `net`, and `dropN n` is drop() while at most `n` clients are left that are not
  dead. `faults` records what the source says cannot happen: the two "unreachable"
  branches, a member stored past members[], and a drop() nested deeper than there are
  clients.

  `queued` records every frame appended to a `tx`, by connection. The checksum log and the
  Lobby have no effect on clients, rooms or frames and are left out, and so are the
  failing calls of epoll_ctl().
-/
import IntvBasketball.Relay.Server

namespace IntvBasketball.Relay

def protoV1 : Nat := 1
def protoV2 : Nat := 2
def maxSeatsCap : Nat := 4
def maxRooms : Nat := 32
def lobbyEntries : Nat := 8

structure CClient where
  inUse : Bool
  conn : Nat
  ip : Nat
  name : List Byte
  room : Option Nat
  dead : Bool
  gen : UInt32
deriving DecidableEq, Repr

structure CRoom where
  used : Bool
  gid : Nat
  members : List Nat
  started : Bool
  seed : UInt16
deriving DecidableEq, Repr

/-- What cannot happen. -/
inductive Fault where
  | recursion     -- drop() nested deeper than there are clients
  | roomAlloc     -- room_alloc() finds no slot
  | nameSet       -- name_set() finds by_name[] full
  | seats         -- a member stored behind members[]
deriving DecidableEq, Repr

/-- The command line, as far as main() lets it pass. -/
structure Options where
  proto : Nat
  maxSeats : Nat
  delay : Int
  autoGo : Int
  ok : (proto = protoV1 ∧ maxSeats = 2) ∨ (proto = protoV2 ∧ 2 ≤ maxSeats ∧ maxSeats ≤ maxSeatsCap)

structure CServer (σ : Type) where
  client : Nat → CClient
  room : Nat → CRoom
  byName : List (List Byte × Nat)
  nClients : Nat
  nextConn : Nat
  nextGid : Nat
  proto : Nat
  maxSeats : Nat
  delay : Int
  autoGo : Nat
  seeds : Nat → UInt16
  nextSeed : Nat
  net : σ
  rx : Nat → List Byte
  queued : List (Nat × List Byte)
  faults : List Fault

/-- The C string in a buffer. -/
def cstr (bs : List Byte) : List Byte := bs.takeWhile (· ≠ 0)

/-- `rstrip_nul_space`. -/
def rstripNulSpace (bs : List Byte) : List Byte := bs.rdropWhile (fun b => b = 0 ∨ b = 32)

/-- `pad_name` of the C relay. -/
def cPadName (name : List Byte) : List Byte :=
  name.take 8 ++ List.replicate (8 - (name.take 8).length) 0

/-- The A-Z0-9 test of `on_hello`. -/
def nameByte (b : Byte) : Bool := (65 ≤ b ∧ b ≤ 90) ∨ (48 ≤ b ∧ b ≤ 57)

namespace CServer
variable {σ : Type}

/-- main(): `--auto-go` has no meaning with `--proto 1`, and is clamped to 0 and
    `--max-seats`. -/
def init (o : Options) (seeds : Nat → UInt16) (net : σ) : CServer σ where
  client _ := ⟨false, 0, 0, [], none, false, 0⟩
  room _ := ⟨false, 0, [], false, 0⟩
  byName := []
  nClients := 0
  nextConn := 0
  nextGid := 0
  proto := o.proto
  maxSeats := o.maxSeats
  delay := o.delay
  autoGo := if o.proto = protoV1 then 0 else (min o.autoGo o.maxSeats).toNat
  seeds := seeds
  nextSeed := 0
  net := net
  rx _ := []
  queued := []
  faults := []

def modClient (t : CServer σ) (i : Nat) (f : CClient → CClient) : CServer σ :=
  { t with client := fun k => if k = i then f (t.client k) else t.client k }

def modRoom (t : CServer σ) (j : Nat) (f : CRoom → CRoom) : CServer σ :=
  { t with room := fun k => if k = j then f (t.room k) else t.room k }

def fault (t : CServer σ) (f : Fault) : CServer σ := { t with faults := t.faults ++ [f] }

/-! ## by_name -/

/-- `name_find`: the index of the entry. -/
def nameFind (t : CServer σ) (name : List Byte) : Option Nat :=
  t.byName.findIdx? (fun e => e.1 = name)

/-- The client of the entry for `name`. -/
def nameClient (t : CServer σ) (name : List Byte) : Option Nat :=
  (t.nameFind name).bind (fun i => (t.byName[i]?).map (·.2))

/-- `name_set`. -/
def nameSet (t : CServer σ) (name : List Byte) (ci : Nat) : CServer σ :=
  match t.nameFind name with
  | some i => { t with byName := t.byName.modify i (fun e => (e.1, ci)) }
  | none =>
    if maxClients ≤ t.byName.length then t.fault .nameSet
    else { t with byName := t.byName ++ [(name, ci)] }

/-- `name_del_at`. -/
def nameDelAt (t : CServer σ) (i : Nat) : CServer σ := { t with byName := t.byName.eraseIdx i }

/-! ## Rooms -/

/-- `room_seat`. -/
def roomSeat (t : CServer σ) (ri ci : Nat) : Option Nat :=
  if ci ∈ (t.room ri).members then some ((t.room ri).members.idxOf ci) else none

/-- A seat cast to one byte; room_seat() returns -1 for a client that is no member. -/
def seatByte : Option Nat → Byte
  | some seat => UInt8.ofNat seat
  | none => 255

/-- `room_roster`. -/
def roomRoster (t : CServer σ) (ri : Nat) : List Byte :=
  (((t.room ri).members.take rosterSlots).map (fun m => cPadName (t.client m).name)).flatten ++
    List.replicate (8 * (rosterSlots - ((t.room ri).members.take rosterSlots).length)) 0

/-- `room_alloc`. -/
def roomAlloc (t : CServer σ) (host : Nat) : CServer σ × Option Nat :=
  match (List.range maxRooms).find? (fun j => !(t.room j).used) with
  | some j =>
    ({ t with nextGid := t.nextGid + 1 }.modRoom j (fun _ => ⟨true, t.nextGid, [host], false, 0⟩),
      some j)
  | none => (t.fault .roomAlloc, none)

/-- `members[nmembers++] = ci`. -/
def addMember (t : CServer σ) (ri ci : Nat) : CServer σ :=
  let t := if maxSeatsCap ≤ (t.room ri).members.length then t.fault .seats else t
  t.modRoom ri (fun room => { room with members := room.members ++ [ci] })

/-! ## Plumbing -/

/-- Append to `c->tx`. -/
def push (t : CServer σ) (ci : Nat) (data : List Byte) : CServer σ :=
  { t with queued := t.queued ++ [((t.client ci).conn, data)] }

/-- `client_free`. -/
def clientFree (t : CServer σ) (ci : Nat) : CServer σ :=
  { t with nClients := t.nClients - 1 }.modClient ci
    (fun c => { c with inUse := false, gen := c.gen + 1 })

section Via
variable [Transport σ] (dropF : CServer σ → Nat → CServer σ)

/-- `send_raw`, dropping with `dropF`. The socket is that of the connection. -/
def sendVia (t : CServer σ) (ci : Nat) (data : List Byte) : CServer σ :=
  if (t.client ci).dead then t
  else
    match Transport.send t.net (t.client ci).conn data with
    | (net, .queued) => { t with net }.push ci data
    | (net, .backlog) => dropF { t with net } ci
    | (net, .error) => dropF ({ t with net }.push ci data) ci

/-- A loop over a snapshot of member slots. -/
def sendEachVia (t : CServer σ) (data : Nat → List Byte) (mm : List (Nat × Nat)) : CServer σ :=
  mm.foldl (fun t m => t.sendVia dropF m.1 (data m.2)) t

/-- `room_broadcast`. -/
def broadcastVia (t : CServer σ) (ri : Nat) : CServer σ :=
  let members := (t.room ri).members
  let payload := UInt8.ofNat members.length :: t.roomRoster ri
  t.sendEachVia dropF (fun _ => frame tRoom payload) members.zipIdx

/-- `dissolve`. -/
def dissolveVia (t : CServer σ) (ri : Nat) (notify : List Nat) : CServer σ :=
  let t := (t.room ri).members.foldl (fun t m => t.modClient m ({ · with room := none })) t
  let t := t.sendEachVia dropF (fun _ => frame tRoom (0 :: List.replicate 32 0)) notify.zipIdx
  t.modRoom ri ({ · with members := [], used := false })

/-- `drop` of a v1 client: the partner is unlinked and told so. -/
def leaveV1Via (t : CServer σ) (ri : Nat) : CServer σ :=
  let partner := (t.room ri).members.head?
  let t := t.modRoom ri ({ · with members := [], used := false })
  match partner with
  | some p => (t.modClient p ({ · with room := none })).sendVia dropF p (frame tPeerLeft [])
  | none => t

/-- `drop` of a client that sat at `seat` of room `ri`, already removed. -/
def leaveVia (t : CServer σ) (ci ri : Nat) (seat : Option Nat) : CServer σ :=
  let members := (t.room ri).members
  if t.proto = protoV1 then t.leaveV1Via dropF ri
  else if (t.room ri).started then
    (t.dissolveVia dropF ri []).sendEachVia dropF
      (fun _ => frame tPeerLeft (seatByte seat :: cPadName (t.client ci).name)) members.zipIdx
  else if seat = some 0 then t.dissolveVia dropF ri members
  else if members.length < 2 then t.dissolveVia dropF ri members
  else t.broadcastVia dropF ri

/-- The start of `drop`: the client is dead, and every name that points to it is gone. -/
def bury (t : CServer σ) (ci : Nat) : CServer σ :=
  let t := t.modClient ci ({ · with dead := true })
  { t with byName := t.byName.filter (fun e => e.2 ≠ ci) }

/-- `drop`, the removal from the room. -/
def unseat (t : CServer σ) (ci ri : Nat) : CServer σ :=
  let t := t.modClient ci ({ · with room := none })
  t.modRoom ri (fun room => { room with members := room.members.erase ci })

/-- `drop`; the reason is only logged. -/
def dropVia (t : CServer σ) (ci : Nat) : CServer σ :=
  if (t.client ci).dead then t
  else
    let t := t.bury ci
    match (t.client ci).room with
    | none => t.clientFree ci
    | some ri => ((t.unseat ci ri).leaveVia dropF ci ri (t.roomSeat ri ci)).clientFree ci

end Via

/-- The clients that are not dead. -/
def alive (t : CServer σ) : List Nat :=
  (List.range maxClients).filter (fun i => (t.client i).inUse ∧ ¬ (t.client i).dead)

/-- `drop` while at most so many clients are alive. -/
def dropN [Transport σ] : Nat → CServer σ → Nat → CServer σ
  | 0, t, ci => if (t.client ci).dead then t else (t.bury ci).fault .recursion
  | n + 1, t, ci => t.dropVia (dropN n) ci

def drop [Transport σ] (t : CServer σ) (ci : Nat) : CServer σ := dropN t.alive.length t ci

def sendRaw [Transport σ] (t : CServer σ) (ci : Nat) (data : List Byte) : CServer σ :=
  t.sendVia drop ci data

def sendEach [Transport σ] (t : CServer σ) (data : Nat → List Byte) (mm : List (Nat × Nat)) :
    CServer σ := t.sendEachVia drop data mm

def roomBroadcast [Transport σ] (t : CServer σ) (ri : Nat) : CServer σ := t.broadcastVia drop ri

/-! ## Protocol -/

/-- `status_byte`. -/
def statusByte (t : CServer σ) (ci : Nat) : Byte :=
  match (t.client ci).room with
  | none => if t.proto = protoV1 then 0 else 1
  | some ri =>
    let n := (t.room ri).members.length
    if t.proto = protoV1 then 1
    else (if (t.room ri).started ∨ t.maxSeats ≤ n then 0x80 else 0) ||| UInt8.ofNat n

/-- `on_list`. -/
def onList [Transport σ] (t : CServer σ) (ci : Nat) : CServer σ :=
  let others :=
    ((t.byName.map (·.2)).filter (fun oc => oc ≠ ci ∧ (t.client oc).name ≠ [])).take lobbyEntries
  let entries := (others.map (fun oc => cPadName (t.client oc).name ++ [t.statusByte oc])).flatten
  t.sendRaw ci (frame tLobby (UInt8.ofNat others.length :: entries))

/-- `on_hello`, dropping another client of that name. -/
def replaceOld [Transport σ] (t : CServer σ) (ci : Nat) (name : List Byte) : CServer σ :=
  match t.nameClient name with
  | some old => if old = ci then t else t.drop old
  | none => t

/-- `on_hello`, cleaning up the old alias. -/
def unalias (t : CServer σ) (ci : Nat) (name : List Byte) : CServer σ :=
  let was := (t.client ci).name
  if was = [] ∨ was = name then t
  else
    match t.nameFind was with
    | some i => if (t.byName[i]?).map (·.2) = some ci then t.nameDelAt i else t
    | none => t

/-- `on_hello` once the name is accepted. -/
def hello [Transport σ] (t : CServer σ) (ci : Nat) (name : List Byte) : CServer σ :=
  let t := t.replaceOld ci name
  if (t.client ci).dead then t
  else
    let t := (t.unalias ci name).modClient ci ({ · with name := name })
    (t.nameSet name ci).onList ci

/-- `on_hello`. Only v2 looks at the version byte. -/
def onHello [Transport σ] (t : CServer σ) (ci : Nat) (payload : List Byte) : CServer σ :=
  if payload.length < 3 then t.drop ci
  else if t.proto = protoV2 ∧ payload.headD 0 ≠ protoVer then t.drop ci
  else
    let raw := rstripNulSpace (payload.drop 1)
    if raw.length < 2 ∨ 8 < raw.length then t.drop ci
    else if ¬ raw.all nameByte then t.drop ci
    else t.hello ci raw

/-- `start_room`; the delay is cast to one byte. -/
def startRoom [Transport σ] (t : CServer σ) (ri : Nat) : CServer σ :=
  let seed := t.seeds t.nextSeed
  let t := { t with nextSeed := t.nextSeed + 1 }.modRoom ri ({ · with started := true, seed })
  let members := (t.room ri).members
  let common := [UInt8.ofNat members.length, UInt8.ofNat (seed.toNat % 256),
    UInt8.ofNat (seed.toNat / 256), UInt8.ofNat (t.delay % 256).toNat] ++ t.roomRoster ri
  t.sendEach (fun seat => frame tStart (UInt8.ofNat seat :: common)) members.zipIdx

/-- `start_pair`, the START of one side; the other's name goes out with it. -/
def pairStart (t : CServer σ) (role : Byte) (seed : UInt16) (other : Nat) : List Byte :=
  frame tStart ([role, UInt8.ofNat (seed.toNat % 256), UInt8.ofNat (seed.toNat / 256),
    UInt8.ofNat (t.delay % 256).toNat] ++ cPadName (t.client other).name)

/-- `start_pair`. -/
def startPair [Transport σ] (t : CServer σ) (host guest : Nat) : CServer σ :=
  let seed := t.seeds t.nextSeed
  match { t with nextSeed := t.nextSeed + 1 }.roomAlloc host with
  | (t, none) => t.onList guest
  | (t, some ri) =>
    let t := (t.addMember ri guest).modRoom ri ({ · with started := true, seed })
    let t := (t.modClient host ({ · with room := some ri })).modClient guest
      ({ · with room := some ri })
    let t := t.sendRaw host (t.pairStart 0 seed guest)
    t.sendRaw guest (t.pairStart 1 seed host)

/-- The v2 tests of `on_join` on the client found under the name. -/
def joinTarget (t : CServer σ) (ci : Nat) (name : List Byte) : Option Nat :=
  match t.nameClient name with
  | none => none
  | some target =>
    if target = ci ∨ (t.client target).name = [] then none
    else
      match (t.client target).room with
      | none => some target
      | some ri =>
        if (t.room ri).started ∨ t.maxSeats ≤ (t.room ri).members.length then none else some target

/-- The v1 tests: the target is idle. -/
def pairTarget (t : CServer σ) (ci : Nat) (name : List Byte) : Option Nat :=
  match t.nameClient name with
  | none => none
  | some target =>
    if target = ci ∨ (t.client target).name = [] ∨ (t.client target).room ≠ none then none
    else some target

/-- `on_join`, the target's room, allocated if it has none. -/
def roomFor (t : CServer σ) (target : Nat) : CServer σ × Option Nat :=
  match (t.client target).room with
  | some ri => (t, some ri)
  | none =>
    match t.roomAlloc target with
    | (t, some ri) => (t.modClient target ({ · with room := some ri }), some ri)
    | (t, none) => (t, none)

/-- `on_join` once the target is found. -/
def join [Transport σ] (t : CServer σ) (ci target : Nat) : CServer σ :=
  match t.roomFor target with
  | (t, none) => t.onList ci
  | (t, some ri) =>
    let t := ((t.addMember ri ci).modClient ci ({ · with room := some ri })).roomBroadcast ri
    if t.autoGo ≠ 0 ∧ t.autoGo ≤ (t.room ri).members.length then t.startRoom ri else t

/-- `on_join`. -/
def onJoin [Transport σ] (t : CServer σ) (ci : Nat) (payload : List Byte) : CServer σ :=
  if (t.client ci).name = [] then t.drop ci
  else if (t.client ci).room ≠ none then t
  else
    let raw := rstripNulSpace payload
    if 8 < raw.length then t.onList ci
    else if t.proto = protoV1 then
      match t.pairTarget ci (cstr raw) with
      | none => t.onList ci
      | some target => t.startPair target ci
    else
      match t.joinTarget ci (cstr raw) with
      | none => t.onList ci
      | some target => t.join ci target

/-- `on_go`. -/
def onGo [Transport σ] (t : CServer σ) (ci : Nat) : CServer σ :=
  match (t.client ci).room with
  | none => t
  | some ri =>
    if (t.room ri).started ∨ t.roomSeat ri ci ≠ some 0 then t
    else if (t.room ri).members.length < 2 ∨ t.maxSeats < (t.room ri).members.length then t
    else t.startRoom ri

/-- `handle` of a relay type. -/
def relay [Transport σ] (t : CServer σ) (ci : Nat) (ftype : Byte) (payload : List Byte) : CServer σ :=
  match (t.client ci).room with
  | none => t
  | some ri =>
    if (t.room ri).started then
      (t.room ri).members.foldl
        (fun t m => if m ≠ ci then t.sendRaw m (frame ftype payload) else t) t
    else t

/-- `handle`. -/
def handle [Transport σ] (t : CServer σ) (ci : Nat) (ftype : Byte) (payload : List Byte) :
    CServer σ :=
  if ftype ∈ relayTypes then t.relay ci ftype payload
  else if ftype = tHello then t.onHello ci payload
  else if ftype = tList then t.onList ci
  else if ftype = tJoin then t.onJoin ci payload
  else if ftype = tGo then if t.proto = protoV1 then t.drop ci else t.onGo ci
  else if ftype = tBye then t.drop ci
  else if ftype = tPing then t.sendRaw ci (frame tPong [])
  else t.drop ci

/-! ## The dead stay dead -/

section Dead
variable {x : Nat}

theorem dead_modClient {t : CServer σ} (i : Nat) {f : CClient → CClient}
    (hf : ∀ a, (f a).dead = a.dead) (h : (t.client x).dead = true) :
    ((t.modClient i f).client x).dead = true := by
  rw [modClient]
  dsimp only
  split
  · rw [hf]
    exact h
  · exact h

theorem dead_bury (t : CServer σ) (ci : Nat) (h : (t.client x).dead = true ∨ x = ci) :
    ((t.bury ci).client x).dead = true := by
  rw [bury, modClient]
  dsimp only
  split
  · rfl
  · next hne => exact h.resolve_right hne

variable [Transport σ] {dropF : CServer σ → Nat → CServer σ}

theorem dead_sendVia (hd : ∀ t c, (t.client x).dead = true → ((dropF t c).client x).dead = true)
    (t : CServer σ) (ci : Nat) (data : List Byte) (h : (t.client x).dead = true) :
    ((t.sendVia dropF ci data).client x).dead = true := by
  unfold sendVia
  split
  · exact h
  · split
    · exact h
    · exact hd _ _ h
    · exact hd _ _ h

theorem dead_sendEachVia (hd : ∀ t c, (t.client x).dead = true → ((dropF t c).client x).dead = true)
    (t : CServer σ) (data : Nat → List Byte) (mm : List (Nat × Nat))
    (h : (t.client x).dead = true) : ((t.sendEachVia dropF data mm).client x).dead = true := by
  induction mm generalizing t with
  | nil => exact h
  | cons m mm ih => exact ih _ (dead_sendVia hd t m.1 (data m.2) h)

theorem dead_dissolveVia (hd : ∀ t c, (t.client x).dead = true → ((dropF t c).client x).dead = true)
    (t : CServer σ) (ri : Nat) (notify : List Nat) (h : (t.client x).dead = true) :
    ((t.dissolveVia dropF ri notify).client x).dead = true := by
  have h1 : ∀ (ms : List Nat) (t : CServer σ), (t.client x).dead = true →
      ((ms.foldl (fun t m => t.modClient m ({ · with room := none })) t).client x).dead = true := by
    intro ms
    induction ms with
    | nil => exact fun _ h => h
    | cons m ms ih =>
      exact fun t h => ih _ (dead_modClient (f := ({ · with room := none })) m (fun _ => rfl) h)
  exact dead_sendEachVia hd _ _ notify.zipIdx (h1 _ t h)

theorem dead_leaveV1Via (hd : ∀ t c, (t.client x).dead = true → ((dropF t c).client x).dead = true)
    (t : CServer σ) (ri : Nat) (h : (t.client x).dead = true) :
    ((t.leaveV1Via dropF ri).client x).dead = true := by
  unfold leaveV1Via
  dsimp only
  split
  · next p _ =>
    exact dead_sendVia hd _ p _
      (dead_modClient (f := ({ · with room := none })) p (fun _ => rfl) h)
  · exact h

theorem dead_leaveVia (hd : ∀ t c, (t.client x).dead = true → ((dropF t c).client x).dead = true)
    (t : CServer σ) (ci ri : Nat) (seat : Option Nat) (h : (t.client x).dead = true) :
    ((t.leaveVia dropF ci ri seat).client x).dead = true := by
  unfold leaveVia
  dsimp only
  split_ifs
  · exact dead_leaveV1Via hd t ri h
  · exact dead_sendEachVia hd _ _ _ (dead_dissolveVia hd t ri [] h)
  · exact dead_dissolveVia hd _ _ _ h
  · exact dead_dissolveVia hd _ _ _ h
  · exact dead_sendEachVia hd _ _ _ h

theorem dead_dropVia (hd : ∀ t c, (t.client x).dead = true → ((dropF t c).client x).dead = true)
    (t : CServer σ) (ci : Nat) (h : (t.client x).dead = true ∨ x = ci) :
    ((t.dropVia dropF ci).client x).dead = true := by
  unfold dropVia
  split
  · next hdead =>
    rcases h with h | rfl
    · exact h
    · exact hdead
  · have hb := dead_bury t ci h
    dsimp only
    split
    · exact dead_modClient (f := (fun c => { c with inUse := false, gen := c.gen + 1 })) ci (fun _ => rfl) hb
    · refine dead_modClient (f := (fun c => { c with inUse := false, gen := c.gen + 1 })) ci (fun _ => rfl) ?_
      exact dead_leaveVia hd _ _ _ _
        (dead_modClient (f := ({ · with room := none })) ci (fun _ => rfl) hb)

theorem dead_dropN (n : Nat) (t : CServer σ) (ci : Nat) (h : (t.client x).dead = true ∨ x = ci) :
    ((dropN n t ci).client x).dead = true := by
  induction n generalizing t ci with
  | zero =>
    rw [dropN]
    split
    · next hdead =>
      rcases h with h | rfl
      · exact h
      · exact hdead
    · exact dead_bury t ci h
  | succ n ih => exact dead_dropVia (fun t c h => ih t c (Or.inl h)) t ci h

end Dead

/-! ## Events -/

/-- The server as feed() sees it while it serves the client in slot `ci`. -/
def host [Transport σ] (ci : Nat) : CHost (CServer σ) where
  handle t ftype payload := t.handle ci ftype payload
  drop t _ := t.drop ci
  dead t := (t.client ci).dead
  dead_drop t _ := dead_dropN t.alive.length t ci (Or.inr rfl)

/-- The slots in use. -/
def slots (t : CServer σ) : List Nat := (List.range maxClients).filter (fun i => (t.client i).inUse)

/-- The slot of a connection: the descriptor the event came in on. -/
def slotOf (t : CServer σ) (c : Nat) : Option Nat := t.slots.find? (fun i => (t.client i).conn = c)

/-- `client_alloc`. -/
def clientAlloc (t : CServer σ) (ci ip : Nat) : CServer σ :=
  { t with
    nClients := t.nClients + 1, nextConn := t.nextConn + 1,
    rx := fun k => if k = ci then [] else t.rx k }.modClient ci
      (fun c => ⟨true, t.nextConn, ip, [], none, false, c.gen⟩)

/-- `accept_client`. -/
def acceptClient (t : CServer σ) (ip : Nat) : CServer σ :=
  if maxClients ≤ t.nClients then t
  else if maxConnectionsPerIp ≤ (t.slots.filter (fun i => (t.client i).ip = ip)).length then t
  else
    match (List.range maxClients).find? (fun i => !(t.client i).inUse) with
    | none => t
    | some ci => t.clientAlloc ci ip

/-- `service`, with the receive buffer kept by slot. -/
def service [Transport σ] (t : CServer σ) (ci : Nat) (r : Recv) : CServer σ :=
  let conn := cService (host ci) ⟨⟨t, t.rx ci, []⟩, 0⟩ r
  { conn.srv with rx := fun k => if k = ci then conn.rx else conn.srv.rx k }

/-- `flush` on EPOLLOUT. -/
def flush [Transport σ] (t : CServer σ) (ci : Nat) : CServer σ :=
  match Transport.flush t.net (t.client ci).conn with
  | (net, true) => { t with net }
  | (net, false) => { t with net }.drop ci

/-- One turn of the event loop; events name connections, as in `Server.step`. -/
def step [Transport σ] (t : CServer σ) : Server.Event → CServer σ
  | .connect addr => t.acceptClient addr
  | .recv c r =>
    match t.slotOf c with
    | some ci => t.service ci r
    | none => t
  | .writable c =>
    match t.slotOf c with
    | some ci => t.flush ci
    | none => t
  | .timeout c =>
    match t.slotOf c with
    | some ci => if (t.client ci).name = [] then t.drop ci else t
    | none => t

def run [Transport σ] (t : CServer σ) (es : List Server.Event) : CServer σ := es.foldl step t

end CServer

end IntvBasketball.Relay
