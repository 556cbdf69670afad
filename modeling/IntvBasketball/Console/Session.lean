/-
  src/netcode/session.asm: the stream parser SES_PUMP and the frame handlers.

  SES_PUMP appends what NET_READ returned to a 256-byte circular accumulator and
  then runs its parse loop: peek (len, type), slip one byte unless SES_FLEN admits
  the pair, wait if the frame is incomplete, else copy it to FRMBUF and dispatch.
  `ppRound` is one round of that loop. `ppLoop` runs it for at most the given
  number of rounds and answers `none` if it has not ended by then.

  A frame in FRMBUF is `[len][type][payload]`, len counting the type byte.
-/
import IntvBasketball.Console.Ui
import IntvBasketball.Console.Resync

namespace IntvBasketball.Console

/-! ## Match set-up and tear-down -/

/-- LS_IDLE_RMT: all rings idle, every watermark about 16k ticks ahead. -/
def lsIdleRmt (m : Mach) : Mach :=
  let m := lsRingInit m
  wmLoop (m.rd tickLo) (m.rd tickHi + 0x40) m seatWm 4

/-- SES_CPR_GO: the 32-byte roster at `r4` into NAME_TBL as 4 x (8 chars + NUL). -/
def sesCprGo (m : Mach) (r4 : Nat) : Mach :=
  (List.range 4).foldl (fun m i => (m.copy (r4 + 8 * i) (nameTbl + 9 * i) 8).st (nameTbl + 9 * i + 8) 0) m

/-! ## Screens -/

def strTitle : List Nat := chars "BASKETBALL NETPLAY"
def strPick : List Nat := chars "DISC/2/8  ENTER=PLAY"
def strRoom : List Nat := chars "WAITING ROOM   OF 2"
def strGohint : List Nat := chars "ENTER = START GAME  "
def strWaithost : List Nat := chars "WAITING FOR HOST    "

/-- A digit card: `(c - 32) * 8` in colour `clr`. -/
def digitCard (c clr : Nat) : Nat := (c - 32) * 8 ^^^ clr

/-- The '>' cursor card. -/
def cursorCard : Nat := (62 - 32) * 8 ||| cYellow

/-- SEAT_CLR_TBL. Rows past its two entries read the ROM words behind it; only the
    colour of the row depends on them, and it is taken to be 0 here. -/
def seatClrTbl : List Nat := [cYellow, cWhite]

/-- Colour and offset of a roster row. -/
def roStart (m : Mach) (r3 : Nat) : Mach :=
  (m.st uiColor (seatClrTbl.getD r3 0)).st ppTmp (20 * (3 + r3) + 4)

/-- Name and marker of a roster row at BACKTAB offset `off`. -/
def roName (m : Mach) (off r3 : Nat) : Mach :=
  let m := uiPrintN m off (nameTbl + 9 * r3) 8
  if m.rd netActive = 0 then m
  else if m.rd netSeat ≠ r3 then m
  else m.st (off + 0x200 - 4) cursorCard

/-- One row of SES_ROSTER. The digit goes by the full offset, name and marker by the
    8-bit copy in PP_TMP. -/
def roRow (m : Mach) (r3 : Nat) : Mach :=
  let m := roStart m r3
  let off := m.rd ppTmp
  let m := m.st (20 * (3 + r3) + 4 + 0x200 - 2) (digitCard (49 + r3) (m.rd uiColor))
  roName m off r3

/-- The row loop of SES_ROSTER from row `r3` on, `n` rows. -/
def roRows (m : Mach) (r3 : Nat) : Nat → Mach
  | 0 => m
  | n + 1 => roRows (roRow m r3) (r3 + 1) n

/-- SES_ROSTER: ROOM_CNT rows before the match, NET_COUNT rows in it; at least one. -/
def sesRoster (m : Mach) : Mach :=
  let r2 := if m.rd netActive = 0 then m.rd roomCnt else m.rd netCount
  (roRows m 0 (max r2 1)).st uiColor cWhite

/-- Title, room line and member count of the waiting room. -/
def rsHead (m : Mach) : Mach :=
  let m := uiPrint (uiPrint (uiCls m) 0 strTitle) 20 strRoom
  m.st (0x200 + 20 + 13) (digitCard (m.rd roomCnt + 48) cWhite)

/-- SES_ROOMSCR: the waiting room. -/
def sesRoomscr (m : Mach) : Mach :=
  let m := sesRoster (rsHead m)
  uiPrint m 180 (if m.rd roomHost = 0 then strWaithost else strGohint)

/-- One row of SES_RENDER. -/
def srRow (m : Mach) (r3 : Nat) : Mach :=
  let m := m.st ppTmp (20 * (4 + r3) + 2)
  let off := m.rd ppTmp
  let r2 := lobbyCache + 1 + 9 * r3
  let r0 := m.rd (r2 + 8)
  let m := m.st uiColor (if r0 / 128 % 2 = 0 then cWhite else cBlack)
  let m := uiPrintN m off r2 8
  let m :=
    if r0 % 8 < 2 then m
    else m.st (off + 0x200 + 9) (digitCard (r0 % 8 + 48) (m.rd uiColor))
  if m.rd menuSel ≠ r3 then m else m.st (off - 2 + 0x200) cursorCard

/-- The row loop of SES_RENDER from row `r3` on, `n` rows. -/
def srRows (m : Mach) (r3 : Nat) : Nat → Mach
  | 0 => m
  | n + 1 => srRows (srRow m r3) (r3 + 1) n

/-- SES_RENDER: the lobby list. -/
def sesRender (m : Mach) : Mach :=
  let m := uiPrint (m.st uiColor cWhite) 60 strPick
  let m := m.fill (0x200 + 20 * 4) 160 0
  (srRows m 0 (m.rd lobbyCnt)).st uiColor cWhite

/-! ## Frame handlers -/

/-- The ring cell a seat's decoded input of a tick goes to, as the 16-bit address
    arithmetic of `@@of_input` computes it. -/
def inputAddr (seat tlo : Nat) : Nat := (seat * 256 + tlo + seatRing) % 65536

/-- The tests of `@@of_input`: long enough, not our seat, below NET_COUNT, ahead of the
    seat's watermark. -/
def inputAccepted (m : Mach) : Bool :=
  let r2 := m.rd (frmBuf + 2)
  let r1 := word (m.rd (frmBuf + 3)) (m.rd (frmBuf + 4))
  let d := sub16 r1 (word (m.rd (seatWm + 2 * r2)) (m.rd (seatWm + 2 * r2 + 1)))
  6 ≤ m.rd frmBuf && r2 ≠ m.rd netSeat && r2 < m.rd netCount && !neg16 d && d ≠ 0

/-- `@@of_input`: a remote seat's input for one tick. -/
def ofInput (m : Mach) : Mach :=
  if !inputAccepted m then m
  else
    let r2 := m.rd (frmBuf + 2)
    let r4 := inputAddr r2 (m.rd (frmBuf + 3))
    let r3 := seatWm + 2 * r2
    let m := m.st r4 (m.rd (frmBuf + 5))
    let m := m.st ((r4 + (seatKp - seatRing)) % 65536) (m.rd (frmBuf + 6))
    let m := m.st r3 (m.rd (frmBuf + 3))
    m.st (r3 + 1) (m.rd (frmBuf + 4))

/-- The number of LOBBY entries to take, at most 8. -/
def lbCount (m : Mach) : Nat := if m.rd (frmBuf + 2) < 8 then m.rd (frmBuf + 2) else 8

/-- Count, cursor and the copy into LOBBY_CACHE. -/
def lbCache (m : Mach) (r2 : Nat) : Mach :=
  let m := m.st lobbyCnt r2
  let m := if m.rd menuSel < r2 then m else m.st menuSel 0
  m.copy (frmBuf + 2) lobbyCache (9 * r2 + 1)

/-- `@@of_lobby`: cache the list; redraw it unless a room is forming. -/
def ofLobby (m : Mach) : Mach :=
  if m.rd netActive ≠ 0 then m
  else if m.rd frmBuf < 2 then m
  else if m.rd frmBuf < 9 * lbCount m + 2 then m
  else
    let m := lbCache m (lbCount m)
    if 2 ≤ m.rd roomCnt then m else sesRender m

/-- The header of START: seat, player count, RNG seed, delay. -/
def stHeader (m : Mach) : Mach :=
  let m := m.st netSeat (m.rd (frmBuf + 2))
  let m := m.st netCount (m.rd (frmBuf + 3))
  let m := m.st rngLo (m.rd (frmBuf + 4))
  let m := m.st rngHi (m.rd (frmBuf + 5))
  m.st netDelay (m.rd (frmBuf + 6))

/-- Every watermark := d - 1. -/
def stWm (m : Mach) : Mach := wmLoop (sub16 (m.rd netDelay) 1) 0 m seatWm 4

/-- `@@of_start`: the match begins. -/
def ofStart (m : Mach) : Mach :=
  if m.rd frmBuf < 38 then m
  else
    let m := sesCprGo (stHeader m) (frmBuf + 7)
    let m := stWm (rsClrCrc (lsRingInit m))
    ((m.st tickLo 0).st tickHi 0).st netActive 1

/-- The host test of `@@of_room`: our name is roster slot 0. The slot ends in a NUL, so
    nine cells decide. -/
def ofHc (m : Mach) (i : Nat) : Nat → Nat
  | 0 => 0
  | n + 1 =>
    if m.rd (nameTbl + i) ≠ m.rd (nameBuf + i) then 0
    else if m.rd (nameTbl + i) = 0 then 1
    else ofHc m (i + 1) n

/-- `@@of_room`, dissolved or down to solo: back to the lobby list. -/
def ofRmEnd (m : Mach) : Mach :=
  sesRender (uiPrint (uiCls ((m.st roomCnt 0).st roomHost 0)) 0 strTitle)

/-- The roster of a forming room, and whether we are its host. -/
def rmRoster (m : Mach) : Mach :=
  let m := sesCprGo m (frmBuf + 3)
  m.st roomHost (ofHc m 0 9)

/-- `@@of_rm2`: a forming room. -/
def ofRm2 (m : Mach) : Mach := sesRoomscr (rmRoster m)

/-- `@@of_room`: the roster of a forming room, or its end. -/
def ofRoom (m : Mach) : Mach :=
  if m.rd netActive ≠ 0 then m
  else if m.rd frmBuf < 34 then m
  else
    let m := m.st roomCnt (m.rd (frmBuf + 2))
    if m.rd (frmBuf + 2) < 2 then ofRmEnd m else ofRm2 m

/-- `@@of_pl`: the server saw the peer leave; the match is over. -/
def ofPl (m : Mach) : Mach :=
  let m :=
    if m.rd frmBuf < 10 then m
    else ((m.st leftSeat (m.rd (frmBuf + 2))).copy (frmBuf + 3) leftName 8).st (leftName + 8) 0
  lsIdleRmt ((m.st peerWhy 1).st netDropped 1)

/-- The frame in FRMBUF, as bytes. -/
def frameBytes (m : Mach) : List Byte :=
  (List.range (m.rd frmBuf + 1)).map (fun i => UInt8.ofNat (m.rd (frmBuf + i)))

/-- The jump table of SES_ONFRAME. -/
def sesDispatch (m : Mach) : Mach :=
  let r0 := m.rd (frmBuf + 1)
  if r0 = ftInput then ofInput m
  else if r0 = ftLobby then ofLobby m
  else if r0 = ftStart then ofStart m
  else if r0 = ftPeerLeft then ofPl m
  else if r0 = ftRoom then ofRoom m
  else if r0 = ftCrc then rsOnCrc m
  else if r0 = ftState then rsOnState m
  else if r0 = ftResync then rsOnReq m
  else m

/-- SES_ONFRAME: dispatch FRMBUF. -/
def sesOnframe (m : Mach) : Mach := sesDispatch (m.log (.frame (frameBytes m)))

/-! ## SES_PUMP -/

/-- SES_FLEN: `(min, max)` body length by type; `(0, 0)` = never arrives inbound. -/
def sesFlen : List (Nat × Nat) :=
  [(0, 0), (0, 0), (0, 0), (2, 74), (0, 0), (38, 38), (6, 6), (6, 6),
   (3, 99), (3, 3), (0, 0), (10, 10), (0, 0), (1, 1), (34, 34), (0, 0)]

/-- The framing check: SES_FLEN admits a frame of this type and length. -/
def flenOk (type len : Nat) : Bool :=
  type < 0x10 && sesFlen.getD type (0, 0) ≠ (0, 0) &&
    (sesFlen.getD type (0, 0)).1 ≤ len && len ≤ (sesFlen.getD type (0, 0)).2

/-- `@@pp_cp`: append the bytes NET_READ returned to the accumulator. -/
def ppCp (m : Mach) : List Byte → Mach
  | [] => m
  | b :: bs =>
    let r1 := m.rd rxWr
    let m := m.st (rxAcc + r1) b.toNat
    ppCp (m.st rxWr ((r1 + 1) % 256)) bs

/-- `@@pp_x`: move `n` bytes from the accumulator to `r5`, `r5 + 1`, .. -/
def ppX (m : Mach) (r5 : Nat) : Nat → Mach
  | 0 => m
  | n + 1 =>
    let r1 := m.rd rxRd
    let m := m.st r5 (m.rd (rxAcc + r1))
    ppX (m.st rxRd ((r1 + 1) % 256)) (r5 + 1) n

/-- `@@pp_slip`: discard one byte. -/
def ppSlip (m : Mach) : Mach :=
  diagBump ((m.st rxRd ((m.rd rxRd + 1) % 256)).log .slip) diagSlip

/-- Where one round of the parse loop goes. -/
inductive Round where
  | done                -- nothing complete is buffered
  | slip (m : Mach)     -- one byte was discarded
  | frame (m : Mach)    -- a frame is in FRMBUF

/-- One round of `@@pp_parse`, up to SES_ONFRAME. -/
def ppRound (m : Mach) : Round :=
  let r0 := (m.rd rxWr + 256 - m.rd rxRd) % 256
  if r0 < 2 then .done
  else
    let r2 := m.rd (rxAcc + m.rd rxRd)
    let r1 := m.rd (rxAcc + (m.rd rxRd + 1) % 256)
    if !flenOk r1 r2 then .slip (ppSlip m)
    else if r0 < r2 + 1 then .done
    else .frame (ppX m frmBuf (r2 + 1))

/-- The parse loop, for at most so many rounds. -/
def ppLoop : Nat → Mach → Option Mach
  | 0, _ => none
  | fuel + 1, m =>
    match ppRound m with
    | .done => some m
    | .slip m => ppLoop fuel m
    | .frame m => ppLoop fuel (sesOnframe m)

/-- The states in which the loop enters SES_ONFRAME. -/
def ppEntries : Nat → Mach → List Mach
  | 0, _ => []
  | fuel + 1, m =>
    match ppRound m with
    | .done => []
    | .slip m => ppEntries fuel m
    | .frame m => m :: ppEntries fuel (sesOnframe m)

/-- Rounds a pump is given: more than the accumulator has bytes. -/
def ppFuel : Nat := 256

/-- SES_PUMP when NET_READ returns `got` (empty when nothing is waiting). -/
def sesPump (m : Mach) (got : List Byte) : Option Mach := ppLoop ppFuel (ppCp m got)

/-- Successive calls of SES_PUMP, one for each read. -/
def pumpAll (m : Mach) : List (List Byte) → Option Mach
  | [] => some m
  | got :: reads =>
    match sesPump m got with
    | none => none
    | some m => pumpAll m reads

/-- The states in which those calls enter SES_ONFRAME. -/
def pumpEntries (m : Mach) : List (List Byte) → List Mach
  | [] => []
  | got :: reads =>
    ppEntries ppFuel (ppCp m got) ++
      match sesPump m got with
      | none => []
      | some m => pumpEntries m reads

/-! ## What the parser reports -/

/-- What a parser does with the head of the stream. -/
inductive Item where
  | slip
  | frame (f : List Byte)
deriving DecidableEq, Repr

/-- The parser's part of an event. -/
def Ev.item : Ev → Option Item
  | .frame f => some (.frame f)
  | .slip => some .slip
  | _ => none

/-- The frames dispatched and slips made so far, oldest first. -/
def Mach.items (m : Mach) : List Item := m.ev.filterMap Ev.item

end IntvBasketball.Console
