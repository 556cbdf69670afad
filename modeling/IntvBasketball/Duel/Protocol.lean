/-
  The lockstep protocol of two consoles, in its own terms.

  Ticks are unbounded numbers here, and messages carry the epoch (the number of
  RS_REBASE calls done) in which they were sent; neither is on the wire. A console that
  is due tick `t` captures its input for tick `t + d`, waits until the newest remote input
  is for tick `t` or later, and runs the tick. Every 64 ticks it reports a checksum. The
  host answers a mismatch by a push, which moves both consoles to tick `t + 16` of a new
  epoch: itself at once, the guest when the end of the push reaches it, wherever it is.
-/
import IntvBasketball.Lib.Link
import IntvBasketball.Console.Ram

namespace IntvBasketball.Duel

open Lib Console

/-- What a ring slot holds: decoded input and keypad. -/
structure Cell where
  dec : Nat
  kp : Nat
deriving DecidableEq, Repr

def idleCell : Cell := ⟨0x40, 0⟩

inductive Msg where
  | input (t : Nat) (c : Cell)
  | crc (t v : Nat)
  | hold (r : Nat)            -- STATE BEGIN with resume tick `r`
  | chunk (f : List Byte)     -- a data frame of the image
  | fin                       -- STATE END
  | ask (t : Nat)             -- RESYNC about tick `t`

/-- The tick an input is for; the tick its report's console has captured up to. -/
def coding (d : Nat) : Coding Msg Cell where
  data
    | .input t c => some (t, c)
    | _ => none
  level
    | .input t _ => some t
    | .crc t _ => some (t + d)
    | _ => none
  level_data := by
    intro m t c h
    cases m <;> cases h
    rfl

structure Party where
  t : Nat                             -- the tick that is due
  ep : Nat                            -- its epoch
  cap : Bool                          -- the input of this pass is captured
  wm : Nat                            -- tick of the newest remote input
  hold : Bool
  r : Nat                             -- resume tick of the push being received
  pend : Bool                         -- a resync is wanted
  own : Nat → Cell
  rmt : Nat → Cell
  recs : Nat → Option (Nat × Nat)     -- checksum records by slot: tick, value

/-- The next tick to capture an input for. -/
def Party.nt (d : Nat) (p : Party) : Nat := if p.cap then p.t + d + 1 else p.t + d

/-- Move to tick `r` of the next epoch. -/
def Party.rebase (d : Nat) (p : Party) (r : Nat) : Party :=
  { p with
    t := r, ep := p.ep + 1, wm := r + d - 1, hold := false, pend := false
    own := fun _ => idleCell, rmt := fun _ => idleCell, recs := fun _ => none }

/-- The record slot of a tick: bits 6 and 7. -/
def slot (t : Nat) : Nat := t / 64 % 4

/-- What a console makes of the peer's checksum `v` for tick `t`. -/
def Party.verdict (p : Party) (t v : Nat) : CrcVerdict :=
  if p.hold then .held
  else if p.pend then .pending
  else
    match p.recs (slot t) with
    | none => .noRecord
    | some (t', v') => if t' ≠ t then .noRecord else if v' = v then .agree else .bad

/-- A message arrives. -/
def Party.recv (d : Nat) (host : Bool) (p : Party) : Msg → Party
  | .input t c =>
    if p.wm < t then { p with wm := t, rmt := Function.update p.rmt (t % 256) c } else p
  | .crc t v => if p.verdict t v = .bad then { p with pend := true } else p
  | .hold r => { p with hold := true, r := r, recs := fun _ => none }
  | .chunk _ => p
  | .fin => if p.hold then p.rebase d p.r else p
  | .ask _ => if host && !p.hold && !p.pend then { p with pend := true } else p

/-- What the guest sends back. -/
def Party.reply (p : Party) : Msg → List Msg
  | .crc t v => if p.verdict t v = .bad then [.ask t] else []
  | _ => []

/-- Capture the input `c` for tick `t + d`. -/
def Party.capture (d : Nat) (p : Party) (c : Cell) : Party :=
  { p with cap := true, own := Function.update p.own ((p.t + d) % 256) c }

/-- Run the tick; `v` is the checksum after it. -/
def Party.run (p : Party) (v : Nat) : Party :=
  { p with
    t := p.t + 1, cap := false
    recs := if p.t % 64 = 0 then Function.update p.recs (slot p.t) (some (p.t, v)) else p.recs }

def Party.report (p : Party) (v : Nat) : List Msg := if p.t % 64 = 0 then [.crc p.t v] else []

/-- The push of a host due tick `t`. -/
def pushMsgs (t : Nat) (fs : List (List Byte)) : List Msg :=
  .hold (t + 16) :: (fs.map .chunk ++ [.fin])

/-- The cells a tick is run on: its own and the one before it. -/
def cellsOf (ring : Nat → Cell) (t : Nat) : SeatCells where
  cur := (ring (t % 256)).dec
  prev := (ring ((t + 255) % 256)).dec
  kp := (ring (t % 256)).kp
  kppre := (ring ((t + 255) % 256)).kp

/-- A tick that was run: the cells of both seats, and the checksum after it. -/
structure Beat where
  t : Nat
  seat0 : SeatCells
  seat1 : SeatCells
  sum : Nat

/-- Both consoles, the messages under way with their epochs, and a record of what was:
    the resume ticks, the inputs, the checksums and the ticks of every epoch. -/
structure Sys where
  h : Party
  g : Party
  toG : List (Nat × Msg)
  toH : List (Nat × Msg)
  base : Nat → Nat
  inH : Nat → Nat → Option Cell
  inG : Nat → Nat → Option Cell
  ckH : Nat → Nat → Option Nat
  ckG : Nat → Nat → Option Nat
  logH : Nat → List Beat
  logG : Nat → List Beat

/-- Messages sent in epoch `e`. -/
def tagged (e : Nat) (ms : List Msg) : List (Nat × Msg) := ms.map (fun m => (e, m))

/-- A checksum of tick `t`, if it is one to report. -/
def putCheck (ck : Nat → Nat → Option Nat) (e t v : Nat) : Nat → Nat → Option Nat :=
  if t % 64 = 0 then putItem ck e t v else ck

/-- Another tick of epoch `e`. -/
def putBeat (log : Nat → List Beat) (e : Nat) (b : Beat) : Nat → List Beat :=
  Function.update log e (log e ++ [b])

/-! ## Steps -/

namespace Sys

def recvH (d : Nat) (s : Sys) (m : Msg) (q : List (Nat × Msg)) : Sys :=
  { s with h := s.h.recv d true m, toH := q }

def recvG (d : Nat) (s : Sys) (m : Msg) (q : List (Nat × Msg)) : Sys :=
  { s with g := s.g.recv d false m, toG := q, toH := s.toH ++ tagged s.g.ep (s.g.reply m) }

def captureH (d : Nat) (s : Sys) (c : Cell) : Sys :=
  { s with
    h := s.h.capture d c
    toG := s.toG ++ [(s.h.ep, .input (s.h.t + d) c)]
    inH := putItem s.inH s.h.ep (s.h.t + d) c }

def captureG (d : Nat) (s : Sys) (c : Cell) : Sys :=
  { s with
    g := s.g.capture d c
    toH := s.toH ++ [(s.g.ep, .input (s.g.t + d) c)]
    inG := putItem s.inG s.g.ep (s.g.t + d) c }

def runH (s : Sys) (v : Nat) : Sys :=
  { s with
    h := s.h.run v
    toG := s.toG ++ tagged s.h.ep (s.h.report v)
    ckH := putCheck s.ckH s.h.ep s.h.t v
    logH := putBeat s.logH s.h.ep ⟨s.h.t, cellsOf s.h.own s.h.t, cellsOf s.h.rmt s.h.t, v⟩ }

def runG (s : Sys) (v : Nat) : Sys :=
  { s with
    g := s.g.run v
    toH := s.toH ++ tagged s.g.ep (s.g.report v)
    ckG := putCheck s.ckG s.g.ep s.g.t v
    logG := putBeat s.logG s.g.ep ⟨s.g.t, cellsOf s.g.rmt s.g.t, cellsOf s.g.own s.g.t, v⟩ }

def pushH (d : Nat) (s : Sys) (fs : List (List Byte)) : Sys :=
  { s with
    h := s.h.rebase d (s.h.t + 16)
    toG := s.toG ++ tagged s.h.ep (pushMsgs s.h.t fs)
    base := Function.update s.base (s.h.ep + 1) (s.h.t + 16) }

end Sys

/-- One step of the pair. -/
inductive Step (d : Nat) : Sys → Sys → Prop where
  | recvH {s : Sys} {e : Nat} {m : Msg} {q : List (Nat × Msg)} (hq : s.toH = (e, m) :: q) :
      Step d s (s.recvH d m q)
  | recvG {s : Sys} {e : Nat} {m : Msg} {q : List (Nat × Msg)} (hq : s.toG = (e, m) :: q) :
      Step d s (s.recvG d m q)
  | captureH {s : Sys} (c : Cell) (hc : s.h.cap = false) : Step d s (s.captureH d c)
  | captureG {s : Sys} (c : Cell) (hc : s.g.cap = false) : Step d s (s.captureG d c)
  | runH {s : Sys} (v : Nat) (hc : s.h.cap = true) (hw : s.h.t ≤ s.h.wm) : Step d s (s.runH v)
  | runG {s : Sys} (v : Nat) (hc : s.g.cap = true) (hw : s.g.t ≤ s.g.wm) : Step d s (s.runG v)
  | pushH {s : Sys} (fs : List (List Byte)) (hc : s.h.cap = false) (hp : s.h.pend = true) :
      Step d s (s.pushH d fs)

/-- A console after START. -/
def Party.start (d : Nat) : Party where
  t := 0
  ep := 0
  cap := false
  wm := d - 1
  hold := false
  r := 0
  pend := false
  own := fun _ => idleCell
  rmt := fun _ => idleCell
  recs := fun _ => none

def Sys.start (d : Nat) : Sys where
  h := Party.start d
  g := Party.start d
  toG := []
  toH := []
  base := fun _ => 0
  inH := fun _ _ => none
  inG := fun _ _ => none
  ckH := fun _ _ => none
  ckG := fun _ _ => none
  logH := fun _ => []
  logG := fun _ => []

/-- What the pair can reach. -/
inductive Reach (d : Nat) : Sys → Prop where
  | start : Reach d (Sys.start d)
  | step {s s' : Sys} (h : Reach d s) (hs : Step d s s') : Reach d s'

end IntvBasketball.Duel
