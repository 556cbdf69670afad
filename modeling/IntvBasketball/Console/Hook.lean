/-
  src/hook.asm and the event engine of src/vdispatch.asm: what the netcode asks of
  the cartridge during one game tick.

  The cartridge itself is a parameter: `Cart` is an arbitrary game, given by its
  slot-1 tick body NB_TICK1 and by the handlers reached through the table at
  $035D. It reads all of memory and changes the game's own cells: everything below
  $8000 and the canonical RNG (`gameCell`), never the netcode's RAM.

  LS_VDISPATCH reads, for one seat, the decoded input and the keypad cell of the
  current ring slot and of the slot before it (`seatCells`), and turns the change
  into handler calls in the order of the EXEC's own scan.
-/
import IntvBasketball.Console.Ram

namespace IntvBasketball.Console

/-- The cells the game owns. -/
def gameCell (a : Nat) : Prop := a < 0x8000 ∨ a = rngLo ∨ a = rngHi

instance (a : Nat) : Decidable (gameCell a) := by unfold gameCell; infer_instance

/-- The game: NB_TICK1, the handlers (entry address, R0, R1), and where the
    assembler placed NET_NULL_TBL. -/
structure Cart where
  nbTick1 : Mem → Nat → Nat
  handler : (entry r0 r1 : Nat) → Mem → Nat → Nat
  nullTbl : Nat

/-- Let the game compute new values for its cells. -/
def Mach.game (m : Mach) (f : Mem → Nat → Nat) : Mach :=
  { m with mem :=
      { cell := fun a => if gameCell a then f m.mem a % cellMod a else m.mem.cell a
        wf := fun a => by
          by_cases h : gameCell a
          · simpa [h] using Nat.mod_lt _ (cellMod_pos a)
          · simpa [h] using m.mem.wf a } }

namespace Mach

theorem rd_game (m : Mach) (f : Mem → Nat → Nat) (a : Nat) :
    (m.game f).rd a = if gameCell a then f m.mem a % cellMod a else m.rd a := rfl

theorem Does.game {S : Nat → Prop} {tx : List Byte} {ev : List Ev} {m m' : Mach}
    (h : Does S tx ev m m') (f : Mem → Nat → Nat) (hS : ∀ a, gameCell a → S a) :
    Does S tx ev m (m'.game f) where
  keep a ha := by rw [rd_game, if_neg (fun hg => ha (hS a hg)), h.keep a ha]
  stores := h.stores
  tx_eq := h.tx_eq
  ev_eq := h.ev_eq

end Mach

/-! ## The game tick -/

/-- The four native countdowns $0129-$0130. -/
def countdown : Nat := 0x0129

/-- NB_GAME_TICK: the game's tick body, then the countdown mirror. -/
def nbGameTick (k : Cart) (m : Mach) : Mach := (m.game k.nbTick1).copy countdown scCnt2 8

/-- NB_REBASE_HOOK: the countdowns back from their mirror. -/
def nbRebaseHook (m : Mach) : Mach := m.copy scCnt2 countdown 8

/-- SHADOW_FROM_RINGS: both seats' decoded input of the current tick. -/
def shadowFromRings (m : Mach) : Mach :=
  let t := m.rd tickLo
  let m := m.st shadowCtrl (m.rd (seatRing + t))
  m.st shadowCtrlR (m.rd (seatRing + 0x100 + t))

/-! ## Handler tables -/

/-- LS_TBL_ADOPT: park the live handler table unless it is our null table. -/
def lsTblAdopt (k : Cart) (m : Mach) : Mach :=
  let r0 := m.rd execHtbl
  if r0 = k.nullTbl + 4 then m
  else (m.st gameTblLo r0).st gameTblHi (r0 / 256)

/-- LS_VCALL: call handler [live table + VD_TMP] with event value `r0`. -/
def lsVcall (k : Cart) (m : Mach) (r0 : Nat) : Mach :=
  let m := m.log (.vcall (m.rd vdSide) (m.rd vdTmp) r0)
  let r1 := m.rd execHtbl
  if r1 = 0 then m
  else
    let r4 := (r1 + m.rd vdTmp) % 65536
    let r2 := word (m.rd r4 % 256) (m.rd ((r4 + 1) % 65536) % 256)
    if r2 = 0 then m else m.game (k.handler r2 r0 (m.rd vdCtrl))

/-- LS_RING_INIT: all eight ring pages to idle. -/
def lsRingInit (m : Mach) : Mach := (m.fill seatRing 1024 0x40).fill seatKp 1024 0

/-! ## LS_VDISPATCH -/

/-- Cell of the ring page at `base` for the slot before `t`. -/
def prevSlot (base t : Nat) : Nat := if t = 0 then base + 255 else base + t - 1

/-- The four ring cells LS_VDISPATCH reads for `seat` at slot `t`. -/
def seatCells (m : Mach) (seat t : Nat) : SeatCells where
  cur := m.rd (seatRing + seat * 256 + t)
  prev := m.rd (prevSlot (seatRing + seat * 256) t)
  kp := m.rd (seatKp + seat * 256 + t)
  kppre := m.rd (prevSlot (seatKp + seat * 256) t)

/-- Load VD_CUR, VD_PREV, VD_KP and VD_KPPRE for the seat VD_SIDE. -/
def vdLoad (m : Mach) : Mach :=
  let c := seatCells m (m.rd vdSide) (m.rd tickLo)
  (((m.st vdCur c.cur).st vdPrev c.prev).st vdKp c.kp).st vdKppre c.kppre

/-- Action-button release: the handler of the button that was down, with R0 = -1. -/
def vdRelease (k : Cart) (m : Mach) : Mach :=
  let r0 := m.rd vdKppre
  if r0 = 0 ∨ 3 < r0 ∨ r0 = m.rd vdKp then m
  else lsVcall k (m.st vdTmp (r0 * 2 + 2)) 0xFFFF

/-- Action-button press (R0 = 1) or held re-fire (R0 = 0). -/
def vdPress (k : Cart) (m : Mach) : Mach :=
  let r0 := m.rd vdKp
  if r0 = 0 ∨ 3 < r0 then m
  else
    let m := m.st vdTmp (r0 * 2 + 2)
    lsVcall k m (if m.rd vdKp = m.rd vdKppre then 0 else 1)

/-- A changed decoded cell: keypad event, disc event, or disc settle. -/
def vdDisc (k : Cart) (m : Mach) : Mach :=
  let r0 := m.rd vdCur
  if r0 = m.rd vdPrev then m
  else if r0 / 64 % 2 = 0 then
    let m := m.st vdTmp (if r0 / 128 % 2 = 0 then 0 else 2)
    lsVcall k m (m.rd vdCur % 128)
  else if r0 / 128 % 2 = 0 then lsVcall k (m.st vdTmp 0) 0xFFFF
  else m

/-- LS_VDISPATCH for the seat VD_SIDE at the current tick. -/
def lsVdispatch (k : Cart) (m : Mach) : Mach :=
  vdDisc k (vdPress k (vdRelease k (vdLoad m)))

end IntvBasketball.Console
