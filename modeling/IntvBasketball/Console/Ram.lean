/-
  The console's memory and the machine the netcode runs on.

  `Mem` is the whole address space, one cell per address. Scratch RAM
  ($0100-$01FF), cart RAM and the mailbox ($8000 and up) are 8-bit cells and
  truncate what is stored; System RAM ($0200-$035F) and the rest are 16-bit
  cells. `Mem.wf` carries that bound, so a value read back from an 8-bit cell is
  known to be a byte.

  `Mach` adds three records the proofs are about: every address stored to
  (`stores`, newest first), the bytes handed to NET_WRITE (`tx`, oldest first),
  and what the netcode did (`ev`, oldest first). They have no effect on the run.

  Addresses are those of src/ram.asm and src/exec_equ.asm. Words are `Nat` with
  an explicit `% 65536`; a byte never has its sign bit set, so the signed
  compares of the source (BLT, BGE, BGT) are `<` and `≤` wherever both operands
  are byte cells or small positions. `neg16` is the sign flag where the source
  tests a 16-bit difference.
-/
import Mathlib.Logic.Function.Basic
import Mathlib.Tactic.Common

namespace IntvBasketball.Console

/-- A byte on the wire. -/
abbrev Byte := UInt8

/-! ## Addresses -/

def resyncHold : Nat := 0x8090
def rsRLo : Nat := 0x8091
def rsRHi : Nat := 0x8092
def rsToLo : Nat := 0x8093
def rsToHi : Nat := 0x8094
def rsTmp : Nat := 0x8095
def rsPosLo : Nat := 0x8096
def rsPosHi : Nat := 0x8097
def rsTmp2 : Nat := 0x8098
def gameTblLo : Nat := 0x80C0
def gameTblHi : Nat := 0x80C1
def vdTmp : Nat := 0x80C2
def vdSide : Nat := 0x80C3
def vdCur : Nat := 0x80C4
def vdPrev : Nat := 0x80C5
def vdKp : Nat := 0x80C6
def vdKppre : Nat := 0x80C7
def rngLo : Nat := 0x8106
def rngHi : Nat := 0x8107
def tickLo : Nat := 0x8108
def tickHi : Nat := 0x8109
def rsSpare0 : Nat := 0x8102
def rsSpare1 : Nat := 0x810F
def rxWr : Nat := 0x8134
def rxRd : Nat := 0x8135
def shadowCtrl : Nat := 0x8136
def shadowCtrlR : Nat := 0x8137
def nameBuf : Nat := 0x8150
def menuSel : Nat := 0x815A
def lobbyCnt : Nat := 0x815C
def sesTmrLo : Nat := 0x815D
def netSeat : Nat := 0x8160
def netDelay : Nat := 0x8161
def netActive : Nat := 0x8162
def netDropped : Nat := 0x8163
def lsTmpb : Nat := 0x8168
def lsTmpb2 : Nat := 0x8169
def lsFroze : Nat := 0x816A
def lsSave102 : Nat := 0x816B
def lsWaitcLo : Nat := 0x816C
def lsWaitcHi : Nat := 0x816D
def ppTmp : Nat := 0x816E
def diagSlip : Nat := 0x8180
def diagRej : Nat := 0x8181
def diagTmo : Nat := 0x8182
def diagErr : Nat := 0x8183
def peerScr : Nat := 0x8185
def peerWhy : Nat := 0x8186
def rsPend : Nat := 0x8187
def rsPtmo : Nat := 0x8188
def rsWaited : Nat := 0x8189
def rsGate : Nat := 0x818A
def uiColor : Nat := 0x818B
def scCnt2 : Nat := 0x8196
def netCount : Nat := 0x819E
def seatWm : Nat := 0x81A0
def vdCtrl : Nat := 0x81A8
def roomCnt : Nat := 0x81AA
def roomHost : Nat := 0x81AB
def leftSeat : Nat := 0x81AC
def scIsrSave : Nat := 0x81AD
def leftName : Nat := 0x81B0
def nameTbl : Nat := 0x81C0
def rxAcc : Nat := 0x8200
def frmBuf : Nat := 0x8300
def lobbyCache : Nat := 0x8380
def seatRing : Nat := 0x8400
def seatKp : Nat := 0x8800
def ownCrc : Nat := 0x8C00
def execInL : Nat := 0x011F
def execKpL : Nat := 0x0121
def execHtbl : Nat := 0x035D
def isrPhase : Nat := 0x0102
def nbPhase : Nat := 0x0163
def backtab : Nat := 0x0200

attribute [simp] resyncHold rsRLo rsRHi rsToLo rsToHi rsTmp rsPosLo rsPosHi rsTmp2 gameTblLo
  gameTblHi vdTmp vdSide vdCur vdPrev vdKp vdKppre rngLo rngHi tickLo tickHi rsSpare0 rsSpare1
  rxWr rxRd shadowCtrl shadowCtrlR nameBuf menuSel lobbyCnt netSeat netDelay netActive netDropped
  lsTmpb lsTmpb2 lsFroze lsSave102 lsWaitcLo lsWaitcHi ppTmp diagSlip diagRej diagTmo diagErr
  peerScr peerWhy rsPend rsPtmo rsWaited rsGate uiColor scCnt2 netCount seatWm vdCtrl roomCnt
  roomHost leftSeat scIsrSave leftName nameTbl rxAcc frmBuf lobbyCache seatRing seatKp ownCrc
  execInL execKpL execHtbl isrPhase nbPhase backtab

/-! ## Frame types -/

def ftLobby : Nat := 0x03
def ftStart : Nat := 0x05
def ftInput : Nat := 0x06
def ftCrc : Nat := 0x07
def ftState : Nat := 0x08
def ftResync : Nat := 0x09
def ftPeerLeft : Nat := 0x0B
def ftRoom : Nat := 0x0E

attribute [simp] ftLobby ftStart ftInput ftCrc ftState ftResync ftPeerLeft ftRoom

/-! ## 16-bit arithmetic -/

/-- `a - b` in a 16-bit register. -/
def sub16 (a b : Nat) : Nat := (a + 65536 - b) % 65536

/-- The sign flag of a 16-bit result (BMI). -/
def neg16 (a : Nat) : Bool := 32768 ≤ a

/-- Two byte cells as one word, low byte first. -/
def word (lo hi : Nat) : Nat := hi * 256 + lo

/-! ## Memory -/

/-- One more than the largest value the cell at `a` can hold. -/
def cellMod (a : Nat) : Nat := if (0x100 ≤ a ∧ a < 0x200) ∨ 0x8000 ≤ a then 256 else 65536

theorem cellMod_pos (a : Nat) : 0 < cellMod a := by
  unfold cellMod; split <;> omega

theorem cellMod_le (a : Nat) : cellMod a ≤ 65536 := by
  unfold cellMod; split <;> omega

theorem cellMod_cart {a : Nat} (h : 0x8000 ≤ a) : cellMod a = 256 := by
  unfold cellMod; rw [if_pos (Or.inr h)]

theorem cellMod_scratch {a : Nat} (h : 0x100 ≤ a) (h' : a < 0x200) : cellMod a = 256 := by
  unfold cellMod; rw [if_pos (Or.inl ⟨h, h'⟩)]

theorem cellMod_system {a : Nat} (h : 0x200 ≤ a) (h' : a < 0x8000) : cellMod a = 65536 := by
  unfold cellMod; rw [if_neg (by omega)]

/-- The address space: every cell holds a value of its width. -/
structure Mem where
  cell : Nat → Nat
  wf : ∀ a, cell a < cellMod a

namespace Mem

@[ext] theorem ext {m n : Mem} (h : ∀ a, m.cell a = n.cell a) : m = n := by
  cases m; cases n; congr; exact funext h

/-- Store `v` at `a`, truncated to the width of the cell. -/
def set (m : Mem) (a v : Nat) : Mem where
  cell b := if b = a then v % cellMod a else m.cell b
  wf b := by
    by_cases h : b = a
    · subst h; simpa using Nat.mod_lt v (cellMod_pos b)
    · simpa [h] using m.wf b

theorem cell_set (m : Mem) (a v b : Nat) :
    (m.set a v).cell b = if b = a then v % cellMod a else m.cell b := rfl

/-- Memory with every cell 0. -/
def zero : Mem := ⟨fun _ => 0, cellMod_pos⟩

end Mem

/-! ## The machine -/

/-- The ring cells LS_VDISPATCH reads for one seat: decoded input and keypad
    cell at the current slot and at the slot before it. -/
structure SeatCells where
  cur : Nat
  prev : Nat
  kp : Nat
  kppre : Nat
deriving DecidableEq, Repr

/-- How RS_ON_CRC left. -/
inductive CrcVerdict where
  | short | held | pending | noRecord | agree | bad
deriving DecidableEq, Repr

/-- What the netcode did. -/
inductive Ev where
  | frame (f : List Byte)                     -- SES_ONFRAME entered with this frame
  | slip                                      -- SES_PUMP discarded a byte
  | tick (t : Nat) (seat0 seat1 : SeatCells)  -- LS_PASS ran tick `t` on these cells
  | vcall (side slot r0 : Nat)                -- LS_VDISPATCH called LS_VCALL
  | hold                                      -- RS_ENTER_HOLD
  | rebase (r : Nat)                          -- RS_REBASE to tick `r`
  | pend                                      -- RS_PEND went to 1
  | push (r : Nat)                            -- RS_PUSH with resume tick `r`
  | record (t crc pend hold : Nat)            -- RS_RECORD_CRC, with RS_PEND and RESYNC_HOLD
  | onCrc (t crc : Nat) (v : CrcVerdict)      -- RS_ON_CRC
deriving DecidableEq, Repr

/-- No frame, tick, hold or re-base. -/
def Ev.quiet : Ev → Bool
  | .frame _ => false
  | .tick .. => false
  | .hold => false
  | .rebase _ => false
  | _ => true

structure Mach where
  mem : Mem
  stores : List Nat
  tx : List Byte
  ev : List Ev

namespace Mach

/-- All memory 0, nothing sent yet. -/
def zero : Mach := ⟨Mem.zero, [], [], []⟩

/-- The value at `a`. -/
def rd (m : Mach) (a : Nat) : Nat := m.mem.cell a

/-- MVO: store `v` at `a`. -/
def st (m : Mach) (a v : Nat) : Mach :=
  { m with mem := m.mem.set a v, stores := a :: m.stores }

/-- Record an event. -/
def log (m : Mach) (e : Ev) : Mach := { m with ev := m.ev ++ [e] }

/-- NET_WRITE of the bytes staged at FN_TX; each mailbox cell truncates to 8 bits. -/
def netWrite (m : Mach) (bytes : List Nat) : Mach := { m with tx := m.tx ++ bytes.map UInt8.ofNat }

/-- `n` stores of `v` at consecutive addresses (an auto-increment fill loop). -/
def fill (m : Mach) (a : Nat) : Nat → Nat → Mach
  | 0, _ => m
  | n + 1, v => (m.st a v).fill (a + 1) n v

/-- Stores of the values `vs` at consecutive addresses. -/
def stList (m : Mach) (a : Nat) : List Nat → Mach
  | [] => m
  | v :: vs => (m.st a v).stList (a + 1) vs

/-- Copy `n` cells upward, one at a time (MVI@ R4 / MVO@ R5). -/
def copy (m : Mach) (src dst : Nat) : Nat → Mach
  | 0 => m
  | n + 1 => (m.st dst (m.rd src)).copy (src + 1) (dst + 1) n

theorem rd_lt (m : Mach) (a : Nat) : m.rd a < cellMod a := m.mem.wf a

theorem rd_lt_cart (m : Mach) {a : Nat} (h : 0x8000 ≤ a) : m.rd a < 256 := by
  simpa [cellMod_cart h] using m.rd_lt a

theorem rd_lt_word (m : Mach) (a : Nat) : m.rd a < 65536 :=
  Nat.lt_of_lt_of_le (m.rd_lt a) (cellMod_le a)

theorem rd_st (m : Mach) (a v b : Nat) :
    (m.st a v).rd b = if b = a then v % cellMod a else m.rd b := rfl

@[simp] theorem rd_st_self (m : Mach) (a v : Nat) : (m.st a v).rd a = v % cellMod a := by
  simp [rd_st]

theorem rd_st_ne (m : Mach) {a b : Nat} (v : Nat) (h : b ≠ a) : (m.st a v).rd b = m.rd b := by
  simp [rd_st, h]

@[simp] theorem stores_st (m : Mach) (a v : Nat) : (m.st a v).stores = a :: m.stores := rfl
@[simp] theorem tx_st (m : Mach) (a v : Nat) : (m.st a v).tx = m.tx := rfl
@[simp] theorem ev_st (m : Mach) (a v : Nat) : (m.st a v).ev = m.ev := rfl

@[simp] theorem rd_log (m : Mach) (e : Ev) (a : Nat) : (m.log e).rd a = m.rd a := rfl
@[simp] theorem mem_log (m : Mach) (e : Ev) : (m.log e).mem = m.mem := rfl
@[simp] theorem stores_log (m : Mach) (e : Ev) : (m.log e).stores = m.stores := rfl
@[simp] theorem tx_log (m : Mach) (e : Ev) : (m.log e).tx = m.tx := rfl
@[simp] theorem ev_log (m : Mach) (e : Ev) : (m.log e).ev = m.ev ++ [e] := rfl

@[simp] theorem rd_netWrite (m : Mach) (bs : List Nat) (a : Nat) :
    (m.netWrite bs).rd a = m.rd a := rfl
@[simp] theorem stores_netWrite (m : Mach) (bs : List Nat) : (m.netWrite bs).stores = m.stores := rfl
@[simp] theorem tx_netWrite (m : Mach) (bs : List Nat) :
    (m.netWrite bs).tx = m.tx ++ bs.map UInt8.ofNat := rfl
@[simp] theorem ev_netWrite (m : Mach) (bs : List Nat) : (m.netWrite bs).ev = m.ev := rfl

/-! ### Block stores -/

theorem rd_fill (m : Mach) (a n v b : Nat) :
    (m.fill a n v).rd b = if a ≤ b ∧ b < a + n then v % cellMod b else m.rd b := by
  induction n generalizing m a with
  | zero => rw [fill, if_neg (by omega)]
  | succ n ih =>
    rw [fill, ih, rd_st]
    by_cases hb : b = a
    · subst hb; simp
    · by_cases h : a + 1 ≤ b ∧ b < a + 1 + n
      · rw [if_pos h, if_pos (by omega)]
      · rw [if_neg h, if_neg hb, if_neg (by omega)]

theorem rd_fill_of_lt (m : Mach) {a n v b : Nat} (h : b < a ∨ a + n ≤ b) :
    (m.fill a n v).rd b = m.rd b := by
  rw [rd_fill, if_neg (by omega)]

theorem rd_stList_of_lt (m : Mach) {a b : Nat} {vs : List Nat} (h : b < a ∨ a + vs.length ≤ b) :
    (m.stList a vs).rd b = m.rd b := by
  induction vs generalizing m a with
  | nil => rfl
  | cons v vs ih =>
    rw [List.length_cons] at h
    rw [stList, ih _ (by omega), rd_st_ne _ _ (by omega)]

theorem rd_stList (m : Mach) (a : Nat) {vs : List Nat} {i : Nat} (h : i < vs.length) :
    (m.stList a vs).rd (a + i) = vs[i] % cellMod (a + i) := by
  induction vs generalizing m a i with
  | nil => exact absurd h (Nat.not_lt_zero i)
  | cons v vs ih =>
    rw [stList]
    cases i with
    | zero => rw [rd_stList_of_lt _ (by omega), Nat.add_zero, rd_st_self]; rfl
    | succ i =>
      have := ih (m.st a v) (a + 1) (Nat.lt_of_succ_lt_succ h)
      rwa [Nat.add_right_comm, Nat.add_assoc] at this

/-! ### What a piece of code does -/

/-- Between `m` and `m'` only cells of `S` were stored to, the bytes `tx` were sent and
    the events `ev` happened. -/
structure Does (S : Nat → Prop) (tx : List Byte) (ev : List Ev) (m m' : Mach) : Prop where
  keep : ∀ a, ¬ S a → m'.rd a = m.rd a
  stores : ∃ l, m'.stores = l ++ m.stores ∧ ∀ a ∈ l, S a
  tx_eq : m'.tx = m.tx ++ tx
  ev_eq : m'.ev = m.ev ++ ev

/-- Stores to cells of `S` and nothing else. -/
abbrev Within (S : Nat → Prop) (m m' : Mach) : Prop := Does S [] [] m m'

namespace Does
variable {S T : Nat → Prop} {tx tx' : List Byte} {ev ev' : List Ev} {m m' m'' : Mach}

theorem refl (S : Nat → Prop) (m : Mach) : Within S m m where
  keep _ _ := rfl
  stores := ⟨[], rfl, fun _ h => absurd h List.not_mem_nil⟩
  tx_eq := (List.append_nil _).symm
  ev_eq := (List.append_nil _).symm

theorem trans (h : Does S tx ev m m') (h' : Does S tx' ev' m' m'') :
    Does S (tx ++ tx') (ev ++ ev') m m'' where
  keep a ha := (h'.keep a ha).trans (h.keep a ha)
  stores := by
    obtain ⟨l, hl, hS⟩ := h.stores
    obtain ⟨l', hl', hS'⟩ := h'.stores
    refine ⟨l' ++ l, by rw [hl', hl, List.append_assoc], fun a ha => ?_⟩
    rcases List.mem_append.mp ha with ha | ha
    · exact hS' a ha
    · exact hS a ha
  tx_eq := by rw [h'.tx_eq, h.tx_eq, List.append_assoc]
  ev_eq := by rw [h'.ev_eq, h.ev_eq, List.append_assoc]

/-- Continue with stores only. -/
theorem within (h : Does S tx ev m m') (h' : Within S m' m'') : Does S tx ev m m'' := by
  simpa using h.trans h'

theorem mono (h : Does S tx ev m m') (hST : ∀ a, S a → T a) : Does T tx ev m m' where
  keep a ha := h.keep a (fun hs => ha (hST a hs))
  stores := by
    obtain ⟨l, hl, hS⟩ := h.stores
    exact ⟨l, hl, fun a ha => hST a (hS a ha)⟩
  tx_eq := h.tx_eq
  ev_eq := h.ev_eq

theorem st (h : Does S tx ev m m') {a : Nat} (v : Nat) (ha : S a) :
    Does S tx ev m (m'.st a v) where
  keep b hb := by
    have hba : b ≠ a := by rintro rfl; exact hb ha
    rw [rd_st_ne _ _ hba, h.keep b hb]
  stores := by
    obtain ⟨l, hl, hS⟩ := h.stores
    refine ⟨a :: l, by rw [stores_st, hl, List.cons_append], fun b hb => ?_⟩
    rcases List.mem_cons.mp hb with rfl | hb
    · exact ha
    · exact hS b hb
  tx_eq := h.tx_eq
  ev_eq := h.ev_eq

theorem log (h : Does S tx ev m m') (e : Ev) : Does S tx (ev ++ [e]) m (m'.log e) where
  keep := h.keep
  stores := h.stores
  tx_eq := h.tx_eq
  ev_eq := by rw [ev_log, h.ev_eq, List.append_assoc]

theorem netWrite (h : Does S tx ev m m') (bs : List Nat) :
    Does S (tx ++ bs.map UInt8.ofNat) ev m (m'.netWrite bs) where
  keep := h.keep
  stores := h.stores
  tx_eq := by rw [tx_netWrite, h.tx_eq, List.append_assoc]
  ev_eq := h.ev_eq

theorem fill (h : Does S tx ev m m') {a n : Nat} (v : Nat)
    (ha : ∀ b, a ≤ b → b < a + n → S b) : Does S tx ev m (m'.fill a n v) := by
  induction n generalizing m' a with
  | zero => exact h
  | succ n ih =>
    exact ih (h.st v (ha a (by omega) (by omega))) (fun b h1 h2 => ha b (by omega) (by omega))

theorem stList (h : Does S tx ev m m') {a : Nat} {vs : List Nat}
    (ha : ∀ b, a ≤ b → b < a + vs.length → S b) : Does S tx ev m (m'.stList a vs) := by
  induction vs generalizing m' a with
  | nil => exact h
  | cons v vs ih =>
    rw [List.length_cons] at ha
    exact ih (h.st v (ha a (by omega) (by omega))) (fun b h1 h2 => ha b (by omega) (by omega))

theorem copy (h : Does S tx ev m m') {src dst n : Nat}
    (ha : ∀ b, dst ≤ b → b < dst + n → S b) : Does S tx ev m (m'.copy src dst n) := by
  induction n generalizing m' src dst with
  | zero => exact h
  | succ n ih =>
    exact ih (h.st _ (ha dst (by omega) (by omega))) (fun b h1 h2 => ha b (by omega) (by omega))

/-- A conditional step: skipped, or continued from the same point. -/
theorem skip {c : Prop} [Decidable c] (h : Does S tx ev m m')
    (hs : Does S tx ev m m' → Does S tx ev m m'') : Does S tx ev m (if c then m' else m'') := by
  split
  · exact h
  · exact hs h

end Does

/-- Stores to cells of `S`, whatever was sent and happened. -/
def Only (S : Nat → Prop) (m m' : Mach) : Prop := ∃ tx ev, Does S tx ev m m'

theorem Does.only {S : Nat → Prop} {tx : List Byte} {ev : List Ev} {m m' : Mach}
    (h : Does S tx ev m m') : Only S m m' := ⟨tx, ev, h⟩

namespace Only
variable {S T : Nat → Prop} {m m' m'' : Mach}

theorem trans (h : Only S m m') (h' : Only S m' m'') : Only S m m'' := by
  obtain ⟨tx, ev, h⟩ := h
  obtain ⟨tx', ev', h'⟩ := h'
  exact ⟨_, _, h.trans h'⟩

theorem mono (h : Only S m m') (hST : ∀ a, S a → T a) : Only T m m' := by
  obtain ⟨tx, ev, h⟩ := h
  exact ⟨tx, ev, h.mono hST⟩

theorem keep (h : Only S m m') {a : Nat} (ha : ¬ S a) : m'.rd a = m.rd a := by
  obtain ⟨tx, ev, h⟩ := h
  exact h.keep a ha

end Only

/-- Stores to cells of `S`, with quiet events only. -/
def Mute (S : Nat → Prop) (m m' : Mach) : Prop :=
  ∃ tx ev, Does S tx ev m m' ∧ ∀ e ∈ ev, e.quiet = true

theorem Does.mute {S : Nat → Prop} {tx : List Byte} {m m' : Mach} (h : Does S tx [] m m') :
    Mute S m m' := ⟨tx, [], h, fun _ he => absurd he List.not_mem_nil⟩

namespace Mute
variable {S T : Nat → Prop} {m m' m'' : Mach}

theorem only (h : Mute S m m') : Only S m m' := by
  obtain ⟨tx, ev, h, -⟩ := h
  exact ⟨tx, ev, h⟩

theorem refl (S : Nat → Prop) (m : Mach) : Mute S m m := (Does.refl S m).mute

theorem trans (h : Mute S m m') (h' : Mute S m' m'') : Mute S m m'' := by
  obtain ⟨tx, ev, h, hq⟩ := h
  obtain ⟨tx', ev', h', hq'⟩ := h'
  refine ⟨_, _, h.trans h', fun e he => ?_⟩
  rcases List.mem_append.mp he with he | he
  · exact hq e he
  · exact hq' e he

theorem mono (h : Mute S m m') (hST : ∀ a, S a → T a) : Mute T m m' := by
  obtain ⟨tx, ev, h, hq⟩ := h
  exact ⟨tx, ev, h.mono hST, hq⟩

theorem log (m : Mach) {e : Ev} (he : e.quiet = true) : Mute S m (m.log e) := by
  refine ⟨[], [e], by simpa using (Does.refl S m).log e, fun e' h => ?_⟩
  rw [List.mem_singleton.mp h, he]

theorem keep (h : Mute S m m') {a : Nat} (ha : ¬ S a) : m'.rd a = m.rd a := h.only.keep ha

end Mute

/-- Between `m` and `m'` there was a store to `b`. -/
def Puts (b : Nat) (m m' : Mach) : Prop := ∃ l, m'.stores = l ++ m.stores ∧ b ∈ l

theorem puts_st (m : Mach) (a v : Nat) : Puts a m (m.st a v) := ⟨[a], rfl, List.mem_singleton_self a⟩

theorem Puts.after {S : Nat → Prop} {tx : List Byte} {ev : List Ev} {b : Nat} {m m' m'' : Mach}
    (h : Puts b m m') (h' : Does S tx ev m' m'') : Puts b m m'' := by
  obtain ⟨l, hl, hb⟩ := h
  obtain ⟨l', hl', -⟩ := h'.stores
  exact ⟨l' ++ l, by rw [hl', hl, List.append_assoc], List.mem_append_right _ hb⟩

theorem Does.puts {S : Nat → Prop} {tx : List Byte} {ev : List Ev} {b : Nat} {m m' m'' : Mach}
    (h : Does S tx ev m m') (h' : Puts b m' m'') : Puts b m m'' := by
  obtain ⟨l, hl, -⟩ := h.stores
  obtain ⟨l', hl', hb⟩ := h'
  exact ⟨l' ++ l, by rw [hl', hl, List.append_assoc], List.mem_append_left _ hb⟩

end Mach

/-- `n` cells from `a` on. -/
def area (a n b : Nat) : Prop := a ≤ b ∧ b < a + n

instance (a n b : Nat) : Decidable (area a n b) := by unfold area; infer_instance

/-- DIAG_BUMP: saturating increment of an 8-bit counter. -/
def diagBump (m : Mach) (a : Nat) : Mach :=
  if m.rd a = 0xFF then m else m.st a (m.rd a + 1)

theorem within_diagBump (m : Mach) (a : Nat) : Mach.Within (· = a) m (diagBump m a) := by
  unfold diagBump
  split
  · exact Mach.Does.refl _ m
  · exact (Mach.Does.refl _ m).st _ rfl

theorem rd_diagBump (m : Mach) {a : Nat} (h : 0x8000 ≤ a) :
    (diagBump m a).rd a = min 255 (m.rd a + 1) := by
  have hb := m.rd_lt_cart h
  unfold diagBump
  split
  · omega
  · rw [Mach.rd_st_self, cellMod_cart h]
    omega

end IntvBasketball.Console
