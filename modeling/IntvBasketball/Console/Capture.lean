/-
  src/vdispatch.asm: VIRT_CAPTURE in its three builds, SCR_STEP and REC_CAPTURE.

  `Captures` is what VIRT_CAPTURE is for: of the ring pages it stores to the two seats'
  cells of slot T+d and to nothing else, and once a replay table is used up these cells go
  idle. `virtCapture_iff` says when it does so. The idle branch of a replay build goes from
  seat 0's cell to seat 1's with `ADDI #$100` and then DECR, as if MVO@ had stepped R3; R3
  does not step, and it is the cell before seat 1's that is stored to. The tests against
  REPLAY_LEN and against REC_CAPTURE's 768 are signed (`recCapture_iff`).
-/
import IntvBasketball.Console.Mailbox

namespace IntvBasketball.Console

open Mach (Within Does)

def delayEn : Nat := 0x8105
def slfLo : Nat := 0x810A
def slfHi : Nat := 0x810B
def scrIdx : Nat := 0x810D
def scrCnt : Nat := 0x810E
def execInR : Nat := 0x0120
def execKpR : Nat := 0x0122

/-! ## The build -/

/-- SCRIPT_TBL: ticks, decoded input and keypad of both seats, row after row. -/
def scriptRows : List Nat :=
  [20, 0x40, 0x40, 0, 0,  15, 0x02, 0x08, 0, 0,  5, 0x40, 0x40, 0, 0,  15, 0x0C, 0x04, 0, 0,
   5, 0x40, 0x40, 0, 0,  15, 0x04, 0x0C, 0, 0,  5, 0x40, 0x40, 0, 0,  15, 0x08, 0x02, 0, 0,
   10, 0x40, 0x40, 0, 0,  15, 0x02, 0x08, 0, 0,  5, 0x40, 0x40, 0, 0,  15, 0x0C, 0x04, 0, 0,
   5, 0x40, 0x40, 0, 0,  15, 0x04, 0x0C, 0, 0,  5, 0x40, 0x40, 0, 0,  15, 0x08, 0x02, 0, 0,
   20, 0x40, 0x40, 0, 0,  0]

/-- Where the assembler put the tables, and what the ROM holds; `none` is RAM. A recording
    has at most 768 ticks. -/
structure Rom where
  word : Nat → Option Nat
  replayTbl : Nat
  replayLen : Nat
  len_le : replayLen ≤ 768
  scriptTbl : Nat
  script : ∀ i < scriptRows.length, word (scriptTbl + i) = some (scriptRows.getD i 0)

/-- SPIKE_REPLAY, SPIKE_SCRIPT, or neither. -/
inductive Feed where
  | replay | script | live
deriving DecidableEq, Repr

/-- MVI@ of an address in ROM or RAM. -/
def Rom.fetch (k : Rom) (m : Mach) (a : Nat) : Nat := (k.word a).getD (m.rd a)

/-- The next address of R4. -/
def inc16 (a : Nat) : Nat := (a + 1) % 65536

/-! ## VIRT_CAPTURE -/

/-- Four words from `r4` on, to slot `r1` of both seats. -/
def captureRow (k : Rom) (m : Mach) (r1 r4 : Nat) : Mach :=
  let m := m.st (seatRing + r1) (k.fetch m r4)
  let m := m.st (seatRing + 0x100 + r1) (k.fetch m (inc16 r4))
  let m := m.st (seatKp + r1) (k.fetch m (inc16 (inc16 r4)))
  m.st (seatKp + 0x100 + r1) (k.fetch m (inc16 (inc16 (inc16 r4))))

/-- The table is used up. R3 does not step, and is taken one back all the same. -/
def captureIdle (m : Mach) (r1 : Nat) : Mach :=
  let m := m.st (seatRing + r1) 0x40
  let m := m.st (seatRing + r1 + 0x100 - 1) 0x40
  let m := m.st (seatKp + r1) 0
  m.st (seatKp + r1 + 0x100 - 1) 0

/-- SCR_STEP: R2 is the row, or 0. -/
def scrStep (k : Rom) (m : Mach) : Mach × Nat :=
  let r2 := m.rd scrIdx
  if r2 = 0xFF then (m, 0)
  else
    let r2 := (r2 + k.scriptTbl) % 65536
    let r0 := k.fetch m r2
    let r1 := m.rd scrCnt + 1
    if slt16 r1 r0 then (m.st scrCnt r1, r2)
    else
      let r0 := m.rd scrIdx + 5
      let m := m.st scrIdx r0
      let m := if k.fetch m ((r0 + k.scriptTbl) % 65536) = 0 then m.st scrIdx 0xFF else m
      (m.st scrCnt 0, r2)

/-- `@@vf_fz`: the PRNG moves every eighth tick. -/
def fuzzStep (m : Mach) : Mach :=
  if m.rd tickLo % 8 = 0 then
    let r0 := word (m.rd slfLo) (m.rd slfHi)
    let r0 := (r0 * 2 % 65536 + r0 / 32768 + 0x6D2B) % 65536
    (m.st slfLo r0).st slfHi (r0 / 256)
  else m

/-- `@@vf_hold`. -/
def fuzzRow (m : Mach) (r1 : Nat) : Mach :=
  let m := m.st (seatRing + r1) (m.rd slfLo % 64)
  let m := m.st (seatRing + 0x100 + r1) (m.rd slfHi % 64)
  (m.st (seatKp + r1) 0).st (seatKp + 0x100 + r1) 0

/-- The live pads. -/
def liveRow (m : Mach) (r1 : Nat) : Mach :=
  let m := m.st (seatRing + r1) (m.rd execInL)
  let m := m.st (seatRing + 0x100 + r1) (m.rd execInR)
  let m := m.st (seatKp + r1) (m.rd execKpL)
  m.st (seatKp + 0x100 + r1) (m.rd execKpR)

/-- VIRT_CAPTURE. -/
def virtCapture (k : Rom) (v : Feed) (m : Mach) : Mach :=
  let r2 := (word (m.rd tickLo) (m.rd tickHi) + m.rd delayEn) % 65536
  let r1 := r2 % 256
  match v with
  | .replay =>
    if slt16 r2 k.replayLen then captureRow k m r1 ((r2 * 4 + k.replayTbl) % 65536)
    else captureIdle m r1
  | .script =>
    let x := scrStep k m
    if x.2 = 0 then fuzzRow (fuzzStep x.1) r1 else captureRow k x.1 r1 (inc16 x.2)
  | .live => liveRow m r1

/-! ## REC_CAPTURE -/

/-- REC_CAPTURE. -/
def recCapture (m : Mach) : Mach :=
  let r1 := word (m.rd tickLo) (m.rd tickHi)
  if slt16 r1 768 then
    let r4 := (r1 * 4 + 0x9000) % 65536
    let m := m.st r4 (m.rd execInL)
    let m := m.st (inc16 r4) (m.rd execInR)
    let m := m.st (inc16 (inc16 r4)) (m.rd execKpL)
    m.st (inc16 (inc16 (inc16 r4))) (m.rd execKpR)
  else m

/-! ## What they are for -/

/-- T + d. -/
def captureTick (m : Mach) : Nat := word (m.rd tickLo) (m.rd tickHi) + m.rd delayEn

/-- The cells of slot `s`: decoded input and keypad of seats 0 and 1. -/
def capCells (s : Nat) : List Nat :=
  [seatRing + s, seatRing + 0x100 + s, seatKp + s, seatKp + 0x100 + s]

/-- The ring pages. -/
def ringPage (a : Nat) : Prop := area seatRing 2048 a

instance (a : Nat) : Decidable (ringPage a) := by unfold ringPage; infer_instance

/-- Of the ring pages, exactly `cells` are stored to between `m` and `m'`. -/
def RingStores (m m' : Mach) (cells : List Nat) : Prop :=
  ∃ l, m'.stores = l ++ m.stores ∧ ∀ a, ringPage a → (a ∈ l ↔ a ∈ cells)

/-- Slot `s` is idle for both seats. -/
def IdleSlot (m : Mach) (s : Nat) : Prop :=
  m.rd (seatRing + s) = 0x40 ∧ m.rd (seatRing + 0x100 + s) = 0x40 ∧ m.rd (seatKp + s) = 0 ∧
    m.rd (seatKp + 0x100 + s) = 0

/-- A capture of slot T+d. -/
structure Captures (k : Rom) (v : Feed) (m m' : Mach) : Prop where
  cells : RingStores m m' (capCells (captureTick m % 256))
  idle : v = .replay → k.replayLen ≤ captureTick m → IdleSlot m' (captureTick m % 256)

/-- A log of this tick, or none: at tick T the four cells from $9000+4T, with T below 768. -/
def Records (m m' : Mach) : Prop :=
  ∃ l, m'.stores = l ++ m.stores ∧ (l = [] ∨ word (m.rd tickLo) (m.rd tickHi) < 768 ∧
    ∀ a, a ∈ l ↔ area (0x9000 + 4 * word (m.rd tickLo) (m.rd tickHi)) 4 a)

/-! ## The cells -/

/-- Stores outside the ring pages, then one to each cell of the slot. -/
theorem ringStores_row {S : Nat → Prop} {m m1 m' : Mach} (h : Within S m m1)
    (hS : ∀ a, S a → ¬ ringPage a) {s : Nat} (hst : m'.stores = (capCells s).reverse ++ m1.stores) :
    RingStores m m' (capCells s) := by
  obtain ⟨l, hl, hout⟩ := h.stores
  refine ⟨(capCells s).reverse ++ l, by rw [hst, hl, List.append_assoc], fun a ha => ?_⟩
  rw [List.mem_append, List.mem_reverse]
  constructor
  · intro hor
    rcases hor with hc | hc
    · exact hc
    · exact absurd ha (hS a (hout a hc))
  · exact Or.inl

theorem within_scrStep (k : Rom) (m : Mach) :
    Within (· ∈ [scrIdx, scrCnt]) m (scrStep k m).1 := by
  have hcnt : ∀ v, Within (· ∈ [scrIdx, scrCnt]) m (m.st scrCnt v) :=
    fun v => (Does.refl _ m).st v (by decide)
  unfold scrStep
  dsimp only
  split_ifs
  · exact Does.refl _ m
  · exact hcnt _
  · exact (((Does.refl _ m).st _ (by decide)).st _ (by decide)).st _ (by decide)
  · exact ((Does.refl _ m).st _ (by decide)).st _ (by decide)

theorem within_fuzzStep (m : Mach) : Within (· ∈ [slfLo, slfHi]) m (fuzzStep m) := by
  unfold fuzzStep
  split_ifs
  · exact ((Does.refl _ m).st _ (by decide)).st _ (by decide)
  · exact Does.refl _ m

/-- Where the script and the PRNG are. -/
theorem feedCell_not_ring (a : Nat) (h : a ∈ [scrIdx, scrCnt, slfLo, slfHi]) : ¬ ringPage a := by
  have hall : ∀ a ∈ [scrIdx, scrCnt, slfLo, slfHi], ¬ ringPage a := by decide
  exact hall a h

theorem captures_live (k : Rom) (m : Mach) : Captures k .live m (virtCapture k .live m) where
  cells := by
    have hmod : captureTick m % 65536 % 256 = captureTick m % 256 := by omega
    have hst : (virtCapture k .live m).stores =
        (capCells (captureTick m % 65536 % 256)).reverse ++ m.stores := rfl
    rw [hmod] at hst
    exact ringStores_row (Does.refl (fun _ => False) m) nofun hst
  idle := nofun

theorem captures_script (k : Rom) (m : Mach) : Captures k .script m (virtCapture k .script m) where
  cells := by
    have hmod : captureTick m % 65536 % 256 = captureTick m % 256 := by omega
    have hfeed : ∀ a, a ∈ [scrIdx, scrCnt] ∨ a ∈ [slfLo, slfHi] → ¬ ringPage a := by
      intro a ha
      refine feedCell_not_ring a ?_
      simp only [List.mem_cons, List.not_mem_nil, or_false] at ha ⊢
      tauto
    have hscr := (within_scrStep k m).mono (T := fun a => a ∈ [scrIdx, scrCnt] ∨ a ∈ [slfLo, slfHi])
      (fun _ => Or.inl)
    rw [← hmod]
    unfold virtCapture
    dsimp only
    split_ifs
    · exact ringStores_row (hscr.within ((within_fuzzStep _).mono (fun _ => Or.inr))) hfeed rfl
    · exact ringStores_row hscr hfeed rfl
  idle := nofun

/-- The idle branch misses seat 1's cell of the slot. -/
theorem not_ringStores_idle (m : Mach) (s : Nat) (hs : s < 256) :
    ¬ RingStores m (captureIdle m s) (capCells s) := by
  intro ⟨l, hl, hcells⟩
  have hst : (captureIdle m s).stores = [seatKp + s + 0x100 - 1, seatKp + s,
      seatRing + s + 0x100 - 1, seatRing + s] ++ m.stores := rfl
  rw [hst] at hl
  obtain rfl := List.append_cancel_right hl
  have hring : ringPage (seatRing + 0x100 + s) := ⟨by omega, by omega⟩
  have hmem := (hcells _ hring).mpr (by simp [capCells])
  simp only [List.mem_cons, List.not_mem_nil, or_false, seatRing, seatKp] at hmem
  omega

/-! ## The values -/

/-- A store goes by what fits the cell. -/
theorem st_congr (m : Mach) {a v w : Nat} (h : v % cellMod a = w % cellMod a) :
    m.st a v = m.st a w := by
  have hmem : m.mem.set a v = m.mem.set a w := by
    apply Mem.ext
    intro b
    rw [Mem.cell_set, Mem.cell_set, h]
  rw [Mach.st, Mach.st, hmem]

/-- The words that come out as an idle slot, read as the cells before them go idle. -/
def IdleRow (k : Rom) (m : Mach) (s r4 : Nat) : Prop :=
  let m1 := m.st (seatRing + s) 0x40
  let m2 := m1.st (seatRing + 0x100 + s) 0x40
  let m3 := m2.st (seatKp + s) 0
  k.fetch m r4 % 256 = 0x40 ∧ k.fetch m1 (inc16 r4) % 256 = 0x40 ∧
    k.fetch m2 (inc16 (inc16 r4)) % 256 = 0 ∧ k.fetch m3 (inc16 (inc16 (inc16 r4))) % 256 = 0

/-- The slot after four stores to it. -/
theorem idleSlot_row (m : Mach) (s w0 w1 w2 w3 : Nat) :
    IdleSlot ((((m.st (seatRing + s) w0).st (seatRing + 0x100 + s) w1).st (seatKp + s) w2).st
      (seatKp + 0x100 + s) w3) s ↔ w0 % 256 = 0x40 ∧ w1 % 256 = 0x40 ∧ w2 % 256 = 0 ∧ w3 % 256 = 0 := by
  have hne : ∀ a ∈ [seatRing, seatRing + 0x100, seatKp, seatKp + 0x100],
      ∀ b ∈ [seatRing, seatRing + 0x100, seatKp, seatKp + 0x100], a ≠ b → a + s ≠ b + s :=
    fun a _ b _ h he => h (Nat.add_right_cancel he)
  have hself : ∀ (m : Mach) (base v : Nat), 0x8000 ≤ base → (m.st (base + s) v).rd (base + s) = v % 256 := by
    intro m base v h
    rw [Mach.rd_st_self, cellMod_cart (by omega)]
  unfold IdleSlot
  rw [hself _ (seatKp + 0x100) w3 (by decide),
    Mach.rd_st_ne _ w3 (hne seatKp (by decide) (seatKp + 0x100) (by decide) (by decide)),
    hself _ seatKp w2 (by decide),
    Mach.rd_st_ne _ w3 (hne (seatRing + 0x100) (by decide) (seatKp + 0x100) (by decide) (by decide)),
    Mach.rd_st_ne _ w2 (hne (seatRing + 0x100) (by decide) seatKp (by decide) (by decide)),
    hself _ (seatRing + 0x100) w1 (by decide),
    Mach.rd_st_ne _ w3 (hne seatRing (by decide) (seatKp + 0x100) (by decide) (by decide)),
    Mach.rd_st_ne _ w2 (hne seatRing (by decide) seatKp (by decide) (by decide)),
    Mach.rd_st_ne _ w1 (hne seatRing (by decide) (seatRing + 0x100) (by decide) (by decide)),
    hself _ seatRing w0 (by decide)]

theorem captureRow_idle_iff (k : Rom) (m : Mach) (s r4 : Nat) :
    IdleSlot (captureRow k m s r4) s ↔ IdleRow k m s r4 := by
  have hcell : ∀ {a v w : Nat} (m : Mach), 0x8000 ≤ a → v % 256 = w → w < 256 → m.st a v = m.st a w := by
    intro a v w m ha hv hw
    apply st_congr
    rw [cellMod_cart ha, hv, Nat.mod_eq_of_lt hw]
  rw [captureRow]
  refine (idleSlot_row m s _ _ _ _).trans ?_
  rw [IdleRow]
  apply and_congr_right
  intro h0
  rw [hcell m (by simp only [seatRing]; omega) h0 (by decide)]
  apply and_congr_right
  intro h1
  rw [hcell _ (by simp only [seatRing]; omega) h1 (by decide)]
  apply and_congr_right
  intro h2
  rw [hcell _ (by simp only [seatKp]; omega) h2 (by decide)]

/-! ## When they do it -/

/-- Where a capture goes to its slot: always, but in a replay build only as long as the table
    lasts. Past its end the signed test can still read it as not used up, and the words read
    may be idle ones. -/
def InTable (k : Rom) (v : Feed) (m : Mach) : Prop :=
  v = .replay → captureTick m < k.replayLen ∨
    (32768 ≤ captureTick m % 65536 ∨ captureTick m % 65536 < k.replayLen) ∧
      IdleRow k m (captureTick m % 256) ((captureTick m % 65536 * 4 + k.replayTbl) % 65536)

theorem slt16_iff {a b : Nat} (ha : a < 65536) (hb : b ≤ 768) :
    slt16 a b = true ↔ 32768 ≤ a ∨ a < b := by
  unfold slt16
  rw [decide_eq_true_iff]
  omega

/-- VIRT_CAPTURE of a replay build. -/
theorem captures_replay_iff (k : Rom) (m : Mach) :
    Captures k .replay m (virtCapture k .replay m) ↔ InTable k .replay m := by
  have hmod : captureTick m % 65536 % 256 = captureTick m % 256 := by omega
  have hlen := k.len_le
  have htick := slt16_iff (a := captureTick m % 65536) (by omega) hlen
  have hcap : virtCapture k .replay m =
      if slt16 (captureTick m % 65536) k.replayLen then
        captureRow k m (captureTick m % 256) ((captureTick m % 65536 * 4 + k.replayTbl) % 65536)
      else captureIdle m (captureTick m % 256) := by
    rw [← hmod]
    rfl
  rw [hcap]
  by_cases hslt : slt16 (captureTick m % 65536) k.replayLen = true
  · have hrow : RingStores m (captureRow k m (captureTick m % 256)
        ((captureTick m % 65536 * 4 + k.replayTbl) % 65536)) (capCells (captureTick m % 256)) :=
      ringStores_row (Does.refl (fun _ => False) m) nofun rfl
    rw [if_pos hslt]
    constructor
    · intro h _
      rcases Nat.lt_or_ge (captureTick m) k.replayLen with hlt | hge
      · exact Or.inl hlt
      · exact Or.inr ⟨htick.mp hslt, (captureRow_idle_iff k m _ _).mp (h.idle rfl hge)⟩
    · intro h
      refine ⟨hrow, fun _ hge => (captureRow_idle_iff k m _ _).mpr ?_⟩
      rcases h rfl with hlt | ⟨-, hidle⟩
      · omega
      · exact hidle
  · rw [if_neg hslt]
    constructor
    · intro h
      exact absurd h.cells (not_ringStores_idle m _ (by omega))
    · intro h
      have hno : ¬ (32768 ≤ captureTick m % 65536 ∨ captureTick m % 65536 < k.replayLen) :=
        fun hc => hslt (htick.mpr hc)
      rcases h rfl with hlt | ⟨hor, -⟩
      · omega
      · exact absurd hor hno

/-- REC_CAPTURE logs tick T in its place, or nothing, exactly as long as T has no bit 15. -/
theorem records_iff (m : Mach) :
    Records m (recCapture m) ↔ word (m.rd tickLo) (m.rd tickHi) < 32768 := by
  have hlt : word (m.rd tickLo) (m.rd tickHi) < 65536 := by
    have hlo := m.rd_lt_cart (a := tickLo) (by decide)
    have hhi := m.rd_lt_cart (a := tickHi) (by decide)
    unfold word
    omega
  have hslt := slt16_iff hlt (Nat.le_refl 768)
  unfold Records recCapture
  dsimp only
  generalize word (m.rd tickLo) (m.rd tickHi) = t at hlt hslt ⊢
  by_cases h : slt16 t 768 = true
  · rw [if_pos h]
    simp only [Mach.stores_st]
    constructor
    · intro ⟨l, hl, hor⟩
      rcases hor with rfl | ⟨hsmall, -⟩
      · have := congrArg List.length hl
        simp only [List.nil_append, List.length_cons] at this
        omega
      · omega
    · intro hpos
      have hsmall : t < 768 := by
        rcases hslt.mp h with hc | hc
        · omega
        · exact hc
      refine ⟨[_, _, _, _], rfl, Or.inr ⟨hsmall, fun a => ?_⟩⟩
      simp only [List.mem_cons, List.not_mem_nil, or_false, inc16, area]
      omega
  · rw [if_neg h]
    constructor
    · intro _
      have hno : ¬ 32768 ≤ t := fun hc => h (hslt.mpr (Or.inl hc))
      omega
    · intro _
      exact ⟨[], rfl, Or.inl rfl⟩

/-- When the two capture routines hit their cells: VIRT_CAPTURE in each build, REC_CAPTURE. -/
theorem capture_hits_iff (k : Rom) (v : Feed) (m : Mach) :
    (Captures k v m (virtCapture k v m) ↔ InTable k v m) ∧
      (Records m (recCapture m) ↔ word (m.rd tickLo) (m.rd tickHi) < 32768) := by
  refine ⟨?_, records_iff m⟩
  cases v with
  | replay => exact captures_replay_iff k m
  | script => exact ⟨fun _ => nofun, fun _ => captures_script k m⟩
  | live => exact ⟨fun _ => nofun, fun _ => captures_live k m⟩

/-- A build whose recording has one tick. -/
def oneTick : Rom where
  word a := if 0xD000 ≤ a ∧ a < 0xD000 + scriptRows.length then some (scriptRows.getD (a - 0xD000) 0)
    else none
  replayTbl := 0xE000
  replayLen := 1
  len_le := by decide
  scriptTbl := 0xD000
  script i hi := by
    rw [if_pos ⟨by omega, by omega⟩, Nat.add_sub_cancel_left]

/-- At tick 1 that recording is used up, and seat 1's idle cell goes to slot 0. -/
theorem idle_misses_seat1 : ¬ ∀ (k : Rom) (v : Feed) (m : Mach),
    Captures k v m (virtCapture k v m) ∧ Records m (recCapture m) := by
  intro h
  have hin := (captures_replay_iff oneTick (Mach.zero.st tickLo 1)).mp
    (h oneTick .replay (Mach.zero.st tickLo 1)).1 rfl
  have hrd : captureTick (Mach.zero.st tickLo 1) = 1 := by decide
  rw [hrd] at hin
  rcases hin with hlt | ⟨hor, -⟩
  · exact absurd hlt (by decide)
  · exact absurd hor (by decide)

end IntvBasketball.Console
