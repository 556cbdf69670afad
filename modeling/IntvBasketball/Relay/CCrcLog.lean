/-
  server/c/src/intv-relay.c: log_crc, and that it does what the Python server's does.

  A room has CRC_TICKS + 1 rows of CRC_SEATS slots each, with in-use flags. `crc_ok` is a
  uint32_t. `CrcExit` keeps the two exits apart that the source calls unreachable.

  `CrcSim`: the rows in use are the entries of `room.crc`, in any order, and the slots in
  use are the values of an entry, in the order they came.
-/
import IntvBasketball.Relay.CrcLog

namespace IntvBasketball.Relay

open Lib

def crcTicks : Nat := 64
def crcSeats : Nat := 8

structure CrcSlot where
  inUse : Bool
  seat : Nat
  crc : Nat

structure CrcRow where
  inUse : Bool
  tick : Nat
  nseats : Nat
  s : Nat → CrcSlot

/-- The part of room_t that log_crc uses. -/
structure CrcRoom where
  crcOk : Nat
  ncrc : Nat
  crc : Nat → CrcRow

/-- How log_crc returns. -/
inductive CrcExit where
  | noRow
  | noSlot
  | report (r : CrcReport)

/-- A zeroed row. -/
def CrcRow.zero : CrcRow := ⟨false, 0, 0, fun _ => ⟨false, 0, 0⟩⟩

/-- After start_room. -/
def CrcRoom.cleared : CrcRoom := ⟨0, 0, fun _ => CrcRow.zero⟩

/-! ## log_crc -/

namespace CrcRoom

def setRow (r : CrcRoom) (i : Nat) (row : CrcRow) : CrcRoom :=
  { r with crc := Function.update r.crc i row }

/-- The row of a tick, or a free one made into it. -/
def takeRow (r : CrcRoom) (tick : Nat) : Option (CrcRoom × Nat) :=
  match (List.range (crcTicks + 1)).find? (fun i => (r.crc i).inUse && (r.crc i).tick = tick) with
  | some i => some (r, i)
  | none =>
    match (List.range (crcTicks + 1)).find? (fun i => !(r.crc i).inUse) with
    | some i =>
      some ({ r.setRow i { CrcRow.zero with inUse := true, tick } with ncrc := r.ncrc + 1 }, i)
    | none => none

/-- Free a row in use. -/
def clear (r : CrcRoom) (i : Nat) : CrcRoom :=
  { r.setRow i { r.crc i with inUse := false } with ncrc := r.ncrc - 1 }

/-- The scan for the lowest tick in use, over the first `k` rows. -/
def lowest (r : CrcRoom) : Nat → Option Nat
  | 0 => none
  | k + 1 =>
    let low := r.lowest k
    if (r.crc k).inUse then
      match low with
      | none => some k
      | some i => if (r.crc k).tick < (r.crc i).tick then some k else low
    else low

def evict (r : CrcRoom) : CrcRoom :=
  if crcTicks < r.ncrc then
    match r.lowest (crcTicks + 1) with
    | some i => r.clear i
    | none => r
  else r

end CrcRoom

namespace CrcRow

def setSlot (row : CrcRow) (j : Nat) (slot : CrcSlot) : CrcRow :=
  { row with s := Function.update row.s j slot }

/-- The slot of a seat, or a free one made into it. -/
def takeSlot (row : CrcRow) (seat : Nat) : Option (CrcRow × Nat) :=
  match (List.range crcSeats).find? (fun j => (row.s j).inUse && (row.s j).seat = seat) with
  | some j => some (row, j)
  | none =>
    match (List.range crcSeats).find? (fun j => !(row.s j).inUse) with
    | some j =>
      some ({ row.setSlot j ⟨true, seat, (row.s j).crc⟩ with nseats := row.nseats + 1 }, j)
    | none => none

/-- nvals, first and agree after the loop. -/
def agreeLoop (row : CrcRow) : Nat × Nat × Bool :=
  (List.range crcSeats).foldl
    (fun st j =>
      if (row.s j).inUse then
        if st.1 = 0 then (st.1 + 1, (row.s j).crc, st.2.2)
        else (st.1 + 1, st.2.1, st.2.2 && (row.s j).crc = st.2.1)
      else st) (0, 0, true)

/-- The line being built: what is in it, the room left, the reports emitted, and what the
    last snprintf that did not fit left behind the end. -/
structure Line where
  out : List Byte
  left : Nat
  emitted : Nat
  tail : List Byte

def Line.emit (b : Line) (e : Nat × Nat) : Line :=
  let piece := (if b.emitted ≠ 0 then [32] else []) ++ seatText e
  if 0 < piece.length ∧ piece.length < b.left then
    ⟨b.out ++ piece, b.left - piece.length, b.emitted + 1, []⟩
  else ⟨b.out, b.left, b.emitted + 1, piece.take (b.left - 1)⟩

/-- One pass over the slots. -/
def emitPass (row : CrcRow) (b : Line) (pass : Nat) : Line :=
  (List.range crcSeats).foldl
    (fun b j =>
      if (row.s j).inUse && (row.s j).seat = pass then b.emit ((row.s j).seat, (row.s j).crc)
      else b) b

/-- The mismatch line, ascending by seat. -/
def line (row : CrcRow) : List Byte :=
  let b := (List.range 256).foldl
    (fun b pass => if b.emitted < row.nseats then row.emitPass b pass else b)
    ⟨[], crcSeats * 20, 0, []⟩
  b.out ++ b.tail

end CrcRow

/-- The end of log_crc, for the row just written to. -/
def CrcRoom.finish (n : Nat) (r : CrcRoom) (i tick : Nat) : CrcRoom × CrcExit :=
  let row := r.crc i
  if row.nseats < n then (r, .report .silent)
  else
    let agree := row.agreeLoop.2.2
    let r := if row.inUse then r.clear i else r
    if !agree then (r, .report (.mismatch tick row.line))
    else
      let crcOk := (r.crcOk + 1) % 2 ^ 32
      ({ r with crcOk }, .report (.agreed tick crcOk (crcOk % 4 = 0)))

/-- log_crc in a room of `n` members. -/
def CrcRoom.logCrc (n : Nat) (r : CrcRoom) (payload : List Byte) : CrcRoom × CrcExit :=
  let seat := crcSeat payload
  let tick := crcTick payload
  let crc := crcValue payload
  match r.takeRow tick with
  | none => (r, .noRow)
  | some (r, i) =>
    match (r.crc i).takeSlot seat with
    | none => (r, .noSlot)
    | some (row, j) =>
      let r := r.setRow i (row.setSlot j { row.s j with crc })
      r.evict.finish n i tick

/-! ## Slots and entries -/

/-- The slots in use are the first ones. -/
structure RowOk (row : CrcRow) : Prop where
  le : row.nseats ≤ crcSeats
  used : ∀ j < crcSeats, (row.s j).inUse = decide (j < row.nseats)

/-- The values in a row. -/
def entryOf (row : CrcRow) : List (Nat × Nat) :=
  (List.range row.nseats).map (fun j => ((row.s j).seat, (row.s j).crc))

@[simp] theorem entryOf_length (row : CrcRow) : (entryOf row).length = row.nseats := by
  simp [entryOf]

theorem mem_entryOf {row : CrcRow} {e : Nat × Nat} :
    e ∈ entryOf row ↔ ∃ j < row.nseats, ((row.s j).seat, (row.s j).crc) = e := by
  simp [entryOf]

/-- Entering a value in a row with a slot to spare. -/
theorem takeSlot_spec {row : CrcRow} (h : RowOk row) (hlt : row.nseats < crcSeats)
    (hk : Dict.Keyed (entryOf row)) (seat crc : Nat) :
    ∃ row' j, row.takeSlot seat = some (row', j) ∧
      RowOk (row'.setSlot j { row'.s j with crc }) ∧
      entryOf (row'.setSlot j { row'.s j with crc }) = Dict.set (entryOf row) seat crc ∧
      row'.inUse = row.inUse ∧ row'.tick = row.tick := by
  unfold CrcRow.takeSlot
  cases hf : (List.range crcSeats).find? (fun j => (row.s j).inUse && (row.s j).seat = seat) with
  | some j =>
    rw [List.find?_range_eq_some] at hf
    obtain ⟨hj, hmem, -⟩ := hf
    have hj8 : j < crcSeats := List.mem_range.mp hmem
    simp only [Bool.and_eq_true, decide_eq_true_eq, h.used j hj8] at hj
    obtain ⟨hjn, hseat⟩ := hj
    have hin : (seat, (row.s j).crc) ∈ entryOf row := mem_entryOf.mpr ⟨j, hjn, by rw [hseat]⟩
    refine ⟨row, j, rfl, ⟨h.le, fun i hi => ?_⟩, ?_, rfl, rfl⟩
    · by_cases hij : i = j
      · subst hij
        simp [CrcRow.setSlot, h.used i hi]
      · change (Function.update row.s j _ i).inUse = decide (i < row.nseats)
        rw [Function.update_of_ne hij]
        exact h.used i hi
    · rw [Dict.set, hk.get_iff.mpr hin]
      simp only [Option.isSome_some, if_true, entryOf, List.map_map, CrcRow.setSlot]
      refine List.map_congr_left (fun i hi => ?_)
      rw [List.mem_range] at hi
      by_cases hij : i = j
      · subst hij
        simp [hseat]
      · have hne : (row.s i).seat ≠ seat := by
          intro hs
          refine hij ?_
          have hnd : ((List.range row.nseats).map (fun j => (row.s j).seat)).Nodup := by
            simpa [Dict.Keyed, entryOf, Function.comp_def] using hk
          exact List.inj_on_of_nodup_map hnd (List.mem_range.mpr hi) (List.mem_range.mpr hjn)
            (hs.trans hseat.symm)
        simp [Function.update_of_ne hij, hne]
  | none =>
    have hnone : Dict.get (entryOf row) seat = none := by
      refine Dict.get_eq_none.mpr (fun v hv => ?_)
      obtain ⟨j, hj, he⟩ := mem_entryOf.mp hv
      have hj8 : j < crcSeats := Nat.lt_of_lt_of_le hj h.le
      have := List.find?_range_eq_none.mp hf j hj8
      simp [h.used j hj8, hj, (Prod.mk.inj he).1] at this
    have hfree : (List.range crcSeats).find? (fun j => !(row.s j).inUse) = some row.nseats := by
      rw [List.find?_range_eq_some]
      refine ⟨by simp [h.used _ hlt], List.mem_range.mpr hlt, fun i hi => ?_⟩
      simp [h.used i (Nat.lt_trans hi hlt), hi]
    rw [hfree]
    refine ⟨_, _, rfl, ⟨hlt, fun i hi => ?_⟩, ?_, rfl, rfl⟩
    · by_cases hij : i = row.nseats
      · subst hij
        simp [CrcRow.setSlot]
      · have hiff : i < row.nseats + 1 ↔ i < row.nseats := by omega
        simp [CrcRow.setSlot, Function.update_of_ne hij, h.used i hi, hiff]
    · rw [Dict.set_of_none hnone]
      simp only [entryOf, CrcRow.setSlot, List.range_succ, List.map_append, List.map_cons,
        List.map_nil, Function.update_self]
      congr 1
      refine List.map_congr_left (fun i hi => ?_)
      have hij : i ≠ row.nseats := Nat.ne_of_lt (List.mem_range.mp hi)
      simp [Function.update_of_ne hij]

/-! ## Rows and ticks -/

/-- The rows in use are the open ticks. -/
structure CrcSim (s : CrcLog) (r : CrcRoom) : Prop where
  row : ∀ i ≤ crcTicks, (r.crc i).inUse = true →
    RowOk (r.crc i) ∧ ((r.crc i).tick, entryOf (r.crc i)) ∈ s.crc
  back : ∀ e ∈ s.crc, ∃ i ≤ crcTicks, (r.crc i).inUse = true ∧ (r.crc i).tick = e.1
  inj : ∀ i ≤ crcTicks, ∀ j ≤ crcTicks, (r.crc i).inUse = true → (r.crc j).inUse = true →
    (r.crc i).tick = (r.crc j).tick → i = j
  count : r.ncrc = s.crc.length
  ok : r.crcOk = s.crcOk % 2 ^ 32

theorem CrcSim.cleared : CrcSim CrcLog.cleared CrcRoom.cleared where
  row _ _ h := by cases h
  back _ h := by cases h
  inj _ _ _ _ h := by cases h
  count := rfl
  ok := rfl

section
variable {s : CrcLog} {r : CrcRoom}

/-- With at most 64 open ticks a row is free. -/
theorem CrcSim.exists_free (h : CrcSim s r) (hsmall : s.crc.length ≤ crcTicks) :
    ∃ i ≤ crcTicks, (r.crc i).inUse = false := by
  by_contra hno
  have hall : ∀ i ≤ crcTicks, (r.crc i).inUse = true := fun i hi => by
    by_contra hf
    exact hno ⟨i, hi, Bool.eq_false_iff.mpr hf⟩
  have hnd : ((List.range (crcTicks + 1)).map (fun i => (r.crc i).tick)).Nodup := by
    refine List.Nodup.map_on (fun i hi j hj he => ?_) List.nodup_range
    have hi := Nat.le_of_lt_succ (List.mem_range.mp hi)
    have hj := Nat.le_of_lt_succ (List.mem_range.mp hj)
    exact h.inj i hi j hj (hall i hi) (hall j hj) he
  have hsub : (List.range (crcTicks + 1)).map (fun i => (r.crc i).tick) ⊆ s.crc.map Prod.fst := by
    intro t ht
    obtain ⟨i, hi, rfl⟩ := List.mem_map.mp ht
    have hi := Nat.le_of_lt_succ (List.mem_range.mp hi)
    exact List.mem_map_of_mem (h.row i hi (hall i hi)).2
  have := (List.subperm_of_subset hnd hsub).length_le
  simp only [List.length_map, List.length_range] at this
  omega

/-- The row of the tick, holding what the dictionary holds. -/
theorem CrcSim.takeRow (h : CrcSim s r) (hk : Dict.Keyed s.crc) (hsmall : s.crc.length ≤ crcTicks)
    (tick : Nat) : ∃ r' i, r.takeRow tick = some (r', i) ∧ i ≤ crcTicks ∧
      (r'.crc i).inUse = true ∧ (r'.crc i).tick = tick ∧ RowOk (r'.crc i) ∧
      entryOf (r'.crc i) = (Dict.get s.crc tick).getD [] ∧
      (∀ j, j ≠ i → r'.crc j = r.crc j) ∧ r'.crcOk = r.crcOk ∧
      (∀ j ≤ crcTicks, (r.crc j).inUse = true → ((r.crc j).tick = tick ↔ j = i)) ∧
      r'.ncrc = (Dict.set s.crc tick (entryOf (r'.crc i))).length := by
  unfold CrcRoom.takeRow
  cases hf : (List.range (crcTicks + 1)).find?
      (fun i => (r.crc i).inUse && (r.crc i).tick = tick) with
  | some i =>
    rw [List.find?_range_eq_some] at hf
    obtain ⟨hp, hmem, -⟩ := hf
    have hi := Nat.le_of_lt_succ (List.mem_range.mp hmem)
    simp only [Bool.and_eq_true, decide_eq_true_eq] at hp
    have hrow := h.row i hi hp.1
    rw [hp.2] at hrow
    have hget := hk.get_iff.mpr hrow.2
    refine ⟨r, i, rfl, hi, hp.1, hp.2, hrow.1, by rw [hget]; rfl, fun _ _ => rfl, rfl, ?_, ?_⟩
    · intro j hj hu
      refine ⟨fun ht => h.inj j hj i hi hu hp.1 (ht.trans hp.2.symm), ?_⟩
      rintro rfl
      exact hp.2
    · rw [Dict.length_set_of_some (by rw [hget]; rfl), h.count]
  | none =>
    have hout := List.find?_range_eq_none.mp hf
    have hnot : ∀ j ≤ crcTicks, (r.crc j).inUse = true → (r.crc j).tick ≠ tick := by
      intro j hj hu ht
      have := hout j (Nat.lt_succ_of_le hj)
      simp [hu, ht] at this
    have hnone : Dict.get s.crc tick = none := by
      refine Dict.get_eq_none.mpr (fun v hv => ?_)
      obtain ⟨j, hj, hu, ht⟩ := h.back _ hv
      exact hnot j hj hu ht
    obtain ⟨i, hi, hfree⟩ := h.exists_free hsmall
    cases hf' : (List.range (crcTicks + 1)).find? (fun i => !(r.crc i).inUse) with
    | none =>
      have := List.find?_range_eq_none.mp hf' i (Nat.lt_succ_of_le hi)
      simp [hfree] at this
    | some i =>
      rw [List.find?_range_eq_some] at hf'
      have hi := Nat.le_of_lt_succ (List.mem_range.mp hf'.2.1)
      have hat : (r.setRow i { CrcRow.zero with inUse := true, tick }).crc i =
          { CrcRow.zero with inUse := true, tick } := Function.update_self ..
      refine ⟨_, i, rfl, hi, ?_⟩
      dsimp only
      rw [hat, hnone]
      refine ⟨rfl, rfl, ⟨Nat.zero_le _, fun j _ => rfl⟩, rfl,
        fun j hj => Function.update_of_ne hj .., rfl, fun j hj hu => ?_, ?_⟩
      · refine ⟨fun ht => absurd ht (hnot j hj hu), ?_⟩
        rintro rfl
        simp [hu] at hf'
      · rw [Dict.set_of_none hnone, List.length_append, h.count]
        rfl

/-- The value entered in both. -/
theorem CrcSim.enter (h : CrcSim s r) {r' : CrcRoom} {i tick : Nat}
    {row : CrcRow} (hi : i ≤ crcTicks) (hother : ∀ j, j ≠ i → r'.crc j = r.crc j)
    (hiff : ∀ j ≤ crcTicks, (r.crc j).inUse = true → ((r.crc j).tick = tick ↔ j = i))
    (hu : row.inUse = true) (ht : row.tick = tick) (hok : RowOk row)
    (hok' : r'.crcOk = r.crcOk)
    (hcount : r'.ncrc = (Dict.set s.crc tick (entryOf row)).length) :
    CrcSim { s with crc := Dict.set s.crc tick (entryOf row) } (r'.setRow i row) := by
  have hnot : ∀ j ≤ crcTicks, j ≠ i → (r.crc j).inUse = true → (r.crc j).tick ≠ tick :=
    fun j hj hji hju ht => hji ((hiff j hj hju).mp ht)
  have hat : (r'.setRow i row).crc i = row := Function.update_self ..
  have hoff : ∀ j, j ≠ i → (r'.setRow i row).crc j = r.crc j := fun j hj =>
    (Function.update_of_ne hj ..).trans (hother j hj)
  refine ⟨fun j hj hju => ?_, fun e he => ?_, fun j hj j' hj' hju hju' he => ?_, hcount, ?_⟩
  · by_cases hji : j = i
    · rw [hji, hat, ht]
      exact ⟨hok, Dict.mem_set.mpr (Or.inl rfl)⟩
    · rw [hoff j hji] at hju ⊢
      have := h.row j hj hju
      exact ⟨this.1, Dict.mem_set.mpr (Or.inr ⟨hnot j hj hji hju, this.2⟩)⟩
  · rcases Dict.mem_set.mp he with rfl | ⟨hne, he⟩
    · exact ⟨i, hi, by rw [hat]; exact hu, by rw [hat]; exact ht⟩
    · obtain ⟨j, hj, hju, hjt⟩ := h.back e he
      have hji : j ≠ i := fun hji => hne (hjt.symm.trans ((hiff j hj hju).mpr hji))
      exact ⟨j, hj, by rw [hoff j hji]; exact hju, by rw [hoff j hji]; exact hjt⟩
  · by_cases hji : j = i <;> by_cases hji' : j' = i
    · rw [hji, hji']
    · rw [hji, hat, hoff j' hji', ht] at he
      rw [hoff j' hji'] at hju'
      exact absurd he.symm (hnot j' hj' hji' hju')
    · rw [hji', hat, hoff j hji, ht] at he
      rw [hoff j hji] at hju
      exact absurd he (hnot j hj hji hju)
    · rw [hoff j hji] at hju he
      rw [hoff j' hji'] at hju' he
      exact h.inj j hj j' hj' hju hju' he
  · rw [← h.ok, ← hok']
    rfl

/-- A row freed in both. -/
theorem CrcSim.clear (h : CrcSim s r) (hk : Dict.Keyed s.crc) {i : Nat} (hi : i ≤ crcTicks)
    (hu : (r.crc i).inUse = true) :
    CrcSim { s with crc := Dict.erase s.crc (r.crc i).tick } (r.clear i) := by
  have hat : ((r.clear i).crc i).inUse = false := by simp [CrcRoom.clear, CrcRoom.setRow]
  have hoff : ∀ j, j ≠ i → (r.clear i).crc j = r.crc j := fun j hj => Function.update_of_ne hj ..
  have hne : ∀ j, ((r.clear i).crc j).inUse = true → j ≠ i := by
    rintro j hju rfl
    rw [hat] at hju
    cases hju
  refine ⟨fun j hj hju => ?_, fun e he => ?_, fun j hj j' hj' hju hju' ht => ?_, ?_, h.ok⟩
  · have hji := hne j hju
    rw [hoff j hji] at hju ⊢
    have := h.row j hj hju
    exact ⟨this.1, Dict.mem_erase.mpr ⟨this.2, fun ht => hji (h.inj j hj i hi hju hu ht)⟩⟩
  · obtain ⟨he, hte⟩ := Dict.mem_erase.mp he
    obtain ⟨j, hj, hju, hjt⟩ := h.back e he
    have hji : j ≠ i := by
      rintro rfl
      exact hte hjt.symm
    exact ⟨j, hj, by rw [hoff j hji]; exact hju, by rw [hoff j hji]; exact hjt⟩
  · have hji := hne j hju
    have hji' := hne j' hju'
    rw [hoff j hji] at hju ht
    rw [hoff j' hji'] at hju' ht
    exact h.inj j hj j' hj' hju hju' ht
  · have := hk.length_erase ⟨_, (h.row i hi hu).2⟩
    have hc : (r.clear i).ncrc = r.ncrc - 1 := rfl
    rw [hc, h.count]
    dsimp only
    omega

/-- The scan finds the lowest tick of the first rows. -/
theorem CrcRoom.lowest_spec (r : CrcRoom) (k : Nat) :
    match r.lowest k with
    | none => ∀ j < k, (r.crc j).inUse = false
    | some i => i < k ∧ (r.crc i).inUse = true ∧
        ∀ j < k, (r.crc j).inUse = true → (r.crc i).tick ≤ (r.crc j).tick := by
  induction k with
  | zero => exact fun j hj => absurd hj (Nat.not_lt_zero j)
  | succ k ih =>
    rw [CrcRoom.lowest]
    cases hl : r.lowest k with
    | none =>
      rw [hl] at ih
      dsimp only at ih ⊢
      by_cases hu : (r.crc k).inUse = true
      · rw [if_pos hu]
        refine ⟨Nat.lt_succ_self k, hu, fun j hj hju => ?_⟩
        by_cases hjk : j = k
        · rw [hjk]
        · rw [ih j (by omega)] at hju
          cases hju
      · rw [if_neg hu]
        intro j hj
        by_cases hjk : j = k
        · rw [hjk]
          exact Bool.eq_false_iff.mpr hu
        · exact ih j (by omega)
    | some i =>
      rw [hl] at ih
      obtain ⟨hik, hiu, hmin⟩ := ih
      dsimp only
      by_cases hu : (r.crc k).inUse = true
      · rw [if_pos hu]
        by_cases hlt : (r.crc k).tick < (r.crc i).tick
        · rw [if_pos hlt]
          refine ⟨Nat.lt_succ_self k, hu, fun j hj hju => ?_⟩
          by_cases hjk : j = k
          · rw [hjk]
          · have := hmin j (by omega) hju
            omega
        · rw [if_neg hlt]
          refine ⟨by omega, hiu, fun j hj hju => ?_⟩
          by_cases hjk : j = k
          · rw [hjk]
            omega
          · exact hmin j (by omega) hju
      · rw [if_neg hu]
        refine ⟨by omega, hiu, fun j hj hju => ?_⟩
        by_cases hjk : j = k
        · rw [hjk] at hju
          exact absurd hju hu
        · exact hmin j (by omega) hju

/-- The eviction in both. A row that is still in use afterwards, or whose tick is gone. -/
theorem CrcSim.evict (h : CrcSim s r) (hk : Dict.Keyed s.crc) :
    CrcSim { s with crc := popMin s.crc } r.evict ∧
      ∀ i ≤ crcTicks, (r.crc i).inUse = true → ∃ b, r.evict.crc i = { r.crc i with inUse := b } ∧
        (b = false → Dict.get (popMin s.crc) (r.crc i).tick = none) := by
  by_cases hlt : crcTicks < s.crc.length
  · obtain ⟨t, -, hpop, ⟨v, hin⟩, hmin⟩ := popMin_over hlt
    have hspec := r.lowest_spec (crcTicks + 1)
    obtain ⟨k, hk', hku, hkt⟩ := h.back _ hin
    cases hl : r.lowest (crcTicks + 1) with
    | none =>
      rw [hl] at hspec
      rw [hspec k (Nat.lt_succ_of_le hk')] at hku
      cases hku
    | some i =>
      rw [hl] at hspec
      obtain ⟨hi, hiu, hlow⟩ := hspec
      have hi := Nat.le_of_lt_succ hi
      have ht : (r.crc i).tick = t := by
        have h1 := hlow k (Nat.lt_succ_of_le hk') hku
        have h2 := hmin _ (h.row i hi hiu).2
        dsimp only at hkt h2
        omega
      have hev : r.evict = r.clear i := by
        rw [CrcRoom.evict, h.count, if_pos hlt, hl]
      have hcl := h.clear hk hi hiu
      rw [ht] at hcl
      rw [hev, hpop]
      refine ⟨hcl, fun j hj hju => ?_⟩
      by_cases hji : j = i
      · subst hji
        refine ⟨false, Function.update_self .., fun _ => Dict.get_eq_none.mpr (fun w hw => ?_)⟩
        exact (Dict.mem_erase.mp hw).2 ht
      · refine ⟨true, ?_, fun hb => by cases hb⟩
        rw [← hju]
        exact Function.update_of_ne hji ..
  · have hev : r.evict = r := by rw [CrcRoom.evict, h.count, if_neg hlt]
    rw [hev, popMin_under (Nat.not_lt.mp hlt)]
    exact ⟨h, fun i _ hiu => ⟨true, by rw [← hiu], fun hb => by cases hb⟩⟩

end

/-! ## The comparison and its line -/

section
variable {row : CrcRow}

theorem RowOk.filter (h : RowOk row) (q : Nat → Bool) :
    (List.range crcSeats).filter (fun j => (row.s j).inUse && q j) =
      (List.range row.nseats).filter q := by
  have hall : ∀ n ≤ crcSeats, (List.range crcSeats).filter (fun j => decide (j < n)) =
      List.range n := by decide
  rw [← hall row.nseats h.le, List.filter_filter]
  refine List.filter_congr (fun j hj => ?_)
  rw [h.used j (List.mem_range.mp hj), Bool.and_comm]

/-- One value in the loop. -/
def agreeStep (st : Nat × Nat × Bool) (v : Nat) : Nat × Nat × Bool :=
  if st.1 = 0 then (st.1 + 1, v, st.2.2) else (st.1 + 1, st.2.1, st.2.2 && v = st.2.1)

theorem agreeLoop_eq (h : RowOk row) :
    row.agreeLoop = ((entryOf row).map Prod.snd).foldl agreeStep (0, 0, true) := by
  have hf := h.filter (fun _ => true)
  simp only [Bool.and_true, List.filter_true] at hf
  have hm : (entryOf row).map Prod.snd = (List.range row.nseats).map (fun j => (row.s j).crc) := by
    simp [entryOf, Function.comp_def]
  rw [hm, List.foldl_map, ← hf, List.foldl_filter]
  rfl

theorem agreeStep_foldl (vs : List Nat) (n v : Nat) (b : Bool) :
    (vs.foldl agreeStep (n + 1, v, b)).2.2 = (b && vs.all (fun w => w = v)) := by
  induction vs generalizing n b with
  | nil => simp
  | cons w vs ih =>
    have hstep : agreeStep (n + 1, v, b) w = (n + 1 + 1, v, b && w = v) := if_neg (by simp)
    rw [List.foldl_cons, hstep, ih, List.all_cons, Bool.and_assoc]

/-- All values are the same. -/
theorem dedup_one {v : Nat} {vs : List Nat} :
    (v :: vs).dedup.length = 1 ↔ vs.all (fun w => w = v) = true := by
  rw [List.all_eq_true]
  constructor
  · intro h w hw
    obtain ⟨x, hx⟩ := List.length_eq_one_iff.mp h
    have hv : v ∈ (v :: vs).dedup := List.mem_dedup.mpr List.mem_cons_self
    have hw : w ∈ (v :: vs).dedup := List.mem_dedup.mpr (List.mem_cons_of_mem _ hw)
    rw [hx, List.mem_singleton] at hv hw
    rw [hv, hw]
    exact decide_eq_true rfl
  · intro h
    have hrep : v :: vs = List.replicate (vs.length + 1) v := by
      refine List.eq_replicate_iff.mpr ⟨List.length_cons, fun w hw => ?_⟩
      rcases List.mem_cons.mp hw with rfl | hw
      · rfl
      · exact of_decide_eq_true (h w hw)
    rw [hrep, List.replicate_dedup (Nat.succ_ne_zero _)]
    rfl

theorem agreeLoop_iff (h : RowOk row) (hpos : 0 < row.nseats) :
    row.agreeLoop.2.2 = true ↔ ((entryOf row).map Prod.snd).dedup.length = 1 := by
  have hne : ((entryOf row).map Prod.snd).length ≠ 0 := by simp; omega
  rw [agreeLoop_eq h]
  cases hvs : (entryOf row).map Prod.snd with
  | nil => exact absurd (by rw [hvs]; rfl) hne
  | cons v vs =>
    have hstep : agreeStep (0, 0, true) v = (0 + 1, v, true) := if_pos rfl
    rw [List.foldl_cons, hstep, agreeStep_foldl, dedup_one, Bool.true_and]

open CrcRow (Line)

/-- The reports of the seats below `p`, by seat. -/
def upTo (entry : List (Nat × Nat)) (p : Nat) : List (Nat × Nat) :=
  (List.range p).flatMap (fun q => entry.filter (fun e => e.1 = q))

theorem upTo_succ (entry : List (Nat × Nat)) (p : Nat) :
    upTo entry (p + 1) = upTo entry p ++ entry.filter (fun e => e.1 = p) := by
  simp [upTo, List.range_succ]

theorem upTo_perm (entry : List (Nat × Nat)) (p : Nat) :
    (upTo entry p).Perm (entry.filter (fun e => e.1 < p)) := by
  induction p with
  | zero => simp [upTo]
  | succ p ih =>
    have hsplit := List.filter_append_perm (fun e => decide (e.1 < p))
      (entry.filter (fun e => e.1 < p + 1))
    rw [List.filter_filter, List.filter_filter] at hsplit
    have h1 : entry.filter (fun e => decide (e.1 < p) && decide (e.1 < p + 1)) =
        entry.filter (fun e => e.1 < p) := by
      refine List.filter_congr (fun e _ => ?_)
      rw [← Bool.decide_and]
      exact decide_eq_decide.mpr (by omega)
    have h2 : entry.filter (fun e => !decide (e.1 < p) && decide (e.1 < p + 1)) =
        entry.filter (fun e => e.1 = p) := by
      refine List.filter_congr (fun e _ => ?_)
      rw [← decide_not, ← Bool.decide_and]
      exact decide_eq_decide.mpr (by omega)
    rw [h1, h2] at hsplit
    rw [upTo_succ]
    exact (ih.append_right _).trans hsplit

theorem upTo_pairwise (entry : List (Nat × Nat)) (p : Nat) :
    (upTo entry p).Pairwise (fun a b => a.1 ≤ b.1) := by
  induction p with
  | zero => exact List.Pairwise.nil
  | succ p ih =>
    rw [upTo_succ, List.pairwise_append]
    refine ⟨ih, List.pairwise_of_forall_mem_list (fun a ha b hb => ?_), fun a ha b hb => ?_⟩
    · have h1 := of_decide_eq_true (List.mem_filter.mp ha).2
      have h2 := of_decide_eq_true (List.mem_filter.mp hb).2
      omega
    · have h1 := of_decide_eq_true (List.mem_filter.mp ((upTo_perm entry p).mem_iff.mp ha)).2
      have h2 := of_decide_eq_true (List.mem_filter.mp hb).2
      omega

/-- All passes together sort the reports. -/
theorem upTo_all {entry : List (Nat × Nat)} (hk : Dict.Keyed entry) (hs : ∀ e ∈ entry, e.1 < 256) :
    upTo entry 256 = entry.insertionSort (fun a b => a.1 ≤ b.1) := by
  have hperm : (upTo entry 256).Perm entry := by
    have h := upTo_perm entry 256
    rwa [List.filter_eq_self.mpr (fun e he => decide_eq_true (hs e he))] at h
  refine List.Perm.eq_of_pairwise ?_ (upTo_pairwise entry 256) (List.pairwise_insertionSort _ _)
    (hperm.trans (List.perm_insertionSort _ _).symm)
  intro a b ha hb h1 h2
  have ha := hperm.mem_iff.mp ha
  have hb := (List.perm_insertionSort _ _).mem_iff.mp hb
  exact List.inj_on_of_nodup_map hk ha hb (Nat.le_antisymm h1 h2)

theorem emit_emitted (b : Line) (e : Nat × Nat) : (b.emit e).emitted = b.emitted + 1 := by
  unfold Line.emit
  dsimp only
  split_ifs <;> rfl

theorem emit_foldl_emitted (L : List (Nat × Nat)) (b : Line) :
    (L.foldl Line.emit b).emitted = b.emitted + L.length := by
  induction L generalizing b with
  | nil => rfl
  | cons e L ih =>
    rw [List.foldl_cons, ih, emit_emitted, List.length_cons]
    omega

theorem emitPass_eq (h : RowOk row) (b : Line) (pass : Nat) :
    row.emitPass b pass = ((entryOf row).filter (fun e => e.1 = pass)).foldl Line.emit b := by
  have hf := h.filter (fun j => (row.s j).seat = pass)
  have hm : (entryOf row).filter (fun e => e.1 = pass) =
      ((List.range row.nseats).filter (fun j => (row.s j).seat = pass)).map
        (fun j => ((row.s j).seat, (row.s j).crc)) := by
    rw [entryOf, List.filter_map]
    rfl
  rw [hm, ← hf, List.foldl_map, List.foldl_filter]
  rfl

/-- Stopping when every report is out leaves nothing out. -/
theorem passes_eq (h : RowOk row) (b : Line) (hb : b.emitted = 0) (p : Nat) :
    (List.range p).foldl
      (fun b pass => if b.emitted < row.nseats then row.emitPass b pass else b) b =
    (upTo (entryOf row) p).foldl Line.emit b := by
  induction p with
  | zero => rfl
  | succ p ih =>
    rw [List.range_succ, List.foldl_append, ih, upTo_succ, List.foldl_append, List.foldl_cons,
      List.foldl_nil, emit_foldl_emitted, hb, Nat.zero_add]
    split
    · exact emitPass_eq h _ p
    · next hge =>
      have hlen : (upTo (entryOf row) (p + 1)).length ≤ row.nseats := by
        rw [(upTo_perm (entryOf row) (p + 1)).length_eq, ← entryOf_length row]
        exact List.length_filter_le _ _
      rw [upTo_succ, List.length_append] at hlen
      have hnil : (entryOf row).filter (fun e => e.1 = p) = [] :=
        List.length_eq_zero_iff.mp (by omega)
      rw [hnil]
      rfl

theorem decimal_length {n : Nat} (h : n < 256) : 0 < (decimal n).length ∧ (decimal n).length ≤ 3 := by
  have hall : ∀ n < 256, 0 < (decimal (n : Nat)).length ∧ (decimal (n : Nat)).length ≤ 3 := by
    decide +kernel
  exact hall n h

theorem seatText_length {e : Nat × Nat} (h : e.1 < 256) :
    0 < (seatText e).length ∧ (seatText e).length ≤ 13 := by
  have h1 := decimal_length h
  have h2 : (txt "seat").length = 4 := by decide +kernel
  have h3 : (txt "=$").length = 2 := by decide +kernel
  simp only [seatText, List.length_append, h2, h3, List.length_cons, List.length_nil]
  omega

/-- Further reports, while there is room. -/
theorem emit_more (L : List (Nat × Nat)) (b : Line) (hs : ∀ e ∈ L, e.1 < 256)
    (hleft : 14 * L.length < b.left) (hb : b.emitted ≠ 0) (ht : b.tail = []) :
    (L.foldl Line.emit b).out = b.out ++ L.flatMap (fun e => 32 :: seatText e) ∧
      (L.foldl Line.emit b).tail = [] := by
  induction L generalizing b with
  | nil => simp [ht]
  | cons e L ih =>
    have hlen := seatText_length (hs e List.mem_cons_self)
    rw [List.length_cons] at hleft
    have hemit : b.emit e =
        ⟨b.out ++ 32 :: seatText e, b.left - ((seatText e).length + 1), b.emitted + 1, []⟩ := by
      unfold Line.emit
      dsimp only
      rw [if_pos hb, if_pos (by simp only [List.cons_append, List.nil_append, List.length_cons]; omega)]
      rfl
    rw [List.foldl_cons, hemit]
    have := ih ⟨b.out ++ 32 :: seatText e, b.left - ((seatText e).length + 1), b.emitted + 1, []⟩
      (fun e' he' => hs e' (List.mem_cons_of_mem _ he')) (by dsimp only; omega) (by simp) rfl
    rw [this.1, List.flatMap_cons, List.append_assoc]
    exact ⟨rfl, this.2⟩

theorem intercalate_space (x : List Byte) (xs : List (List Byte)) :
    ([32] : List Byte).intercalate (x :: xs) = x ++ xs.flatMap (fun y => 32 :: y) := by
  induction xs generalizing x with
  | nil => simp
  | cons y xs ih =>
    rw [List.intercalate_cons_cons, ih, List.flatMap_cons, List.append_assoc]
    rfl

/-- The line of a row: eight reports always fit. -/
theorem line_eq (h : RowOk row) (hk : Dict.Keyed (entryOf row)) (hs : ∀ e ∈ entryOf row, e.1 < 256)
    (hn : row.nseats ≤ crcSeats) : row.line = mismatchLine (entryOf row) := by
  have hlen : (upTo (entryOf row) 256).length ≤ crcSeats := by
    rw [upTo_all hk hs, List.length_insertionSort, entryOf_length]
    exact hn
  have hmem : ∀ e ∈ upTo (entryOf row) 256, e.1 < 256 := by
    intro e he
    rw [upTo_all hk hs, List.mem_insertionSort] at he
    exact hs e he
  unfold CrcRow.line mismatchLine
  dsimp only
  rw [passes_eq h _ rfl, ← upTo_all hk hs]
  cases hu : upTo (entryOf row) 256 with
  | nil => rfl
  | cons e L =>
    rw [hu] at hlen hmem
    have he := seatText_length (hmem e List.mem_cons_self)
    have hemit : Line.emit ⟨[], crcSeats * 20, 0, []⟩ e =
        ⟨seatText e, crcSeats * 20 - (seatText e).length, 1, []⟩ := by
      unfold Line.emit
      simp only [ne_eq, not_true_eq_false, if_false, List.nil_append]
      rw [if_pos ⟨he.1, by unfold crcSeats; omega⟩]
    have hmore := emit_more L ⟨seatText e, crcSeats * 20 - (seatText e).length, 1, []⟩
      (fun e' he' => hmem e' (List.mem_cons_of_mem _ he'))
      (by rw [List.length_cons] at hlen; unfold crcSeats at *; dsimp only; omega) (by simp) rfl
    rw [List.foldl_cons, hemit, hmore.1, hmore.2, List.append_nil, List.map_cons, intercalate_space,
      List.flatMap_map]

end

/-! ## One report, and any number -/

/-- What a report leads to, with a counter of 32 bits. -/
def CrcReport.low : CrcReport → CrcReport
  | .agreed tick crcOk said => .agreed tick (crcOk % 2 ^ 32) said
  | r => r

section
variable {n : Nat} {s : CrcLog} {r : CrcRoom}

/-- The end of log_crc in both, for the row `i` of the tick. -/
theorem CrcSim.finish (h : CrcSim s r) (hk : Dict.Keyed s.crc) {i tick : Nat} (hi : i ≤ crcTicks)
    {entry : List (Nat × Nat)} (hok : RowOk (r.crc i)) (hentry : entryOf (r.crc i) = entry)
    (hke : Dict.Keyed entry) (hs : ∀ e ∈ entry, e.1 < 256) (hpos : 0 < entry.length)
    (htick : (r.crc i).tick = tick)
    (hgone : (r.crc i).inUse = false → Dict.get s.crc tick = none) :
    ∃ s' rep, (if entry.length < n then (s, CrcReport.silent)
      else if (entry.map Prod.snd).dedup.length ≠ 1 then
        ({ s with crc := Dict.erase s.crc tick }, .mismatch tick (mismatchLine entry))
      else (⟨Dict.erase s.crc tick, s.crcOk + 1⟩,
        .agreed tick (s.crcOk + 1) ((s.crcOk + 1) % 4 = 0))) = (s', rep) ∧
      (r.finish n i tick).2 = .report rep.low ∧ CrcSim s' (r.finish n i tick).1 := by
  have hseats : (r.crc i).nseats = entry.length := by rw [← hentry, entryOf_length]
  have hfree : CrcSim { s with crc := Dict.erase s.crc tick }
      (if (r.crc i).inUse then r.clear i else r) := by
    split
    · next hu =>
      have := h.clear hk hi hu
      rwa [htick] at this
    · next hu =>
      rw [Dict.erase_of_none (hgone (Bool.eq_false_iff.mpr hu))]
      exact h
  unfold CrcRoom.finish
  dsimp only
  rw [hseats]
  by_cases hn : entry.length < n
  · rw [if_pos hn, if_pos hn]
    exact ⟨s, .silent, rfl, rfl, h⟩
  · rw [if_neg hn, if_neg hn]
    have hagree := agreeLoop_iff hok (by rw [hseats]; exact hpos)
    rw [hentry] at hagree
    by_cases ha : (r.crc i).agreeLoop.2.2 = true
    · rw [if_neg (not_not.mpr (hagree.mp ha)), if_neg (by simp [ha])]
      refine ⟨_, _, rfl, ?_, ?_⟩
      · have hc : (if (r.crc i).inUse then r.clear i else r).crcOk = s.crcOk % 2 ^ 32 := hfree.ok
        rw [hc]
        have h1 : (s.crcOk % 2 ^ 32 + 1) % 2 ^ 32 = (s.crcOk + 1) % 2 ^ 32 := by omega
        have h2 : ((s.crcOk + 1) % 2 ^ 32 % 4 = 0) ↔ (s.crcOk + 1) % 4 = 0 := by omega
        rw [h1]
        simp only [CrcReport.low, h2]
      · have hc : (if (r.crc i).inUse then r.clear i else r).crcOk = s.crcOk % 2 ^ 32 := hfree.ok
        refine ⟨hfree.row, hfree.back, hfree.inj, hfree.count, ?_⟩
        dsimp only
        rw [hc]
        omega
    · have hne : (entry.map Prod.snd).dedup.length ≠ 1 := fun hd => ha (hagree.mpr hd)
      rw [if_pos hne, if_pos (by simp [Bool.eq_false_iff.mpr ha])]
      refine ⟨_, _, rfl, ?_, hfree⟩
      have hke' : Dict.Keyed (entryOf (r.crc i)) := by rw [hentry]; exact hke
      have hs' : ∀ e ∈ entryOf (r.crc i), e.1 < 256 := by rw [hentry]; exact hs
      rw [line_eq hok hke' hs' hok.le, hentry]
      rfl

/-- One report in a room of `n`. -/
theorem CrcSim.logCrc (h : CrcSim s r) (hk : CrcKept n s) (hn : n ≤ crcSeats) (p : List Byte) :
    (r.logCrc n p).2 = .report (logCrc n s p).2.low ∧
      CrcSim (logCrc n s p).1 (r.logCrc n p).1 := by
  obtain ⟨r1, i, htake, hi, hu, ht, hok, hentry, hother, hcrcOk, hiff, hcount⟩ :=
    h.takeRow hk.keyed hk.small (crcTick p)
  have hkeyed : Dict.Keyed (entryOf (r1.crc i)) := by
    rw [hentry]
    cases hg : Dict.get s.crc (crcTick p) with
    | none => exact List.nodup_nil
    | some e => exact (hk.entry _ (Dict.mem_of_get hg)).1
  have hroom : (r1.crc i).nseats < crcSeats := by
    rw [← entryOf_length, hentry]
    cases hg : Dict.get s.crc (crcTick p) with
    | none => decide
    | some e => exact Nat.lt_of_lt_of_le (hk.entry _ (Dict.mem_of_get hg)).2.2.1 hn
  obtain ⟨row, j, hslot, hok2, hentry2, hu2, ht2⟩ :=
    takeSlot_spec hok hroom hkeyed (crcSeat p) (crcValue p)
  have hset : entryOf (row.setSlot j { row.s j with crc := crcValue p }) = crcEntry s p := by
    rw [hentry2, hentry]
    rfl
  have hlen : r1.ncrc = (Dict.set s.crc (crcTick p)
      (entryOf (row.setSlot j { row.s j with crc := crcValue p }))).length := by
    rw [hcount]
    simp only [Dict.set]
    split <;> simp
  have hsim : CrcSim _ (r1.setRow i (row.setSlot j { row.s j with crc := crcValue p })) :=
    h.enter hi hother hiff (hu2.trans hu) (ht2.trans ht) hok2 hcrcOk hlen
  rw [hset] at hsim
  have hkset := hk.keyed.set (crcTick p) (crcEntry s p)
  obtain ⟨hev, hrows⟩ := hsim.evict hkset
  have hat : (r1.setRow i (row.setSlot j { row.s j with crc := crcValue p })).crc i =
      row.setSlot j { row.s j with crc := crcValue p } := Function.update_self ..
  obtain ⟨b, hrow, hgone⟩ := hrows i hi (by rw [hat]; exact hu2.trans hu)
  rw [hat] at hrow hgone
  have htk : ∀ slot, (row.setSlot j slot).tick = crcTick p := fun _ => ht2.trans ht
  rw [htk] at hgone
  generalize hr2 : (r1.setRow i (row.setSlot j { row.s j with crc := crcValue p })).evict = r2
    at hev hrow
  have hok3 : RowOk (r2.crc i) := by
    rw [hrow]
    exact ⟨hok2.le, hok2.used⟩
  have hentry3 : entryOf (r2.crc i) = crcEntry s p := by
    rw [hrow]
    exact hset
  have htick3 : (r2.crc i).tick = crcTick p := by
    rw [hrow]
    exact ht2.trans ht
  have hgone3 : (r2.crc i).inUse = false →
      Dict.get (popMin (Dict.set s.crc (crcTick p) (crcEntry s p))) (crcTick p) = none := by
    rw [hrow]
    exact hgone
  have hfin := hev.finish (n := n) (keyed_popMin hkset) hi hok3 hentry3 (hk.keyed_entry p)
    (hk.entry_seat p) (entry_pos s p) htick3 hgone3
  obtain ⟨s', rep, hpy, hc, hsim'⟩ := hfin
  have hlog : Relay.logCrc n s p = (s', rep) := hpy
  have hclog : r.logCrc n p = r2.finish n i (crcTick p) := by
    unfold CrcRoom.logCrc
    dsimp only
    rw [htake]
    dsimp only
    rw [hslot]
    dsimp only
    rw [hr2]
  rw [hlog, hclog]
  exact ⟨hc, hsim'⟩

end

/-- What the Python server logs for some reports. -/
def crcReports (n : Nat) (s : CrcLog) : List (List Byte) → List CrcReport
  | [] => []
  | p :: ps => (logCrc n s p).2 :: crcReports n (logCrc n s p).1 ps

/-- How log_crc returns for them, and the room after them. -/
def CrcRoom.exits (n : Nat) (r : CrcRoom) : List (List Byte) → List CrcExit
  | [] => []
  | p :: ps => (r.logCrc n p).2 :: (r.logCrc n p).1.exits n ps

def CrcRoom.run (n : Nat) (r : CrcRoom) (ps : List (List Byte)) : CrcRoom :=
  ps.foldl (fun r p => (r.logCrc n p).1) r

/-- The open ticks of a room and their values. -/
def CrcRoom.table (r : CrcRoom) : List (Nat × List (Nat × Nat)) :=
  ((List.range (crcTicks + 1)).filter (fun i => (r.crc i).inUse)).map
    (fun i => ((r.crc i).tick, entryOf (r.crc i)))

theorem CrcSim.table_perm {s : CrcLog} {r : CrcRoom} (h : CrcSim s r) (hk : Dict.Keyed s.crc) :
    r.table.Perm s.crc := by
  have hin : ∀ i ∈ (List.range (crcTicks + 1)).filter (fun i => (r.crc i).inUse),
      i ≤ crcTicks ∧ (r.crc i).inUse = true := by
    intro i hi
    obtain ⟨hi, hu⟩ := List.mem_filter.mp hi
    exact ⟨Nat.le_of_lt_succ (List.mem_range.mp hi), hu⟩
  have hnd : r.table.Nodup := by
    refine List.Nodup.map_on (fun i hi j hj he => ?_) (List.nodup_range.filter _)
    exact h.inj i (hin i hi).1 j (hin j hj).1 (hin i hi).2 (hin j hj).2 (Prod.mk.inj he).1
  refine (List.perm_ext_iff_of_nodup hnd (List.Nodup.of_map _ hk)).mpr (fun e => ?_)
  constructor
  · intro he
    obtain ⟨i, hi, rfl⟩ := List.mem_map.mp he
    exact (h.row i (hin i hi).1 (hin i hi).2).2
  · intro he
    obtain ⟨i, hi, hu, ht⟩ := h.back e he
    have hrow := (h.row i hi hu).2
    rw [ht] at hrow
    have heq : e = ((r.crc i).tick, entryOf (r.crc i)) := by
      rw [ht, ← hk.unique he hrow]
    rw [heq]
    exact List.mem_map_of_mem (List.mem_filter.mpr ⟨List.mem_range.mpr (Nat.lt_succ_of_le hi), hu⟩)

theorem CrcSim.run {n : Nat} {s : CrcLog} {r : CrcRoom} (h : CrcSim s r) (hk : CrcKept n s)
    (hn : n ≤ crcSeats) (ps : List (List Byte)) :
    r.exits n ps = (crcReports n s ps).map (fun rep => .report rep.low) ∧
      CrcSim (crcRun n s ps) (r.run n ps) := by
  induction ps generalizing s r with
  | nil => exact ⟨rfl, h⟩
  | cons p ps ih =>
    obtain ⟨hrep, hsim⟩ := h.logCrc hk hn p
    obtain ⟨hreps, hsims⟩ := ih hsim (hk.logCrc p)
    refine ⟨?_, hsims⟩
    rw [CrcRoom.exits, crcReports, List.map_cons, hrep, hreps]

/-- In a room of at most four, both comparators give the same reports for any payloads, the
    counter of the C one modulo 2^32, neither of its early exits is taken, and both hold the
    same open ticks with the same values. -/
theorem log_crc_agrees {n : Nat} (hn : 2 ≤ n ∧ n ≤ 4) (ps : List (List Byte)) :
    CrcRoom.cleared.exits n ps =
        (crcReports n CrcLog.cleared ps).map (fun rep => .report rep.low) ∧
      (CrcRoom.cleared.run n ps).table.Perm (crcRun n CrcLog.cleared ps).crc ∧
      (CrcRoom.cleared.run n ps).crcOk = (crcRun n CrcLog.cleared ps).crcOk % 2 ^ 32 := by
  obtain ⟨h1, h2⟩ := CrcSim.cleared.run (CrcKept.cleared n) (Nat.le_trans hn.2 (by decide)) ps
  exact ⟨h1, h2.table_perm ((CrcKept.cleared n).run ps).keyed, h2.ok⟩

theorem log_crc_agrees_two :
    CrcRoom.cleared.exits 2 [crcPayload 0 64 5, crcPayload 1 64 6] =
        (crcReports 2 CrcLog.cleared [crcPayload 0 64 5, crcPayload 1 64 6]).map
          (fun rep => .report rep.low) ∧
      (CrcRoom.cleared.run 2 [crcPayload 0 64 5, crcPayload 1 64 6]).table.Perm
        (crcRun 2 CrcLog.cleared [crcPayload 0 64 5, crcPayload 1 64 6]).crc ∧
      (CrcRoom.cleared.run 2 [crcPayload 0 64 5, crcPayload 1 64 6]).crcOk =
        (crcRun 2 CrcLog.cleared [crcPayload 0 64 5, crcPayload 1 64 6]).crcOk % 2 ^ 32 :=
  log_crc_agrees (by decide) _

/-- So many agreed rounds at tick 0. -/
def agreedRounds (k : Nat) : List (List Byte) :=
  (List.replicate k [crcPayload 0 0 0, crcPayload 1 0 0]).flatten

theorem crcRun_agreedRounds (k c : Nat) : crcRun 2 ⟨[], c⟩ (agreedRounds k) = ⟨[], c + k⟩ := by
  induction k generalizing c with
  | zero => rfl
  | succ k ih =>
    have hround : crcRun 2 ⟨[], c⟩ [crcPayload 0 0 0, crcPayload 1 0 0] = ⟨[], c + 1⟩ := rfl
    have hsplit : crcRun 2 ⟨[], c⟩ (agreedRounds (k + 1)) =
        crcRun 2 (crcRun 2 ⟨[], c⟩ [crcPayload 0 0 0, crcPayload 1 0 0]) (agreedRounds k) := by
      rw [agreedRounds, List.replicate_succ, List.flatten_cons, crcRun, List.foldl_append]
      rfl
    rw [hsplit, hround, ih]
    congr 1
    omega

/-- After 2^32 agreed rounds the C counter is 0 again. -/
theorem crc_ok_wraps :
    (crcRun 2 CrcLog.cleared (agreedRounds (2 ^ 32))).crcOk = 2 ^ 32 ∧
      (CrcRoom.cleared.run 2 (agreedRounds (2 ^ 32))).crcOk = 0 := by
  have hpy : crcRun 2 CrcLog.cleared (agreedRounds (2 ^ 32)) = ⟨[], 0 + 2 ^ 32⟩ :=
    crcRun_agreedRounds (2 ^ 32) 0
  have hc := (CrcSim.cleared.run (CrcKept.cleared 2) (by decide) (agreedRounds (2 ^ 32))).2.ok
  rw [hpy] at hc
  exact ⟨by rw [hpy, Nat.zero_add], hc⟩

end IntvBasketball.Relay
