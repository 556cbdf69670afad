/-
  server/intv_relay_server.py: log_crc, the comparison of checksum reports in a room.

  `room.crc` maps a tick to the values reported for it by seat. A new value is entered
  first, then the smallest tick goes if there are more than 64, then the round is
  completed if every seat has reported. The entry the round is about is the one just
  written to, even if its tick has just gone.

  A tick that is below 64 open ones goes as soon as it is entered, so its round is never
  completed (`adjacent_compared_iff`).
-/
import IntvBasketball.Relay.Lobby
import IntvBasketball.Lib.Dict
import Mathlib.Data.List.Dedup
import Mathlib.Data.List.Sort

namespace IntvBasketball.Relay

open Lib

/-- A digit of `%X`. -/
def hexUpper (n : Nat) : Byte := if n < 10 then UInt8.ofNat (48 + n) else UInt8.ofNat (55 + n)

/-- One report in a mismatch line, `seat%u=$%04X`. -/
def seatText (e : Nat × Nat) : List Byte :=
  txt "seat" ++ decimal e.1 ++ txt "=$" ++
    [hexUpper (e.2 / 4096 % 16), hexUpper (e.2 / 256 % 16), hexUpper (e.2 / 16 % 16),
     hexUpper (e.2 % 16)]

/-- What one report leads to. -/
inductive CrcReport where
  | silent
  | mismatch (tick : Nat) (line : List Byte)
  | agreed (tick crcOk : Nat) (said : Bool)   -- `said`: every fourth is logged
deriving DecidableEq, Repr

structure CrcLog where
  crc : List (Nat × List (Nat × Nat))
  crcOk : Nat
deriving DecidableEq, Repr

/-- After start_room. -/
def CrcLog.cleared : CrcLog := ⟨[], 0⟩

/-- A CRC payload: seat, tick, checksum. -/
def crcSeat (payload : List Byte) : Nat := (payload.getD 0 0).toNat
def crcTick (payload : List Byte) : Nat :=
  (payload.getD 1 0).toNat + 256 * (payload.getD 2 0).toNat
def crcValue (payload : List Byte) : Nat :=
  (payload.getD 3 0).toNat + 256 * (payload.getD 4 0).toNat

/-- `room.crc.pop(min(room.crc))`, over 64 ticks. -/
def popMin (crc : List (Nat × List (Nat × Nat))) : List (Nat × List (Nat × Nat)) :=
  if 64 < crc.length then
    match (crc.map Prod.fst).min? with
    | some t => Dict.erase crc t
    | none => crc
  else crc

/-- The line of a mismatch: the reports by seat. -/
def mismatchLine (entry : List (Nat × Nat)) : List Byte :=
  [32].intercalate ((entry.insertionSort (fun a b => a.1 ≤ b.1)).map seatText)

/-- The reports of one tick with the new one. -/
def crcEntry (s : CrcLog) (payload : List Byte) : List (Nat × Nat) :=
  Dict.set ((Dict.get s.crc (crcTick payload)).getD []) (crcSeat payload) (crcValue payload)

/-- `log_crc` in a room of `n` members. -/
def logCrc (n : Nat) (s : CrcLog) (payload : List Byte) : CrcLog × CrcReport :=
  let tick := crcTick payload
  let entry := crcEntry s payload
  let crc := popMin (Dict.set s.crc tick entry)
  if entry.length < n then ({ s with crc }, .silent)
  else
    let crc := Dict.erase crc tick
    if (entry.map Prod.snd).dedup.length ≠ 1 then ({ s with crc }, .mismatch tick (mismatchLine entry))
    else (⟨crc, s.crcOk + 1⟩, .agreed tick (s.crcOk + 1) ((s.crcOk + 1) % 4 = 0))

/-- The history after some reports. -/
def crcRun (n : Nat) (s : CrcLog) (ps : List (List Byte)) : CrcLog :=
  ps.foldl (fun s p => (logCrc n s p).1) s

/-! ## The history -/

/-- What holds of it between reports. -/
structure CrcKept (n : Nat) (s : CrcLog) : Prop where
  keyed : Dict.Keyed s.crc
  small : s.crc.length ≤ 64
  entry : ∀ e ∈ s.crc, Dict.Keyed e.2 ∧ 0 < e.2.length ∧ e.2.length < n ∧ ∀ v ∈ e.2, v.1 < 256

theorem CrcKept.cleared (n : Nat) : CrcKept n CrcLog.cleared :=
  ⟨List.nodup_nil, Nat.zero_le _, fun e he => by cases he⟩

theorem popMin_sub {crc : List (Nat × List (Nat × Nat))} {e : Nat × List (Nat × Nat)}
    (h : e ∈ popMin crc) : e ∈ crc := by
  unfold popMin at h
  split at h
  · split at h
    · exact (Dict.mem_erase.mp h).1
    · exact h
  · exact h

theorem keyed_popMin {crc : List (Nat × List (Nat × Nat))} (h : Dict.Keyed crc) :
    Dict.Keyed (popMin crc) := by
  unfold popMin
  split
  · split
    · exact h.filter _
    · exact h
  · exact h

/-- Of 65 ticks the smallest goes. -/
theorem popMin_over {crc : List (Nat × List (Nat × Nat))} (h : 64 < crc.length) :
    ∃ t, (crc.map Prod.fst).min? = some t ∧ popMin crc = Dict.erase crc t ∧
      (∃ v, (t, v) ∈ crc) ∧ ∀ e ∈ crc, t ≤ e.1 := by
  cases hm : (crc.map Prod.fst).min? with
  | none =>
    rw [List.min?_eq_none_iff, List.map_eq_nil_iff] at hm
    rw [hm] at h
    cases h
  | some t =>
    obtain ⟨hmem, hle⟩ := List.min?_eq_some_iff.mp hm
    obtain ⟨e, he, rfl⟩ := List.mem_map.mp hmem
    refine ⟨e.1, rfl, ?_, ⟨e.2, he⟩, fun e' he' => hle e'.1 (List.mem_map_of_mem he')⟩
    rw [popMin, if_pos h, hm]

theorem popMin_under {crc : List (Nat × List (Nat × Nat))} (h : crc.length ≤ 64) :
    popMin crc = crc := if_neg (Nat.not_lt.mpr h)

theorem length_popMin {crc : List (Nat × List (Nat × Nat))} (hk : Dict.Keyed crc)
    (h : crc.length ≤ 65) : (popMin crc).length ≤ 64 := by
  by_cases hlt : 64 < crc.length
  · obtain ⟨t, -, hpop, hin, -⟩ := popMin_over hlt
    have := hk.length_erase hin
    rw [hpop]
    omega
  · rw [popMin_under (by omega)]
    omega

theorem length_set_le {d : List (Nat × List (Nat × Nat))} (k : Nat) (v : List (Nat × Nat)) :
    (Dict.set d k v).length ≤ d.length + 1 := by
  rw [Dict.set]
  split <;> simp

theorem CrcKept.keyed_entry {n : Nat} {s : CrcLog} (h : CrcKept n s) (p : List Byte) :
    Dict.Keyed (crcEntry s p) := by
  refine Dict.Keyed.set ?_ _ _
  cases hg : Dict.get s.crc (crcTick p) with
  | none => exact List.nodup_nil
  | some e => exact (h.entry _ (Dict.mem_of_get hg)).1

theorem CrcKept.entry_seat {n : Nat} {s : CrcLog} (h : CrcKept n s) (p : List Byte) :
    ∀ v ∈ crcEntry s p, v.1 < 256 := by
  intro v hv
  rcases Dict.mem_set.mp hv with rfl | ⟨-, hv⟩
  · exact UInt8.toNat_lt _
  · cases hg : Dict.get s.crc (crcTick p) with
    | none =>
      rw [hg] at hv
      cases hv
    | some e =>
      rw [hg] at hv
      exact (h.entry _ (Dict.mem_of_get hg)).2.2.2 v hv

theorem entry_pos (s : CrcLog) (p : List Byte) : 0 < (crcEntry s p).length :=
  List.length_pos_of_mem (Dict.mem_set.mpr (Or.inl rfl))

/-- One report keeps it. -/
theorem CrcKept.logCrc {n : Nat} {s : CrcLog} (h : CrcKept n s) (p : List Byte) :
    CrcKept n (logCrc n s p).1 := by
  have hset := h.keyed.set (crcTick p) (crcEntry s p)
  have hlen : (Dict.set s.crc (crcTick p) (crcEntry s p)).length ≤ 65 :=
    Nat.le_trans (length_set_le _ _) (Nat.succ_le_succ h.small)
  have hother : ∀ e ∈ popMin (Dict.set s.crc (crcTick p) (crcEntry s p)), e.1 ≠ crcTick p →
      e ∈ s.crc := by
    intro e he hne
    rcases Dict.mem_set.mp (popMin_sub he) with rfl | h1
    · exact absurd rfl hne
    · exact h1.2
  have hdone : CrcKept n ⟨Dict.erase (popMin (Dict.set s.crc (crcTick p) (crcEntry s p)))
      (crcTick p), s.crcOk⟩ := by
    refine ⟨(keyed_popMin hset).filter _, ?_, fun e he => ?_⟩
    · exact Nat.le_trans (List.length_filter_le _ _) (length_popMin hset hlen)
    · have := Dict.mem_erase.mp he
      exact h.entry e (hother e this.1 this.2)
  unfold Relay.logCrc
  dsimp only
  split_ifs with hn
  · refine ⟨keyed_popMin hset, length_popMin hset hlen, fun e he => ?_⟩
    by_cases hk : e.1 = crcTick p
    · rcases Dict.mem_set.mp (popMin_sub he) with rfl | h1
      · exact ⟨h.keyed_entry p, entry_pos s p, hn, h.entry_seat p⟩
      · exact absurd hk h1.1
    · exact h.entry e (hother e he hk)
  · exact ⟨hdone.keyed, hdone.small, hdone.entry⟩
  · exact ⟨hdone.keyed, hdone.small, hdone.entry⟩

theorem CrcKept.run {n : Nat} {s : CrcLog} (h : CrcKept n s) (ps : List (List Byte)) :
    CrcKept n (crcRun n s ps) := by
  induction ps generalizing s with
  | nil => exact h
  | cons p ps ih => exact ih (h.logCrc p)

/-! ## Adjacent reports -/

/-- The round of tick `t` is completed: the values `v` of seat `a` and `w` of seat `b` are
    compared. -/
def completed (s : CrcLog) (t : Nat) (a b : Nat) (v w : Nat) : CrcReport → Prop
  | .silent => False
  | .mismatch tick line => tick = t ∧ v ≠ w ∧ line = mismatchLine [(a, v), (b, w)]
  | .agreed tick crcOk _ => tick = t ∧ v = w ∧ crcOk = s.crcOk + 1

/-- The history has no room for tick `t`: 64 are open, all above it. -/
def NoRoom (s : CrcLog) (t : Nat) : Prop := s.crc.length = 64 ∧ ∀ e ∈ s.crc, t < e.1

instance (s : CrcLog) (t : Nat) : Decidable (NoRoom s t) := by unfold NoRoom; infer_instance

section
variable {s : CrcLog} {p : List Byte}

theorem crcEntry_new (h : Dict.get s.crc (crcTick p) = none) :
    crcEntry s p = [(crcSeat p, crcValue p)] := by
  rw [crcEntry, h, Option.getD_none, Dict.set_of_none rfl, List.nil_append]

/-- The first report of a tick, in a room of two. -/
theorem logCrc_first (h : Dict.get s.crc (crcTick p) = none) :
    logCrc 2 s p =
      ({ s with crc := popMin (s.crc ++ [(crcTick p, [(crcSeat p, crcValue p)])]) }, .silent) := by
  unfold logCrc
  dsimp only
  rw [crcEntry_new h, Dict.set_of_none h, if_pos (by simp)]

/-- The report of the other seat completes the round. -/
theorem logCrc_second {a v : Nat} (hk : CrcKept 2 s) (hs : a ≠ crcSeat p)
    (h : (crcTick p, [(a, v)]) ∈ s.crc) :
    completed s (crcTick p) a (crcSeat p) v (crcValue p) (logCrc 2 s p).2 := by
  have hget := hk.keyed.get_iff.mpr h
  have hentry : crcEntry s p = [(a, v), (crcSeat p, crcValue p)] := by
    rw [crcEntry, hget, Option.getD_some, Dict.set_of_none (by simp [Dict.get, hs])]
    rfl
  unfold logCrc
  dsimp only
  rw [hentry, if_neg (by simp)]
  by_cases hv : v = crcValue p
  · have hone : [v, crcValue p].dedup.length = 1 := by
      rw [List.dedup_cons_of_mem (by simp [hv])]
      rfl
    rw [List.map_cons, List.map_cons, List.map_nil, if_neg (not_not.mpr hone)]
    exact ⟨rfl, hv, rfl⟩
  · have htwo : [v, crcValue p].dedup = [v, crcValue p] :=
      List.dedup_eq_self.mpr (by simp [hv])
    rw [if_pos (by rw [List.map_cons, List.map_cons, List.map_nil, htwo]; simp)]
    exact ⟨rfl, hv, rfl⟩

/-- A tick there is no room for is gone at once. -/
theorem popMin_noRoom {t : Nat} (h : NoRoom s t) (entry : List (Nat × Nat)) :
    popMin (s.crc ++ [(t, entry)]) = s.crc := by
  have hnone : Dict.get s.crc t = none := Dict.get_eq_none.mpr (fun v hv => by
    have := h.2 _ hv
    omega)
  have hlen : 64 < (s.crc ++ [(t, entry)]).length := by
    rw [List.length_append, h.1]
    exact Nat.lt_succ_self 64
  obtain ⟨t', -, hpop, ⟨v, hin⟩, hle⟩ := popMin_over hlen
  have ht : t' = t := by
    have h1 := hle (t, entry) (List.mem_append_right _ (List.mem_singleton_self _))
    rcases List.mem_append.mp hin with h2 | h2
    · have := h.2 _ h2
      omega
    · exact (Prod.mk.inj (List.mem_singleton.mp h2)).1
  rw [hpop, ht, Dict.erase_append, Dict.erase_of_none hnone]
  simp [Dict.erase]

/-- Any other tick stays. -/
theorem mem_popMin_room (hk : CrcKept 2 s) {t : Nat} (h : ¬ NoRoom s t)
    (hnone : Dict.get s.crc t = none) (entry : List (Nat × Nat)) :
    (t, entry) ∈ popMin (s.crc ++ [(t, entry)]) := by
  have hlast : (t, entry) ∈ s.crc ++ [(t, entry)] :=
    List.mem_append_right _ (List.mem_singleton_self _)
  by_cases hlen : s.crc.length < 64
  · rw [popMin_under (by rw [List.length_append]; exact hlen)]
    exact hlast
  · have h64 : s.crc.length = 64 := by
      have := hk.small
      omega
    obtain ⟨e, he, hlt⟩ : ∃ e ∈ s.crc, e.1 < t := by
      by_contra hno
      refine h ⟨h64, fun e he => ?_⟩
      have hne : e.1 ≠ t := fun hk' => Dict.get_eq_none.mp hnone e.2 (hk' ▸ he)
      have : ¬ e.1 < t := fun hlt => hno ⟨e, he, hlt⟩
      omega
    have hlen : 64 < (s.crc ++ [(t, entry)]).length := by
      rw [List.length_append, h64]
      exact Nat.lt_succ_self 64
    obtain ⟨t', -, hpop, -, hle⟩ := popMin_over hlen
    have := hle e (List.mem_append_left _ he)
    rw [hpop]
    exact Dict.mem_erase.mpr ⟨hlast, by dsimp only; omega⟩

end

/-- Two seats report an open tick one right after the other: the round is completed if and
    only if the history has room for that tick. -/
theorem adjacent_compared_iff (ps : List (List Byte)) {p q : List Byte}
    (htick : crcTick q = crcTick p) (hseat : crcSeat p ≠ crcSeat q)
    (hnone : Dict.get (crcRun 2 CrcLog.cleared ps).crc (crcTick p) = none) :
    completed (crcRun 2 CrcLog.cleared ps) (crcTick p) (crcSeat p) (crcSeat q) (crcValue p)
        (crcValue q) (logCrc 2 (logCrc 2 (crcRun 2 CrcLog.cleared ps) p).1 q).2 ↔
      ¬ NoRoom (crcRun 2 CrcLog.cleared ps) (crcTick p) := by
  have hk := (CrcKept.cleared 2).run ps
  generalize crcRun 2 CrcLog.cleared ps = s at hnone hk ⊢
  have hfirst := logCrc_first hnone
  have hk1 := hk.logCrc p
  rw [hfirst] at hk1 ⊢
  constructor
  · intro hc hroom
    have hsame := popMin_noRoom hroom [(crcSeat p, crcValue p)]
    rw [hsame, ← htick] at hc
    rw [← htick] at hnone
    rw [logCrc_first hnone] at hc
    exact hc
  · intro hroom
    have hin := mem_popMin_room hk hroom hnone [(crcSeat p, crcValue p)]
    rw [← htick] at hin ⊢
    rw [← htick] at hk1
    exact logCrc_second hk1 hseat hin

/-- The report of a tick by a seat. -/
def crcPayload (seat tick crc : Nat) : List Byte :=
  [seat, tick % 256, tick / 256, crc % 256, crc / 256].map UInt8.ofNat

/-- Each seat has reported one tick that the other has not. -/
def openTicks : List (List Byte) := [crcPayload 0 0 7, crcPayload 1 128 9]

/-- Between the two open ticks there is room for tick 64. -/
theorem adjacent_compared_open :
    let s := crcRun 2 CrcLog.cleared openTicks
    s.crc = [(0, [(0, 7)]), (128, [(1, 9)])] ∧
      completed s 64 0 1 5 6 (logCrc 2 (logCrc 2 s (crcPayload 0 64 5)).1 (crcPayload 1 64 6)).2 :=
  ⟨by decide +kernel, (adjacent_compared_iff openTicks (p := crcPayload 0 64 5)
    (q := crcPayload 1 64 6) (by decide) (by decide) (by decide)).mpr (by decide)⟩

/-- 64 ticks of which only one seat has reported, from 65472 on. -/
def halfReported : List (List Byte) := (List.range 64).map (fun i => crcPayload 0 (65472 + i) 0)

/-- The next tick is 0 again, and its round is never completed. -/
theorem wrapped_not_compared :
    Dict.get (crcRun 2 CrcLog.cleared halfReported).crc 0 = none ∧
    (logCrc 2 (logCrc 2 (crcRun 2 CrcLog.cleared halfReported) (crcPayload 0 0 5)).1
      (crcPayload 1 0 6)).2 = .silent := by
  decide +kernel

end IntvBasketball.Relay
