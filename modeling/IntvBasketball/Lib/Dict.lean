/-
  Dictionaries as association lists in insertion order, each key once: lookup, assignment
  (in place if the key is there, else at the end), and removal by a filter.
-/
import Mathlib.Data.List.Nodup

namespace IntvBasketball.Lib.Dict

variable {κ ν : Type} [DecidableEq κ]

def get (d : List (κ × ν)) (k : κ) : Option ν := (d.find? (fun e => e.1 = k)).map (·.2)

def set (d : List (κ × ν)) (k : κ) (v : ν) : List (κ × ν) :=
  if (get d k).isSome then d.map (fun e => if e.1 = k then (k, v) else e) else d ++ [(k, v)]

def erase (d : List (κ × ν)) (k : κ) : List (κ × ν) := d.filter (fun e => e.1 ≠ k)

/-- Each key once. -/
def Keyed (d : List (κ × ν)) : Prop := (d.map Prod.fst).Nodup

theorem mem_of_get {d : List (κ × ν)} {k : κ} {v : ν} (h : get d k = some v) : (k, v) ∈ d := by
  rw [get, Option.map_eq_some_iff] at h
  obtain ⟨e, he, rfl⟩ := h
  have hk := List.find?_some he
  rw [decide_eq_true_eq] at hk
  rw [← hk]
  exact List.mem_of_find?_eq_some he

theorem get_eq_none {d : List (κ × ν)} {k : κ} : get d k = none ↔ ∀ v, (k, v) ∉ d := by
  rw [get, Option.map_eq_none_iff, List.find?_eq_none]
  constructor
  · intro h v hv
    exact h _ hv (decide_eq_true rfl)
  · intro h e he hk
    rw [decide_eq_true_eq] at hk
    exact h e.2 (hk ▸ he)

omit [DecidableEq κ] in
theorem Keyed.unique {d : List (κ × ν)} (h : Keyed d) {k : κ} {v w : ν} (hv : (k, v) ∈ d)
    (hw : (k, w) ∈ d) : v = w := by
  have := List.inj_on_of_nodup_map h hv hw rfl
  exact congrArg Prod.snd this

theorem Keyed.get_iff {d : List (κ × ν)} (h : Keyed d) {k : κ} {v : ν} :
    get d k = some v ↔ (k, v) ∈ d := by
  constructor
  · exact mem_of_get
  · intro hv
    cases hg : get d k with
    | none => exact absurd hv (get_eq_none.mp hg v)
    | some w => rw [h.unique hv (mem_of_get hg)]

omit [DecidableEq κ] in
theorem Keyed.filter {d : List (κ × ν)} (h : Keyed d) (p : κ × ν → Bool) : Keyed (d.filter p) :=
  h.sublist (List.filter_sublist.map _)

theorem mem_set {d : List (κ × ν)} {k : κ} {v : ν} {e : κ × ν} :
    e ∈ set d k v ↔ e = (k, v) ∨ (e.1 ≠ k ∧ e ∈ d) := by
  rw [set]
  split
  · next hs =>
    obtain ⟨w, hw⟩ := Option.isSome_iff_exists.mp hs
    rw [List.mem_map]
    constructor
    · rintro ⟨e', he', rfl⟩
      split
      · exact Or.inl rfl
      · next hk => exact Or.inr ⟨hk, he'⟩
    · rintro (rfl | ⟨hk, he⟩)
      · exact ⟨(k, w), mem_of_get hw, if_pos rfl⟩
      · exact ⟨e, he, if_neg hk⟩
  · next hs =>
    have hnone := get_eq_none.mp (Option.not_isSome_iff_eq_none.mp hs)
    rw [List.mem_append, List.mem_singleton, or_comm]
    refine or_congr_right ⟨fun he => ⟨fun hk => ?_, he⟩, And.right⟩
    exact hnone e.2 (hk ▸ he)

theorem Keyed.set {d : List (κ × ν)} (h : Keyed d) (k : κ) (v : ν) : Keyed (Dict.set d k v) := by
  rw [Dict.set]
  split
  · have hfst : (d.map (fun e => if e.1 = k then (k, v) else e)).map Prod.fst = d.map Prod.fst := by
      rw [List.map_map]
      refine List.map_congr_left (fun e _ => ?_)
      show (if e.1 = k then (k, v) else e).1 = e.1
      split
      · next hk => exact hk.symm
      · rfl
    rw [Keyed, hfst]
    exact h
  · next hs =>
    have hnone := get_eq_none.mp (Option.not_isSome_iff_eq_none.mp hs)
    rw [Keyed, List.map_append, List.nodup_append]
    refine ⟨h, List.pairwise_singleton _ _, ?_⟩
    intro a ha b hb hab
    obtain ⟨e, he, rfl⟩ := List.mem_map.mp ha
    rw [List.mem_singleton.mp hb] at hab
    replace hab : e.1 = k := hab
    exact hnone e.2 (hab ▸ he)

theorem get_set_self (d : List (κ × ν)) (k : κ) (v : ν) : get (set d k v) k = some v := by
  cases hg : get (set d k v) k with
  | none => exact absurd (mem_set.mpr (Or.inl rfl)) (get_eq_none.mp hg v)
  | some w =>
    rcases mem_set.mp (mem_of_get hg) with h | h
    · rw [(Prod.mk.inj h).2]
    · exact absurd rfl h.1

/-- A key that is there keeps its place. -/
theorem length_set_of_some {d : List (κ × ν)} {k : κ} (h : (get d k).isSome) (v : ν) :
    (set d k v).length = d.length := by
  rw [set, if_pos h, List.length_map]

/-- A new key goes to the end. -/
theorem set_of_none {d : List (κ × ν)} {k : κ} (h : get d k = none) (v : ν) :
    set d k v = d ++ [(k, v)] := by
  rw [set, h]
  rfl

theorem mem_erase {d : List (κ × ν)} {k : κ} {e : κ × ν} : e ∈ erase d k ↔ e ∈ d ∧ e.1 ≠ k := by
  rw [erase, List.mem_filter, decide_eq_true_eq]

theorem erase_of_none {d : List (κ × ν)} {k : κ} (h : get d k = none) : erase d k = d := by
  refine List.filter_eq_self.mpr (fun e he => decide_eq_true (fun hk => ?_))
  exact get_eq_none.mp h e.2 (hk ▸ he)

theorem erase_append (d d' : List (κ × ν)) (k : κ) : erase (d ++ d') k = erase d k ++ erase d' k :=
  List.filter_append ..

/-- Removing a key that is there takes one entry. -/
theorem Keyed.length_erase {d : List (κ × ν)} (h : Keyed d) {k : κ} (hk : ∃ v, (k, v) ∈ d) :
    (erase d k).length + 1 = d.length := by
  induction d with
  | nil =>
    obtain ⟨v, hv⟩ := hk
    cases hv
  | cons e d ih =>
    rw [Keyed, List.map_cons, List.nodup_cons] at h
    by_cases he : e.1 = k
    · have hnone : get d k = none := by
        refine get_eq_none.mpr (fun v hv => h.1 ?_)
        rw [he]
        exact List.mem_map_of_mem hv
      have hcons : erase (e :: d) k = erase d k := by simp [erase, he]
      rw [hcons, erase_of_none hnone, List.length_cons]
    · have hcons : erase (e :: d) k = e :: erase d k := by simp [erase, he]
      obtain ⟨v, hv⟩ := hk
      rcases List.mem_cons.mp hv with rfl | hv
      · exact absurd rfl he
      · rw [hcons, List.length_cons, List.length_cons, ih h.2 ⟨v, hv⟩]

end IntvBasketball.Lib.Dict
