/-
  Every event keeps the tables of the C relay.

  by_name[] is a dictionary: each name once, and its slot holds a client of that name. So
  there are at most as many names as clients. Between events each room has two members
  or more, so a client without a room leaves one of the MAX_CLIENTS / 2 rooms free:
  room_alloc() and name_set() always find a place.
-/
import IntvBasketball.Relay.CDrop
import Mathlib.Algebra.Order.BigOperators.Group.List
import Mathlib.Algebra.Order.Group.Nat

namespace IntvBasketball.Relay.CServer

open Lib (Dict.Keyed Dict.get Dict.set)
open Lib

variable {σ : Type}

/-! ## by_name -/

theorem nameClient_eq (t : CServer σ) (name : List Byte) :
    t.nameClient name = Dict.get t.byName name := by
  rw [Dict.get, List.find?_eq_bind_findIdx?_getElem?, Option.map_bind]
  rfl

theorem nameClient_mem {t : CServer σ} {x : Nat} {name : List Byte}
    (h : t.nameClient name = some x) : (name, x) ∈ t.byName := by
  rw [nameClient_eq] at h
  exact Dict.mem_of_get h

theorem nameFind_some {t : CServer σ} {name : List Byte} {i : Nat} (h : t.nameFind name = some i) :
    ∃ e, t.byName[i]? = some e ∧ e.1 = name := by
  rw [nameFind, List.findIdx?_eq_some_iff_getElem] at h
  obtain ⟨hi, hk, -⟩ := h
  exact ⟨t.byName[i], List.getElem?_eq_getElem hi, of_decide_eq_true hk⟩

theorem nameFind_none {t : CServer σ} {name : List Byte} (h : t.nameFind name = none) :
    ∀ e ∈ t.byName, e.1 ≠ name := by
  rw [nameFind, List.findIdx?_eq_none_iff] at h
  exact fun e he => of_decide_eq_false (h e he)

/-- Two entries of one name are the same entry. -/
theorem keyed_index {d : List (List Byte × Nat)} (h : Dict.Keyed d) {i j : Nat}
    {e e' : List Byte × Nat} (hi : d[i]? = some e) (hj : d[j]? = some e') (he : e.1 = e'.1) :
    i = j := by
  obtain ⟨hi', rfl⟩ := List.getElem?_eq_some_iff.mp hi
  obtain ⟨hj', rfl⟩ := List.getElem?_eq_some_iff.mp hj
  have hi'' : i < (d.map Prod.fst).length := by rw [List.length_map]; exact hi'
  have hj'' : j < (d.map Prod.fst).length := by rw [List.length_map]; exact hj'
  have hget : (d.map Prod.fst)[i] = (d.map Prod.fst)[j] := by
    rw [List.getElem_map, List.getElem_map]
    exact he
  exact h.getElem_inj_iff.mp hget

/-- name_set() is the dictionary's assignment, as long as by_name[] is not full. -/
theorem nameSet_eq {t : CServer σ} (h : Dict.Keyed t.byName) (name : List Byte) (ci : Nat)
    (hroom : (∀ e ∈ t.byName, e.1 ≠ name) → t.byName.length < maxClients) :
    t.nameSet name ci = { t with byName := Dict.set t.byName name ci } := by
  have hget := t.nameClient_eq name
  rw [nameSet, Dict.set, ← hget, nameClient]
  cases hf : t.nameFind name with
  | none =>
    dsimp only [Option.bind_none, Option.isSome_none]
    rw [if_neg (Nat.not_le.mpr (hroom (nameFind_none hf))), if_neg Bool.false_ne_true]
  | some i =>
    obtain ⟨e, hi, he⟩ := nameFind_some hf
    rw [Option.bind_some, hi, Option.map_some, Option.isSome_some, if_pos rfl]
    have hmod : t.byName.modify i (fun e => (e.1, ci)) =
        t.byName.map (fun e => if e.1 = name then (name, ci) else e) := by
      refine List.ext_getElem? (fun j => ?_)
      rw [List.getElem?_modify, List.getElem?_map]
      cases hj : t.byName[j]? with
      | none => rfl
      | some e' =>
        by_cases hij : i = j
        · subst hij
          rw [hi] at hj
          obtain rfl := Option.some.inj hj
          simp [he]
        · have hne : e'.1 ≠ name := fun hk => hij (keyed_index h hi hj (he.trans hk.symm))
          simp [hij, hne]
    dsimp only
    rw [hmod]

/-- on_hello() leaves no entry of the client but one under the new name. -/
theorem unalias_names {t : CServer σ} (h : Dict.Keyed t.byName)
    (hn : ∀ e ∈ t.byName, (t.client e.2).name = e.1 ∧ e.1 ≠ []) (ci : Nat) (name : List Byte) :
    (t.unalias ci name).byName.Sublist t.byName ∧
      ∀ e ∈ (t.unalias ci name).byName, e.2 = ci → e.1 = name := by
  have hown : ∀ e ∈ t.byName, e.2 = ci → e.1 = (t.client ci).name := fun e he hc =>
    hc ▸ (hn e he).1.symm
  unfold unalias
  extract_lets was
  split
  · next hwas =>
    refine ⟨List.Sublist.refl _, fun e he hc => ?_⟩
    rcases hwas with hnil | heq
    · exact absurd ((hown e he hc).trans hnil) (hn e he).2
    · exact (hown e he hc).trans heq
  · split
    · next i hf =>
      obtain ⟨e', hi, hk⟩ := nameFind_some hf
      rw [hi, Option.map_some]
      split
      · rw [nameDelAt]
        refine ⟨List.eraseIdx_sublist _ _, fun e he hc => ?_⟩
        obtain ⟨j, hj, hje⟩ := List.mem_eraseIdx_iff_getElem?.mp he
        have hem := List.mem_of_getElem? hje
        exact absurd (keyed_index h hje hi ((hown e hem hc).trans hk.symm)) hj
      · next hne =>
        refine ⟨List.Sublist.refl _, fun e he hc => ?_⟩
        have he' : (e.1, e'.2) ∈ t.byName := by
          rw [(hown e he hc).trans hk.symm]
          exact List.mem_of_getElem? hi
        exact absurd (congrArg some ((h.unique he' he).trans hc)) hne
    · next hf =>
      exact ⟨List.Sublist.refl _, fun e he hc => absurd (hown e he hc) (nameFind_none hf e he)⟩

theorem unalias_eq (t : CServer σ) (ci : Nat) (name : List Byte) :
    t.unalias ci name = { t with byName := (t.unalias ci name).byName } := by
  unfold unalias
  extract_lets was
  split
  · rfl
  · split
    · split <;> rfl
    · rfl

/-- Each client has one entry at most. -/
theorem Sound.entries {xs rs : List Nat} {t : CServer σ} (h : Sound xs rs t) :
    (t.byName.map Prod.snd).Nodup := by
  refine List.Nodup.map_on (fun e he e' he' hs => ?_) h.keyed.of_map
  refine Prod.ext ?_ hs
  rw [← (h.named e he).2.1, ← (h.named e' he').2.1, hs]

/-- A client without an entry leaves a place in by_name[]. -/
theorem Sound.names_lt {xs rs : List Nat} {t : CServer σ} (h : Sound xs rs t) {ci : Nat}
    (hci : t.Up ci) (hno : ∀ e ∈ t.byName, e.2 ≠ ci) : t.byName.length < maxClients := by
  have hn : ci ∉ t.byName.map Prod.snd := by
    intro hm
    obtain ⟨e, he, hc⟩ := List.mem_map.mp hm
    exact hno e he hc
  have hsub : (ci :: t.byName.map Prod.snd).Subperm (List.range maxClients) := by
    refine (List.nodup_cons.mpr ⟨hn, h.entries⟩).subperm (fun i hi => ?_)
    rw [List.mem_range]
    rcases List.mem_cons.mp hi with rfl | hi
    · exact hci.1
    · obtain ⟨e, he, rfl⟩ := List.mem_map.mp hi
      exact (h.named e he).1.1
  have := hsub.length_le
  rw [List.length_cons, List.length_map, List.length_range] at this
  exact this

/-- Only names change. -/
theorem Sound.of_names {xs rs : List Nat} {t t' : CServer σ} (h : Sound xs rs t)
    (hu : ∀ i, (t'.client i).inUse = (t.client i).inUse)
    (hd : ∀ i, (t'.client i).dead = (t.client i).dead)
    (hroom : ∀ i, (t'.client i).room = (t.client i).room) (hr : t'.room = t.room)
    (hn : t'.nClients = t.nClients) (hp : t'.proto = t.proto) (hm : t'.maxSeats = t.maxSeats)
    (hf : t'.faults = t.faults) (hk : Dict.Keyed t'.byName)
    (hnames : ∀ e ∈ t'.byName, t.Up e.2 ∧ (t'.client e.2).name = e.1 ∧ e.1 ≠ []) :
    Sound xs rs t' := by
  have hup : ∀ i, t'.Up i ↔ t.Up i := fun i => by rw [Up, Up, hu, hd]
  refine { h with keyed := hk, named := ?_, counted := ?_, dying := ?_, room := ?_, seat := ?_,
                  vacant := ?_, within := ?_, seats := ?_, clean := ?_, left := ?_ }
  · exact fun e he => ⟨(hup _).mpr (hnames e he).1, (hnames e he).2⟩
  · have hs : t'.slots = t.slots := List.filter_congr (fun i _ => by rw [hu])
    rw [hn, hs]
    exact h.counted
  · intro i
    rw [hu, hd]
    exact h.dying i
  · intro ri hri hused
    rw [hr] at hused
    have hh := h.room ri hri hused
    refine ⟨⟨by rw [hr, hm]; exact hh.cap, by rw [hr]; exact hh.nodup, fun m hmm => ?_⟩,
      by rw [hr]; exact hh.two⟩
    rw [hr] at hmm
    rw [hup, hroom]
    exact hh.member m hmm
  · intro i ri
    rw [hroom, hr]
    exact h.seat i ri
  · rw [hr]
    exact h.vacant
  · rw [hr]
    exact h.within
  · rw [hp, hm]
    exact h.seats
  · rw [hf]
    exact h.clean
  · intro i ri
    rw [hroom]
    exact h.left i ri

/-- on_hello() stores the client under its new name. -/
def rename (t : CServer σ) (ci : Nat) (name : List Byte) : CServer σ :=
  ((t.unalias ci name).modClient ci ({ · with name := name })).nameSet name ci

theorem Sound.rename_eq {xs rs : List Nat} {t : CServer σ} (h : Sound xs rs t) {ci : Nat}
    (hci : t.Up ci) (name : List Byte) :
    t.rename ci name =
      { t with
        client := fun i => if i = ci then { t.client i with name := name } else t.client i,
        byName := Dict.set (t.unalias ci name).byName name ci } := by
  obtain ⟨hsub, hown⟩ := unalias_names h.keyed (fun e he => (h.named e he).2) ci name
  have heq := unalias_eq t ci name
  generalize (t.unalias ci name).byName = d at heq hsub hown ⊢
  have h1 : Sound xs rs { t with byName := d } :=
    h.of_names (fun _ => rfl) (fun _ => rfl) (fun _ => rfl) rfl rfl rfl rfl rfl
      (h.keyed.sublist (hsub.map _)) (fun e he => h.named e (hsub.subset he))
  rw [rename, heq]
  exact nameSet_eq (t := CServer.modClient { t with byName := d } ci ({ · with name := name }))
    h1.keyed name ci (fun hno => h1.names_lt hci (fun e he hc => hno e he (hown e he hc)))

theorem Sound.rename {xs rs : List Nat} {t : CServer σ} (h : Sound xs rs t) {ci : Nat}
    (hci : t.Up ci) {name : List Byte} (hnil : name ≠ []) : Sound xs rs (t.rename ci name) := by
  obtain ⟨hsub, hown⟩ := unalias_names h.keyed (fun e he => (h.named e he).2) ci name
  rw [h.rename_eq hci name]
  refine h.of_names ?_ ?_ ?_ rfl rfl rfl rfl rfl
    (Dict.Keyed.set (h.keyed.sublist (hsub.map _)) name ci) ?_
  · exact fun i => by dsimp only; split <;> rfl
  · exact fun i => by dsimp only; split <;> rfl
  · exact fun i => by dsimp only; split <;> rfl
  · intro e he
    dsimp only
    rcases Dict.mem_set.mp he with rfl | ⟨hne, he⟩
    · rw [if_pos rfl]
      exact ⟨hci, rfl, hnil⟩
    · have hc : e.2 ≠ ci := fun hc => hne (hown e he hc)
      rw [if_neg hc]
      exact h.named e (hsub.subset he)

/-! ## Rooms -/

/-- A client without a room leaves a room free. -/
theorem Sound.free_room {xs : List Nat} {t : CServer σ} (h : Sound xs [] t) {ci : Nat}
    (hci : t.Up ci) (hroom : (t.client ci).room = none) :
    ∃ j < maxRooms, (t.room j).used = false := by
  by_contra hno
  push Not at hno
  have hh : ∀ j ∈ List.range maxRooms, t.Housed j := fun j hj =>
    h.room j List.not_mem_nil (Bool.not_eq_false _ ▸ hno j (List.mem_range.mp hj))
  have hback : ∀ j ∈ List.range maxRooms, ∀ m ∈ (t.room j).members, t.Up m ∧
      (t.client m).room = some j := fun j hj => (hh j hj).member
  -- the members of all rooms, and the client that has none, are 65 slots
  have hnd : ((List.range maxRooms).flatMap (fun j => (t.room j).members)).Nodup := by
    rw [List.nodup_flatMap]
    refine ⟨fun j hj => (hh j hj).nodup, ?_⟩
    refine List.nodup_range.pairwise_of_forall_ne (fun i hi j hj hij m hmi hmj => ?_)
    have h1 := (hback i hi m hmi).2
    rw [(hback j hj m hmj).2] at h1
    exact hij (Option.some.inj h1).symm
  have hn : ci ∉ (List.range maxRooms).flatMap (fun j => (t.room j).members) := by
    intro hm
    obtain ⟨j, hj, hm⟩ := List.mem_flatMap.mp hm
    have := (hback j hj ci hm).2
    rw [hroom] at this
    exact nomatch this
  have hsub : (ci :: (List.range maxRooms).flatMap (fun j => (t.room j).members)).Subperm
      (List.range maxClients) := by
    refine (List.nodup_cons.mpr ⟨hn, hnd⟩).subperm (fun i hi => ?_)
    rw [List.mem_range]
    rcases List.mem_cons.mp hi with rfl | hi
    · exact hci.1
    · obtain ⟨j, hj, hm⟩ := List.mem_flatMap.mp hi
      exact (hback j hj i hm).1.1
  have hlen := hsub.length_le
  rw [List.length_cons, List.length_flatMap, List.length_range] at hlen
  have hsum : ((List.range maxRooms).map (fun j => (t.room j).members.length)).length • 2 ≤
      ((List.range maxRooms).map (fun j => (t.room j).members.length)).sum := by
    refine List.card_nsmul_le_sum _ 2 (fun l hl => ?_)
    obtain ⟨j, hj, rfl⟩ := List.mem_map.mp hl
    exact (hh j hj).two
  rw [List.length_map, List.length_range] at hsum
  change maxRooms * 2 ≤ _ at hsum
  unfold maxRooms maxClients at *
  omega

theorem Sound.roomAlloc {xs : List Nat} {t : CServer σ} (h : Sound xs [] t) {ci : Nat}
    (hci : t.Up ci) (hroom : (t.client ci).room = none) :
    ∃ j < maxRooms, (t.room j).used = false ∧ t.roomAlloc ci =
      (({ t with nextGid := t.nextGid + 1 } : CServer σ).modRoom j
        (fun _ => ⟨true, t.nextGid, [ci], false, 0⟩), some j) := by
  obtain ⟨j, hj, hfree⟩ := h.free_room hci hroom
  rw [CServer.roomAlloc]
  cases hf : (List.range maxRooms).find? (fun j => !(t.room j).used) with
  | none =>
    rw [List.find?_eq_none] at hf
    have := hf j (List.mem_range.mpr hj)
    rw [hfree] at this
    exact absurd rfl this
  | some k =>
    have hk := List.find?_some hf
    rw [Bool.not_eq_true'] at hk
    exact ⟨k, List.mem_range.mp (List.mem_of_find?_eq_some hf), hk, rfl⟩

/-- The members of `room` sit down at index `ri`. -/
def enter (t : CServer σ) (ri : Nat) (room : CRoom) : CServer σ :=
  { t with
    client := fun i =>
      if i ∈ room.members then { t.client i with room := some ri } else t.client i,
    room := fun j => if j = ri then room else t.room j }

theorem enter_client (t : CServer σ) (ri : Nat) (room : CRoom) (i : Nat) :
    (t.enter ri room).client i =
      if i ∈ room.members then { t.client i with room := some ri } else t.client i := rfl

theorem enter_room (t : CServer σ) (ri : Nat) (room : CRoom) : (t.enter ri room).room ri = room :=
  if_pos rfl

theorem enter_other {t : CServer σ} {ri j : Nat} (room : CRoom) (hj : j ≠ ri) :
    (t.enter ri room).room j = t.room j := if_neg hj

theorem enter_up {t : CServer σ} {ri : Nat} {room : CRoom} {i : Nat} :
    (t.enter ri room).Up i ↔ t.Up i := by
  rw [Up, Up, enter_client]
  split <;> exact Iff.rfl

/-- Those who were in the room stay, and solo clients join them. -/
structure Entrance (t : CServer σ) (ri : Nat) (room : CRoom) : Prop where
  lt : ri < maxRooms
  used : room.used = true
  two : 2 ≤ room.members.length
  cap : room.members.length ≤ t.maxSeats
  nodup : room.members.Nodup
  up : ∀ m ∈ room.members, t.Up m ∧ ((t.client m).room = none ∨ (t.client m).room = some ri)
  all : ∀ i, (t.client i).room = some ri → i ∈ room.members

theorem Sound.enter {xs : List Nat} {t : CServer σ} (h : Sound xs [] t) {ri : Nat} {room : CRoom}
    (he : t.Entrance ri room) : Sound xs [] (t.enter ri room) where
  keyed := h.keyed
  named e hen := by
    rw [enter_up, enter_client]
    split <;> exact h.named e hen
  counted := by
    have hs : (t.enter ri room).slots = t.slots := by
      refine List.filter_congr (fun i _ => ?_)
      rw [enter_client]
      split <;> rfl
    rw [hs]
    exact h.counted
  dying i hu hd := by
    rw [enter_client] at hu hd
    refine h.dying i ?_ ?_
    · rw [← hu]; split <;> rfl
    · rw [← hd]; split <;> rfl
  room rj _ hju := by
    by_cases hj : rj = ri
    · subst hj
      refine ⟨⟨?_, ?_, fun m hmm => ?_⟩, ?_⟩
      · rw [enter_room]; exact he.cap
      · rw [enter_room]; exact he.nodup
      · rw [enter_room] at hmm
        rw [enter_up, enter_client, if_pos hmm]
        exact ⟨(he.up m hmm).1, rfl⟩
      · rw [enter_room]; exact he.two
    · rw [enter_other room hj] at hju
      have hh := h.room rj List.not_mem_nil hju
      refine hh.of_clients (by rw [enter_other room hj]) rfl (fun m hmm => ?_)
      rw [enter_client, if_neg]
      intro hin
      have hroom := (hh.member m hmm).2
      rcases (he.up m hin).2 with hnone | hsome
      · rw [hnone] at hroom
        exact nomatch hroom
      · rw [hsome] at hroom
        exact hj (Option.some.inj hroom).symm
  seat i rj hi := by
    rw [enter_client] at hi
    split at hi
    · next hin =>
      obtain rfl := Option.some.inj hi
      rw [enter_room]
      exact ⟨he.used, hin⟩
    · next hout =>
      have hne : rj ≠ ri := fun heq => hout (he.all i (heq ▸ hi))
      rw [enter_other room hne]
      exact h.seat i rj hi
  vacant rj hju := by
    by_cases hj : rj = ri
    · subst hj
      rw [enter_room, he.used] at hju
      exact nomatch hju
    · rw [enter_other room hj] at hju ⊢
      exact h.vacant rj hju
  within rj hju := by
    by_cases hj : rj = ri
    · exact hj ▸ he.lt
    · rw [enter_other room hj] at hju
      exact h.within rj hju
  seats := h.seats
  clean := h.clean
  left _ _ _ := List.not_mem_nil

/-- The joiner takes the next seat of a room. -/
theorem addMember_eq {t : CServer σ} {ri : Nat} (hh : t.Housed ri)
    (hcap : (t.room ri).members.length < maxSeatsCap) (ci : Nat) :
    (t.addMember ri ci).modClient ci ({ · with room := some ri }) =
      t.enter ri { t.room ri with members := (t.room ri).members ++ [ci] } := by
  have hmem : ∀ m, m ∈ (t.room ri).members ++ [ci] ↔ m ∈ (t.room ri).members ∨ m = ci := fun m => by
    rw [List.mem_append, List.mem_singleton]
  rw [addMember, if_neg (Nat.not_le.mpr hcap), CServer.enter, modRoom, modClient]
  dsimp only
  congr 1
  · funext i
    by_cases hi : i = ci
    · rw [if_pos hi, if_pos ((hmem i).mpr (Or.inr hi))]
    · rw [if_neg hi]
      split
      · next him => rw [← (hh.member i (((hmem i).mp him).resolve_right hi)).2]
      · rfl
  · funext j
    split
    · next hj => rw [hj]
    · rfl

theorem Sound.entrance_next {xs : List Nat} {t : CServer σ} (h : Sound xs [] t) {ri ci : Nat}
    (hh : t.Housed ri) (hused : (t.room ri).used = true)
    (hlen : (t.room ri).members.length < t.maxSeats) (hci : t.Up ci)
    (hroom : (t.client ci).room = none) :
    t.Entrance ri { t.room ri with members := (t.room ri).members ++ [ci] } where
  lt := h.within ri hused
  used := hused
  two := by
    rw [List.length_append]
    exact hh.two.trans (Nat.le_add_right _ _)
  cap := by
    rw [List.length_append]
    exact hlen
  nodup := by
    refine List.nodup_append.mpr ⟨hh.nodup, List.nodup_singleton ci, fun a ha b hb hab => ?_⟩
    rw [List.mem_singleton.mp hb] at hab
    have := (hh.member a ha).2
    rw [hab, hroom] at this
    exact nomatch this
  up m hm := by
    rcases List.mem_append.mp hm with hm | hm
    · exact ⟨(hh.member m hm).1, Or.inr (hh.member m hm).2⟩
    · rw [List.mem_singleton.mp hm]
      exact ⟨hci, Or.inl hroom⟩
  all i hi := List.mem_append_left _ (h.seat i ri hi).2

/-- Two solo clients in a new room. -/
theorem Sound.entrance_pair {xs : List Nat} {t : CServer σ} (h : Sound xs [] t) {j a b : Nat}
    (room : CRoom) (hj : j < maxRooms) (hfree : (t.room j).used = false) (hused : room.used = true)
    (hm : room.members = [a, b]) (ha : t.Up a) (har : (t.client a).room = none) (hb : t.Up b)
    (hbr : (t.client b).room = none) (hab : a ≠ b) : t.Entrance j room where
  lt := hj
  used := hused
  two := by rw [hm]; exact le_rfl
  cap := by
    rw [hm]
    rcases h.seats with ⟨-, hmax⟩ | ⟨-, hmin, -⟩
    · exact hmax.ge
    · exact hmin
  nodup := by
    rw [hm]
    simpa using hab
  up m hmm := by
    rw [hm] at hmm
    rcases List.mem_pair.mp hmm with rfl | rfl
    · exact ⟨ha, Or.inl har⟩
    · exact ⟨hb, Or.inl hbr⟩
  all i hi := by
    have := (h.seat i j hi).1
    rw [hfree] at this
    exact nomatch this

/-- A new room for the host, which the other one joins. -/
theorem newRoom_eq (t : CServer σ) {j a b gid : Nat} :
    (((t.modRoom j (fun _ => ⟨true, gid, [a], false, 0⟩)).modClient a
      ({ · with room := some j })).addMember j b).modClient b ({ · with room := some j }) =
      t.enter j ⟨true, gid, [a, b], false, 0⟩ := by
  have hm : ((t.modRoom j (fun _ => ⟨true, gid, [a], false, 0⟩)).modClient a
      ({ · with room := some j })).room j = ⟨true, gid, [a], false, 0⟩ := if_pos rfl
  rw [addMember, if_neg (by rw [hm]; exact (by decide : ¬ maxSeatsCap ≤ 1))]
  simp only [modRoom, modClient, CServer.enter]
  congr 1
  · funext i
    by_cases hb : i = b
    · subst hb
      by_cases ha : i = a <;> simp [ha]
    · by_cases ha : i = a <;> simp [ha, hb]
  · funext k
    by_cases hk : k = j <;> simp [hk]

theorem Sound.member_up {xs : List Nat} {t : CServer σ} (h : Sound xs [] t) {ri m : Nat}
    (hm : m ∈ (t.room ri).members) : t.Up m := by
  cases hu : (t.room ri).used with
  | true => exact ((h.room ri List.not_mem_nil hu).member m hm).1
  | false =>
    rw [h.vacant ri hu] at hm
    exact absurd hm List.not_mem_nil

/-! ## Handlers -/

/-- start_room(), the room marked as started. -/
def marked (t : CServer σ) (ri : Nat) : CServer σ :=
  { t with nextSeed := t.nextSeed + 1 }.modRoom ri
    ({ · with started := true, seed := t.seeds t.nextSeed })

/-- The START of one seat. -/
def startFrame (t : CServer σ) (ri : Nat) (seed : UInt16) (seat : Nat) : List Byte :=
  frame tStart (UInt8.ofNat seat :: ([UInt8.ofNat (t.room ri).members.length,
    UInt8.ofNat (seed.toNat % 256), UInt8.ofNat (seed.toNat / 256),
    UInt8.ofNat (t.delay % 256).toNat] ++ t.roomRoster ri))

theorem startRoom_eq [Transport σ] (t : CServer σ) (ri : Nat) :
    t.startRoom ri =
      (t.marked ri).sendEach ((t.marked ri).startFrame ri (t.seeds t.nextSeed))
        ((t.marked ri).room ri).members.zipIdx := rfl

theorem alike_marked (t : CServer σ) (ri : Nat) : Alike t (t.marked ri) := by
  refine ⟨rfl, fun j => ?_, fun j => ?_, rfl, rfl, rfl, rfl, rfl⟩
  · rw [marked, modRoom]
    dsimp only
    split <;> rfl
  · rw [marked, modRoom]
    dsimp only
    split <;> rfl

/-- While the client in slot `ci` is served, from `t0` on. -/
structure Serves (ci : Nat) (t0 t : CServer σ) : Prop where
  sound : Sound [] [] t
  known : t.Known ci
  fixed : Fixed t0 t
  up : ∀ i, t.Up i → t0.Up i
  conn : ∀ i, (t.client i).conn = (t0.client i).conn
  gen : ∀ i, Handed (t0.client i) (t.client i)

theorem Serves.goes {ci : Nat} {t0 t t' : CServer σ} (h : Serves ci t0 t) (hg : Goes [] [] t t') :
    Serves ci t0 t' := ⟨hg.sound, hg.later.known h.known, h.fixed.trans hg.later.fixed,
    fun i hi => h.up i (hg.later.up_of hi), fun i => (hg.later.conn i).trans (h.conn i),
    fun i => (h.gen i).trans (hg.later.gen i)⟩

theorem Serves.alike {ci : Nat} {t0 t t' : CServer σ} (h : Serves ci t0 t) (a : Alike t t')
    (hf : Fixed t t') : Serves ci t0 t' :=
  ⟨h.sound.alike a, a.known.mpr h.known, h.fixed.trans hf, fun i hi => h.up i (a.up.mp hi),
    fun i => by rw [a.client]; exact h.conn i, fun i => by rw [a.client]; exact h.gen i⟩

section Handlers
variable [Transport σ] {ci : Nat} {t0 t : CServer σ}

theorem drops_drop (n : Nat) : Drops n (drop : CServer σ → Nat → CServer σ) := fun xs rs t ci h hk _ =>
  drops_dropN t.alive.length xs rs t ci h hk le_rfl

theorem Serves.drop (h : Serves ci t0 t) {x : Nat} (hx : t.Known x) : Serves ci t0 (t.drop x) :=
  h.goes (h.sound.drop hx)

theorem Serves.sendRaw (h : Serves ci t0 t) {x : Nat} (hx : t.Known x) (data : List Byte) :
    Serves ci t0 (t.sendRaw x data) :=
  h.goes ((drops_drop _).sendVia h.sound hx le_rfl data)

theorem Serves.onList (h : Serves ci t0 t) {x : Nat} (hx : t.Known x) : Serves ci t0 (t.onList x) :=
  h.sendRaw hx _

theorem Serves.replaceOld (h : Serves ci t0 t) (name : List Byte) : Serves ci t0 (t.replaceOld ci name) := by
  rw [CServer.replaceOld]
  split
  · next old hold =>
    split
    · exact h
    · exact h.drop (h.sound.named _ (nameClient_mem hold)).1.known
  · exact h

theorem hello_eq (t : CServer σ) (ci : Nat) (name : List Byte) :
    t.hello ci name =
      if ((t.replaceOld ci name).client ci).dead then t.replaceOld ci name
      else ((t.replaceOld ci name).rename ci name).onList ci := rfl

omit [Transport σ] in
theorem Serves.rename (h : Serves ci t0 t) (hci : t.Up ci) {name : List Byte} (hnil : name ≠ []) :
    Serves ci t0 (t.rename ci name) := by
  refine ⟨h.sound.rename hci hnil, ?_, h.fixed.trans ?_, fun i hi => h.up i ?_,
    fun i => ?_, fun i => (h.gen i).trans ?_⟩
  · rw [h.sound.rename_eq hci name]
    refine ⟨hci.1, fun _ => ?_⟩
    dsimp only
    rw [if_pos rfl]
    exact hci.2.1
  · rw [h.sound.rename_eq hci name]
    exact ⟨rfl, rfl, rfl, rfl, rfl, rfl⟩
  · rw [h.sound.rename_eq hci name, Up] at hi
    dsimp only at hi
    split at hi <;> exact hi
  · rw [h.sound.rename_eq hci name, ← h.conn i]
    dsimp only
    split <;> rfl
  · rw [h.sound.rename_eq hci name]
    dsimp only
    split <;> exact Handed.refl _

theorem Serves.hello (h : Serves ci t0 t) {name : List Byte} (hnil : name ≠ []) :
    Serves ci t0 (t.hello ci name) := by
  have h1 := h.replaceOld name
  rw [hello_eq]
  generalize t.replaceOld ci name = t1 at h1 ⊢
  split
  · exact h1
  · next hdead =>
    have hup := h1.known.up (Bool.eq_false_iff.mpr hdead)
    have h2 := h1.rename hup hnil
    exact h2.onList h2.known

theorem Serves.onHello (h : Serves ci t0 t) (payload : List Byte) : Serves ci t0 (t.onHello ci payload) := by
  rw [CServer.onHello]
  split
  · exact h.drop h.known
  · split
    · exact h.drop h.known
    · extract_lets raw
      split
      · exact h.drop h.known
      · next hlen =>
        split
        · exact h.drop h.known
        · refine h.hello (fun hnil => hlen (Or.inl ?_))
          rw [hnil]
          exact Nat.two_pos

theorem Serves.sendEach (h : Serves ci t0 t) (data : Nat → List Byte) {mm : List (Nat × Nat)}
    (hmm : ∀ m ∈ mm, t.Known m.1) : Serves ci t0 (t.sendEach data mm) :=
  h.goes ((drops_drop _).sendEachVia h.sound data mm hmm le_rfl)

theorem Serves.roomBroadcast (h : Serves ci t0 t) (ri : Nat) : Serves ci t0 (t.roomBroadcast ri) :=
  h.goes ((drops_drop _).broadcastVia h.sound (fun _ hm => (h.sound.member_up hm).known) le_rfl)

theorem Serves.startRoom (h : Serves ci t0 t) (ri : Nat) : Serves ci t0 (t.startRoom ri) := by
  have h1 := h.alike (alike_marked t ri) ⟨rfl, rfl, rfl, rfl, rfl, rfl⟩
  rw [startRoom_eq]
  exact h1.sendEach _ (fun m hm => (h1.sound.member_up (List.fst_mem_of_mem_zipIdx hm)).known)

/-- on_join() once the joiner sits. -/
def announce (t : CServer σ) (ri : Nat) : CServer σ :=
  if (t.roomBroadcast ri).autoGo ≠ 0 ∧
      (t.roomBroadcast ri).autoGo ≤ ((t.roomBroadcast ri).room ri).members.length then
    (t.roomBroadcast ri).startRoom ri
  else t.roomBroadcast ri

omit [Transport σ] in
theorem joinTarget_some {name : List Byte} {x : Nat} (h : t.joinTarget ci name = some x) :
    t.nameClient name = some x ∧ x ≠ ci ∧ ∀ ri, (t.client x).room = some ri →
      (t.room ri).started = false ∧ (t.room ri).members.length < t.maxSeats := by
  rw [joinTarget] at h
  split at h
  · exact nomatch h
  · next target hn =>
    split at h
    · exact nomatch h
    · next hne =>
      rw [not_or] at hne
      split at h
      · next hroom =>
        obtain rfl := Option.some.inj h
        exact ⟨hn, hne.1, fun ri hri => by rw [hroom] at hri; exact nomatch hri⟩
      · next ri hroom =>
        split at h
        · exact nomatch h
        · next hfull =>
          obtain rfl := Option.some.inj h
          refine ⟨hn, hne.1, fun rj hrj => ?_⟩
          rw [hroom] at hrj
          obtain rfl := Option.some.inj hrj
          rw [not_or, Bool.not_eq_true, not_le] at hfull
          exact hfull

omit [Transport σ] in
theorem Sound.member_cap (h : Sound [] [] t) {ri : Nat}
    (hlen : (t.room ri).members.length < t.maxSeats) : (t.room ri).members.length < maxSeatsCap := by
  rcases h.seats with ⟨-, hm⟩ | ⟨-, -, hm⟩
  · rw [hm] at hlen
    exact hlen.trans (by decide)
  · exact hlen.trans_le hm

theorem join_of_room {t1 : CServer σ} {x ri : Nat} (hf : t.roomFor x = (t1, some ri)) :
    t.join ci x = ((t1.addMember ri ci).modClient ci ({ · with room := some ri })).announce ri := by
  rw [join, hf]
  rfl

omit [Transport σ] in
/-- on_join() with a target: the joiner sits down in a forming room. -/
theorem Sound.joining (h : Sound [] [] t) (hci : t.Up ci) (hroom : (t.client ci).room = none)
    {name : List Byte} {x : Nat} (hx : t.joinTarget ci name = some x) :
    ∃ t1 g ri room, t.roomFor x = (t1, some ri) ∧
      (t1.addMember ri ci).modClient ci ({ · with room := some ri }) =
        ({ t with nextGid := g } : CServer σ).enter ri room ∧
      ({ t with nextGid := g } : CServer σ).Entrance ri room ∧ room.started = false := by
  obtain ⟨hn, hne, hopen⟩ := joinTarget_some hx
  cases hxr : (t.client x).room with
  | some ri =>
    have hf : t.roomFor x = (t, some ri) := by rw [roomFor, hxr]
    obtain ⟨hst, hlen⟩ := hopen ri hxr
    have hh := h.housed hxr
    exact ⟨t, t.nextGid, ri, { t.room ri with members := (t.room ri).members ++ [ci] }, hf,
      addMember_eq hh (h.member_cap hlen) ci, h.entrance_next hh (h.seat x ri hxr).1 hlen hci hroom,
      hst⟩
  | none =>
    have hxup := (h.named _ (nameClient_mem hn)).1
    obtain ⟨j, hj, hfree, halloc⟩ := h.roomAlloc hxup hxr
    have hf : t.roomFor x = ((({ t with nextGid := t.nextGid + 1 } : CServer σ).modRoom j
        (fun _ => ⟨true, t.nextGid, [x], false, 0⟩)).modClient x ({ · with room := some j }),
        some j) := by
      rw [roomFor, hxr]
      dsimp only
      rw [halloc]
    have h1 : Sound [] [] ({ t with nextGid := t.nextGid + 1 } : CServer σ) :=
      h.alike ⟨rfl, fun _ => rfl, fun _ => rfl, rfl, rfl, rfl, rfl, rfl⟩
    exact ⟨_, t.nextGid + 1, j, ⟨true, t.nextGid, [x, ci], false, 0⟩, hf, newRoom_eq _,
      h1.entrance_pair _ hj hfree rfl rfl hxup hxr hci hroom hne, rfl⟩

theorem Serves.announce (h : Serves ci t0 t) (ri : Nat) : Serves ci t0 (t.announce ri) := by
  have h1 := h.roomBroadcast ri
  rw [CServer.announce]
  split
  · exact h1.startRoom ri
  · exact h1

omit [Transport σ] in
theorem enter_known {ri x : Nat} {room : CRoom} (hx : t.Known x) : (t.enter ri room).Known x := by
  rw [Known, enter_client]
  split <;> exact hx

omit [Transport σ] in
theorem Serves.enter (h : Serves ci t0 t) {ri : Nat} {room : CRoom} (he : Entrance t ri room) :
    Serves ci t0 (t.enter ri room) := by
  refine ⟨h.sound.enter he, enter_known h.known, h.fixed.trans ⟨rfl, rfl, rfl, rfl, rfl, rfl⟩,
    fun i hi => h.up i (enter_up.mp hi), fun i => ?_, fun i => (h.gen i).trans ?_⟩
  · rw [enter_client, ← h.conn i]
    split <;> rfl
  · rw [enter_client]
    split <;> exact Handed.refl _

theorem Serves.join (h : Serves ci t0 t) (hci : t.Up ci) (hroom : (t.client ci).room = none)
    {name : List Byte} {x : Nat} (hx : t.joinTarget ci name = some x) : Serves ci t0 (t.join ci x) := by
  obtain ⟨t1, g, ri, room, hf, heq, he, -⟩ := h.sound.joining hci hroom hx
  have h1 : Serves ci t0 ({ t with nextGid := g } : CServer σ) :=
    h.alike ⟨rfl, fun _ => rfl, fun _ => rfl, rfl, rfl, rfl, rfl, rfl⟩ ⟨rfl, rfl, rfl, rfl, rfl, rfl⟩
  rw [join_of_room hf, heq]
  exact (h1.enter he).announce ri

omit [Transport σ] in
theorem pairTarget_some {name : List Byte} {x : Nat} (h : t.pairTarget ci name = some x) :
    t.nameClient name = some x ∧ x ≠ ci ∧ (t.client x).room = none := by
  rw [pairTarget] at h
  split at h
  · exact nomatch h
  · next target hn =>
    split at h
    · exact nomatch h
    · next hne =>
      obtain rfl := Option.some.inj h
      rw [not_or, not_or, not_not] at hne
      exact ⟨hn, hne.1, hne.2.2⟩

omit [Transport σ] in
/-- start_pair(): both are in the new room, which is started. -/
theorem newPair_eq {j a b gid : Nat} {seed : UInt16} :
    ((((t.modRoom j (fun _ => ⟨true, gid, [a], false, 0⟩)).addMember j b).modRoom j
      ({ · with started := true, seed })).modClient a ({ · with room := some j })).modClient b
      ({ · with room := some j }) = t.enter j ⟨true, gid, [a, b], true, seed⟩ := by
  have hm : (t.modRoom j (fun _ => ⟨true, gid, [a], false, 0⟩)).room j =
      ⟨true, gid, [a], false, 0⟩ := if_pos rfl
  rw [addMember, if_neg (by rw [hm]; exact (by decide : ¬ maxSeatsCap ≤ 1))]
  simp only [modRoom, modClient, CServer.enter]
  congr 1
  · funext i
    by_cases hb : i = b
    · subst hb
      by_cases ha : i = a <;> simp [ha]
    · by_cases ha : i = a <;> simp [ha, hb]
  · funext k
    by_cases hk : k = j <;> simp [hk]

theorem Serves.startPair (h : Serves ci t0 t) (hci : t.Up ci) (hroom : (t.client ci).room = none)
    {name : List Byte} {x : Nat} (hx : t.pairTarget ci name = some x) :
    Serves ci t0 (t.startPair x ci) := by
  obtain ⟨hn, hne, hxr⟩ := pairTarget_some hx
  have hxup := (h.sound.named _ (nameClient_mem hn)).1
  have h1 : Serves ci t0 ({ t with nextSeed := t.nextSeed + 1 } : CServer σ) :=
    h.alike ⟨rfl, fun _ => rfl, fun _ => rfl, rfl, rfl, rfl, rfl, rfl⟩ ⟨rfl, rfl, rfl, rfl, rfl, rfl⟩
  obtain ⟨j, hj, hfree, halloc⟩ := h1.sound.roomAlloc hxup hxr
  have h2 : Serves ci t0 ({ t with nextSeed := t.nextSeed + 1, nextGid := t.nextGid + 1 } : CServer σ) :=
    h.alike ⟨rfl, fun _ => rfl, fun _ => rfl, rfl, rfl, rfl, rfl, rfl⟩ ⟨rfl, rfl, rfl, rfl, rfl, rfl⟩
  have he := h2.sound.entrance_pair ⟨true, t.nextGid, [x, ci], true, t.seeds t.nextSeed⟩ hj hfree
    rfl rfl hxup hxr hci hroom hne
  have h3 : Serves ci t0 _ := h2.enter he
  rw [CServer.startPair]
  dsimp only
  rw [halloc]
  dsimp only
  rw [newPair_eq]
  have h4 := fun data => h3.sendRaw (enter_known hxup.known) data
  exact (h4 _).sendRaw (h4 _).known _

theorem Serves.onJoin (h : Serves ci t0 t) (hci : t.Up ci) (payload : List Byte) :
    Serves ci t0 (t.onJoin ci payload) := by
  rw [CServer.onJoin]
  split
  · exact h.drop h.known
  · split
    · exact h
    · next hroom =>
      rw [not_not] at hroom
      dsimp only
      split
      · exact h.onList h.known
      · split
        · split
          · exact h.onList h.known
          · next target ht => exact h.startPair hci hroom ht
        · split
          · exact h.onList h.known
          · next target ht => exact h.join hci hroom ht

theorem Serves.onGo (h : Serves ci t0 t) : Serves ci t0 (t.onGo ci) := by
  rw [CServer.onGo]
  split
  · exact h
  · split
    · exact h
    · split
      · exact h
      · exact h.startRoom _

theorem Serves.relay (h : Serves ci t0 t) (ftype : Byte) (payload : List Byte) :
    Serves ci t0 (t.relay ci ftype payload) := by
  rw [CServer.relay]
  split
  · exact h
  · split
    · next ri _ _ =>
      have hk : ∀ m ∈ (t.room ri).members, t.Known m := fun m hm => (h.sound.member_up hm).known
      clear * - h hk
      generalize (t.room ri).members = ms at hk
      induction ms generalizing t with
      | nil => exact h
      | cons m ms ih =>
        rw [List.foldl_cons]
        split
        · have hg := (drops_drop _).sendVia h.sound (hk m List.mem_cons_self) le_rfl
            (frame ftype payload)
          exact ih (h.goes hg) (fun m' hm => hg.later.known (hk m' (List.mem_cons_of_mem _ hm)))
        · exact ih h (fun m' hm => hk m' (List.mem_cons_of_mem _ hm))
    · exact h

theorem Serves.handle (h : Serves ci t0 t) (hci : t.Up ci) (ftype : Byte) (payload : List Byte) :
    Serves ci t0 (t.handle ci ftype payload) := by
  rw [CServer.handle]
  split_ifs
  · exact h.relay ftype payload
  · exact h.onHello payload
  · exact h.onList h.known
  · exact h.onJoin hci payload
  · exact h.drop h.known
  · exact h.onGo
  · exact h.drop h.known
  · exact h.sendRaw h.known _
  · exact h.drop h.known

end Handlers

end IntvBasketball.Relay.CServer
