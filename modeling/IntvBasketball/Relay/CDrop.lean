/-
  The tables of the C relay, inside an event and after it.

  drop() is re-entered from every send loop, so its invariant holds in the middle of
  things: `xs` are the clients that are dead but not yet freed, `rs` the rooms dissolve()
  has unlinked but not yet given back. `drops_dropN`: drop() keeps `Sound xs rs` for any
  `xs` and `rs`, and never runs out of clients to drop.
-/
import IntvBasketball.Relay.CServer
import IntvBasketball.Lib.Dict
import Mathlib.Data.List.Perm.Subperm

namespace IntvBasketball.Relay.CServer

open Lib (Dict.Keyed)

variable {σ : Type}

/-- In use, and not dead. -/
def Up (t : CServer σ) (i : Nat) : Prop :=
  i < maxClients ∧ (t.client i).inUse = true ∧ (t.client i).dead = false

/-- What a send loop knows of the slots in its snapshot: they were up, and may have died. -/
def Known (t : CServer σ) (i : Nat) : Prop :=
  i < maxClients ∧ ((t.client i).dead = false → (t.client i).inUse = true)

theorem Up.known {t : CServer σ} {i : Nat} (h : t.Up i) : t.Known i := ⟨h.1, fun _ => h.2.1⟩

theorem Known.up {t : CServer σ} {i : Nat} (h : t.Known i) (hd : (t.client i).dead = false) :
    t.Up i := ⟨h.1, h.2 hd, hd⟩

/-- A room and its members. -/
structure Roomed (t : CServer σ) (ri : Nat) : Prop where
  cap : (t.room ri).members.length ≤ t.maxSeats
  nodup : (t.room ri).members.Nodup
  member : ∀ m ∈ (t.room ri).members, t.Up m ∧ (t.client m).room = some ri

/-- A used room. -/
structure Housed (t : CServer σ) (ri : Nat) : Prop extends Roomed t ri where
  two : 2 ≤ (t.room ri).members.length

/-- The tables, but for the clients `xs` that wait for client_free() and the rooms `rs`
    that are being left. -/
structure Linked (xs rs : List Nat) (t : CServer σ) : Prop where
  keyed : Dict.Keyed t.byName
  named : ∀ e ∈ t.byName, t.Up e.2 ∧ (t.client e.2).name = e.1 ∧ e.1 ≠ []
  counted : t.nClients = t.slots.length
  dying : ∀ i, (t.client i).inUse = true → (t.client i).dead = true → i ∈ xs
  room : ∀ ri, ri ∉ rs → (t.room ri).used = true → t.Housed ri
  seat : ∀ i ri, (t.client i).room = some ri → (t.room ri).used = true ∧ i ∈ (t.room ri).members
  vacant : ∀ ri, (t.room ri).used = false → (t.room ri).members = []
  within : ∀ ri, (t.room ri).used = true → ri < maxRooms
  seats : (t.proto = protoV1 ∧ t.maxSeats = 2) ∨
    (t.proto = protoV2 ∧ 2 ≤ t.maxSeats ∧ t.maxSeats ≤ maxSeatsCap)
  clean : t.faults = []

/-- Nobody is left in a room of `rs`. -/
structure Sound (xs rs : List Nat) (t : CServer σ) : Prop extends Linked xs rs t where
  left : ∀ i ri, (t.client i).room = some ri → ri ∉ rs

theorem Sound.housed {xs rs : List Nat} {t : CServer σ} (h : Sound xs rs t) {i ri : Nat}
    (hi : (t.client i).room = some ri) : t.Housed ri :=
  h.room ri (h.left i ri hi) (h.seat i ri hi).1

theorem Sound.up {xs rs : List Nat} {t : CServer σ} (h : Sound xs rs t) {i ri : Nat}
    (hi : (t.client i).room = some ri) : t.Up i :=
  ((h.housed hi).member i (h.seat i ri hi).2).1

theorem Roomed.of_clients {t t' : CServer σ} {ri : Nat} (h : t.Roomed ri)
    (hr : (t'.room ri).members = (t.room ri).members) (hm : t'.maxSeats = t.maxSeats)
    (hc : ∀ m ∈ (t.room ri).members, t'.client m = t.client m) : t'.Roomed ri where
  cap := by rw [hr, hm]; exact h.cap
  nodup := by rw [hr]; exact h.nodup
  member m hmm := by
    rw [hr] at hmm
    rw [Up, hc m hmm]
    exact h.member m hmm

theorem Housed.of_clients {t t' : CServer σ} {ri : Nat} (h : t.Housed ri)
    (hr : (t'.room ri).members = (t.room ri).members) (hm : t'.maxSeats = t.maxSeats)
    (hc : ∀ m ∈ (t.room ri).members, t'.client m = t.client m) : t'.Housed ri :=
  ⟨h.toRoomed.of_clients hr hm hc, by rw [hr]; exact h.two⟩

theorem Sound.dead_solo {xs rs : List Nat} {t : CServer σ} (h : Sound xs rs t) {i : Nat}
    (hd : (t.client i).dead = true) : (t.client i).room = none := by
  by_contra hne
  obtain ⟨ri, hri⟩ := Option.ne_none_iff_exists'.mp hne
  have := (h.up hri).2.2
  rw [hd] at this
  exact nomatch this

/-! ## Changes that leave the tables alone -/

/-- Two servers with the same tables. -/
structure Alike (t t' : CServer σ) : Prop where
  client : t'.client = t.client
  members : ∀ j, (t'.room j).members = (t.room j).members
  used : ∀ j, (t'.room j).used = (t.room j).used
  byName : t'.byName = t.byName
  nClients : t'.nClients = t.nClients
  proto : t'.proto = t.proto
  maxSeats : t'.maxSeats = t.maxSeats
  faults : t'.faults = t.faults

theorem alike_net (t : CServer σ) (net : σ) : Alike t { t with net } :=
  ⟨rfl, fun _ => rfl, fun _ => rfl, rfl, rfl, rfl, rfl, rfl⟩

theorem Alike.up {t t' : CServer σ} (a : Alike t t') {i : Nat} : t'.Up i ↔ t.Up i := by
  rw [Up, Up, a.client]

theorem Alike.known {t t' : CServer σ} (a : Alike t t') {i : Nat} : t'.Known i ↔ t.Known i := by
  rw [Known, Known, a.client]

theorem Alike.slots {t t' : CServer σ} (a : Alike t t') : t'.slots = t.slots := by
  unfold CServer.slots
  rw [a.client]

theorem Alike.alive {t t' : CServer σ} (a : Alike t t') : t'.alive = t.alive := by
  unfold CServer.alive
  rw [a.client]

theorem Sound.alike {xs rs : List Nat} {t t' : CServer σ} (h : Sound xs rs t) (a : Alike t t') :
    Sound xs rs t' where
  keyed := by rw [a.byName]; exact h.keyed
  named e he := by
    rw [a.byName] at he
    rw [a.up, a.client]
    exact h.named e he
  counted := by rw [a.nClients, a.slots]; exact h.counted
  dying i := by rw [a.client]; exact h.dying i
  room ri hri hu := by
    rw [a.used] at hu
    exact (h.room ri hri hu).of_clients (a.members ri) a.maxSeats (fun m _ => by rw [a.client])
  seat i ri := by rw [a.client, a.used, a.members]; exact h.seat i ri
  vacant ri := by rw [a.used, a.members]; exact h.vacant ri
  within ri := by rw [a.used]; exact h.within ri
  seats := by rw [a.proto, a.maxSeats]; exact h.seats
  clean := by rw [a.faults]; exact h.clean
  left i ri := by rw [a.client]; exact h.left i ri

/-! ## What nested drops may do -/

/-- What only main() and client_alloc() set. -/
structure Fixed (t t' : CServer σ) : Prop where
  proto : t'.proto = t.proto
  maxSeats : t'.maxSeats = t.maxSeats
  autoGo : t'.autoGo = t.autoGo
  delay : t'.delay = t.delay
  nextConn : t'.nextConn = t.nextConn
  rx : t'.rx = t.rx

theorem Fixed.refl (t : CServer σ) : Fixed t t := ⟨rfl, rfl, rfl, rfl, rfl, rfl⟩

theorem Fixed.trans {t t' t'' : CServer σ} (h : Fixed t t') (h' : Fixed t' t'') : Fixed t t'' :=
  ⟨h'.proto.trans h.proto, h'.maxSeats.trans h.maxSeats, h'.autoGo.trans h.autoGo,
    h'.delay.trans h.delay, h'.nextConn.trans h.nextConn, h'.rx.trans h.rx⟩

/-- Only client_free() moves a slot's generation, and a slot is freed at most once. -/
def Handed (a a' : CClient) : Prop :=
  (a'.inUse = a.inUse ∧ a'.gen = a.gen) ∨
    (a.inUse = true ∧ a'.inUse = false ∧ a'.gen = a.gen + 1)

theorem Handed.refl (a : CClient) : Handed a a := Or.inl ⟨rfl, rfl⟩

theorem Handed.trans {a a' a'' : CClient} (h : Handed a a') (h' : Handed a' a'') :
    Handed a a'' := by
  rcases h with ⟨hu, hg⟩ | ⟨hu, hu', hg⟩
  · rw [Handed, ← hu, ← hg]
    exact h'
  · rcases h' with ⟨hu'', hg'⟩ | ⟨hu'', -, -⟩
    · exact Or.inr ⟨hu, hu''.trans hu', hg'.trans hg⟩
    · rw [hu'] at hu''
      exact nomatch hu''

/-- The dead are left alone; the others keep slot, name and connection, and at most lose
    their room. -/
structure Later (t t' : CServer σ) : Prop where
  frozen : ∀ i, (t.client i).dead = true → t'.client i = t.client i
  inUse : ∀ i, (t'.client i).dead = false → (t'.client i).inUse = (t.client i).inUse
  name : ∀ i, (t'.client i).name = (t.client i).name
  conn : ∀ i, (t'.client i).conn = (t.client i).conn
  room : ∀ i, (t'.client i).room = (t.client i).room ∨ (t'.client i).room = none
  started : ∀ j, (t'.room j).started = (t.room j).started
  names : t'.byName.Sublist t.byName
  fixed : Fixed t t'
  gen : ∀ i, Handed (t.client i) (t'.client i)

theorem Later.refl (t : CServer σ) : Later t t :=
  ⟨fun _ _ => rfl, fun _ _ => rfl, fun _ => rfl, fun _ => rfl, fun _ => Or.inl rfl, fun _ => rfl,
    List.Sublist.refl _, Fixed.refl t, fun _ => Handed.refl _⟩

theorem Later.alive_of {t t' : CServer σ} (h : Later t t') {i : Nat}
    (hd : (t'.client i).dead = false) : (t.client i).dead = false := by
  by_contra hne
  rw [Bool.not_eq_false] at hne
  rw [h.frozen i hne, hne] at hd
  exact nomatch hd

theorem Later.trans {t t' t'' : CServer σ} (h : Later t t') (h' : Later t' t'') : Later t t'' where
  frozen i hd := by
    have h1 := h.frozen i hd
    rw [h'.frozen i (by rw [h1]; exact hd), h1]
  inUse i hd := by rw [h'.inUse i hd, h.inUse i (h'.alive_of hd)]
  name i := by rw [h'.name, h.name]
  conn i := by rw [h'.conn, h.conn]
  room i := by
    rcases h'.room i with h1 | h1
    · rw [h1]; exact h.room i
    · exact Or.inr h1
  started j := (h'.started j).trans (h.started j)
  names := h'.names.trans h.names
  fixed := h.fixed.trans h'.fixed
  gen i := (h.gen i).trans (h'.gen i)

theorem Later.known {t t' : CServer σ} (h : Later t t') {i : Nat} (hk : t.Known i) : t'.Known i :=
  ⟨hk.1, fun hd => by rw [h.inUse i hd]; exact hk.2 (h.alive_of hd)⟩

theorem Later.up_of {t t' : CServer σ} (h : Later t t') {i : Nat} (hi : t'.Up i) : t.Up i :=
  ⟨hi.1, by rw [← h.inUse i hi.2.2]; exact hi.2.1, h.alive_of hi.2.2⟩

theorem mem_alive {t : CServer σ} {i : Nat} : i ∈ t.alive ↔ t.Up i := by
  simp [alive, Up]

theorem nodup_alive (t : CServer σ) : t.alive.Nodup := List.nodup_range.filter _

theorem Later.alive {t t' : CServer σ} (h : Later t t') : t'.alive.length ≤ t.alive.length := by
  refine (t'.nodup_alive.subperm (fun i hi => ?_)).length_le
  rw [mem_alive] at hi ⊢
  exact h.up_of hi

/-! ## The steps of drop() -/

theorem bury_client (t : CServer σ) (ci i : Nat) :
    (t.bury ci).client i = if i = ci then { t.client i with dead := true } else t.client i := rfl

theorem unseat_client (t : CServer σ) (ci ri i : Nat) :
    (t.unseat ci ri).client i = if i = ci then { t.client i with room := none } else t.client i :=
  rfl

theorem unseat_members (t : CServer σ) (ci ri : Nat) :
    ((t.unseat ci ri).room ri).members = (t.room ri).members.erase ci := by
  rw [unseat, modRoom]
  dsimp only
  rw [if_pos rfl]
  rfl

theorem unseat_used (t : CServer σ) (ci ri : Nat) :
    ((t.unseat ci ri).room ri).used = (t.room ri).used := by
  rw [unseat, modRoom]
  dsimp only
  rw [if_pos rfl]
  rfl

theorem unseat_room {t : CServer σ} {ci ri j : Nat} (hj : j ≠ ri) :
    (t.unseat ci ri).room j = t.room j := if_neg hj

theorem Up.bury {t : CServer σ} {i ci : Nat} (h : t.Up i) (hne : i ≠ ci) : (t.bury ci).Up i := by
  rw [Up, bury_client, if_neg hne]
  exact h

/-- The slots in use after one more was taken or given back. -/
theorem slots_perm {t t' : CServer σ} {ci : Nat} (hci : ci < maxClients)
    (h : (t.client ci).inUse = true) (h' : (t'.client ci).inUse = false)
    (hne : ∀ i, i ≠ ci → (t'.client i).inUse = (t.client i).inUse) :
    t.slots.Perm (ci :: t'.slots) := by
  have hn : ci ∉ t'.slots := by simp [slots, h']
  refine (List.perm_ext_iff_of_nodup (List.nodup_range.filter _)
    (List.nodup_cons.mpr ⟨hn, List.nodup_range.filter _⟩)).mpr (fun i => ?_)
  by_cases hi : i = ci
  · subst hi
    simp [slots, hci, h]
  · simp [slots, hi, hne i hi]

/-- A client that is up is marked dead; its room, if it has one, is being left. -/
theorem Sound.bury {xs rs rs' : List Nat} {t : CServer σ} (h : Sound xs rs t) {ci : Nat}
    (hci : t.Up ci) (hsub : ∀ ri ∈ rs, ri ∈ rs')
    (hroom : ∀ ri, (t.client ci).room = some ri → ri ∈ rs') :
    Linked (ci :: xs) rs' (t.bury ci) where
  keyed := h.keyed.filter _
  named e he := by
    rw [CServer.bury] at he
    obtain ⟨he, hne⟩ := List.mem_filter.mp he
    rw [decide_eq_true_eq] at hne
    obtain ⟨hup, hname, hnil⟩ := h.named e he
    refine ⟨hup.bury hne, ?_, hnil⟩
    rw [bury_client, if_neg hne]
    exact hname
  counted := by
    have hs : (t.bury ci).slots = t.slots := by
      refine List.filter_congr (fun i _ => ?_)
      rw [bury_client]
      split <;> rfl
    rw [hs]
    exact h.counted
  dying i hu hd := by
    rw [bury_client] at hu hd
    split at hd
    · next hi => exact hi ▸ List.mem_cons_self
    · next hi =>
      rw [if_neg hi] at hu
      exact List.mem_cons_of_mem _ (h.dying i hu hd)
  room ri hri hu := by
    have hh := h.room ri (fun hm => hri (hsub ri hm)) hu
    refine hh.of_clients rfl rfl (fun m hm => ?_)
    rw [bury_client, if_neg]
    rintro rfl
    exact hri (hroom ri (hh.member m hm).2)
  seat i ri hi := by
    refine h.seat i ri ?_
    rw [← hi, bury_client]
    split <;> rfl
  vacant := h.vacant
  within := h.within
  seats := h.seats
  clean := h.clean

theorem later_bury {t : CServer σ} {ci : Nat} (hci : t.Up ci) : Later t (t.bury ci) where
  frozen i hd := by
    rw [bury_client, if_neg]
    rintro rfl
    rw [hci.2.2] at hd
    exact nomatch hd
  inUse i _ := by rw [bury_client]; split <;> rfl
  name i := by rw [bury_client]; split <;> rfl
  conn i := by rw [bury_client]; split <;> rfl
  room i := by rw [bury_client]; split <;> exact Or.inl rfl
  started _ := rfl
  names := List.filter_sublist
  fixed := ⟨rfl, rfl, rfl, rfl, rfl, rfl⟩
  gen i := by rw [bury_client]; split <;> exact Handed.refl _

theorem alive_bury {t : CServer σ} {ci : Nat} (hci : t.Up ci) :
    (t.bury ci).alive.length < t.alive.length := by
  have hn : ci ∉ (t.bury ci).alive := by
    rw [mem_alive, Up, bury_client, if_pos rfl]
    exact fun h => nomatch h.2.2
  have hsub : (ci :: (t.bury ci).alive).Subperm t.alive := by
    refine (List.nodup_cons.mpr ⟨hn, nodup_alive _⟩).subperm (fun i hi => ?_)
    rw [mem_alive]
    rcases List.mem_cons.mp hi with rfl | hi
    · exact hci
    · have hne : i ≠ ci := fun he => hn (he ▸ hi)
      rw [mem_alive, Up, bury_client, if_neg hne] at hi
      exact hi
  exact hsub.length_le

theorem Linked.unseat {xs rs : List Nat} {t : CServer σ} {ci ri : Nat} (h : Linked xs (ri :: rs) t)
    (hci : ci ∈ xs) (hroom : (t.client ci).room = some ri) (hdead : (t.client ci).dead = true) :
    Linked xs (ri :: rs) (t.unseat ci ri) where
  keyed := h.keyed
  named e he := by
    obtain ⟨hup, hname⟩ := h.named e he
    have hne : e.2 ≠ ci := by
      intro heq
      rw [heq, Up, hdead] at hup
      exact nomatch hup.2.2
    rw [Up, unseat_client, if_neg hne]
    exact ⟨hup, hname⟩
  counted := by
    have hs : (t.unseat ci ri).slots = t.slots := by
      refine List.filter_congr (fun i _ => ?_)
      rw [unseat_client]
      split <;> rfl
    rw [hs]
    exact h.counted
  dying i hu hd := by
    by_cases hi : i = ci
    · exact hi ▸ hci
    · rw [unseat_client, if_neg hi] at hu hd
      exact h.dying i hu hd
  room rj hrj hu := by
    have hne : rj ≠ ri := fun he => hrj (he ▸ List.mem_cons_self)
    rw [unseat_room hne] at hu
    have hh := h.room rj hrj hu
    refine hh.of_clients (by rw [unseat_room hne]) rfl (fun m hm => ?_)
    rw [unseat_client, if_neg]
    rintro rfl
    have hroom' := (hh.member m hm).2
    rw [hroom] at hroom'
    exact hne (Option.some.inj hroom').symm
  seat i rj hi := by
    rw [unseat_client] at hi
    split at hi
    · exact nomatch hi
    · next hne =>
      obtain ⟨hu, hm⟩ := h.seat i rj hi
      by_cases hj : rj = ri
      · subst hj
        rw [unseat_used, unseat_members]
        exact ⟨hu, (List.mem_erase_of_ne hne).mpr hm⟩
      · rw [unseat_room hj]
        exact ⟨hu, hm⟩
  vacant rj hu := by
    by_cases hj : rj = ri
    · subst hj
      rw [unseat_used] at hu
      rw [unseat_members, h.vacant rj hu, List.erase_nil]
    · rw [unseat_room hj] at hu ⊢
      exact h.vacant rj hu
  within rj hu := by
    by_cases hj : rj = ri
    · rw [hj, unseat_used] at hu
      exact hj ▸ h.within ri hu
    · rw [unseat_room hj] at hu
      exact h.within rj hu
  seats := h.seats
  clean := h.clean

theorem alive_unseat (t : CServer σ) (ci ri : Nat) : (t.unseat ci ri).alive = t.alive := by
  refine List.filter_congr (fun i _ => ?_)
  rw [unseat_client]
  split <;> rfl

theorem later_unseat {t : CServer σ} {ci : Nat} (hci : t.Up ci) (ri : Nat) :
    Later t ((t.bury ci).unseat ci ri) where
  frozen i hi := by
    have hne : i ≠ ci := by
      rintro rfl
      rw [hci.2.2] at hi
      exact nomatch hi
    rw [unseat_client, if_neg hne, bury_client, if_neg hne]
  inUse i _ := by
    rw [unseat_client, bury_client]
    split <;> rfl
  name i := by
    rw [unseat_client, bury_client]
    split <;> rfl
  conn i := by
    rw [unseat_client, bury_client]
    split <;> rfl
  room i := by
    rw [unseat_client, bury_client]
    split
    · exact Or.inr rfl
    · exact Or.inl rfl
  started j := by
    rw [CServer.unseat, modRoom]
    dsimp only
    split <;> rfl
  names := List.filter_sublist
  fixed := ⟨rfl, rfl, rfl, rfl, rfl, rfl⟩
  gen i := by
    rw [unseat_client, bury_client]
    split <;> exact Handed.refl _

/-- The members that stay behind. -/
theorem Housed.unseat {t : CServer σ} {ci ri : Nat} (h : t.Housed ri)
    (hci : ci ∈ (t.room ri).members) :
    ((t.bury ci).unseat ci ri).Roomed ri ∧
      (((t.bury ci).unseat ci ri).room ri).members.length + 1 = (t.room ri).members.length := by
  have hlen := List.length_erase_add_one hci
  refine ⟨⟨?_, ?_, fun m hm => ?_⟩, ?_⟩
  · rw [unseat_members]
    exact (List.erase_sublist.length_le).trans h.cap
  · rw [unseat_members]
    exact h.nodup.erase ci
  · rw [unseat_members] at hm
    have hne : m ≠ ci := fun he => h.nodup.not_mem_erase (he ▸ hm)
    rw [Up, unseat_client, if_neg hne, bury_client, if_neg hne]
    exact h.member m (List.mem_of_mem_erase hm)
  · rw [unseat_members]
    exact hlen

/-- The room is still one: whoever left it is gone. -/
theorem Linked.keep {xs rs : List Nat} {t : CServer σ} {ri : Nat} (h : Linked xs (ri :: rs) t)
    (hr : t.Roomed ri) (htwo : 2 ≤ (t.room ri).members.length)
    (hleft : ∀ i rj, (t.client i).room = some rj → rj ∉ rs) : Sound xs rs t where
  toLinked := { h with
    room := fun rj hrj hu => by
      by_cases hj : rj = ri
      · exact hj ▸ ⟨hr, htwo⟩
      · exact h.room rj (fun hm => (List.mem_cons.mp hm).elim hj hrj) hu }
  left := hleft

/-- dissolve(): the members are solo again. -/
def unlink (t : CServer σ) (ms : List Nat) : CServer σ :=
  ms.foldl (fun t m => t.modClient m ({ · with room := none })) t

theorem unlink_client (t : CServer σ) (ms : List Nat) (i : Nat) :
    (t.unlink ms).client i =
      if i ∈ ms then { t.client i with room := none } else t.client i := by
  induction ms generalizing t with
  | nil => rfl
  | cons m ms ih =>
    rw [unlink, List.foldl_cons, ← unlink, ih, modClient]
    dsimp only
    by_cases him : i = m
    · subst him
      rw [if_pos rfl, if_pos List.mem_cons_self]
      split <;> rfl
    · rw [if_neg him]
      by_cases hms : i ∈ ms
      · rw [if_pos hms, if_pos (List.mem_cons_of_mem _ hms)]
      · rw [if_neg hms, if_neg (fun h => (List.mem_cons.mp h).elim him hms)]

/-- unlink() changes clients only. -/
theorem unlink_eq (t : CServer σ) (ms : List Nat) :
    t.unlink ms = { t with client := (t.unlink ms).client } := by
  induction ms generalizing t with
  | nil => rfl
  | cons m ms ih =>
    rw [unlink, List.foldl_cons, ← unlink]
    rw [ih]
    rfl

@[simp] theorem unlink_room (t : CServer σ) (ms : List Nat) : (t.unlink ms).room = t.room := by
  rw [unlink_eq]

theorem unlink_inUse (t : CServer σ) (ms : List Nat) (i : Nat) :
    ((t.unlink ms).client i).inUse = (t.client i).inUse := by
  rw [unlink_client]
  split <;> rfl

theorem unlink_dead (t : CServer σ) (ms : List Nat) (i : Nat) :
    ((t.unlink ms).client i).dead = (t.client i).dead := by
  rw [unlink_client]
  split <;> rfl

theorem unlink_name (t : CServer σ) (ms : List Nat) (i : Nat) :
    ((t.unlink ms).client i).name = (t.client i).name := by
  rw [unlink_client]
  split <;> rfl

theorem unlink_up {t : CServer σ} {ms : List Nat} {i : Nat} : (t.unlink ms).Up i ↔ t.Up i := by
  rw [Up, Up, unlink_inUse, unlink_dead]

theorem unlink_member {t : CServer σ} {ms : List Nat} {i ri : Nat}
    (h : ((t.unlink ms).client i).room = some ri) : i ∉ ms ∧ (t.client i).room = some ri := by
  rw [unlink_client] at h
  split at h
  · exact nomatch h
  · next hi => exact ⟨hi, h⟩

theorem Linked.unlink {xs rs : List Nat} {t : CServer σ} {ri : Nat} (h : Linked xs (ri :: rs) t)
    (hr : t.Roomed ri) (hleft : ∀ i rj, (t.client i).room = some rj → rj ∉ rs) :
    Sound xs (ri :: rs) (t.unlink (t.room ri).members) where
  keyed := by rw [unlink_eq]; exact h.keyed
  named e he := by
    rw [unlink_eq] at he
    rw [unlink_up, unlink_name]
    exact h.named e he
  counted := by
    have hs : (t.unlink (t.room ri).members).slots = t.slots :=
      List.filter_congr (fun i _ => by rw [unlink_inUse])
    rw [hs, unlink_eq]
    exact h.counted
  dying i hu hd := by
    rw [unlink_inUse] at hu
    rw [unlink_dead] at hd
    exact h.dying i hu hd
  room rj hrj hu := by
    rw [unlink_room] at hu
    have hh := h.room rj hrj hu
    refine hh.of_clients (by rw [unlink_room]) (by rw [unlink_eq]) (fun m hm => ?_)
    rw [unlink_client, if_neg]
    intro hmr
    have hroom := (hr.member m hmr).2
    rw [(hh.member m hm).2] at hroom
    exact hrj (Option.some.inj hroom ▸ List.mem_cons_self)
  seat i rj hi := by
    rw [unlink_room]
    exact h.seat i rj (unlink_member hi).2
  vacant rj := by rw [unlink_room]; exact h.vacant rj
  within rj := by rw [unlink_room]; exact h.within rj
  seats := by rw [unlink_eq]; exact h.seats
  clean := by rw [unlink_eq]; exact h.clean
  left i rj hi hm := by
    obtain ⟨hnm, hi'⟩ := unlink_member hi
    rcases List.mem_cons.mp hm with rfl | hm
    · exact hnm (h.seat i rj hi').2
    · exact hleft i rj hi' hm

theorem later_unlink {t : CServer σ} {ri : Nat} (hr : t.Roomed ri) :
    Later t (t.unlink (t.room ri).members) where
  frozen i hd := by
    rw [unlink_client, if_neg]
    intro hm
    rw [(hr.member i hm).1.2.2] at hd
    exact nomatch hd
  inUse i _ := unlink_inUse t _ i
  name i := unlink_name t _ i
  conn i := by rw [unlink_client]; split <;> rfl
  room i := by
    rw [unlink_client]
    split
    · exact Or.inr rfl
    · exact Or.inl rfl
  started j := by rw [unlink_room]
  names := by rw [unlink_eq]
  fixed := by rw [unlink_eq]; exact ⟨rfl, rfl, rfl, rfl, rfl, rfl⟩
  gen i := by rw [unlink_client]; split <;> exact Handed.refl _

/-- The end of dissolve(): the room is given back. -/
def closeRoom (t : CServer σ) (ri : Nat) : CServer σ :=
  t.modRoom ri ({ · with members := [], used := false })

theorem closeRoom_room {t : CServer σ} {ri j : Nat} (hj : j ≠ ri) :
    (t.closeRoom ri).room j = t.room j := if_neg hj

theorem closeRoom_used (t : CServer σ) (ri : Nat) : ((t.closeRoom ri).room ri).used = false := by
  rw [closeRoom, modRoom]
  dsimp only
  rw [if_pos rfl]

theorem Sound.closeRoom {xs rs : List Nat} {t : CServer σ} {ri : Nat}
    (h : Sound xs (ri :: rs) t) : Sound xs rs (t.closeRoom ri) where
  keyed := h.keyed
  named := h.named
  counted := h.counted
  dying := h.dying
  room rj hrj hu := by
    have hne : rj ≠ ri := by
      rintro rfl
      rw [closeRoom_used] at hu
      exact nomatch hu
    rw [closeRoom_room hne] at hu
    have hh := h.room rj (fun hm => (List.mem_cons.mp hm).elim hne hrj) hu
    exact hh.of_clients (by rw [closeRoom_room hne]) rfl (fun _ _ => rfl)
  seat i rj hi := by
    have hne : rj ≠ ri := fun he => h.left i rj hi (he ▸ List.mem_cons_self)
    rw [closeRoom_room hne]
    exact h.seat i rj hi
  vacant rj hu := by
    by_cases hj : rj = ri
    · rw [CServer.closeRoom, modRoom]
      dsimp only
      rw [if_pos hj]
    · rw [closeRoom_room hj] at hu ⊢
      exact h.vacant rj hu
  within rj hu := by
    by_cases hj : rj = ri
    · rw [hj, closeRoom_used] at hu
      exact nomatch hu
    · rw [closeRoom_room hj] at hu
      exact h.within rj hu
  seats := h.seats
  clean := h.clean
  left i rj hi hm := h.left i rj hi (List.mem_cons_of_mem _ hm)

theorem later_closeRoom (t : CServer σ) (ri : Nat) : Later t (t.closeRoom ri) :=
  ⟨fun _ _ => rfl, fun _ _ => rfl, fun _ => rfl, fun _ => rfl, fun _ => Or.inl rfl,
    fun j => by rw [closeRoom, modRoom]; dsimp only; split <;> rfl,
    List.Sublist.refl _, ⟨rfl, rfl, rfl, rfl, rfl, rfl⟩, fun _ => Handed.refl _⟩

theorem clientFree_client (t : CServer σ) (ci i : Nat) :
    (t.clientFree ci).client i = if i = ci then
      { t.client i with inUse := false, gen := (t.client i).gen + 1 } else t.client i :=
  rfl

theorem Sound.dead_unnamed {xs rs : List Nat} {t : CServer σ} (h : Sound xs rs t) {ci : Nat}
    (hd : (t.client ci).dead = true) : ∀ e ∈ t.byName, e.2 ≠ ci := by
  intro e he heq
  have hup := (h.named e he).1
  rw [heq, Up, hd] at hup
  exact nomatch hup.2.2

theorem Sound.clientFree {xs rs : List Nat} {t : CServer σ} {ci : Nat} (h : Sound (ci :: xs) rs t)
    (hlt : ci < maxClients) (hu : (t.client ci).inUse = true) (hn : ∀ e ∈ t.byName, e.2 ≠ ci)
    (hsolo : (t.client ci).room = none) : Sound xs rs (t.clientFree ci) where
  keyed := h.keyed
  named e he := by
    rw [Up, clientFree_client, if_neg (hn e he)]
    exact h.named e he
  counted := by
    have hp : t.slots.Perm (ci :: (t.clientFree ci).slots) :=
      slots_perm hlt hu (by rw [clientFree_client, if_pos rfl])
        (fun i hi => by rw [clientFree_client, if_neg hi])
    show t.nClients - 1 = (t.clientFree ci).slots.length
    rw [h.counted, hp.length_eq, List.length_cons, Nat.add_sub_cancel]
  dying i hu' hd' := by
    rw [clientFree_client] at hu' hd'
    split at hu'
    · exact nomatch hu'
    · next hne =>
      rw [if_neg hne] at hd'
      exact (List.mem_cons.mp (h.dying i hu' hd')).resolve_left hne
  room rj hrj hr := by
    have hh := h.room rj hrj hr
    refine hh.of_clients rfl rfl (fun m hm => ?_)
    rw [clientFree_client, if_neg]
    intro he
    rw [he] at hm
    exact nomatch hsolo.symm.trans (hh.member ci hm).2
  seat i rj hi := by
    refine h.seat i rj ?_
    rw [← hi, clientFree_client]
    split <;> rfl
  vacant := h.vacant
  within := h.within
  seats := h.seats
  clean := h.clean
  left i rj hi := by
    refine h.left i rj ?_
    rw [← hi, clientFree_client]
    split <;> rfl

theorem Later.clientFree {t t' : CServer σ} (h : Later t t') {ci : Nat}
    (ha : (t.client ci).dead = false) (hu : (t'.client ci).inUse = true)
    (hd : (t'.client ci).dead = true) : Later t (t'.clientFree ci) where
  frozen i hi := by
    rw [clientFree_client, if_neg, h.frozen i hi]
    rintro rfl
    rw [ha] at hi
    exact nomatch hi
  inUse i hi := by
    rw [clientFree_client] at hi ⊢
    split at hi
    · next he =>
      rw [he, hd] at hi
      exact nomatch hi
    · next he => rw [if_neg he]; exact h.inUse i hi
  name i := by rw [← h.name i, clientFree_client]; split <;> rfl
  conn i := by rw [← h.conn i, clientFree_client]; split <;> rfl
  room i := by
    have hr : ((t'.clientFree ci).client i).room = (t'.client i).room := by
      rw [clientFree_client]
      split <;> rfl
    rw [hr]
    exact h.room i
  started := h.started
  names := h.names
  fixed := h.fixed.trans ⟨rfl, rfl, rfl, rfl, rfl, rfl⟩
  gen i := by
    refine (h.gen i).trans ?_
    rw [clientFree_client]
    split
    · next he =>
      rw [he]
      exact Or.inr ⟨hu, rfl, rfl⟩
    · exact Handed.refl _

/-- A client is off the list of its room, and what becomes of the room is not yet done. -/
structure Parting (n : Nat) (xs rs : List Nat) (ri : Nat) (t : CServer σ) : Prop where
  linked : Linked xs (ri :: rs) t
  roomed : t.Roomed ri
  left : ∀ i rj, (t.client i).room = some rj → rj ∉ rs
  alive : t.alive.length ≤ n

theorem Parting.mono {n n' : Nat} {xs rs : List Nat} {ri : Nat} {t : CServer σ}
    (h : Parting n xs rs ri t) (hn : n ≤ n') : Parting n' xs rs ri t :=
  ⟨h.linked, h.roomed, h.left, h.alive.trans hn⟩

theorem Parting.unlink {n : Nat} {xs rs : List Nat} {ri : Nat} {t : CServer σ}
    (h : Parting n xs rs ri t) : Sound xs (ri :: rs) (t.unlink (t.room ri).members) :=
  h.linked.unlink h.roomed h.left

theorem Parting.keep {n : Nat} {xs rs : List Nat} {ri : Nat} {t : CServer σ}
    (h : Parting n xs rs ri t) (htwo : 2 ≤ (t.room ri).members.length) : Sound xs rs t :=
  h.linked.keep h.roomed htwo h.left

theorem bury_room (t : CServer σ) (ci i : Nat) :
    ((t.bury ci).client i).room = (t.client i).room := by
  rw [bury_client]
  split <;> rfl

theorem Sound.bury_solo {xs rs : List Nat} {t : CServer σ} (h : Sound xs rs t) {ci : Nat}
    (hci : t.Up ci) (hroom : (t.client ci).room = none) : Sound (ci :: xs) rs (t.bury ci) where
  toLinked := h.bury hci (fun _ hm => hm) (fun ri hri => by rw [hroom] at hri; exact nomatch hri)
  left i ri hi := h.left i ri (by rw [← hi, bury_room])

/-- A member of a room is dead and off the list. -/
theorem Sound.parting {xs rs : List Nat} {t : CServer σ} (h : Sound xs rs t) {ci ri : Nat}
    (hci : t.Up ci) (hroom : (t.client ci).room = some ri) :
    Parting (t.alive.length - 1) (ci :: xs) rs ri ((t.bury ci).unseat ci ri) ∧
      (((t.bury ci).unseat ci ri).room ri).members.length + 1 = (t.room ri).members.length := by
  obtain ⟨hr, hlen⟩ := (h.housed hroom).unseat (h.seat ci ri hroom).2
  have hlink : Linked (ci :: xs) (ri :: rs) (t.bury ci) :=
    h.bury hci (fun _ hm => List.mem_cons_of_mem _ hm)
      (fun rj hrj => by rw [hroom] at hrj; exact Option.some.inj hrj ▸ List.mem_cons_self)
  refine ⟨⟨hlink.unseat List.mem_cons_self ((bury_room t ci ci).trans hroom) ?_, hr, ?_, ?_⟩, hlen⟩
  · rw [bury_client, if_pos rfl]
  · intro i rj hi
    rw [unseat_client] at hi
    split at hi
    · exact nomatch hi
    · exact h.left i rj (by rw [← hi, bury_room])
  · rw [alive_unseat]
    exact Nat.le_sub_one_of_lt (alive_bury hci)

/-! ## The recursion -/

/-- What nested drops make of a server. -/
structure Goes (xs rs : List Nat) (t t' : CServer σ) : Prop where
  sound : Sound xs rs t'
  later : Later t t'

theorem Goes.trans {xs rs : List Nat} {t t' t'' : CServer σ} (h : Goes xs rs t t')
    (h' : Goes xs rs t' t'') : Goes xs rs t t'' :=
  ⟨h'.sound, h.later.trans h'.later⟩

theorem later_alike {t t' : CServer σ} (a : Alike t t') (h : Fixed t t')
    (hst : ∀ j, (t'.room j).started = (t.room j).started) : Later t t' :=
  ⟨fun _ _ => by rw [a.client], fun _ _ => by rw [a.client], fun _ => by rw [a.client],
    fun _ => by rw [a.client], fun _ => Or.inl (by rw [a.client]), hst, by rw [a.byName], h,
    fun i => by rw [a.client]; exact Handed.refl _⟩

/-- `dropF` is a drop() for servers with at most `n` clients alive. -/
def Drops (n : Nat) (dropF : CServer σ → Nat → CServer σ) : Prop :=
  ∀ xs rs t ci, Sound xs rs t → t.Known ci → t.alive.length ≤ n →
    Goes xs rs t (dropF t ci) ∧ ((dropF t ci).client ci).dead = true

section Via
variable [Transport σ] {dropF : CServer σ → Nat → CServer σ} {n : Nat} {xs rs : List Nat}

theorem Drops.sendVia (hd : Drops n dropF) {t : CServer σ} (h : Sound xs rs t) {ci : Nat}
    (hk : t.Known ci) (hn : t.alive.length ≤ n) (data : List Byte) :
    Goes xs rs t (t.sendVia dropF ci data) := by
  have hpush : ∀ net, Alike t (CServer.push { t with net } ci data) := fun net =>
    ⟨rfl, fun _ => rfl, fun _ => rfl, rfl, rfl, rfl, rfl, rfl⟩
  have hdrop : ∀ t', Alike t t' → Later t t' → Goes xs rs t (dropF t' ci) := by
    intro t' a hl
    have := (hd xs rs t' ci (h.alike a) (a.known.mpr hk) (by rw [a.alive]; exact hn)).1
    exact ⟨this.sound, hl.trans this.later⟩
  rw [CServer.sendVia]
  split
  · exact ⟨h, Later.refl t⟩
  · split
    · next net _ => exact ⟨h.alike (hpush net), later_alike (hpush net)
        ⟨rfl, rfl, rfl, rfl, rfl, rfl⟩ (fun _ => rfl)⟩
    · next net _ => exact hdrop _ (alike_net t net) (later_alike (alike_net t net)
        ⟨rfl, rfl, rfl, rfl, rfl, rfl⟩ (fun _ => rfl))
    · next net _ => exact hdrop _ (hpush net) (later_alike (hpush net)
        ⟨rfl, rfl, rfl, rfl, rfl, rfl⟩ (fun _ => rfl))

theorem Drops.sendEachVia (hd : Drops n dropF) {t : CServer σ} (h : Sound xs rs t)
    (data : Nat → List Byte) (mm : List (Nat × Nat)) (hk : ∀ m ∈ mm, t.Known m.1)
    (hn : t.alive.length ≤ n) : Goes xs rs t (t.sendEachVia dropF data mm) := by
  induction mm generalizing t with
  | nil => exact ⟨h, Later.refl t⟩
  | cons m mm ih =>
    have h1 := hd.sendVia h (hk m List.mem_cons_self) hn (data m.2)
    exact h1.trans (ih h1.sound
      (fun m' hm => h1.later.known (hk m' (List.mem_cons_of_mem _ hm))) (h1.later.alive.trans hn))

theorem Drops.broadcastVia (hd : Drops n dropF) {t : CServer σ} (h : Sound xs rs t) {ri : Nat}
    (hk : ∀ m ∈ (t.room ri).members, t.Known m) (hn : t.alive.length ≤ n) :
    Goes xs rs t (t.broadcastVia dropF ri) := by
  rw [CServer.broadcastVia]
  exact hd.sendEachVia h _ _ (fun m hm => hk m.1 (List.fst_mem_of_mem_zipIdx hm)) hn

theorem dissolveVia_eq (t : CServer σ) (ri : Nat) (notify : List Nat) :
    t.dissolveVia dropF ri notify =
      ((t.unlink (t.room ri).members).sendEachVia dropF
        (fun _ => frame tRoom (0 :: List.replicate 32 0)) notify.zipIdx).closeRoom ri := rfl

theorem Drops.dissolveVia (hd : Drops n dropF) {t : CServer σ} {ri : Nat}
    (h : Parting n xs rs ri t) (notify : List Nat)
    (hsub : ∀ m ∈ notify, m ∈ (t.room ri).members) :
    Goes xs rs t (t.dissolveVia dropF ri notify) := by
  have hl := later_unlink h.roomed
  have hk : ∀ m ∈ notify.zipIdx, (t.unlink (t.room ri).members).Known m.1 := fun m hm =>
    hl.known (h.roomed.member m.1 (hsub m.1 (List.fst_mem_of_mem_zipIdx hm))).1.known
  have h1 := hd.sendEachVia h.unlink (fun _ => frame tRoom (0 :: List.replicate 32 0))
    notify.zipIdx hk (hl.alive.trans h.alive)
  rw [dissolveVia_eq]
  exact ⟨h1.sound.closeRoom, (hl.trans h1.later).trans (later_closeRoom _ ri)⟩

/-- What remains of a v1 room is the partner. -/
theorem Drops.leaveV1Via (hd : Drops n dropF) {t : CServer σ} {ri p : Nat}
    (h : Parting n xs rs ri t) (hp : (t.room ri).members = [p]) :
    Goes xs rs t (t.leaveV1Via dropF ri) := by
  have heq : t.leaveV1Via dropF ri =
      ((t.unlink (t.room ri).members).closeRoom ri).sendVia dropF p (frame tPeerLeft []) := by
    rw [CServer.leaveV1Via, hp]
    rfl
  have hl := (later_unlink h.roomed).trans (later_closeRoom (t.unlink (t.room ri).members) ri)
  have hk := hl.known (h.roomed.member p (by rw [hp]; exact List.mem_singleton_self p)).1.known
  have h1 := hd.sendVia h.unlink.closeRoom hk (hl.alive.trans h.alive) (frame tPeerLeft [])
  rw [heq]
  exact ⟨h1.sound, hl.trans h1.later⟩

/-- drop() of a member, once it is off the list. -/
theorem Drops.leaveVia (hd : Drops n dropF) {t : CServer σ} {ri : Nat} (h : Parting n xs rs ri t)
    (hone : 1 ≤ (t.room ri).members.length) (hcap : (t.room ri).members.length < t.maxSeats)
    (ci : Nat) (seat : Option Nat) : Goes xs rs t (t.leaveVia dropF ci ri seat) := by
  have hself : ∀ m ∈ (t.room ri).members, m ∈ (t.room ri).members := fun _ hm => hm
  rw [CServer.leaveVia]
  split
  · next hv1 =>
    have hmax : t.maxSeats = 2 := by
      rcases h.linked.seats with ⟨-, hm⟩ | ⟨hv2, -⟩
      · exact hm
      · exact absurd (hv1.symm.trans hv2) (by decide)
    obtain ⟨p, hp⟩ := List.length_eq_one_iff.mp (show (t.room ri).members.length = 1 by omega)
    exact hd.leaveV1Via h hp
  · split
    · have h1 := hd.dissolveVia h [] (fun _ hm => absurd hm List.not_mem_nil)
      have h2 := hd.sendEachVia h1.sound
        (fun _ => frame tPeerLeft (seatByte seat :: cPadName (t.client ci).name))
        (t.room ri).members.zipIdx
        (fun m hm => h1.later.known (h.roomed.member m.1 (List.fst_mem_of_mem_zipIdx hm)).1.known)
        (h1.later.alive.trans h.alive)
      exact h1.trans h2
    · split
      · exact hd.dissolveVia h _ hself
      · split
        · exact hd.dissolveVia h _ hself
        · next hlt =>
          exact hd.broadcastVia (h.keep (Nat.not_lt.mp hlt))
            (fun m hm => (h.roomed.member m hm).1.known) h.alive

theorem Drops.dropVia (hd : Drops n dropF) :
    Drops (n + 1) (fun t ci => t.dropVia dropF ci) := by
  intro xs rs t ci h hk hn
  dsimp only
  rw [CServer.dropVia]
  split
  · next hdead => exact ⟨⟨h, Later.refl t⟩, hdead⟩
  · next hdead =>
    have hup := hk.up (Bool.eq_false_iff.mpr hdead)
    -- the client waits for client_free() while the others are told
    have hfree : ∀ t1 t2, Goes (ci :: xs) rs t1 t2 → Later t t1 →
        (t1.client ci).inUse = true ∧ (t1.client ci).dead = true →
        Goes xs rs t (t2.clientFree ci) ∧ ((t2.clientFree ci).client ci).dead = true := by
      intro t1 t2 hg hl hc
      have hfr := hg.later.frozen ci hc.2
      rw [← hfr] at hc
      refine ⟨⟨hg.sound.clientFree hup.1 hc.1 (hg.sound.dead_unnamed hc.2)
        (hg.sound.dead_solo hc.2), ?_⟩, ?_⟩
      · exact (hl.trans hg.later).clientFree hup.2.2 hc.1 hc.2
      · rw [clientFree_client, if_pos rfl]
        exact hc.2
    dsimp only
    split
    · next hroom =>
      rw [bury_room] at hroom
      refine hfree (t.bury ci) _ ⟨h.bury_solo hup hroom, Later.refl _⟩ (later_bury hup) ?_
      rw [bury_client, if_pos rfl]
      exact ⟨hup.2.1, rfl⟩
    · next ri hroom =>
      rw [bury_room] at hroom
      have hh := h.housed hroom
      obtain ⟨hp, hlen⟩ := h.parting hup hroom
      refine hfree ((t.bury ci).unseat ci ri) _ ?_ (later_unseat hup ri) ?_
      · refine hd.leaveVia (hp.mono (by omega)) ?_ ?_ ci _
        · have := hh.two
          omega
        · have := hh.cap
          show _ < t.maxSeats
          omega
      · rw [unseat_client, if_pos rfl, bury_client, if_pos rfl]
        exact ⟨hup.2.1, rfl⟩

theorem drops_dropN (n : Nat) : Drops n (dropN n : CServer σ → Nat → CServer σ) := by
  induction n with
  | zero =>
    intro xs rs t ci h hk hn
    by_cases hdead : (t.client ci).dead = true
    · rw [dropN, if_pos hdead]
      exact ⟨⟨h, Later.refl t⟩, hdead⟩
    · have hm := mem_alive.mpr (hk.up (Bool.eq_false_iff.mpr hdead))
      rw [List.length_eq_zero_iff.mp (Nat.le_zero.mp hn)] at hm
      exact absurd hm List.not_mem_nil
  | succ n ih => exact ih.dropVia

theorem Sound.drop {t : CServer σ} (h : Sound xs rs t) {ci : Nat} (hk : t.Known ci) :
    Goes xs rs t (t.drop ci) :=
  (drops_dropN t.alive.length xs rs t ci h hk le_rfl).1

end Via

end IntvBasketball.Relay.CServer
