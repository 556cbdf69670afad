/-
  Rooms of the Python relay between two operations, and runs as lists of handle() calls.

  `Paired`: a room in use holds exactly two clients, each with its room field on it. It
  survives every operation of every run, whatever the sockets do, so drop() always comes
  to what Relay.Drop says. A member may be dead: that takes a client that `by_name` still
  points to after its drop.

  `runCalls` lists the handle() calls of a run, each with the server it finds.
  `Keeping.run`: what accept(), drop() and each of these calls keep holds after the run.
-/
import IntvBasketball.Relay.Drop

namespace IntvBasketball.Relay

namespace Server
variable {σ : Type}

structure Paired (s : Server σ) : Prop where
  nodup : s.clients.Nodup
  live : ∀ c ∈ s.clients, (s.client c).dead = false
  seen : ∀ c, c < s.nextClient ↔ c ∈ s.clients ∨ (s.client c).dead = true
  seated : ∀ c r, (s.client c).room = some r → c < s.nextClient ∧ r < s.nextRoom
  mates : ∀ c r, (s.client c).room = some r →
    ∃ p, p ≠ c ∧ ((s.room r).members = [c, p] ∨ (s.room r).members = [p, c])
  member : ∀ r, ∀ c ∈ (s.room r).members, (s.client c).room = some r
  named : ∀ e ∈ s.byName, e.2 < s.nextClient

/-- From a paired server to a paired one, nobody accepted between. -/
def Keeps (s s' : Server σ) : Prop := Paired s → Paired s' ∧ s'.nextClient = s.nextClient

theorem Keeps.refl (s : Server σ) : Keeps s s := fun h => ⟨h, rfl⟩

theorem Keeps.trans {s s' s'' : Server σ} (h : Keeps s s') (h' : Keeps s' s'') : Keeps s s'' :=
  fun hs => ⟨(h' (h hs).1).1, (h' (h hs).1).2.trans (h hs).2⟩

theorem Paired.mem_clients {s : Server σ} (h : Paired s) {c : Nat} (hc : c < s.nextClient)
    (hd : (s.client c).dead = false) : c ∈ s.clients :=
  ((h.seen c).mp hc).resolve_right (by rw [hd]; exact Bool.false_ne_true)

theorem Paired.known {s : Server σ} (h : Paired s) {c : Nat} (hc : c ∈ s.clients) :
    c < s.nextClient := (h.seen c).mpr (Or.inl hc)

theorem Paired.known_member {s : Server σ} (h : Paired s) {r c : Nat}
    (hc : c ∈ (s.room r).members) : c < s.nextClient := (h.seated c r (h.member r c hc)).1

/-- A room that has a member has two. -/
theorem Paired.members {s : Server σ} (h : Paired s) (r : Nat) :
    (s.room r).members = [] ∨ ∃ a b, a ≠ b ∧ (s.room r).members = [a, b] := by
  cases hm : (s.room r).members with
  | nil => exact Or.inl rfl
  | cons m ms =>
    obtain ⟨p, hp, hpm⟩ := h.mates m r (h.member r m (by rw [hm]; exact List.mem_cons_self))
    rw [hm] at hpm
    rcases hpm with hpm | hpm
    · exact Or.inr ⟨m, p, hp.symm, hpm⟩
    · exact Or.inr ⟨p, m, hp, hpm⟩

/-! ## Small steps -/

/-- Nothing but queues, results, receive buffers and seeds changes. -/
theorem keeps_same {s s' : Server σ} (hc : s'.client = s.client) (hr : s'.room = s.room)
    (hcl : s'.clients = s.clients) (hn : s'.byName = s.byName)
    (hnc : s'.nextClient = s.nextClient) (hnr : s'.nextRoom = s.nextRoom) : Keeps s s' := by
  intro h
  refine ⟨⟨?_, ?_, ?_, ?_, ?_, ?_, ?_⟩, hnc⟩
  · rw [hcl]; exact h.nodup
  · rw [hcl, hc]; exact h.live
  · rw [hcl, hc, hnc]; exact h.seen
  · rw [hc, hnc, hnr]; exact h.seated
  · rw [hc, hr]; exact h.mates
  · rw [hc, hr]; exact h.member
  · rw [hn, hnc]; exact h.named

theorem keeps_net (s : Server σ) (net : σ) : Keeps s { s with net } :=
  keeps_same rfl rfl rfl rfl rfl rfl

theorem keeps_rx (s : Server σ) (rx : Nat → List Byte) : Keeps s { s with rx } :=
  keeps_same rfl rfl rfl rfl rfl rfl

theorem keeps_push (s : Server σ) (c : Nat) (origin about : Option Nat) (data : List Byte) :
    Keeps s (s.push c origin about data) := keeps_same rfl rfl rfl rfl rfl rfl

theorem keeps_names {s : Server σ} (names : List (Str × Nat))
    (hn : ∀ e ∈ names, e.2 < s.nextClient) : Keeps s { s with byName := names } := fun h =>
  ⟨⟨h.nodup, h.live, h.seen, h.seated, h.mates, h.member, hn⟩, rfl⟩

/-- Changes of a client's other fields. -/
theorem keeps_modClient (s : Server σ) (c : Nat) {f : Client → Client}
    (hd : ∀ a, (f a).dead = a.dead) (hr : ∀ a, (f a).room = a.room) : Keeps s (s.modClient c f) := by
  intro h
  have hdead : ∀ x, ((s.modClient c f).client x).dead = (s.client x).dead := by
    intro x
    rw [modClient]
    dsimp only
    split
    · exact hd _
    · rfl
  have hroom : ∀ x, ((s.modClient c f).client x).room = (s.client x).room := by
    intro x
    rw [modClient]
    dsimp only
    split
    · exact hr _
    · rfl
  refine ⟨⟨h.nodup, fun x hx => ?_, fun x => ?_, fun x r hx => ?_, fun x r hx => ?_,
    fun r x hx => ?_, h.named⟩, rfl⟩
  · rw [hdead]; exact h.live x hx
  · rw [hdead]; exact h.seen x
  · rw [hroom] at hx; exact h.seated x r hx
  · rw [hroom] at hx; exact h.mates x r hx
  · rw [hroom]; exact h.member r x hx

/-- Changes of a room's other fields. -/
theorem keeps_modRoom (s : Server σ) (r : Nat) {f : Room → Room}
    (hm : ∀ a, (f a).members = a.members) : Keeps s (s.modRoom r f) := by
  intro h
  have hmem : ∀ k, ((s.modRoom r f).room k).members = (s.room k).members := by
    intro k
    rw [modRoom]
    dsimp only
    split
    · exact hm _
    · rfl
  refine ⟨⟨h.nodup, h.live, h.seen, h.seated, fun x k hx => ?_, fun k x hx => ?_, h.named⟩, rfl⟩
  · rw [hmem]; exact h.mates x k hx
  · rw [hmem] at hx; exact h.member k x hx

@[simp] theorem kill_room (s : Server σ) (c : Nat) : (s.kill c).room = s.room := rfl

@[simp] theorem kill_net (s : Server σ) (c : Nat) : (s.kill c).net = s.net := rfl

@[simp] theorem kill_queued (s : Server σ) (c : Nat) : (s.kill c).queued = s.queued := rfl

@[simp] theorem kill_clients (s : Server σ) (c : Nat) : (s.kill c).clients = s.clients.erase c := rfl

theorem kill_byName (s : Server σ) (c : Nat) :
    (s.kill c).byName = s.byName.filter (fun e => e.2 ≠ c) := rfl

theorem kill_client (s : Server σ) (c x : Nat) :
    (s.kill c).client x = if x = c then { s.client x with dead := true } else s.client x := rfl

@[simp] theorem kill_client_room (s : Server σ) (c x : Nat) :
    ((s.kill c).client x).room = (s.client x).room := by
  rw [kill_client]
  split <;> rfl

@[simp] theorem kill_client_name (s : Server σ) (c x : Nat) :
    ((s.kill c).client x).name = (s.client x).name := by
  rw [kill_client]
  split <;> rfl

theorem kill_client_dead (s : Server σ) (c x : Nat) :
    ((s.kill c).client x).dead = true ↔ x = c ∨ (s.client x).dead = true := by
  rw [kill_client]
  split
  · next h => exact ⟨fun _ => Or.inl h, fun _ => rfl⟩
  · next h => exact ⟨Or.inr, fun h' => h'.resolve_left h⟩

theorem keeps_kill {s : Server σ} {c : Nat} (hc : c < s.nextClient) : Keeps s (s.kill c) := by
  intro h
  have hmem : ∀ x, x ∈ (s.kill c).clients ↔ x ≠ c ∧ x ∈ s.clients := fun x => h.nodup.mem_erase_iff
  refine ⟨⟨h.nodup.erase c, fun x hx => ?_, fun x => ?_, fun x r hx => ?_, fun x r hx => ?_,
    fun r x hx => ?_, fun e he => ?_⟩, rfl⟩
  · rw [hmem] at hx
    rw [kill_client, if_neg hx.1]
    exact h.live x hx.2
  · rw [hmem, kill_client_dead]
    show x < s.nextClient ↔ _
    by_cases hxc : x = c
    · exact ⟨fun _ => Or.inr (Or.inl hxc), fun _ => hxc ▸ hc⟩
    · rw [h.seen x]
      exact ⟨fun h' => h'.imp (fun h' => ⟨hxc, h'⟩) Or.inr,
        fun h' => h'.imp And.right (fun h' => h'.resolve_left hxc)⟩
  · rw [kill_client_room] at hx
    exact h.seated x r hx
  · rw [kill_client_room] at hx
    exact h.mates x r hx
  · rw [kill_client_room]
    exact h.member r x hx
  · exact h.named e (List.mem_of_mem_filter he)

theorem unroom_client (s : Server σ) (r x : Nat) : (s.unroom r).client x =
    if x ∈ (s.room r).members then { s.client x with room := none } else s.client x := rfl

theorem unroom_room (s : Server σ) (r k : Nat) : (s.unroom r).room k =
    if k = r then { s.room k with members := [] } else s.room k := rfl

@[simp] theorem unroom_client_dead (s : Server σ) (r x : Nat) :
    ((s.unroom r).client x).dead = (s.client x).dead := by
  rw [unroom_client]
  split <;> rfl

@[simp] theorem unroom_client_name (s : Server σ) (r x : Nat) :
    ((s.unroom r).client x).name = (s.client x).name := by
  rw [unroom_client]
  split <;> rfl

theorem unroom_client_room {s : Server σ} {r x k : Nat}
    (h : ((s.unroom r).client x).room = some k) :
    (s.client x).room = some k ∧ x ∉ (s.room r).members := by
  rw [unroom_client] at h
  split at h
  · cases h
  · next hx => exact ⟨h, hx⟩

theorem keeps_unroom (s : Server σ) (r : Nat) : Keeps s (s.unroom r) := by
  intro h
  -- a client that keeps its room is in another one
  have hne : ∀ x k, ((s.unroom r).client x).room = some k → k ≠ r := by
    intro x k hx hk
    obtain ⟨hx, hout⟩ := unroom_client_room hx
    obtain ⟨p, -, hm | hm⟩ := h.mates x k hx
    · exact hout (by rw [← hk, hm]; exact List.mem_cons_self)
    · exact hout (by rw [← hk, hm]; exact List.mem_cons_of_mem _ List.mem_cons_self)
  refine ⟨⟨h.nodup, fun x hx => ?_, fun x => ?_, fun x k hx => ?_, fun x k hx => ?_,
    fun k x hx => ?_, h.named⟩, rfl⟩
  · rw [unroom_client_dead]
    exact h.live x hx
  · rw [unroom_client_dead]
    exact h.seen x
  · exact h.seated x k (unroom_client_room hx).1
  · rw [unroom_room, if_neg (hne x k hx)]
    exact h.mates x k (unroom_client_room hx).1
  · rw [unroom_room] at hx
    split at hx
    · exact absurd hx List.not_mem_nil
    · next hk =>
      have hroom := h.member k x hx
      rw [unroom_client, if_neg]
      · exact hroom
      · intro hxr
        have := h.member r x hxr
        rw [hroom] at this
        exact hk (Option.some.inj this)

/-! ## A pair joins -/

theorem lookup_mem {s : Server σ} {name : Str} {t : Nat} (h : s.lookup name = some t) :
    (name, t) ∈ s.byName := by
  rw [lookup, Option.map_eq_some_iff] at h
  obtain ⟨e, he, rfl⟩ := h
  have hname := List.find?_some he
  rw [decide_eq_true_eq] at hname
  rw [← hname]
  exact List.mem_of_find?_eq_some he

/-- Nobody else can be joined: a room in use is full. -/
theorem Paired.joinTarget_solo {s : Server σ} (h : Paired s) {c t : Nat} {name : Str}
    (ht : s.joinTarget c name = some t) :
    s.lookup name = some t ∧ t ≠ c ∧ (s.client t).name ≠ none ∧ (s.client t).room = none := by
  unfold joinTarget at ht
  split at ht
  · cases ht
  · next t' hl =>
    split_ifs at ht with hself
    rw [not_or] at hself
    split at ht
    · next hnone =>
      cases ht
      exact ⟨hl, hself.1, hself.2, hnone⟩
    · next r hr =>
      obtain ⟨p, -, hm⟩ := h.mates t' r hr
      have hlen : (s.room r).members.length = 2 := by
        rcases hm with hm | hm
        · rw [hm]; rfl
        · rw [hm]; rfl
      rw [if_pos (Or.inr (by rw [hlen]; exact Nat.le_refl 2))] at ht
      cases ht

/-- `on_join` up to the broadcast. -/
def joined (s : Server σ) (c t : Nat) : Server σ :=
  ((s.roomFor t).1.modRoom (s.roomFor t).2
    (fun room => { room with members := room.members ++ [c] })).modClient c
      ({ · with room := some (s.roomFor t).2 })

section Joined
variable {s : Server σ} {c t : Nat}

theorem roomFor_solo (ht : (s.client t).room = none) :
    s.roomFor t = (({ s with nextRoom := s.nextRoom + 1 }.modRoom s.nextRoom
      (fun _ => ⟨[t], false, 0⟩)).modClient t ({ · with room := some s.nextRoom }), s.nextRoom) := by
  rw [roomFor, ht]

theorem joined_room (ht : (s.client t).room = none) (k : Nat) :
    (s.joined c t).room k = if k = s.nextRoom then ⟨[t, c], false, 0⟩ else s.room k := by
  rw [joined, roomFor_solo ht]
  by_cases hk : k = s.nextRoom
  · simp [modClient, modRoom, hk]
  · simp [modClient, modRoom, hk]

theorem joined_client (ht : (s.client t).room = none) (x : Nat) :
    (s.joined c t).client x =
      if x = c ∨ x = t then { s.client x with room := some s.nextRoom } else s.client x := by
  rw [joined, roomFor_solo ht]
  show (if x = c then { (if x = t then { s.client x with room := some s.nextRoom } else s.client x)
    with room := some s.nextRoom } else if x = t then { s.client x with room := some s.nextRoom }
    else s.client x) = _
  by_cases hc : x = c
  · rw [if_pos hc, if_pos (Or.inl hc)]
    split <;> rfl
  · rw [if_neg hc]
    exact if_congr ⟨Or.inr, fun h => h.resolve_left hc⟩ rfl rfl

theorem joined_nextRoom (ht : (s.client t).room = none) :
    (s.joined c t).nextRoom = s.nextRoom + 1 := by
  rw [joined, roomFor_solo ht]
  rfl

theorem joined_same (s : Server σ) (c t : Nat) : (s.joined c t).clients = s.clients ∧
    (s.joined c t).byName = s.byName ∧ (s.joined c t).nextClient = s.nextClient ∧
    (s.joined c t).queued = s.queued ∧ (s.joined c t).matched = s.matched ∧
    (s.joined c t).net = s.net := by
  rw [joined, roomFor]
  split
  · exact ⟨rfl, rfl, rfl, rfl, rfl, rfl⟩
  · exact ⟨rfl, rfl, rfl, rfl, rfl, rfl⟩

theorem joined_client_dead (ht : (s.client t).room = none) (x : Nat) :
    ((s.joined c t).client x).dead = (s.client x).dead := by
  rw [joined_client ht]
  split <;> rfl

theorem joined_client_name (ht : (s.client t).room = none) (x : Nat) :
    ((s.joined c t).client x).name = (s.client x).name := by
  rw [joined_client ht]
  split <;> rfl

theorem keeps_joined (hc : c < s.nextClient) (hr : (s.client c).room = none)
    (htn : t < s.nextClient) (ht : (s.client t).room = none) (htc : t ≠ c) :
    Keeps s (s.joined c t) := by
  intro h
  obtain ⟨hcl, hbn, hnc, -⟩ := joined_same s c t
  have hne : ∀ x r, (s.client x).room = some r → r ≠ s.nextRoom := fun x r hx =>
    Nat.ne_of_lt (h.seated x r hx).2
  refine ⟨⟨?_, ?_, ?_, fun x r hx => ?_, fun x r hx => ?_, fun r x hx => ?_, ?_⟩, hnc⟩
  · rw [hcl]
    exact h.nodup
  · intro x hx
    rw [hcl] at hx
    rw [joined_client_dead ht]
    exact h.live x hx
  · intro x
    rw [hcl, hnc, joined_client_dead ht]
    exact h.seen x
  · rw [joined_client ht] at hx
    rw [hnc, joined_nextRoom ht]
    split at hx
    · next hxct =>
      rw [← Option.some.inj hx]
      exact ⟨hxct.elim (fun e => e ▸ hc) (fun e => e ▸ htn), Nat.lt_succ_self _⟩
    · exact ⟨(h.seated x r hx).1, Nat.lt_succ_of_lt (h.seated x r hx).2⟩
  · rw [joined_client ht] at hx
    rw [joined_room ht]
    split at hx
    · next hxct =>
      rw [if_pos (Option.some.inj hx).symm]
      rcases hxct with rfl | rfl
      · exact ⟨t, htc, Or.inr rfl⟩
      · exact ⟨c, htc.symm, Or.inl rfl⟩
    · rw [if_neg (hne x r hx)]
      exact h.mates x r hx
  · rw [joined_room ht] at hx
    rw [joined_client ht]
    split at hx
    · next hrn =>
      rw [if_pos, hrn]
      rcases List.mem_cons.mp hx with hx | hx
      · exact Or.inr hx
      · exact Or.inl (List.mem_singleton.mp hx)
    · have hroom := h.member r x hx
      rw [if_neg]
      · exact hroom
      · rintro (rfl | rfl)
        · rw [hr] at hroom; cases hroom
        · rw [ht] at hroom; cases hroom
  · rw [hbn, hnc]
    exact h.named

end Joined

/-! ## Sends and drops -/

section Ops
variable [Transport σ]

theorem keeps_sendSolo {s : Server σ} {c : Nat} (hc : c < s.nextClient) (origin about : Option Nat)
    (data : List Byte) : Keeps s (s.sendSolo c origin about data) := by
  rw [sendSolo, sendVia]
  split
  · exact .refl s
  · split
    · exact (keeps_net s _).trans (keeps_push _ _ _ _ _)
    · exact (keeps_net s _).trans (keeps_kill (by exact hc))
    · exact ((keeps_net s _).trans (keeps_push _ _ _ _ _)).trans (keeps_kill (by exact hc))

/-- What drop() comes to. -/
theorem Paired.drop_cases {s : Server σ} (h : Paired s) {c : Nat} (hc : c < s.nextClient)
    (why : String) :
    ((s.client c).dead = true ∧ s.drop c why = s) ∨
    ((s.client c).dead = false ∧ (s.client c).room = none ∧ s.drop c why = s.kill c) ∨
    ∃ r p, (s.client c).dead = false ∧ (s.client c).room = some r ∧ p ≠ c ∧
      ((s.room r).members = [c, p] ∨ (s.room r).members = [p, c]) ∧
      s.drop c why = ((s.unroom r).kill c).sendSolo p none (some r) (s.farewell c r) := by
  cases hd : (s.client c).dead with
  | true => exact Or.inl ⟨rfl, drop_dead hd why⟩
  | false =>
    cases hr : (s.client c).room with
    | none => exact Or.inr (Or.inl ⟨rfl, rfl, drop_solo hd hr why⟩)
    | some r =>
      obtain ⟨p, hp, hm⟩ := h.mates c r hr
      exact Or.inr (Or.inr ⟨r, p, rfl, rfl, hp, hm, drop_room (h.mem_clients hc hd) hd hr hp hm why⟩)

theorem keeps_drop {s : Server σ} {c : Nat} (hc : c < s.nextClient) (why : String) :
    Keeps s (s.drop c why) := by
  intro h
  rcases h.drop_cases hc why with ⟨-, hs⟩ | ⟨-, -, hs⟩ | ⟨r, p, -, -, -, hm, hs⟩
  · rw [hs]
    exact Keeps.refl s h
  · rw [hs]
    exact keeps_kill hc h
  · have hpm : p ∈ (s.room r).members := by
      rcases hm with hm | hm
      · rw [hm]; exact List.mem_cons_of_mem _ List.mem_cons_self
      · rw [hm]; exact List.mem_cons_self
    rw [hs]
    exact ((keeps_unroom s r).trans (keeps_kill (by exact hc))).trans
      (keeps_sendSolo (by exact h.known_member hpm) none (some r) _) h

theorem keeps_send {s : Server σ} {c : Nat} (hc : c < s.nextClient) (origin about : Option Nat)
    (data : List Byte) : Keeps s (s.send c origin about data) := by
  rw [send, sendVia]
  split
  · exact .refl s
  · split
    · exact (keeps_net s _).trans (keeps_push _ _ _ _ _)
    · exact (keeps_net s _).trans (keeps_drop (by exact hc) _)
    · exact ((keeps_net s _).trans (keeps_push _ _ _ _ _)).trans (keeps_drop (by exact hc) _)

omit [Transport σ] in
theorem keeps_eachMember {f : Server σ → Nat → Nat → Server σ} {r : Nat}
    (hf : ∀ s i m, Paired s → m ∈ (s.room r).members → Keeps s (f s i m)) (n i : Nat) (s : Server σ) :
    Keeps s (eachMember f r n i s) := by
  induction n generalizing i s with
  | zero => exact .refl s
  | succ n ih =>
    intro h
    rw [eachMember]
    split
    · exact Keeps.refl s h
    · next m hm => exact (hf s i m h (List.mem_of_getElem? hm)).trans (ih _ _) h

theorem keeps_roomBroadcast (s : Server σ) (r : Nat) : Keeps s (s.roomBroadcast r) :=
  keeps_eachMember (fun _ _ _ h hm => keeps_send (h.known_member hm) _ _ _) _ _ _

/-! ## The protocol -/

theorem keeps_onList {s : Server σ} {c : Nat} (hc : c < s.nextClient) : Keeps s (s.onList c) :=
  keeps_send hc _ _ _

theorem keeps_replaceOld (s : Server σ) (c : Nat) (name : Str) : Keeps s (s.replaceOld c name) := by
  intro h
  unfold replaceOld
  split
  · next old hl =>
    split
    · exact Keeps.refl s h
    · exact keeps_drop (h.named _ (lookup_mem hl)) _ h
  · exact Keeps.refl s h

omit [Transport σ] in
theorem keeps_unalias (s : Server σ) (c : Nat) (name : Str) : Keeps s (s.unalias c name) := by
  intro h
  unfold unalias
  split
  · split
    · exact keeps_names _ (fun e he => h.named e (List.mem_of_mem_filter he)) h
    · exact Keeps.refl s h
  · exact Keeps.refl s h

omit [Transport σ] in
theorem keeps_setName {s : Server σ} {c : Nat} (hc : c < s.nextClient) (name : Str) :
    Keeps s (s.setName name c) := by
  intro h
  unfold setName
  split
  · refine keeps_names _ (fun e he => ?_) h
    obtain ⟨e', he', rfl⟩ := List.mem_map.mp he
    split
    · exact hc
    · exact h.named e' he'
  · refine keeps_names _ (fun e he => ?_) h
    rcases List.mem_append.mp he with he | he
    · exact h.named e he
    · rw [List.mem_singleton.mp he]
      exact hc

/-- `on_hello` before the LOBBY answer. -/
def renamed (s : Server σ) (c : Nat) (name : Str) : Server σ :=
  (((s.replaceOld c name).unalias c name).modClient c ({ · with name := some name })).setName name c

theorem hello_eq (s : Server σ) (c : Nat) (name : Str) :
    s.hello c name = (s.renamed c name).onList c := rfl

omit [Transport σ] in
theorem unalias_eq (s : Server σ) (c : Nat) (name : Str) :
    s.unalias c name = { s with byName := (s.unalias c name).byName } := by
  unfold unalias
  split
  · split <;> rfl
  · rfl

omit [Transport σ] in
theorem setName_same (s : Server σ) (name : Str) (c : Nat) :
    s.setName name c = { s with byName := (s.setName name c).byName } := by
  unfold setName
  split <;> rfl

/-- What a HELLO changes besides `by_name`. -/
theorem renamed_eq (s : Server σ) (c : Nat) (name : Str) :
    s.renamed c name = { (s.replaceOld c name).modClient c ({ · with name := some name }) with
      byName := (s.renamed c name).byName } := by
  unfold renamed
  rw [setName_same, unalias_eq]
  rfl

theorem keeps_renamed {s : Server σ} {c : Nat} (hc : c < s.nextClient) (name : Str) :
    Keeps s (s.renamed c name) := by
  intro h
  have h1 := ((keeps_replaceOld s c name).trans (keeps_unalias _ c name)).trans
    (keeps_modClient _ c (f := ({ · with name := some name })) (fun _ => rfl) (fun _ => rfl))
  exact h1.trans (keeps_setName (by rw [(h1 h).2]; exact hc) name) h

theorem keeps_hello {s : Server σ} {c : Nat} (hc : c < s.nextClient) (name : Str) :
    Keeps s (s.hello c name) := by
  intro h
  have h1 := keeps_renamed hc name
  exact h1.trans (keeps_onList (by rw [(h1 h).2]; exact hc)) h

theorem keeps_onHello {s : Server σ} {c : Nat} (hc : c < s.nextClient) (payload : List Byte) :
    Keeps s (s.onHello c payload).1 := by
  unfold onHello
  dsimp only
  split_ifs
  · exact .refl s
  · exact .refl s
  · exact .refl s
  · exact keeps_hello hc _

/-- `start_room` before the first START. -/
def starting (s : Server σ) (r : Nat) : Server σ :=
  { s with nextSeed := s.nextSeed + 1 }.modRoom r
    ({ · with started := true, seed := s.seeds s.nextSeed })

omit [Transport σ] in
theorem keeps_starting (s : Server σ) (r : Nat) : Keeps s (s.starting r) := by
  have hseed : Keeps s { s with nextSeed := s.nextSeed + 1 } := keeps_same rfl rfl rfl rfl rfl rfl
  exact hseed.trans
    (keeps_modRoom _ r (f := ({ · with started := true, seed := s.seeds s.nextSeed })) (fun _ => rfl))

/-- The START frame of one seat. -/
def startFrame (s : Server σ) (r seat : Nat) : List Byte :=
  frame tStart (UInt8.ofNat seat :: ([UInt8.ofNat (s.room r).members.length,
    UInt8.ofNat ((s.seeds s.nextSeed).toNat % 256), UInt8.ofNat ((s.seeds s.nextSeed).toNat / 256),
    UInt8.ofNat s.delay.toNat] ++ s.roster r))

omit [Transport σ] in
theorem roster_starting (s : Server σ) (r k : Nat) : (s.starting r).roster k = s.roster k := by
  have hmem : ((s.starting r).room k).members = (s.room k).members := by
    show (if k = r then { s.room k with started := true, seed := s.seeds s.nextSeed }
      else s.room k).members = _
    split <;> rfl
  rw [roster, roster, hmem]
  rfl

theorem startRoom_eq (s : Server σ) (r : Nat) : s.startRoom r =
    if s.delay < 0 ∨ 255 < s.delay then (s.starting r, some "internal protocol error")
    else (eachMember (fun s' i m => s'.send m none (some r) (s.startFrame r i)) r
      (s.room r).members.length 0 (s.starting r), none) := by
  have hmem : ((s.starting r).room r).members = (s.room r).members := by
    show (if r = r then { s.room r with started := true, seed := s.seeds s.nextSeed }
      else s.room r).members = _
    rw [if_pos rfl]
  have hros := roster_starting s r r
  rw [startRoom]
  dsimp only
  change (if s.delay < 0 ∨ 255 < s.delay then (s.starting r, _) else
    (eachMember (fun s' i m => s'.send m none (some r) (frame tStart (UInt8.ofNat i ::
      ([UInt8.ofNat ((s.starting r).room r).members.length,
        UInt8.ofNat ((s.seeds s.nextSeed).toNat % 256), UInt8.ofNat ((s.seeds s.nextSeed).toNat / 256),
        UInt8.ofNat s.delay.toNat] ++ (s.starting r).roster r)))) r
      ((s.starting r).room r).members.length 0 (s.starting r), none)) = _
  rw [hros, hmem]
  rfl

theorem keeps_startRoom (s : Server σ) (r : Nat) : Keeps s (s.startRoom r).1 := by
  rw [startRoom_eq]
  split
  · exact keeps_starting s r
  · exact (keeps_starting s r).trans
      (keeps_eachMember (fun _ _ _ h hm => keeps_send (h.known_member hm) _ _ _) _ _ _)

theorem join_eq (s : Server σ) (c t : Nat) : s.join c t =
    let s' := (s.joined c t).roomBroadcast (s.roomFor t).2
    if s'.autoGo ≠ 0 ∧ s'.autoGo ≤ (s'.room (s.roomFor t).2).members.length
      then s'.startRoom (s.roomFor t).2 else (s', none) := rfl

theorem keeps_join {s : Server σ} {c t : Nat} (hc : c < s.nextClient) (hr : (s.client c).room = none)
    (htn : t < s.nextClient) (ht : (s.client t).room = none) (htc : t ≠ c) :
    Keeps s (s.join c t).1 := by
  have h1 := (keeps_joined hc hr htn ht htc).trans (keeps_roomBroadcast _ (s.roomFor t).2)
  rw [join_eq]
  dsimp only
  split
  · exact h1.trans (keeps_startRoom _ _)
  · exact h1

theorem keeps_onJoin {s : Server σ} {c : Nat} (hc : c < s.nextClient) (payload : List Byte) :
    Keeps s (s.onJoin c payload).1 := by
  intro h
  unfold onJoin
  split_ifs with hname hroom
  · exact Keeps.refl s h
  · exact Keeps.refl s h
  · split
    · exact keeps_onList hc h
    · next t ht =>
      obtain ⟨hl, htc, -, hsolo⟩ := h.joinTarget_solo ht
      exact keeps_join hc (not_not.mp hroom) (h.named _ (lookup_mem hl)) hsolo htc h

theorem keeps_onGo (s : Server σ) (c : Nat) : Keeps s (s.onGo c).1 := by
  unfold onGo
  split
  · exact .refl s
  · split
    · exact .refl s
    · split
      · exact .refl s
      · exact keeps_startRoom s _

theorem keeps_relay (s : Server σ) (c : Nat) (ftype : Byte) (payload : List Byte) :
    Keeps s (s.relay c ftype payload) := by
  unfold relay
  split
  · exact .refl s
  · next r _ =>
    split
    · have h1 : Keeps s { s with matched := s.matched ++ [⟨c, r, ftype, payload⟩] } :=
        keeps_same rfl rfl rfl rfl rfl rfl
      refine h1.trans (keeps_eachMember (fun s' i m h hm => ?_) _ _ _)
      split
      · exact .refl s'
      · exact keeps_send (h.known_member hm) _ _ _
    · exact .refl s

theorem keeps_handle {s : Server σ} {c : Nat} (hc : c < s.nextClient) (ftype : Byte)
    (payload : List Byte) : Keeps s (s.handle c ftype payload).1 := by
  unfold handle
  split_ifs
  · exact keeps_relay s c _ _
  · exact keeps_onHello hc _
  · exact keeps_onList hc
  · exact keeps_onJoin hc _
  · exact keeps_onGo s c
  · exact keeps_drop hc _
  · exact keeps_send hc _ _ _
  · exact .refl s

/-! ## Events -/

theorem handled_eq (s : Server σ) (c : Nat) (ftype : Byte) (payload : List Byte) :
    (host c).handled s ftype payload =
      match (s.handle c ftype payload).2 with
      | none => (s.handle c ftype payload).1
      | some e => (s.handle c ftype payload).1.drop c e := by
  rcases hh : s.handle c ftype payload with ⟨s', err⟩
  rw [PyHost.handled, show (host c).handle s ftype payload = (s', err) from hh]
  cases err with
  | none => rfl
  | some e => rfl

theorem keeps_handled {s : Server σ} {c : Nat} (hc : c < s.nextClient) (ftype : Byte)
    (payload : List Byte) : Keeps s ((host c).handled s ftype payload) := by
  intro h
  have h1 := keeps_handle hc ftype payload
  rw [handled_eq]
  split
  · exact h1 h
  · exact h1.trans (keeps_drop (by rw [(h1 h).2]; exact hc) _) h

theorem keeps_act {s : Server σ} {c : Nat} (hc : c < s.nextClient) (e : RxEvent) :
    Keeps s ((host c).act s e) := by
  cases e with
  | handle ftype payload => exact keeps_handled hc ftype payload
  | badLength len => exact keeps_drop hc _
  | overflow => exact keeps_drop hc _

theorem keeps_flush {s : Server σ} {c : Nat} (hc : c < s.nextClient) : Keeps s (s.flush c) := by
  unfold flush
  split
  · exact keeps_net s _
  · exact (keeps_net s _).trans (keeps_drop (by exact hc) _)

/-- `accept` of a connection within the limits. -/
def accepted (s : Server σ) (addr : Nat) : Server σ :=
  { s with nextClient := s.nextClient + 1, clients := s.clients ++ [s.nextClient] }.modClient
    s.nextClient (fun _ => ⟨addr, none, none, false⟩)

omit [Transport σ] in
theorem accept_cases (s : Server σ) (addr : Nat) :
    s.accept addr = s ∨ s.accept addr = s.accepted addr := by
  unfold accept
  split_ifs
  · exact Or.inl rfl
  · exact Or.inl rfl
  · exact Or.inr rfl

omit [Transport σ] in
theorem accepted_client (s : Server σ) (addr x : Nat) : (s.accepted addr).client x =
    if x = s.nextClient then ⟨addr, none, none, false⟩ else s.client x := rfl

omit [Transport σ] in
theorem accepted_room {s : Server σ} {addr x r : Nat}
    (h : ((s.accepted addr).client x).room = some r) : (s.client x).room = some r := by
  rw [accepted_client] at h
  split at h
  · cases h
  · exact h

omit [Transport σ] in
theorem paired_accepted {s : Server σ} (h : Paired s) (addr : Nat) : Paired (s.accepted addr) := by
  -- the new client has no record yet
  have hnew : s.nextClient ∉ s.clients := fun hm => Nat.lt_irrefl _ (h.known hm)
  have hold : ∀ x < s.nextClient, (s.accepted addr).client x = s.client x := fun x hx =>
    if_neg (Nat.ne_of_lt hx)
  refine ⟨List.nodup_append.mpr ⟨h.nodup, List.pairwise_singleton _ _, ?_⟩, ?_, ?_,
    fun x r hx => ?_, fun x r hx => h.mates x r (accepted_room hx), ?_, ?_⟩
  · intro a ha b hb hab
    rw [List.mem_singleton.mp hb] at hab
    exact hnew (hab ▸ ha)
  · intro x hx
    rcases List.mem_append.mp hx with hx | hx
    · rw [hold x (h.known hx)]
      exact h.live x hx
    · rw [List.mem_singleton.mp hx, accepted_client, if_pos rfl]
  · intro x
    show x < s.nextClient + 1 ↔ x ∈ s.clients ++ [s.nextClient] ∨ _
    rw [accepted_client, List.mem_append, List.mem_singleton]
    by_cases hx : x = s.nextClient
    · exact ⟨fun _ => Or.inl (Or.inr hx), fun _ => hx ▸ Nat.lt_succ_self _⟩
    · rw [if_neg hx, or_iff_left hx, ← h.seen x]
      omega
  · have := h.seated x r (accepted_room hx)
    exact ⟨Nat.lt_succ_of_lt this.1, this.2⟩
  · intro r x hx
    rw [hold x (h.known_member hx)]
    exact h.member r x hx
  · intro e he
    exact Nat.lt_succ_of_lt (h.named e he)

omit [Transport σ] in
theorem paired_accept {s : Server σ} (h : Paired s) (addr : Nat) : Paired (s.accept addr) := by
  rcases accept_cases s addr with hs | hs
  · rw [hs]; exact h
  · rw [hs]; exact paired_accepted h addr

/-! ## The calls of a run -/

/-- A handle() call: the server it finds, the client and the frame. -/
structure Call (σ : Type) where
  srv : Server σ
  client : Nat
  ftype : Byte
  payload : List Byte

def callOn (c : Nat) (s : Server σ) : RxEvent → List (Call σ)
  | .handle ftype payload => [⟨s, c, ftype, payload⟩]
  | _ => []

/-- The calls among these verdicts, until the client is dead. -/
def itemCalls (c : Nat) : Server σ → List RxEvent → List (Call σ)
  | _, [] => []
  | s, e :: es => callOn c s e ++
    if (((host c).act s e).client c).dead then [] else itemCalls c ((host c).act s e) es

def stepCalls (s : Server σ) : Event → List (Call σ)
  | .recv c (.data (b :: bs)) =>
    if c ∈ s.clients then itemCalls c s (rxReference (s.rx c ++ b :: bs)).out else []
  | _ => []

def runCalls (s : Server σ) : List Event → List (Call σ)
  | [] => []
  | e :: es => s.stepCalls e ++ (s.step e).runCalls es

/-- Bytes for a connected client: the calls of all that is received and not yet handled. -/
theorem step_data {s : Server σ} {c : Nat} (hc : c ∈ s.clients) (b : Byte) (bs : List Byte) :
    ∃ rx, s.step (.recv c (.data (b :: bs))) =
      { (runItems (host c).act (host c).dead s (rxReference (s.rx c ++ b :: bs)).out).1 with rx } := by
  have hsrv : (Relay.service (host c) ⟨s, s.rx c, []⟩ (.data (b :: bs))).srv =
      (runItems (host c).act (host c).dead s (rxReference (s.rx c ++ b :: bs)).out).1 := by
    rw [Relay.service]
    · exact ((rounds_serviceLoop (host c)).run _).1
    · exact nofun
  have hstep : s.step (.recv c (.data (b :: bs))) = s.service c (.data (b :: bs)) := by
    rw [step, if_pos hc]
  rw [hstep, service, ← hsrv]
  exact ⟨_, rfl⟩

/-- What an invariant has to survive. -/
structure Keeping (I : Server σ → Prop) (P : Call σ → Prop) : Prop where
  paired : ∀ s, I s → Paired s
  accept : ∀ s addr, I s → I (s.accept addr)
  rx : ∀ s rx, I s → I { s with rx }
  flush : ∀ s c, I s → c ∈ s.clients → I (s.flush c)
  drop : ∀ s c why, I s → c < s.nextClient → I (s.drop c why)
  handled : ∀ x : Call σ, I x.srv → x.client ∈ x.srv.clients → P x →
    I ((host x.client).handled x.srv x.ftype x.payload)

section Keeping
variable {I : Server σ → Prop} {P : Call σ → Prop}

theorem Keeping.act (hk : Keeping I P) {s : Server σ} (h : I s) {c : Nat} (hc : c ∈ s.clients)
    (e : RxEvent) (hP : ∀ x ∈ callOn c s e, P x) : I ((host c).act s e) := by
  have hn := (hk.paired s h).known hc
  cases e with
  | handle ftype payload => exact hk.handled ⟨s, c, ftype, payload⟩ h hc (hP _ List.mem_cons_self)
  | badLength len => exact hk.drop s c _ h hn
  | overflow => exact hk.drop s c _ h hn

theorem Keeping.items (hk : Keeping I P) {s : Server σ} (h : I s) {c : Nat} (hc : c ∈ s.clients)
    (es : List RxEvent) (hP : ∀ x ∈ itemCalls c s es, P x) :
    I (runItems (host c).act (host c).dead s es).1 := by
  induction es generalizing s with
  | nil => exact h
  | cons e es ih =>
    have h1 := hk.act h hc e (fun x hx => hP x (List.mem_append_left _ hx))
    obtain ⟨hpair, hnext⟩ := keeps_act ((hk.paired s h).known hc) e (hk.paired s h)
    rw [runItems]
    split
    · exact h1
    · next hd =>
      have hlive : (((host c).act s e).client c).dead = false := Bool.eq_false_iff.mpr hd
      have hc' : c ∈ ((host c).act s e).clients :=
        hpair.mem_clients (by rw [hnext]; exact (hk.paired s h).known hc) hlive
      refine ih h1 hc' (fun x hx => hP x (List.mem_append_right _ ?_))
      rw [if_neg (by rw [hlive]; exact Bool.false_ne_true)]
      exact hx

theorem Keeping.step (hk : Keeping I P) {s : Server σ} (h : I s) (e : Event)
    (hP : ∀ x ∈ s.stepCalls e, P x) : I (s.step e) := by
  have hpair := hk.paired s h
  cases e with
  | connect addr => exact hk.accept s addr h
  | recv c r =>
    by_cases hc : c ∈ s.clients
    · match r with
      | .wouldBlock =>
        show I (if c ∈ s.clients then s.service c .wouldBlock else s)
        rw [if_pos hc]
        exact hk.rx _ _ h
      | .error =>
        show I (if c ∈ s.clients then s.service c .error else s)
        rw [if_pos hc]
        exact hk.rx _ _ (hk.drop s c _ h (hpair.known hc))
      | .data [] =>
        show I (if c ∈ s.clients then s.service c (.data []) else s)
        rw [if_pos hc]
        exact hk.rx _ _ (hk.drop s c _ h (hpair.known hc))
      | .data (b :: bs) =>
        obtain ⟨rx, hs⟩ := step_data hc b bs
        rw [hs]
        refine hk.rx _ rx (hk.items h hc _ (fun x hx => hP x ?_))
        rw [stepCalls, if_pos hc]
        exact hx
    · show I (if c ∈ s.clients then s.service c r else s)
      rw [if_neg hc]
      exact h
  | writable c =>
    show I (if c ∈ s.clients then s.flush c else s)
    split
    · next hc => exact hk.flush s c h hc
    · exact h
  | timeout c =>
    show I (if c ∈ s.clients ∧ (s.client c).name = none then _ else s)
    split
    · next hc => exact hk.drop s c _ h (hpair.known hc.1)
    · exact h

theorem Keeping.run (hk : Keeping I P) {s : Server σ} (h : I s) (es : List Event)
    (hP : ∀ x ∈ s.runCalls es, P x) : I (s.run es) := by
  induction es generalizing s with
  | nil => exact h
  | cons e es ih =>
    have h1 := hk.step h e (fun x hx => hP x (List.mem_append_left _ hx))
    exact ih h1 (fun x hx => hP x (List.mem_append_right _ hx))

/-- Every call of a run finds a connected client and a server with the invariant. -/
theorem Keeping.items_calls (hk : Keeping I P) {s : Server σ} (h : I s) {c : Nat}
    (hc : c ∈ s.clients) (es : List RxEvent) (hP : ∀ x ∈ itemCalls c s es, P x) :
    ∀ x ∈ itemCalls c s es, I x.srv ∧ x.client ∈ x.srv.clients := by
  induction es generalizing s with
  | nil => exact fun x hx => absurd hx List.not_mem_nil
  | cons e es ih =>
    have h1 := hk.act h hc e (fun x hx => hP x (List.mem_append_left _ hx))
    obtain ⟨hpair, hnext⟩ := keeps_act ((hk.paired s h).known hc) e (hk.paired s h)
    intro x hx
    rw [itemCalls] at hx hP
    rcases List.mem_append.mp hx with hx | hx
    · cases e with
      | handle ftype payload =>
        rw [List.mem_singleton.mp hx]
        exact ⟨h, hc⟩
      | badLength len => exact absurd hx List.not_mem_nil
      | overflow => exact absurd hx List.not_mem_nil
    · by_cases hd : (((host c).act s e).client c).dead = true
      · rw [if_pos hd] at hx
        exact absurd hx List.not_mem_nil
      · rw [if_neg hd] at hx hP
        have hc' := hpair.mem_clients (by rw [hnext]; exact (hk.paired s h).known hc)
          (Bool.eq_false_iff.mpr hd)
        exact ih h1 hc' (fun x hx => hP x (List.mem_append_right _ hx)) x hx

theorem Keeping.calls (hk : Keeping I P) {s : Server σ} (h : I s) (es : List Event)
    (hP : ∀ x ∈ s.runCalls es, P x) : ∀ x ∈ s.runCalls es, I x.srv ∧ x.client ∈ x.srv.clients := by
  induction es generalizing s with
  | nil => exact fun x hx => absurd hx List.not_mem_nil
  | cons e es ih =>
    have h1 := hk.step h e (fun x hx => hP x (List.mem_append_left _ hx))
    intro x hx
    rcases List.mem_append.mp hx with hx | hx
    · have hP' : ∀ x ∈ s.stepCalls e, P x := fun x hx => hP x (List.mem_append_left _ hx)
      unfold stepCalls at hx hP'
      split at hx
      · split at hx
        · next hc =>
          dsimp only at hP'
          rw [if_pos hc] at hP'
          exact hk.items_calls h hc _ hP' x hx
        · exact absurd hx List.not_mem_nil
      · exact absurd hx List.not_mem_nil
    · exact ih h1 (fun x hx => hP x (List.mem_append_right _ hx)) x hx

/-- A record that only calls extend. -/
structure Tracking {α : Type} (I : Server σ → Prop) (obs : Server σ → List α)
    (f : Call σ → List α) : Prop where
  keeping : Keeping I (fun _ => True)
  accept : ∀ s addr, obs (accept s addr) = obs s
  rx : ∀ s rx, obs { s with rx } = obs s
  flush : ∀ s c, I s → c ∈ s.clients → obs (s.flush c) = obs s
  drop : ∀ s c why, I s → c < s.nextClient → obs (s.drop c why) = obs s
  handled : ∀ x : Call σ, I x.srv → x.client ∈ x.srv.clients →
    obs ((host x.client).handled x.srv x.ftype x.payload) = obs x.srv ++ f x

section Tracking
variable {α : Type} {obs : Server σ → List α} {f : Call σ → List α}

theorem Tracking.act (ht : Tracking I obs f) {s : Server σ} (h : I s) {c : Nat} (hc : c ∈ s.clients)
    (e : RxEvent) : obs ((host c).act s e) = obs s ++ (callOn c s e).flatMap f := by
  have hn := (ht.keeping.paired s h).known hc
  cases e with
  | handle ftype payload =>
    rw [callOn, List.flatMap_singleton]
    exact ht.handled ⟨s, c, ftype, payload⟩ h hc
  | badLength len => exact (ht.drop s c _ h hn).trans (List.append_nil _).symm
  | overflow => exact (ht.drop s c _ h hn).trans (List.append_nil _).symm

theorem Tracking.items (ht : Tracking I obs f) {s : Server σ} (h : I s) {c : Nat}
    (hc : c ∈ s.clients) (es : List RxEvent) :
    obs (runItems (host c).act (host c).dead s es).1 = obs s ++ (itemCalls c s es).flatMap f := by
  induction es generalizing s with
  | nil => exact (List.append_nil _).symm
  | cons e es ih =>
    have h1 := ht.keeping.act h hc e (fun _ _ => trivial)
    obtain ⟨hpair, hnext⟩ := keeps_act ((ht.keeping.paired s h).known hc) e (ht.keeping.paired s h)
    have hact := ht.act h hc e
    rw [runItems, itemCalls, List.flatMap_append, ← List.append_assoc, ← hact]
    by_cases hd : (((host c).act s e).client c).dead = true
    · rw [if_pos (by exact hd), if_pos hd]
      exact (List.append_nil _).symm
    · rw [if_neg (by exact hd), if_neg hd]
      exact ih h1 (hpair.mem_clients (by rw [hnext]; exact (ht.keeping.paired s h).known hc)
        (Bool.eq_false_iff.mpr hd))

theorem Tracking.step (ht : Tracking I obs f) {s : Server σ} (h : I s) (e : Event) :
    obs (s.step e) = obs s ++ (s.stepCalls e).flatMap f := by
  have hpair := ht.keeping.paired s h
  have hnil : ∀ {s' : Server σ}, obs s' = obs s → obs s' = obs s ++ ([] : List (Call σ)).flatMap f :=
    fun h => h.trans (List.append_nil _).symm
  cases e with
  | connect addr => exact hnil (ht.accept s addr)
  | recv c r =>
    by_cases hc : c ∈ s.clients
    · match r with
      | .wouldBlock =>
        show obs (if c ∈ s.clients then s.service c .wouldBlock else s) = _
        rw [if_pos hc]
        exact hnil (ht.rx _ _)
      | .error =>
        show obs (if c ∈ s.clients then s.service c .error else s) = _
        rw [if_pos hc]
        exact hnil ((ht.rx _ _).trans (ht.drop s c _ h (hpair.known hc)))
      | .data [] =>
        show obs (if c ∈ s.clients then s.service c (.data []) else s) = _
        rw [if_pos hc]
        exact hnil ((ht.rx _ _).trans (ht.drop s c _ h (hpair.known hc)))
      | .data (b :: bs) =>
        obtain ⟨rx, hs⟩ := step_data hc b bs
        rw [hs, stepCalls, if_pos hc]
        exact (ht.rx _ rx).trans (ht.items h hc _)
    · have hcalls : s.stepCalls (.recv c r) = [] := by
        unfold stepCalls
        split
        · next he =>
          obtain ⟨rfl, -⟩ := Event.recv.inj he
          rw [if_neg hc]
        · rfl
      show obs (if c ∈ s.clients then s.service c r else s) = _
      rw [if_neg hc, hcalls]
      exact hnil rfl
  | writable c =>
    show obs (if c ∈ s.clients then s.flush c else s) = _
    split
    · next hc => exact hnil (ht.flush s c h hc)
    · exact hnil rfl
  | timeout c =>
    show obs (if c ∈ s.clients ∧ (s.client c).name = none then _ else s) = _
    split
    · next hc => exact hnil (ht.drop s c _ h (hpair.known hc.1))
    · exact hnil rfl

theorem Tracking.run (ht : Tracking I obs f) {s : Server σ} (h : I s) (es : List Event) :
    obs (s.run es) = obs s ++ (s.runCalls es).flatMap f := by
  induction es generalizing s with
  | nil => exact (List.append_nil _).symm
  | cons e es ih =>
    rw [runCalls, List.flatMap_append, ← List.append_assoc, ← ht.step h e]
    exact ih (ht.keeping.step h e (fun _ _ => trivial))

end Tracking

end Keeping

omit [Transport σ] in
theorem paired_init (delay : Int) (autoGo : Nat) (seeds : Nat → UInt16) (net : σ) :
    Paired (init delay autoGo seeds net) where
  nodup := List.nodup_nil
  live _ hc := absurd hc List.not_mem_nil
  seen c := ⟨fun h => absurd h (Nat.not_lt_zero c), fun h => by
    rcases h with h | h
    · exact absurd h List.not_mem_nil
    · cases h⟩
  seated _ _ h := nomatch h
  mates _ _ h := nomatch h
  member _ _ h := absurd h List.not_mem_nil
  named _ h := absurd h List.not_mem_nil

end Ops

end Server

end IntvBasketball.Relay
