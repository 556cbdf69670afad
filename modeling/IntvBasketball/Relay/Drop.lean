/-
  What one drop() of the Python relay comes to.

  A room that is in use holds two clients. Dropping one of them puts the other back to
  solo, empties the room and sends the other one frame (`farewell`). If that send fails,
  the other is dropped too, but it has no room any more, so nothing further is sent:
  drop() nests at most once (`drop_room`).
-/
import IntvBasketball.Relay.Server

namespace IntvBasketball.Relay

namespace Server
variable {σ : Type}

/-- These clients back to solo. -/
def soloed (s : Server σ) (ms : List Nat) : Server σ :=
  { s with client := fun c => if c ∈ ms then { s.client c with room := none } else s.client c }

/-- Every member back to solo, the room empty. -/
def unroom (s : Server σ) (r : Nat) : Server σ :=
  (s.soloed (s.room r).members).modRoom r ({ · with members := [] })

/-- What drop sends to the one who stays. -/
def farewell (s : Server σ) (c r : Nat) : List Byte :=
  if (s.room r).started then
    frame tPeerLeft (UInt8.ofNat ((s.room r).members.idxOf c) :: padName (s.nameOf c))
  else frame tRoom (0 :: List.replicate 32 0)

theorem foldl_solo (s : Server σ) (ms : List Nat) :
    ms.foldl (fun s m => s.modClient m ({ · with room := none })) s = s.soloed ms := by
  induction ms generalizing s with
  | nil => rfl
  | cons m ms ih =>
    rw [List.foldl_cons, ih, soloed, soloed]
    congr 1
    funext c
    rw [modClient]
    by_cases hm : c = m
    · simp [hm]
    · simp [hm]

theorem room_kill (s : Server σ) (c : Nat) : ((s.kill c).client c).room = (s.client c).room := by
  rw [kill, modClient]
  dsimp only
  rw [if_pos rfl]

theorem solo_unroom {s : Server σ} {r p : Nat} (hp : p ∈ (s.room r).members) :
    ((s.unroom r).client p).room = none := by
  show (if p ∈ (s.room r).members then { s.client p with room := none } else s.client p).room = none
  rw [if_pos hp]

section Unseated
variable {s : Server σ} {c p r : Nat}

/-- `drop`, after the removal from the room. -/
def unseated (s : Server σ) (c r : Nat) : Server σ :=
  ((s.kill c).modClient c ({ · with room := none })).modRoom r
    (fun room => { room with members := room.members.erase c })

theorem members_unseated (hp : p ≠ c)
    (hm : (s.room r).members = [c, p] ∨ (s.room r).members = [p, c]) :
    ((s.unseated c r).room r).members = [p] := by
  rw [unseated, modRoom]
  dsimp only
  rw [if_pos rfl]
  show (s.room r).members.erase c = [p]
  rcases hm with hm | hm
  · rw [hm, List.erase_cons_head]
  · rw [hm, List.erase_cons_tail (by simpa using hp), List.erase_cons_head]

theorem unroom_unseated (hp : p ≠ c)
    (hm : (s.room r).members = [c, p] ∨ (s.room r).members = [p, c]) :
    (s.unseated c r).unroom r = (s.unroom r).kill c := by
  have hmem : ∀ x, x ∈ (s.room r).members ↔ x = c ∨ x = p := by
    intro x
    rcases hm with hm | hm
    · rw [hm, List.mem_cons, List.mem_singleton]
    · rw [hm, List.mem_cons, List.mem_singleton, or_comm]
  have hp' := members_unseated hp hm
  have hclient : ((s.unseated c r).unroom r).client = ((s.unroom r).kill c).client := by
    funext x
    have h1 : ((s.unseated c r).unroom r).client x = if x ∈ [p]
        then { (s.unseated c r).client x with room := none } else (s.unseated c r).client x := by
      rw [← hp']
      rfl
    have h2 : (s.unseated c r).client x = if x = c
        then { s.client x with dead := true, room := none } else s.client x := by
      show (if x = c then { (if x = c then { s.client x with dead := true } else s.client x) with
        room := none } else (if x = c then { s.client x with dead := true } else s.client x)) = _
      split <;> rfl
    have h3 : ((s.unroom r).kill c).client x = if x = c
        then { (if x ∈ (s.room r).members then { s.client x with room := none } else s.client x) with
          dead := true }
        else if x ∈ (s.room r).members then { s.client x with room := none } else s.client x := rfl
    have hin : ∀ a b : Client, (if x ∈ [p] then a else b) = if x = p then a else b :=
      fun a b => if_congr List.mem_singleton rfl rfl
    rw [h1, h2, h3, hin]
    by_cases hxc : x = c
    · have hxp : x ≠ p := fun h => hp (h ▸ hxc)
      rw [if_neg hxp, if_pos hxc, if_pos hxc, if_pos ((hmem x).mpr (Or.inl hxc))]
    · rw [if_neg hxc, if_neg hxc]
      by_cases hxp : x = p
      · rw [if_pos hxp, if_pos ((hmem x).mpr (Or.inr hxp))]
      · rw [if_neg hxp, if_neg (fun h => ((hmem x).mp h).elim hxc hxp)]
  have hroom : ((s.unseated c r).unroom r).room = ((s.unroom r).kill c).room := by
    funext k
    show (if k = r then { (if k = r then { s.room k with members := (s.room k).members.erase c }
      else s.room k) with members := [] }
      else if k = r then { s.room k with members := (s.room k).members.erase c } else s.room k) =
      if k = r then { s.room k with members := [] } else s.room k
    split <;> rfl
  show { s.kill c with
    client := ((s.unseated c r).unroom r).client, room := ((s.unseated c r).unroom r).room } = _
  rw [hclient, hroom]
  rfl

end Unseated

variable [Transport σ]

/-- `send` to a client without a room: if it fails the client is gone. -/
def sendSolo (s : Server σ) (c : Nat) (origin about : Option Nat) (data : List Byte) : Server σ :=
  s.sendVia (fun s c _ => s.kill c) c origin about data

/-- `dropF` drops a client without a room as drop() does. -/
def Solo (dropF : Server σ → Nat → String → Server σ) : Prop :=
  ∀ s c why, (s.client c).dead = false → (s.client c).room = none → dropF s c why = s.kill c

theorem dropVia_solo (dropF : Server σ → Nat → String → Server σ) {s : Server σ} {c : Nat}
    (hd : (s.client c).dead = false) (hr : (s.client c).room = none) :
    s.dropVia dropF c = s.kill c := by
  rw [dropVia, if_neg (by rw [hd]; exact Bool.false_ne_true)]
  dsimp only
  split
  · rfl
  · next r h =>
    rw [room_kill, hr] at h
    cases h

theorem solo_dropN (n : Nat) : Solo (dropN n : Server σ → Nat → String → Server σ) := by
  intro s c why hd hr
  cases n with
  | zero => exact dropVia_solo _ hd hr
  | succ n => exact dropVia_solo _ hd hr

theorem drop_solo {s : Server σ} {c : Nat} (hd : (s.client c).dead = false)
    (hr : (s.client c).room = none) (why : String) : s.drop c why = s.kill c :=
  solo_dropN _ s c why hd hr

theorem drop_dead {s : Server σ} {c : Nat} (hd : (s.client c).dead = true) (why : String) :
    s.drop c why = s := by
  rw [drop]
  cases s.clients.length with
  | zero => rw [dropN, dropVia, if_pos hd]
  | succ n => rw [dropN, dropVia, if_pos hd]

theorem sendVia_solo {dropF : Server σ → Nat → String → Server σ} (hs : Solo dropF) {s : Server σ}
    {c : Nat} (hr : (s.client c).room = none) (origin about : Option Nat) (data : List Byte) :
    s.sendVia dropF c origin about data = s.sendSolo c origin about data := by
  rw [sendSolo, sendVia, sendVia]
  split
  · rfl
  · next hd =>
    have hd' := Bool.eq_false_iff.mpr hd
    rcases Transport.send s.net c data with ⟨net, res⟩
    cases res with
    | queued => rfl
    | backlog => exact hs { s with net } c _ hd' hr
    | error => exact hs ({ s with net }.push c origin about data) c _ hd' hr

theorem modRoom_sendSolo (s : Server σ) (r : Nat) (f : Room → Room) (c : Nat)
    (origin about : Option Nat) (data : List Byte) :
    (s.modRoom r f).sendSolo c origin about data = (s.sendSolo c origin about data).modRoom r f := by
  have hd : ((s.modRoom r f).client c).dead = (s.client c).dead := rfl
  have hn : (s.modRoom r f).net = s.net := rfl
  rw [sendSolo, sendSolo, sendVia, sendVia, hd, hn]
  split
  · rfl
  · rcases Transport.send s.net c data with ⟨net, res⟩
    cases res with
    | queued => rfl
    | backlog => rfl
    | error => rfl

section Room
variable {s : Server σ} {c p r : Nat}

/-- `dissolve` of a room, notifying one client that is solo afterwards. -/
theorem dissolveVia_one {dropF : Server σ → Nat → String → Server σ} (hs : Solo dropF)
    (hp : p ∈ (s.room r).members) :
    s.dissolveVia dropF r [p] =
      (s.unroom r).sendSolo p none (some r) (frame tRoom (0 :: List.replicate 32 0)) := by
  have hr : ((s.soloed (s.room r).members).client p).room = none := by
    rw [soloed]
    dsimp only
    rw [if_pos hp]
  rw [dissolveVia, foldl_solo, List.foldl_cons, List.foldl_nil, sendVia_solo hs hr, unroom,
    modRoom_sendSolo]

theorem dissolveVia_nobody (dropF : Server σ → Nat → String → Server σ) :
    s.dissolveVia dropF r [] = s.unroom r := by
  rw [dissolveVia, foldl_solo]
  rfl

/-- drop() of a client whose room it shares with `p`. -/
theorem dropVia_room {dropF : Server σ → Nat → String → Server σ} (hs : Solo dropF)
    (hd : (s.client c).dead = false) (hr : (s.client c).room = some r) (hp : p ≠ c)
    (hm : (s.room r).members = [c, p] ∨ (s.room r).members = [p, c]) :
    s.dropVia dropF c = ((s.unroom r).kill c).sendSolo p none (some r) (s.farewell c r) := by
  have hmem := members_unseated hp hm
  have hun := unroom_unseated hp hm
  have hpm : p ∈ ((s.unseated c r).room r).members := by
    rw [hmem]
    exact List.mem_singleton_self p
  have hstart : ((s.unseated c r).room r).started = (s.room r).started := by
    show (if r = r then { s.room r with members := (s.room r).members.erase c } else s.room r).started = _
    rw [if_pos rfl]
  have hname : (s.unseated c r).nameOf c = s.nameOf c := by
    rw [nameOf, nameOf]
    show (if c = c then { (if c = c then { s.client c with dead := true } else s.client c) with
      room := none } else _).name.getD [] = _
    rw [if_pos rfl, if_pos rfl]
  rw [dropVia, if_neg (by rw [hd]; exact Bool.false_ne_true)]
  dsimp only
  split
  · next h =>
    rw [room_kill, hr] at h
    cases h
  · next r' h =>
    rw [room_kill, hr] at h
    obtain rfl := Option.some.inj h
    show (s.unseated c r).leaveVia dropF c r ((s.room r).members.idxOf c) = _
    rw [leaveVia, hmem, hstart, hname, farewell]
    by_cases hst : (s.room r).started = true
    · have hsolo : (((s.unroom r).kill c).client p).room = none := by
        rw [← hun]
        exact solo_unroom hpm
      rw [if_pos hst, if_pos hst]
      dsimp only
      rw [List.foldl_cons, List.foldl_nil, dissolveVia_nobody, hun, sendVia_solo hs hsolo]
    · rw [if_neg hst, if_neg hst]
      rw [dissolveVia_one hs hpm, hun, if_pos (show [p].length < 2 from Nat.lt_succ_self 1), ite_self]

theorem drop_room (hc : c ∈ s.clients) (hd : (s.client c).dead = false)
    (hr : (s.client c).room = some r) (hp : p ≠ c)
    (hm : (s.room r).members = [c, p] ∨ (s.room r).members = [p, c]) (why : String) :
    s.drop c why = ((s.unroom r).kill c).sendSolo p none (some r) (s.farewell c r) := by
  obtain ⟨n, hn⟩ : ∃ n, s.clients.length = n + 1 :=
    ⟨s.clients.length - 1, by have := List.length_pos_of_mem hc; omega⟩
  rw [drop, hn]
  exact dropVia_room (solo_dropN n) hd hr hp hm

end Room

end Server

end IntvBasketball.Relay
