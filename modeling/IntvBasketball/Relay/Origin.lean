/-
  What a console makes of the bytes the relay queues for it.

  `Sound` holds of every server the event loop can reach: rooms have at most two
  members, every frame the relay makes itself is one SES_FLEN admits (`OwnFrame`), and
  every other frame in a queue is a frame of a relay type that a matched client sent,
  copied byte for byte.

  The relay checks no length of the frames it relays; the console slips a byte when
  SES_FLEN does not admit one, and goes on parsing inside it. `console_dispatches_queued`:
  if SES_FLEN admits every frame matched clients send, the console dispatches exactly the
  queued frames, in order, however its reads are cut.
-/
import IntvBasketball.Relay.Server
import IntvBasketball.Console.Pump

namespace IntvBasketball.Relay

open Console (flenOk reference sesScanner StartOk)

/-! ## Frames the relay makes -/

/-- LOBBY, START, PEER_LEFT, ROOM and PONG. -/
def ownTypes : List Byte := [tLobby, tStart, tPeerLeft, tRoom, tPong]

/-- A frame of the relay's own that SES_FLEN admits; START for at most four players. -/
def OwnFrame (data : List Byte) : Prop :=
  ∃ ftype payload, data = frame ftype payload ∧ ftype ∈ ownTypes ∧
    flenOk ftype.toNat (payload.length + 1) = true ∧ StartOk data

theorem length_padName (name : Str) : (padName name).length = 8 := by
  rw [padName, List.length_append, List.length_replicate, List.length_take, List.length_map]
  omega

theorem length_flatten_const {α : Type} {n : Nat} (ls : List (List α))
    (h : ∀ l ∈ ls, l.length = n) : ls.flatten.length = ls.length * n := by
  induction ls with
  | nil => rw [List.flatten_nil, List.length_nil, List.length_nil, Nat.zero_mul]
  | cons l ls ih =>
    rw [List.flatten_cons, List.length_append, List.length_cons, h l List.mem_cons_self,
      ih (fun l' hl => h l' (List.mem_cons_of_mem _ hl)), Nat.succ_mul, Nat.add_comm]

theorem Server.length_roster {σ : Type} (s : Server σ) (r : Nat) (h : (s.room r).members.length ≤ maxSeats) :
    (s.roster r).length = 32 := by
  have hpads := length_flatten_const ((s.room r).members.map (fun m => padName (s.nameOf m)))
    (n := 8) (by
      intro l hl
      obtain ⟨m, -, rfl⟩ := List.mem_map.mp hl
      exact length_padName _)
  rw [roster, List.length_append, hpads, List.length_map, List.length_replicate]
  unfold maxSeats at h
  unfold rosterSlots
  omega

theorem ownFrame_of_type {ftype : Byte} {payload : List Byte} (hne : ftype ≠ tStart)
    (ht : ftype ∈ ownTypes) (hl : flenOk ftype.toNat (payload.length + 1) = true) :
    OwnFrame (frame ftype payload) :=
  ⟨ftype, payload, rfl, ht, hl, fun h => absurd h hne⟩

theorem ownFrame_room (n : Byte) {roster : List Byte} (h : roster.length = 32) :
    OwnFrame (frame tRoom (n :: roster)) :=
  ownFrame_of_type (by decide) (by decide) (by rw [List.length_cons, h]; decide)

theorem ownFrame_peerLeft (seat : Byte) (name : Str) :
    OwnFrame (frame tPeerLeft (seat :: padName name)) :=
  ownFrame_of_type (by decide) (by decide) (by rw [List.length_cons, length_padName]; decide)

theorem ownFrame_pong : OwnFrame (frame tPong []) :=
  ownFrame_of_type (by decide) (by decide) (by decide)

theorem ownFrame_lobby (n : Byte) {entries : List (List Byte)} (hn : entries.length ≤ 8)
    (h : ∀ e ∈ entries, e.length = 9) : OwnFrame (frame tLobby (n :: entries.flatten)) := by
  refine ownFrame_of_type (by decide) (by decide) ?_
  have hlobby : ∀ k ≤ 8, flenOk tLobby.toNat (k * 9 + 1 + 1) = true := by decide
  rw [List.length_cons, length_flatten_const entries h]
  exact hlobby _ hn

theorem ownFrame_start (seat lo hi delay : Byte) {n : Nat} (hn : n ≤ maxSeats)
    {roster : List Byte} (h : roster.length = 32) :
    OwnFrame (frame tStart (seat :: ([UInt8.ofNat n, lo, hi, delay] ++ roster))) := by
  refine ⟨tStart, _, rfl, by decide, ?_, fun _ => ?_⟩
  · rw [List.length_cons, List.length_append, h]
    show flenOk 5 38 = true
    decide
  · unfold maxSeats at hn
    have : (UInt8.ofNat n).toNat = n := by
      rw [UInt8.toNat_ofNat']
      omega
    show (UInt8.ofNat n).toNat ≤ 4
    omega

/-! ## The invariant -/

variable {σ : Type}

/-- `data` may be queued with this origin. -/
def Fit (s : Server σ) (data : List Byte) : Option Nat → Prop
  | none => OwnFrame data
  | some c => ∃ m ∈ s.matched, m.sender = c ∧ data = frame m.ftype m.payload

structure Sound (s : Server σ) : Prop where
  seats : ∀ r, (s.room r).members.length ≤ maxSeats
  fit : ∀ q ∈ s.queued, Fit s q.bytes q.origin
  types : ∀ m ∈ s.matched, m.ftype ∈ relayTypes

/-- From a sound server to a sound one, no frame of a matched client handled between. -/
def Evolves (s s' : Server σ) : Prop := Sound s → Sound s' ∧ s'.matched = s.matched

theorem Evolves.refl (s : Server σ) : Evolves s s := fun h => ⟨h, rfl⟩

theorem Evolves.trans {s s' s'' : Server σ} (h : Evolves s s') (h' : Evolves s' s'') :
    Evolves s s'' := fun hs =>
  ⟨(h' (h hs).1).1, (h' (h hs).1).2.trans (h hs).2⟩

theorem Fit.congr {s s' : Server σ} {data : List Byte} {origin : Option Nat}
    (h : Fit s data origin) (hm : s'.matched = s.matched) : Fit s' data origin := by
  cases origin with
  | none => exact h
  | some c => rwa [Fit, hm]

/-- Changes that leave rooms, queues and `matched` alone. -/
theorem Evolves.of_eq {s s' : Server σ} (hr : ∀ r, (s'.room r).members.length ≤ (s.room r).members.length)
    (hq : s'.queued = s.queued) (hm : s'.matched = s.matched) : Evolves s s' := fun h =>
  ⟨⟨fun r => Nat.le_trans (hr r) (h.seats r),
    fun q hmem => (h.fit q (hq ▸ hmem)).congr hm, hm ▸ h.types⟩, hm⟩

theorem evolves_modClient (s : Server σ) (c : Nat) (f : Client → Client) :
    Evolves s (s.modClient c f) :=
  .of_eq (fun _ => Nat.le_refl _) rfl rfl

theorem evolves_modRoom (s : Server σ) (r : Nat) {f : Room → Room}
    (hf : (f (s.room r)).members.length ≤ (s.room r).members.length) :
    Evolves s (s.modRoom r f) := by
  refine .of_eq (fun i => ?_) rfl rfl
  rw [Server.modRoom]
  dsimp only
  split
  · next h => rw [h]; exact hf
  · exact Nat.le_refl _

theorem evolves_push {s : Server σ} {data : List Byte} {o : Option Nat} (c : Nat)
    (about : Option Nat) (hf : Fit s data o) : Evolves s (s.push c o about data) := fun h =>
  ⟨⟨h.seats, fun q hq => by
    rcases List.mem_append.mp hq with hq | hq
    · exact (h.fit q hq).congr rfl
    · rw [List.mem_singleton.mp hq]
      exact hf.congr rfl, h.types⟩, rfl⟩

variable [Transport σ]

section Via
variable {dropF : Server σ → Nat → String → Server σ}

theorem evolves_sendVia (hd : ∀ s c why, Evolves s (dropF s c why)) {s : Server σ} {data : List Byte}
    {o : Option Nat} (c : Nat) (about : Option Nat) (hf : Fit s data o) :
    Evolves s (s.sendVia dropF c o about data) := by
  have hnet : ∀ net, Evolves s { s with net } := fun _ => .of_eq (fun _ => Nat.le_refl _) rfl rfl
  have hpush : ∀ net, Evolves s ({ s with net }.push c o about data) := fun net =>
    (hnet net).trans (evolves_push c about (hf.congr rfl))
  unfold Server.sendVia
  split
  · exact .refl s
  · split
    · exact hpush _
    · exact (hnet _).trans (hd _ _ _)
    · exact (hpush _).trans (hd _ _ _)

omit [Transport σ] in
/-- A loop over members, or over a list of clients, whose every step evolves. -/
theorem evolves_eachMember {f : Server σ → Nat → Nat → Server σ} {P : Server σ → Prop}
    (hP : ∀ s s', P s → s'.matched = s.matched → P s')
    (hf : ∀ s i m, i < maxSeats → P s → Evolves s (f s i m)) (r n i : Nat) (hn : i + n ≤ maxSeats)
    (s : Server σ) (hs : P s) : Evolves s (Server.eachMember f r n i s) := by
  induction n generalizing i s with
  | zero => exact .refl s
  | succ n ih =>
    rw [Server.eachMember]
    split
    · exact .refl s
    · next m _ =>
      intro h
      have h1 := hf s i m (by omega) hs h
      have h2 := ih (i + 1) (by omega) _ (hP _ _ hs h1.2) h1.1
      exact ⟨h2.1, h2.2.trans h1.2⟩

omit [Transport σ] in
theorem evolves_foldl {f : Server σ → Nat → Server σ} (hf : ∀ s m, Evolves s (f s m)) (ms : List Nat)
    (s : Server σ) : Evolves s (ms.foldl f s) := by
  induction ms generalizing s with
  | nil => exact .refl s
  | cons m ms ih => exact (hf s m).trans (ih _)

theorem evolves_broadcastVia (hd : ∀ s c why, Evolves s (dropF s c why)) (s : Server σ) (r : Nat) :
    Evolves s (s.broadcastVia dropF r) := by
  intro h
  have hown := ownFrame_room (UInt8.ofNat (s.room r).members.length) (s.length_roster r (h.seats r))
  refine evolves_eachMember (P := fun _ => True) (fun _ _ _ _ => trivial)
    (fun s _ m _ _ => evolves_sendVia (o := none) hd m (some r) hown) r _ 0 ?_ s trivial h
  rw [Nat.zero_add]
  exact h.seats r

theorem evolves_dissolveVia (hd : ∀ s c why, Evolves s (dropF s c why)) (s : Server σ) (r : Nat)
    (notify : List Nat) : Evolves s (s.dissolveVia dropF r notify) := by
  have h1 := evolves_foldl (f := fun s m => s.modClient m ({ · with room := none }))
    (fun s m => evolves_modClient s m _) (s.room r).members s
  have h2 := evolves_foldl
    (f := fun s m => s.sendVia dropF m none (some r) (frame tRoom (0 :: List.replicate 32 0)))
    (fun s m => evolves_sendVia (o := none) hd m (some r) (ownFrame_room 0 (List.length_replicate)))
    notify
  exact (h1.trans (h2 _)).trans
    (evolves_modRoom _ r (f := ({ · with members := [] })) (Nat.zero_le _))

theorem evolves_leaveVia (hd : ∀ s c why, Evolves s (dropF s c why)) (s : Server σ) (c r seat : Nat) :
    Evolves s (s.leaveVia dropF c r seat) := by
  unfold Server.leaveVia
  dsimp only
  split_ifs
  · exact (evolves_dissolveVia hd _ _ _).trans (evolves_foldl
      (fun s m => evolves_sendVia (o := none) hd m (some r) (ownFrame_peerLeft _ _)) _ _)
  · exact evolves_dissolveVia hd _ _ _
  · exact evolves_dissolveVia hd _ _ _
  · exact evolves_broadcastVia hd _ _

theorem evolves_dropVia (hd : ∀ s c why, Evolves s (dropF s c why)) (s : Server σ) (c : Nat) :
    Evolves s (s.dropVia dropF c) := by
  have hkill : Evolves s (s.kill c) := .of_eq (fun _ => Nat.le_refl _) rfl rfl
  unfold Server.dropVia
  split
  · exact .refl s
  · dsimp only
    split
    · exact hkill
    · refine ((hkill.trans (evolves_modClient _ _ _)).trans (evolves_modRoom _ _ ?_)).trans
        (evolves_leaveVia hd _ _ _ _)
      exact List.length_erase_le

theorem evolves_dropN (n : Nat) (s : Server σ) (c : Nat) (why : String) :
    Evolves s (Server.dropN n s c why) := by
  induction n generalizing s c why with
  | zero => exact evolves_dropVia (fun s _ _ => .refl s) s c
  | succ n ih => exact evolves_dropVia ih s c

end Via

theorem evolves_drop (s : Server σ) (c : Nat) (why : String) : Evolves s (s.drop c why) :=
  evolves_dropN _ s c why

theorem evolves_send {s : Server σ} {data : List Byte} {o : Option Nat} (c : Nat)
    (about : Option Nat) (hf : Fit s data o) : Evolves s (s.send c o about data) :=
  evolves_sendVia evolves_drop c about hf

/-! ## The protocol -/

theorem evolves_onList (s : Server σ) (c : Nat) : Evolves s (s.onList c) := by
  refine evolves_send (o := none) c none (ownFrame_lobby _ ?_ ?_)
  · rw [List.length_map]
    exact List.length_take_le _ _
  · intro e he
    obtain ⟨o, -, rfl⟩ := List.mem_map.mp he
    rw [List.length_append, length_padName, List.length_singleton]

omit [Transport σ] in
theorem evolves_names (s : Server σ) (names : List (Str × Nat)) :
    Evolves s { s with byName := names } := .of_eq (fun _ => Nat.le_refl _) rfl rfl

omit [Transport σ] in
theorem evolves_setName (s : Server σ) (name : Str) (c : Nat) : Evolves s (s.setName name c) := by
  unfold Server.setName
  split <;> exact evolves_names _ _

theorem evolves_replaceOld (s : Server σ) (c : Nat) (name : Str) :
    Evolves s (s.replaceOld c name) := by
  unfold Server.replaceOld
  split
  · split
    · exact .refl s
    · exact evolves_drop _ _ _
  · exact .refl s

omit [Transport σ] in
theorem evolves_unalias (s : Server σ) (c : Nat) (name : Str) : Evolves s (s.unalias c name) := by
  unfold Server.unalias
  split
  · split
    · exact evolves_names _ _
    · exact .refl _
  · exact .refl _

theorem evolves_hello (s : Server σ) (c : Nat) (name : Str) : Evolves s (s.hello c name) := by
  have h1 := (evolves_replaceOld s c name).trans (evolves_unalias _ c name)
  have h2 := h1.trans (evolves_modClient _ c ({ · with name := some name }))
  exact (h2.trans (evolves_setName _ name c)).trans (evolves_onList _ c)

theorem evolves_onHello (s : Server σ) (c : Nat) (payload : List Byte) :
    Evolves s (s.onHello c payload).1 := by
  unfold Server.onHello
  dsimp only
  split_ifs
  · exact .refl s
  · exact .refl s
  · exact .refl s
  · exact evolves_hello s c _

theorem evolves_startRoom (s : Server σ) (r : Nat) : Evolves s (s.startRoom r).1 := by
  have hseed : Evolves s { s with nextSeed := s.nextSeed + 1 } :=
    .of_eq (fun _ => Nat.le_refl _) rfl rfl
  have hroom := evolves_modRoom { s with nextSeed := s.nextSeed + 1 } r
    (f := ({ · with started := true, seed := s.seeds s.nextSeed })) (Nat.le_refl _)
  unfold Server.startRoom
  dsimp only
  split_ifs
  · exact hseed.trans hroom
  · refine (hseed.trans hroom).trans ?_
    intro h
    refine evolves_eachMember (P := fun _ => True) (fun _ _ _ _ => trivial)
      (fun s' i m _ _ => evolves_send (o := none) m (some r)
        (ownFrame_start _ _ _ _ (h.seats r) (Server.length_roster _ r (h.seats r)))) r _ 0 ?_ _
      trivial h
    rw [Nat.zero_add]
    exact h.seats r

omit [Transport σ] in
/-- A room may grow up to its capacity. -/
theorem evolves_setRoom (s : Server σ) (r : Nat) {f : Room → Room}
    (hf : (f (s.room r)).members.length ≤ maxSeats) : Evolves s (s.modRoom r f) := fun h =>
  ⟨⟨fun i => by
    rw [Server.modRoom]
    dsimp only
    split
    · next hi => rw [hi]; exact hf
    · exact h.seats i, fun q hq => (h.fit q hq).congr rfl, h.types⟩, rfl⟩

omit [Transport σ] in
theorem evolves_roomFor (s : Server σ) (t : Nat)
    (ht : ∀ r, (s.client t).room = some r → (s.room r).members.length < maxSeats) :
    Evolves s (s.roomFor t).1 ∧
      ((s.roomFor t).1.room (s.roomFor t).2).members.length < maxSeats := by
  unfold Server.roomFor
  split
  · next r hr => exact ⟨.refl s, ht r hr⟩
  · have hnext : Evolves s { s with nextRoom := s.nextRoom + 1 } :=
      .of_eq (fun _ => Nat.le_refl _) rfl rfl
    refine ⟨(hnext.trans (evolves_setRoom _ s.nextRoom (f := fun _ => ⟨[t], false, 0⟩) ?_)).trans
      (evolves_modClient _ t ({ · with room := some s.nextRoom })), ?_⟩
    · show 1 ≤ 2
      decide
    · simp [Server.modClient, Server.modRoom, maxSeats]

theorem evolves_join (s : Server σ) (c t : Nat)
    (ht : ∀ r, (s.client t).room = some r → (s.room r).members.length < maxSeats) :
    Evolves s (s.join c t).1 := by
  obtain ⟨h1, hlen⟩ := evolves_roomFor s t ht
  have h2 := evolves_setRoom (s.roomFor t).1 (s.roomFor t).2
    (f := fun room => { room with members := room.members ++ [c] })
    (by rw [List.length_append, List.length_singleton]; exact hlen)
  have h3 := (h1.trans h2).trans (evolves_modClient _ c ({ · with room := some (s.roomFor t).2 }))
  have h4 := h3.trans (evolves_broadcastVia evolves_drop _ (s.roomFor t).2)
  unfold Server.join
  dsimp only
  split_ifs
  · exact h4.trans (evolves_startRoom _ _)
  · exact h4

omit [Transport σ] in
theorem joinTarget_room {s : Server σ} {c t : Nat} {name : Str} (h : s.joinTarget c name = some t) :
    ∀ r, (s.client t).room = some r → (s.room r).members.length < maxSeats := by
  intro r hr
  unfold Server.joinTarget at h
  split at h
  · cases h
  · split_ifs at h
    split at h
    · next hnone =>
      cases h
      rw [hr] at hnone
      cases hnone
    · next r' hr' =>
      split_ifs at h with hfull
      cases h
      rw [hr] at hr'
      cases hr'
      rw [not_or] at hfull
      exact Nat.lt_of_not_le hfull.2

theorem evolves_onJoin (s : Server σ) (c : Nat) (payload : List Byte) :
    Evolves s (s.onJoin c payload).1 := by
  unfold Server.onJoin
  split_ifs
  · exact .refl s
  · exact .refl s
  · split
    · exact evolves_onList s c
    · next t ht => exact evolves_join s c t (joinTarget_room ht)

theorem evolves_onGo (s : Server σ) (c : Nat) : Evolves s (s.onGo c).1 := by
  unfold Server.onGo
  split
  · exact .refl s
  · next r _ =>
    split
    · exact .refl s
    · split
      · exact .refl s
      · exact evolves_startRoom s r

theorem sound_relay {s : Server σ} (h : Sound s) (c : Nat) {ftype : Byte} (ht : ftype ∈ relayTypes)
    (payload : List Byte) : Sound (s.relay c ftype payload) := by
  unfold Server.relay
  split
  · exact h
  · next r _ =>
    split
    · have h1 : Sound { s with matched := s.matched ++ [⟨c, r, ftype, payload⟩] } := by
        refine ⟨h.seats, fun q hq => ?_, fun m hm => ?_⟩
        · have hfit := h.fit q hq
          cases ho : q.origin with
          | none => rw [ho] at hfit; exact hfit
          | some c' =>
            rw [ho] at hfit
            obtain ⟨m, hm, hrest⟩ := hfit
            exact ⟨m, List.mem_append_left _ hm, hrest⟩
        · rcases List.mem_append.mp hm with hm | hm
          · exact h.types m hm
          · rw [List.mem_singleton.mp hm]
            exact ht
      refine (evolves_eachMember
        (P := fun s => (⟨c, r, ftype, payload⟩ : Matched) ∈ s.matched)
        (fun s s' hs hm => by rw [hm]; exact hs) (fun s i m _ hs => ?_) r _ 0 ?_ _ ?_ h1).1
      · split
        · exact .refl s
        · exact evolves_send (o := some c) m (some r) ⟨_, hs, rfl, rfl⟩
      · rw [Nat.zero_add]
        exact h.seats r
      · exact List.mem_append_right _ (List.mem_singleton_self _)
    · exact h

theorem sound_handle {s : Server σ} (h : Sound s) (c : Nat) (ftype : Byte) (payload : List Byte) :
    Sound (s.handle c ftype payload).1 := by
  unfold Server.handle
  split_ifs with ht
  · exact sound_relay h c ht payload
  · exact (evolves_onHello s c payload h).1
  · exact (evolves_onList s c h).1
  · exact (evolves_onJoin s c payload h).1
  · exact (evolves_onGo s c h).1
  · exact (evolves_drop s c _ h).1
  · exact (evolves_send (o := none) c none ownFrame_pong h).1
  · exact h

theorem sound_act {s : Server σ} (h : Sound s) (c : Nat) (e : RxEvent) :
    Sound ((Server.host c).act s e) := by
  cases e with
  | handle ftype payload =>
    have h1 := sound_handle h c ftype payload
    rcases hh : s.handle c ftype payload with ⟨s', err⟩
    rw [hh] at h1
    have hact : (Server.host c).handled s ftype payload =
        match err with
        | none => s'
        | some e => s'.drop c e := by
      rw [PyHost.handled, show (Server.host c).handle s ftype payload = (s', err) from hh]
      cases err <;> rfl
    rw [PyHost.act, hact]
    cases err with
    | none => exact h1
    | some e => exact (evolves_drop _ c _ h1).1
  | badLength len => exact (evolves_drop s c _ h).1
  | overflow => exact (evolves_drop s c _ h).1

theorem sound_runItems {s : Server σ} (h : Sound s) (c : Nat) (es : List RxEvent) :
    Sound (runItems (Server.host c).act (Server.host c).dead s es).1 := by
  induction es generalizing s with
  | nil => exact h
  | cons e es ih =>
    rw [runItems]
    split
    · exact sound_act h c e
    · exact ih (sound_act h c e)

omit [Transport σ] in
theorem sound_rx {s : Server σ} (h : Sound s) (rx : Nat → List Byte) : Sound { s with rx } :=
  ⟨h.seats, fun q hq => (h.fit q hq).congr rfl, h.types⟩

theorem sound_service {s : Server σ} (h : Sound s) (c : Nat) (r : Recv) : Sound (s.service c r) := by
  unfold Server.service
  refine sound_rx ?_ _
  match r with
  | .wouldBlock => exact h
  | .error => exact (evolves_drop s c _ h).1
  | .data [] => exact (evolves_drop s c _ h).1
  | .data (b :: bs) =>
    rw [Relay.service]
    · rw [((rounds_serviceLoop (Server.host c)).run _).1]
      exact sound_runItems h c _
    · exact nofun

theorem sound_flush {s : Server σ} (h : Sound s) (c : Nat) : Sound (s.flush c) := by
  have hnet : ∀ net, Sound { s with net } := fun _ =>
    ⟨h.seats, fun q hq => (h.fit q hq).congr rfl, h.types⟩
  unfold Server.flush
  split
  · exact hnet _
  · exact (evolves_drop _ c _ (hnet _)).1

/-- One turn of the event loop keeps the server sound. -/
theorem sound_step {s : Server σ} (h : Sound s) (e : Server.Event) : Sound (s.step e) := by
  cases e with
  | connect addr =>
    show Sound (s.accept addr)
    unfold Server.accept
    dsimp only
    split_ifs
    · exact h
    · exact h
    · have hnew : Evolves s
          { s with nextClient := s.nextClient + 1, clients := s.clients ++ [s.nextClient] } :=
        .of_eq (fun _ => Nat.le_refl _) rfl rfl
      exact (hnew.trans (evolves_modClient _ s.nextClient (fun _ => ⟨addr, none, none, false⟩)) h).1
  | recv c r =>
    show Sound (if c ∈ s.clients then s.service c r else s)
    split
    · exact sound_service h c r
    · exact h
  | writable c =>
    show Sound (if c ∈ s.clients then s.flush c else s)
    split
    · exact sound_flush h c
    · exact h
  | timeout c =>
    show Sound (if c ∈ s.clients ∧ (s.client c).name = none then _ else s)
    split
    · exact (evolves_drop s c _ h).1
    · exact h

/-- Every reachable server is sound. -/
theorem sound_run (delay : Int) (autoGo : Nat) (seeds : Nat → UInt16) (net : σ)
    (es : List Server.Event) : Sound ((Server.init delay autoGo seeds net).run es) := by
  have h0 : Sound (Server.init delay autoGo seeds net) :=
    ⟨fun _ => Nat.zero_le _, fun q hq => absurd hq List.not_mem_nil,
      fun m hm => absurd hm List.not_mem_nil⟩
  generalize Server.init delay autoGo seeds net = s at h0
  induction es generalizing s with
  | nil => exact h0
  | cons e es ih => exact ih _ (sound_step h0 e)

/-! ## What the console dispatches -/

/-- SES_FLEN admits every frame that matched clients sent. -/
def Admitted (s : Server σ) : Prop :=
  ∀ m ∈ s.matched, flenOk m.ftype.toNat (m.payload.length + 1) = true

instance (s : Server σ) : Decidable (Admitted s) := by unfold Admitted; infer_instance

/-- An admitted frame is parsed whole, whatever follows it. -/
theorem unit_frame {ftype : Byte} {payload : List Byte}
    (h : flenOk ftype.toNat (payload.length + 1) = true) :
    sesScanner.Unit (frame ftype payload) (.frame (frame ftype payload)) := by
  have hle := Console.flenOk_le h
  have hlen : (UInt8.ofNat (payload.length + 1)).toNat = payload.length + 1 := by
    rw [UInt8.toNat_ofNat']
    omega
  rw [Lib.Scanner.Unit]
  show Console.sesPeek (frame ftype payload) = _
  rw [frame, Console.sesPeek_cons, hlen, if_pos h, if_neg (by omega), List.length_cons,
    List.length_cons, List.take_of_length_le (by simp only [List.length_cons]; omega)]

omit [Transport σ] in
theorem unit_queued {s : Server σ} (hs : Sound s) (ha : Admitted s) {q : Sent} (hq : q ∈ s.queued) :
    sesScanner.Unit q.bytes (.frame q.bytes) := by
  have hfit := hs.fit q hq
  cases ho : q.origin with
  | none =>
    rw [ho] at hfit
    obtain ⟨ftype, payload, hb, -, hok, -⟩ := hfit
    rw [hb]
    exact unit_frame hok
  | some c =>
    rw [ho] at hfit
    obtain ⟨m, hm, -, hb⟩ := hfit
    rw [hb]
    exact unit_frame (ha m hm)

omit [Transport σ] in
/-- Only frames of the relay's own carry a control type. -/
theorem origin_of_ownType {s : Server σ} (hs : Sound s) {q : Sent} (hq : q ∈ s.queued)
    (ht : q.bytes.getD 1 0 ∈ ownTypes) : q.origin = none := by
  have hfit := hs.fit q hq
  cases ho : q.origin with
  | none => rfl
  | some c =>
    rw [ho] at hfit
    obtain ⟨m, hm, -, hb⟩ := hfit
    have hdisj : ∀ t ∈ relayTypes, t ∉ ownTypes := by decide +kernel
    rw [hb] at ht
    exact absurd ht (hdisj _ (hs.types m hm))

omit [Transport σ] in
theorem startOk_queued {s : Server σ} (hs : Sound s) {q : Sent} (hq : q ∈ s.queued) :
    StartOk q.bytes := by
  intro ht
  have ho := origin_of_ownType hs hq (by rw [ht]; decide)
  have hfit := hs.fit q hq
  rw [ho] at hfit
  obtain ⟨_, _, -, -, -, hok⟩ := hfit
  exact hok ht

omit [Transport σ] in
theorem reference_bytesTo {s : Server σ} (hs : Sound s) (ha : Admitted s) (c : Nat) :
    reference (s.bytesTo c) = ⟨(s.sentTo c).map (fun q => .frame q.bytes), [], false⟩ := by
  have h := sesScanner.drain_flatten ((s.sentTo c).map Sent.bytes) Console.Item.frame (by
    intro u hu
    obtain ⟨q, hq, rfl⟩ := List.mem_map.mp hu
    exact unit_queued hs ha (List.mem_of_mem_filter hq)) []
  rw [List.append_nil, List.map_map] at h
  rw [Server.bytesTo, reference, h]
  rw [sesScanner.drain_of_more rfl]
  simp only [Lib.Drained.before, Lib.Drained.start, List.append_nil]
  rfl

/-- Whatever the clients send and the sockets do: a console that reads any part of what is
    queued for it, in reads of at most 64 bytes, dispatches the queued frames in order, and
    a START, ROOM, LOBBY, PEER_LEFT or PONG among them is one the relay made for it,
    provided SES_FLEN admits the frames matched clients sent. -/
theorem console_dispatches_queued (delay : Int) (autoGo : Nat) (seeds : Nat → UInt16)
    (net : List SendResult) (es : List Server.Event) (c : Nat) (m : Console.Mach)
    (reads : List (List Byte))
    (ha : Admitted ((Server.init delay autoGo seeds net).run es))
    (hempty : m.rd Console.rxWr = m.rd Console.rxRd) (hcount : m.rd Console.netCount ≤ 4)
    (hlen : ∀ got ∈ reads, got.length ≤ 64)
    (hreads : reads.flatten <+: ((Server.init delay autoGo seeds net).run es).bytesTo c) :
    let s := (Server.init delay autoGo seeds net).run es
    ∃ m' n, Console.pumpAll m reads = some m' ∧
      m'.items = m.items ++ ((s.sentTo c).take n).map (fun q => .frame q.bytes) ∧
      ∀ q ∈ (s.sentTo c).take n, q.bytes.getD 1 0 ∈ ownTypes → q.origin = none := by
  intro s
  have hs := sound_run delay autoGo seeds net es
  obtain ⟨rest, hrest⟩ := hreads
  have hall := reference_bytesTo hs ha c
  rw [← hrest, Console.reference_append] at hall
  have hout : (reference reads.flatten).out ++
      (reference ((reference reads.flatten).rest ++ rest)).out =
      (s.sentTo c).map (fun q => .frame q.bytes) := congrArg Lib.Drained.out hall
  -- what is parsed of the part that was read is a prefix of the queued frames
  obtain ⟨n, hn⟩ : ∃ n, (reference reads.flatten).out =
      ((s.sentTo c).take n).map (fun q => .frame q.bytes) := by
    refine ⟨(reference reads.flatten).out.length, ?_⟩
    rw [List.map_take, ← hout, List.take_left']
    rfl
  have hsafe := Console.pumpEntries_safe reads (Console.Acc.nil hempty) rfl hlen hcount (by
    intro f hf
    rw [List.nil_append, hn] at hf
    obtain ⟨q, hq, hqf⟩ := List.mem_map.mp hf
    cases hqf
    exact startOk_queued hs (List.mem_of_mem_filter (List.mem_of_mem_take hq)))
  obtain ⟨⟨m', hm', hpar⟩, -⟩ := Console.pumpAll_parsed reads (Console.Acc.nil hempty) rfl hlen hsafe
  rw [List.nil_append] at hpar
  refine ⟨m', n, hm', by rw [hpar.items_eq, hn], fun q hq ht => ?_⟩
  exact origin_of_ownType hs (List.mem_of_mem_filter (List.mem_of_mem_take hq)) ht

/-! ## Two clients -/

/-- In a started room BO sends one frame. -/
def matchEvents (last : List Byte) : List Server.Event :=
  Server.goEvents ++ [.recv 0 (.data last)]

def matchOf (last : List Byte) : Server (List SendResult) :=
  (Server.init 3 0 (fun _ => 0x1234) []).run (matchEvents last)

/-- A START frame has a count the console can take. -/
def startFits : Console.Item → Bool
  | .slip => true
  | .frame f => f.getD 1 0 != 0x05 || decide ((f.getD 3 0).toNat ≤ 4)

/-- What a console at boot makes of these reads. -/
theorem pumpAll_zero {reads : List (List Byte)} (hlen : ∀ got ∈ reads, got.length ≤ 64)
    (hok : (reference reads.flatten).out.all startFits = true) :
    ∃ m', Console.pumpAll Console.Mach.zero reads = some m' ∧
      m'.items = (reference reads.flatten).out := by
  have hstart : ∀ f, .frame f ∈ (reference reads.flatten).out → StartOk f := by
    intro f hf ht
    have := List.all_eq_true.mp hok _ hf
    simp only [startFits, Bool.or_eq_true, bne_iff_ne, decide_eq_true_eq] at this
    exact this.resolve_left (not_not.mpr ht)
  have hempty : Console.Acc Console.Mach.zero [] := Console.Acc.nil rfl
  have hsafe := Console.pumpEntries_safe reads hempty rfl hlen (by decide) hstart
  obtain ⟨⟨m', hm', hpar⟩, -⟩ := Console.pumpAll_parsed reads hempty rfl hlen hsafe
  exact ⟨m', hm', hpar.items_eq⟩

def inputFrame : List Byte := frame tInput [0, 1, 0, 0x40, 0]

/-- AL's console reads all that is queued for it, the relayed INPUT included. -/
theorem console_dispatches_queued_input :
    let s := matchOf inputFrame
    let reads := [(s.bytesTo 1).take 64, (s.bytesTo 1).drop 64]
    reads.flatten = s.bytesTo 1 ∧
    ∃ m' n, Console.pumpAll Console.Mach.zero reads = some m' ∧ .frame inputFrame ∈ m'.items ∧
      m'.items = Console.Mach.zero.items ++ ((s.sentTo 1).take n).map (fun q => .frame q.bytes) ∧
      ∀ q ∈ (s.sentTo 1).take n, q.bytes.getD 1 0 ∈ ownTypes → q.origin = none := by
  intro s reads
  have hall : reads.flatten = s.bytesTo 1 := by
    rw [List.flatten_cons, List.flatten_singleton, List.take_append_drop]
  have hlen : ∀ got ∈ reads, got.length ≤ 64 := by decide +kernel
  obtain ⟨m', n, hm', hitems, hown⟩ := console_dispatches_queued 3 0 (fun _ => 0x1234) []
    (matchEvents inputFrame) 1 Console.Mach.zero reads (by decide +kernel) rfl (by decide) hlen
    ⟨[], (List.append_nil _).trans hall⟩
  obtain ⟨m1, hm1, hout⟩ := pumpAll_zero hlen (by decide +kernel)
  have hsame : m1 = m' := Option.some.inj (hm1.symm.trans hm')
  refine ⟨hall, m', n, hm', ?_, hitems, hown⟩
  rw [← hsame, hout]
  decide +kernel

/-- A START of the opponent's making, and an INPUT frame of 50 bytes around it. -/
def forgedStart : List Byte := frame tStart ([0, 2, 0, 0, 1] ++ List.replicate 32 0x41)

def forgingInput : List Byte := frame tInput (forgedStart ++ List.replicate 10 0)

def forgedReads : List (List Byte) :=
  let bytes := (matchOf forgingInput).bytesTo 1
  [bytes.take 64, (bytes.drop 64).take 64, bytes.drop 128]

/-- The opponent's console dispatches the START that the relay never made. -/
theorem input_frame_forges_start :
    forgedReads.flatten = (matchOf forgingInput).bytesTo 1 ∧
    (∃ m', Console.pumpAll Console.Mach.zero forgedReads = some m' ∧
      .frame forgedStart ∈ m'.items) ∧
    forgedStart.getD 1 0 = tStart ∧
    ∀ q ∈ (matchOf forgingInput).queued,
      ¬ (q.dest = 1 ∧ q.origin = none ∧ q.bytes = forgedStart) := by
  have hlen : ∀ got ∈ forgedReads, got.length ≤ 64 := by decide +kernel
  obtain ⟨m', hm', hout⟩ := pumpAll_zero hlen (by decide +kernel)
  refine ⟨by decide +kernel, ⟨m', hm', ?_⟩, by decide, by decide +kernel⟩
  rw [hout]
  decide +kernel

end IntvBasketball.Relay
