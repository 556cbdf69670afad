/-
  The name registry of the Python relay.

  `Registered` adds to `Paired` that `by_name` holds exactly the names of the connected
  clients and that nobody in a room is dead. One branch of on_hello() breaks it: a HELLO
  with the name of the client's own room-mate drops the room-mate, drop() tells the
  client, and when that send fails the client is dropped too. on_hello() goes on, and
  enters the dead client in `by_name`; the C relay has `if (c->dead) return` at this place.

  `registry_kept_iff`: over every run, the registry is right after every event exactly if
  this never happens (`Evicts`).
-/
import IntvBasketball.Lib.Dict
import IntvBasketball.Relay.Paired

namespace IntvBasketball.Relay

namespace Server
variable {σ : Type}

/-- What the relay promises of its clients, rooms and names. -/
structure WellKept (s : Server σ) : Prop where
  names : ∀ n c, s.lookup n = some c ↔
    c ∈ s.clients ∧ (s.client c).dead = false ∧ (s.client c).name = some n
  rooms : ∀ c ∈ s.clients, ∀ r, (s.client c).room = some r →
    2 ≤ (s.room r).members.length ∧ (s.room r).members.length ≤ maxSeats ∧
    (s.room r).members.Nodup ∧
    ∀ m ∈ (s.room r).members,
      m ∈ s.clients ∧ (s.client m).dead = false ∧ (s.client m).room = some r
  gone : ∀ c, (s.client c).dead = true →
    c ∉ s.clients ∧ (∀ n, (n, c) ∉ s.byName) ∧ (s.client c).room = none ∧
    ∀ r, c ∉ (s.room r).members

structure Registered (s : Server σ) : Prop where
  paired : Paired s
  keyed : Lib.Dict.Keyed s.byName
  names : ∀ n c, (n, c) ∈ s.byName ↔ c ∈ s.clients ∧ (s.client c).name = some n
  alive : ∀ c r, (s.client c).room = some r → c ∈ s.clients

theorem Registered.wellKept {s : Server σ} (h : Registered s) : WellKept s where
  names n c := by
    have hget : s.lookup n = some c ↔ (n, c) ∈ s.byName := h.keyed.get_iff
    rw [hget, h.names]
    exact ⟨fun hc => ⟨hc.1, h.paired.live c hc.1, hc.2⟩, fun hc => ⟨hc.1, hc.2.2⟩⟩
  rooms c hc r hr := by
    obtain ⟨p, hp, hm⟩ := h.paired.mates c r hr
    have hall : ∀ m ∈ (s.room r).members,
        m ∈ s.clients ∧ (s.client m).dead = false ∧ (s.client m).room = some r := by
      intro m hm
      have hroom := h.paired.member r m hm
      exact ⟨h.alive m r hroom, h.paired.live m (h.alive m r hroom), hroom⟩
    refine ⟨?_, ?_, ?_, hall⟩
    · rcases hm with hm | hm
      · rw [hm]; exact Nat.le_refl 2
      · rw [hm]; exact Nat.le_refl 2
    · rcases hm with hm | hm
      · rw [hm]; exact Nat.le_refl 2
      · rw [hm]; exact Nat.le_refl 2
    · rcases hm with hm | hm
      · rw [hm, List.nodup_cons, List.mem_singleton]
        exact ⟨hp.symm, List.nodup_singleton p⟩
      · rw [hm, List.nodup_cons, List.mem_singleton]
        exact ⟨hp, List.nodup_singleton c⟩
  gone c hd := by
    have hout : c ∉ s.clients := fun hc => by
      have := h.paired.live c hc
      rw [hd] at this
      cases this
    refine ⟨hout, fun n hn => hout ((h.names n c).mp hn).1, ?_, fun r hm => ?_⟩
    · cases hr : (s.client c).room with
      | none => rfl
      | some r => exact absurd (h.alive c r hr) hout
    · exact hout (h.alive c r (h.paired.member r c hm))

/-- From a registered server to a registered one. -/
def Retains (s s' : Server σ) : Prop := Registered s → Registered s'

theorem Retains.trans {s s' s'' : Server σ} (h : Retains s s') (h' : Retains s' s'') :
    Retains s s'' := fun hs => h' (h hs)

/-- The same clients, under the same names. -/
theorem retains_same {s s' : Server σ} (hk : Keeps s s') (hcl : s'.clients = s.clients)
    (hn : s'.byName = s.byName) (hname : ∀ c, (s'.client c).name = (s.client c).name)
    (hr : ∀ c r, (s'.client c).room = some r → (s.client c).room = some r) : Retains s s' :=
  fun h => {
    paired := (hk h.paired).1
    keyed := hn ▸ h.keyed
    names := fun n c => by rw [hn, hcl, hname]; exact h.names n c
    alive := fun c r hroom => by rw [hcl]; exact h.alive c r (hr c r hroom) }

theorem retains_net (s : Server σ) (net : σ) : Retains s { s with net } :=
  retains_same (keeps_net s net) rfl rfl (fun _ => rfl) (fun _ _ h => h)

theorem retains_push (s : Server σ) (c : Nat) (origin about : Option Nat) (data : List Byte) :
    Retains s (s.push c origin about data) :=
  retains_same (keeps_push s c origin about data) rfl rfl (fun _ => rfl) (fun _ _ h => h)

theorem retains_unroom (s : Server σ) (r : Nat) : Retains s (s.unroom r) :=
  retains_same (keeps_unroom s r) rfl rfl (unroom_client_name s r)
    (fun _ _ h => (unroom_client_room h).1)

theorem retains_kill {s : Server σ} {c : Nat} (hc : c < s.nextClient)
    (hr : (s.client c).room = none) : Retains s (s.kill c) := by
  intro h
  have hmem : ∀ x, x ∈ (s.kill c).clients ↔ x ≠ c ∧ x ∈ s.clients :=
    fun x => h.paired.nodup.mem_erase_iff
  refine ⟨(keeps_kill hc h.paired).1, h.keyed.filter _, fun n x => ?_, fun x r hx => ?_⟩
  · rw [kill_byName, List.mem_filter, hmem, kill_client_name, h.names, decide_eq_true_eq]
    exact ⟨fun h => ⟨⟨h.2, h.1.1⟩, h.1.2⟩, fun h => ⟨⟨h.1.2, h.2⟩, h.1.1⟩⟩
  · rw [kill_client_room] at hx
    refine (hmem x).mpr ⟨fun hxc => ?_, h.alive x r hx⟩
    rw [hxc, hr] at hx
    cases hx

/-- Clients gain a room only while they are connected. -/
theorem retains_joined {s : Server σ} {c t : Nat} (hc : c ∈ s.clients)
    (hr : (s.client c).room = none) (htn : t ∈ s.clients) (ht : (s.client t).room = none)
    (htc : t ≠ c) : Retains s (s.joined c t) := by
  intro h
  obtain ⟨hcl, hbn, -⟩ := joined_same s c t
  refine ⟨(keeps_joined (h.paired.known hc) hr (h.paired.known htn) ht htc h.paired).1, ?_,
    fun n x => ?_, fun x r hx => ?_⟩
  · rw [hbn]
    exact h.keyed
  · rw [hbn, hcl, joined_client_name ht]
    exact h.names n x
  · rw [hcl]
    rw [joined_client ht] at hx
    split at hx
    · next hxct => exact hxct.elim (fun e => e ▸ hc) (fun e => e ▸ htn)
    · exact h.alive x r hx

theorem retains_starting (s : Server σ) (r : Nat) : Retains s (s.starting r) :=
  retains_same (keeps_starting s r) rfl rfl (fun _ => rfl) (fun _ _ h => h)

theorem retains_accept (s : Server σ) (addr : Nat) : Retains s (s.accept addr) := by
  intro h
  rcases accept_cases s addr with hs | hs
  · rw [hs]; exact h
  · rw [hs]
    refine ⟨paired_accepted h.paired addr, h.keyed, fun n x => ?_, fun x r hx => ?_⟩
    · show (n, x) ∈ s.byName ↔ x ∈ s.clients ++ [s.nextClient] ∧ _
      rw [accepted_client, List.mem_append, List.mem_singleton, h.names]
      split
      · next hx =>
        refine ⟨fun hc => ?_, fun hc => nomatch hc.2⟩
        exact absurd (h.paired.known hc.1) (by rw [hx]; exact Nat.lt_irrefl _)
      · next hx => rw [or_iff_left hx]
    · exact List.mem_append_left _ (h.alive x r (accepted_room hx))

/-! ## Sends and drops -/

section Ops
variable [Transport σ]

theorem retains_sendSolo {s : Server σ} {c : Nat} (hc : c < s.nextClient)
    (hr : (s.client c).room = none) (origin about : Option Nat) (data : List Byte) :
    Retains s (s.sendSolo c origin about data) := by
  rw [sendSolo, sendVia]
  split
  · exact id
  · split
    · exact (retains_net s _).trans (retains_push _ _ _ _ _)
    · exact (retains_net s _).trans (retains_kill (by exact hc) hr)
    · exact ((retains_net s _).trans (retains_push _ _ _ _ _)).trans (retains_kill (by exact hc) hr)

theorem retains_drop {s : Server σ} {c : Nat} (hc : c < s.nextClient) (why : String) :
    Retains s (s.drop c why) := by
  intro h
  rcases h.paired.drop_cases hc why with ⟨-, hs⟩ | ⟨-, hr, hs⟩ | ⟨r, p, -, -, -, hm, hs⟩
  · rw [hs]
    exact h
  · rw [hs]
    exact retains_kill hc hr h
  · have hmem : c ∈ (s.room r).members ∧ p ∈ (s.room r).members := by
      rcases hm with hm | hm
      · rw [hm]; exact ⟨List.mem_cons_self, List.mem_cons_of_mem _ List.mem_cons_self⟩
      · rw [hm]; exact ⟨List.mem_cons_of_mem _ List.mem_cons_self, List.mem_cons_self⟩
    have hp : (((s.unroom r).kill c).client p).room = none := by
      rw [kill_client_room]
      exact solo_unroom hmem.2
    rw [hs]
    exact ((retains_unroom s r).trans (retains_kill (by exact hc) (solo_unroom hmem.1))).trans
      (retains_sendSolo (by exact h.paired.known_member hmem.2) hp none (some r) _) h

theorem retains_send {s : Server σ} {c : Nat} (hc : c < s.nextClient) (origin about : Option Nat)
    (data : List Byte) : Retains s (s.send c origin about data) := by
  rw [send, sendVia]
  split
  · exact id
  · split
    · exact (retains_net s _).trans (retains_push _ _ _ _ _)
    · exact (retains_net s _).trans (retains_drop (by exact hc) _)
    · exact ((retains_net s _).trans (retains_push _ _ _ _ _)).trans (retains_drop (by exact hc) _)

omit [Transport σ] in
theorem retains_eachMember {f : Server σ → Nat → Nat → Server σ} {r : Nat}
    (hf : ∀ s i m, Registered s → m ∈ (s.room r).members → Retains s (f s i m)) (n i : Nat)
    (s : Server σ) : Retains s (eachMember f r n i s) := by
  induction n generalizing i s with
  | zero => exact id
  | succ n ih =>
    intro h
    rw [eachMember]
    split
    · exact h
    · next m hm => exact ih _ _ (hf s i m h (List.mem_of_getElem? hm) h)

theorem retains_roomBroadcast (s : Server σ) (r : Nat) : Retains s (s.roomBroadcast r) :=
  retains_eachMember (fun _ _ _ h hm => retains_send (h.paired.known_member hm) _ _ _) _ _ _

theorem retains_startRoom (s : Server σ) (r : Nat) : Retains s (s.startRoom r).1 := by
  rw [startRoom_eq]
  split
  · exact retains_starting s r
  · exact (retains_starting s r).trans
      (retains_eachMember (fun _ _ _ h hm => retains_send (h.paired.known_member hm) _ _ _) _ _ _)

theorem retains_onJoin {s : Server σ} {c : Nat} (hc : c ∈ s.clients) (payload : List Byte) :
    Retains s (s.onJoin c payload).1 := by
  intro h
  unfold onJoin
  split_ifs with hname hroom
  · exact h
  · exact h
  · split
    · exact retains_send (h.paired.known hc) _ _ _ h
    · next t ht =>
      obtain ⟨hl, htc, -, hsolo⟩ := h.paired.joinTarget_solo ht
      have htn := ((h.names _ t).mp (lookup_mem hl)).1
      have h1 := retains_roomBroadcast _ (s.roomFor t).2
        (retains_joined hc (not_not.mp hroom) htn hsolo htc h)
      rw [join_eq]
      dsimp only
      split
      · exact retains_startRoom _ _ h1
      · exact h1

theorem retains_onGo (s : Server σ) (c : Nat) : Retains s (s.onGo c).1 := by
  unfold onGo
  split
  · exact id
  · split
    · exact id
    · split
      · exact id
      · exact retains_startRoom s _

theorem retains_relay (s : Server σ) (c : Nat) (ftype : Byte) (payload : List Byte) :
    Retains s (s.relay c ftype payload) := by
  unfold relay
  split
  · exact id
  · next r _ =>
    split
    · have h1 : Retains s { s with matched := s.matched ++ [⟨c, r, ftype, payload⟩] } :=
        retains_same (keeps_same rfl rfl rfl rfl rfl rfl) rfl rfl (fun _ => rfl) (fun _ _ h => h)
      refine h1.trans (retains_eachMember (fun s' i m h hm => ?_) _ _ _)
      split
      · exact id
      · exact retains_send (h.paired.known_member hm) _ _ _
    · exact id

/-! ## HELLO -/

/-- The name in a HELLO that on_hello() accepts. -/
def helloName (payload : List Byte) : Option Str :=
  if payload.length < 3 ∨ payload.headD 0 ≠ protoVer then none
  else
    let name := rstrip (decodeAscii (payload.drop 1))
    if ¬ (2 ≤ name.length ∧ name.length ≤ 8) ∨ ¬ name.all nameChar then none else some name

theorem onHello_cases (s : Server σ) (c : Nat) (payload : List Byte) :
    (∃ e, helloName payload = none ∧ s.onHello c payload = (s, some e)) ∨
    ∃ name, helloName payload = some name ∧ s.onHello c payload = (s.hello c name, none) := by
  rw [helloName, onHello]
  by_cases hlen : payload.length < 3
  · rw [if_pos hlen, if_pos (Or.inl hlen)]
    exact Or.inl ⟨_, rfl, rfl⟩
  · rw [if_neg hlen]
    by_cases hver : payload.headD 0 ≠ protoVer
    · rw [if_pos hver, if_pos (Or.inr hver)]
      exact Or.inl ⟨_, rfl, rfl⟩
    · rw [if_neg hver, if_neg (not_or.mpr ⟨hlen, hver⟩)]
      dsimp only
      split
      · exact Or.inl ⟨_, rfl, rfl⟩
      · exact Or.inr ⟨_, rfl, rfl⟩

theorem sendSolo_client_ne (s : Server σ) {c x : Nat} (hx : x ≠ c) (origin about : Option Nat)
    (data : List Byte) : (s.sendSolo c origin about data).client x = s.client x := by
  rw [sendSolo, sendVia]
  split
  · rfl
  · split
    · rfl
    · exact if_neg hx
    · exact if_neg hx

/-- A solo client survives a send exactly if the frame is queued. -/
theorem sendSolo_dead_iff {s : Server σ} {c : Nat} (hd : (s.client c).dead = false)
    (origin about : Option Nat) (data : List Byte) :
    ((s.sendSolo c origin about data).client c).dead = true ↔
      (Transport.send s.net c data).2 ≠ .queued := by
  rw [sendSolo, sendVia, if_neg (by rw [hd]; exact Bool.false_ne_true)]
  rcases Transport.send s.net c data with ⟨net, res⟩
  cases res with
  | queued =>
    show (s.client c).dead = true ↔ _
    rw [hd]
    exact ⟨Bool.noConfusion, fun h => absurd rfl h⟩
  | backlog =>
    dsimp only
    rw [kill_client_dead]
    exact ⟨fun _ => SendResult.noConfusion, fun _ => Or.inl rfl⟩
  | error =>
    dsimp only
    rw [kill_client_dead]
    exact ⟨fun _ => SendResult.noConfusion, fun _ => Or.inl rfl⟩

theorem mem_byName_sendSolo {s : Server σ} {c : Nat} {origin about : Option Nat} {data : List Byte}
    {e : Str × Nat} (h : e ∈ (s.sendSolo c origin about data).byName) : e ∈ s.byName := by
  rw [sendSolo, sendVia] at h
  split at h
  · exact h
  · split at h
    · exact h
    · exact List.mem_of_mem_filter h
    · exact List.mem_of_mem_filter h

/-- drop() adds no name. -/
theorem mem_byName_drop {s : Server σ} (h : Paired s) {c : Nat} (hc : c < s.nextClient) {why : String}
    {e : Str × Nat} (he : e ∈ (s.drop c why).byName) : e ∈ s.byName := by
  rcases h.drop_cases hc why with ⟨-, hs⟩ | ⟨-, -, hs⟩ | ⟨r, p, -, -, -, -, hs⟩
  · rw [hs] at he
    exact he
  · rw [hs] at he
    exact List.mem_of_mem_filter he
  · rw [hs] at he
    have he : e ∈ ((s.unroom r).kill c).byName := mem_byName_sendSolo he
    exact List.mem_of_mem_filter he

/-- `old` shares a room with `c`, and telling `c` that `old` is gone fails. -/
def FarewellFails (s : Server σ) (c old : Nat) : Prop :=
  ∃ r, (s.client c).room = some r ∧ (s.client old).room = some r ∧
    (Transport.send s.net c (s.farewell old r)).2 ≠ .queued

/-- Whether dropping another client takes `c` along. -/
theorem dead_drop_other {s : Server σ} (h : Registered s) {c old : Nat} (hc : c ∈ s.clients)
    (ho : old ∈ s.clients) (hne : old ≠ c) (why : String) :
    ((s.drop old why).client c).dead = true ↔ FarewellFails s c old := by
  have hlive := h.paired.live c hc
  have hkill : ∀ s' : Server σ, (s'.client c).dead = false → ((s'.kill old).client c).dead = false := by
    intro s' hs'
    rw [kill_client, if_neg hne.symm]
    exact hs'
  rcases h.paired.drop_cases (h.paired.known ho) why with ⟨hd, -⟩ | ⟨-, hr, hs⟩ |
    ⟨r, p, -, hr, hp, hm, hs⟩
  · rw [h.paired.live old ho] at hd
    cases hd
  · rw [hs, hkill s hlive]
    refine ⟨nofun, fun hf => ?_⟩
    obtain ⟨r, -, hor, -⟩ := hf
    rw [hr] at hor
    cases hor
  · have hlive' : (((s.unroom r).kill old).client c).dead = false :=
      hkill _ (by rw [unroom_client_dead]; exact hlive)
    rw [hs]
    by_cases hpc : p = c
    · rw [hpc] at hm ⊢
      have hcr : (s.client c).room = some r := h.paired.member r c (by
        rcases hm with hm | hm
        · rw [hm]; exact List.mem_cons_of_mem _ List.mem_cons_self
        · rw [hm]; exact List.mem_cons_self)
      rw [sendSolo_dead_iff hlive']
      show (Transport.send s.net c (s.farewell old r)).2 ≠ .queued ↔ _
      refine ⟨fun hq => ⟨r, hcr, hr, hq⟩, fun hf => ?_⟩
      obtain ⟨r', -, hor, hq⟩ := hf
      rw [hr] at hor
      rw [Option.some.inj hor]
      exact hq
    · rw [sendSolo_client_ne _ (Ne.symm hpc), hlive']
      refine ⟨nofun, fun hf => ?_⟩
      -- `c` would be a third member
      obtain ⟨r', hcr, hor, -⟩ := hf
      rw [hr] at hor
      rw [← Option.some.inj hor] at hcr
      obtain ⟨q, -, hq⟩ := h.paired.mates c r hcr
      have hmem : c ∈ (s.room r).members := by
        rcases hq with hq | hq
        · rw [hq]; exact List.mem_cons_self
        · rw [hq]; exact List.mem_cons_of_mem _ List.mem_cons_self
      rcases hm with hm | hm
      · rw [hm, List.mem_cons, List.mem_singleton] at hmem
        exact absurd hmem (not_or.mpr ⟨hne.symm, Ne.symm hpc⟩)
      · rw [hm, List.mem_cons, List.mem_singleton] at hmem
        exact absurd hmem (not_or.mpr ⟨Ne.symm hpc, hne.symm⟩)

omit [Transport σ] in
theorem setName_eq (s : Server σ) (name : Str) (c : Nat) :
    s.setName name c = { s with byName := Lib.Dict.set s.byName name c } := by
  rw [setName, Lib.Dict.set]
  show (if (Lib.Dict.get s.byName name).isSome = true then _ else _) = _
  split <;> rfl

omit [Transport σ] in
/-- After the old alias is gone, `c` has no other name. -/
theorem mem_unalias {s : Server σ} (h : Registered s) {c : Nat} (hc : c ∈ s.clients) (name : Str)
    (e : Str × Nat) :
    e ∈ (s.unalias c name).byName ↔ e ∈ s.byName ∧ (e.2 = c → e.1 = name) := by
  obtain ⟨n, d⟩ := e
  have hown : ∀ was, (s.client c).name = some was → s.lookup was = some c := fun was hw =>
    h.keyed.get_iff.mpr ((h.names was c).mpr ⟨hc, hw⟩)
  have hname : (n, d) ∈ s.byName → d = c → (s.client c).name = some n := by
    intro hm hd
    rw [← hd]
    exact ((h.names n d).mp hm).2
  unfold unalias
  split
  · next was hw =>
    split
    · next hcond =>
      rw [List.mem_filter, decide_eq_true_eq]
      refine and_congr_right (fun hm => ⟨fun hn hd => ?_, fun himp hn => ?_⟩)
      · have := hname hm hd
        rw [hw] at this
        exact absurd (Option.some.inj this).symm hn
      · have hd : d = c := h.keyed.unique (hn ▸ hm) (Lib.Dict.mem_of_get hcond.2)
        exact hcond.1 (hn.symm.trans (himp hd))
    · next hcond =>
      have hwn : was = name := by
        by_contra hne
        exact hcond ⟨hne, hown was hw⟩
      refine (and_iff_left_of_imp fun hm hd => ?_).symm
      have := hname hm hd
      rw [hw] at this
      exact (Option.some.inj this).symm.trans hwn
  · next hw =>
    refine (and_iff_left_of_imp fun hm hd => ?_).symm
    have := hname hm hd
    rw [hw] at this
    cases this

theorem retains_replaceOld (s : Server σ) (c : Nat) (name : Str) : Retains s (s.replaceOld c name) := by
  intro h
  unfold replaceOld
  split
  · next old hl =>
    split
    · exact h
    · exact retains_drop (h.paired.named _ (lookup_mem hl)) _ h
  · exact h

/-- Nobody else has the name any more. -/
theorem free_replaceOld {s : Server σ} (h : Registered s) (c : Nat) (name : Str) :
    ∀ d, (name, d) ∈ (s.replaceOld c name).byName → d = c := by
  have hret := retains_replaceOld s c name h
  intro d hd
  unfold replaceOld at hd hret
  split at hd
  · next old hl =>
    have hold := lookup_mem hl
    split at hd
    · next hoc => exact (h.keyed.unique hd hold).trans hoc
    · next hoc =>
      rw [hl] at hret
      dsimp only at hret
      rw [if_neg hoc] at hret
      have hkn := h.paired.named _ hold
      -- the dropped client is in no entry
      have hdo : d = old := h.keyed.unique (mem_byName_drop h.paired hkn hd) hold
      have hdead := dead_dropN s.clients.length s old "replaced by new connection" (x := old) (Or.inr rfl)
      have hlive := hret.paired.live d ((hret.names name d).mp hd).1
      rw [hdo, drop, hdead] at hlive
      cases hlive
  · next hl => exact absurd hd (Lib.Dict.get_eq_none.mp hl d)

/-- on_hello() restores the registry if the client is still connected. -/
theorem registered_renamed {s : Server σ} (h : Registered s) {c : Nat} (hc : c ∈ s.clients)
    (name : Str) (hlive : ((s.replaceOld c name).client c).dead = false) :
    Registered (s.renamed c name) := by
  have h1 := retains_replaceOld s c name h
  have hfree := free_replaceOld h c name
  have hkeep := keeps_replaceOld s c name h.paired
  have hpaired := (keeps_renamed (h.paired.known hc) name h.paired).1
  have hc1 : c ∈ (s.replaceOld c name).clients :=
    h1.paired.mem_clients (by rw [hkeep.2]; exact h.paired.known hc) hlive
  have hmem := mem_unalias h1 hc1 name
  have hkeyed : Lib.Dict.Keyed ((s.replaceOld c name).unalias c name).byName := by
    unfold unalias
    split
    · split
      · exact h1.keyed.filter _
      · exact h1.keyed
    · exact h1.keyed
  unfold renamed at hpaired ⊢
  generalize s.replaceOld c name = s1 at *
  rw [setName_eq, unalias_eq] at hpaired ⊢
  generalize (s1.unalias c name).byName = names at *
  refine ⟨hpaired, hkeyed.set name c, fun n d => ?_, fun d r hd => ?_⟩
  · show (n, d) ∈ Lib.Dict.set names name c ↔ d ∈ s1.clients ∧
      (if d = c then { s1.client d with name := some name } else s1.client d).name = some n
    rw [Lib.Dict.mem_set, hmem, Prod.mk.injEq]
    by_cases hdc : d = c
    · rw [if_pos hdc, hdc]
      constructor
      · rintro (⟨rfl, -⟩ | ⟨hne, -, himp⟩)
        · exact ⟨hc1, rfl⟩
        · exact absurd (himp rfl) hne
      · rintro ⟨-, hn⟩
        exact Or.inl ⟨(Option.some.inj hn).symm, rfl⟩
    · rw [if_neg hdc, ← h1.names]
      constructor
      · rintro (⟨-, rfl⟩ | ⟨-, hm, -⟩)
        · exact absurd rfl hdc
        · exact hm
      · intro hm
        refine Or.inr ⟨fun hn => hdc (hfree d (hn ▸ hm)), hm, fun h => absurd h hdc⟩
  · refine h1.alive d r ?_
    replace hd : (if d = c then { s1.client d with name := some name } else s1.client d).room =
      some r := hd
    split at hd
    · exact hd
    · exact hd

/-! ## Runs -/

/-- A HELLO with the name of the client's room-mate, and the client cannot be told that
    the room-mate is gone. -/
def Evicts (x : Call σ) : Prop :=
  x.ftype = tHello ∧ ∃ name old, helloName x.payload = some name ∧
    x.srv.lookup name = some old ∧ old ≠ x.client ∧ FarewellFails x.srv x.client old

/-- on_hello() goes on with a dead client exactly after such a HELLO. -/
theorem dead_replaceOld_iff {s : Server σ} (h : Registered s) {c : Nat} (hc : c ∈ s.clients)
    (name : Str) : ((s.replaceOld c name).client c).dead = true ↔
      ∃ old, s.lookup name = some old ∧ old ≠ c ∧ FarewellFails s c old := by
  have hlive := h.paired.live c hc
  unfold replaceOld
  split
  · next old hl =>
    by_cases hoc : old = c
    · rw [if_pos hoc, hlive]
      refine ⟨nofun, fun hex => ?_⟩
      obtain ⟨old', hl', hne, -⟩ := hex
      rw [hl] at hl'
      exact absurd ((Option.some.inj hl').symm.trans hoc) hne
    · have ho := ((h.names name old).mp (lookup_mem hl)).1
      rw [if_neg hoc, dead_drop_other h hc ho hoc]
      refine ⟨fun hf => ⟨old, hl, hoc, hf⟩, fun hex => ?_⟩
      obtain ⟨old', hl', -, hf⟩ := hex
      rw [hl] at hl'
      exact Option.some.inj hl' ▸ hf
  · next hl =>
    rw [hlive]
    refine ⟨nofun, fun hex => ?_⟩
    obtain ⟨old, hl', -⟩ := hex
    rw [hl] at hl'
    cases hl'

theorem registered_handle {x : Call σ} (h : Registered x.srv) (hc : x.client ∈ x.srv.clients)
    (hx : ¬ Evicts x) : Registered (x.srv.handle x.client x.ftype x.payload).1 := by
  have hn := h.paired.known hc
  unfold handle
  split_ifs with _ hhello
  · exact retains_relay _ _ _ _ h
  · rcases onHello_cases x.srv x.client x.payload with ⟨e, -, hs⟩ | ⟨name, hname, hs⟩
    · rw [hs]
      exact h
    · have hlive : ((x.srv.replaceOld x.client name).client x.client).dead = false := by
        rw [← Bool.not_eq_true]
        intro hd
        obtain ⟨old, hl, hne, hf⟩ := (dead_replaceOld_iff h hc name).mp hd
        exact hx ⟨hhello, name, old, hname, hl, hne, hf⟩
      rw [hs, hello_eq]
      refine retains_send ?_ _ _ _ (registered_renamed h hc name hlive)
      rw [(keeps_renamed hn name h.paired).2]
      exact hn
  · exact retains_send hn _ _ _ h
  · exact retains_onJoin hc _ h
  · exact retains_onGo _ _ h
  · exact retains_drop hn _ h
  · exact retains_send hn _ _ _ h
  · exact h

theorem keeping_registered : Keeping (Registered : Server σ → Prop) (fun x => ¬ Evicts x) where
  paired _ h := h.paired
  accept s addr h := retains_accept s addr h
  rx s rx h := retains_same (keeps_rx s rx) rfl rfl (fun _ => rfl) (fun _ _ h => h) h
  flush s c h hc := by
    unfold flush
    split
    · exact retains_net s _ h
    · exact retains_drop (by exact h.paired.known hc) _ (retains_net s _ h)
  drop s c why h hc := retains_drop hc why h
  handled x h hc hx := by
    have h1 := registered_handle h hc hx
    have hn := (keeps_handle (h.paired.known hc) x.ftype x.payload h.paired).2
    rw [handled_eq]
    split
    · exact h1
    · exact retains_drop (by rw [hn]; exact h.paired.known hc) _ h1

omit [Transport σ] in
theorem registered_init (delay : Int) (autoGo : Nat) (seeds : Nat → UInt16) (net : σ) :
    Registered (init delay autoGo seeds net) where
  paired := paired_init delay autoGo seeds net
  keyed := List.nodup_nil
  names _ _ := ⟨fun h => absurd h List.not_mem_nil, fun h => absurd h.1 List.not_mem_nil⟩
  alive _ _ h := nomatch h

/-- The dead client stays in `by_name`. -/
theorem evicts_broken {x : Call σ} (h : Registered x.srv) (hc : x.client ∈ x.srv.clients)
    (hx : Evicts x) :
    ((((host x.client).handled x.srv x.ftype x.payload).client x.client).dead = true) ∧
      ∃ n, (n, x.client) ∈ ((host x.client).handled x.srv x.ftype x.payload).byName := by
  obtain ⟨s, c, ftype, payload⟩ := x
  obtain ⟨rfl, name, old, hname, hl, hne, hf⟩ := hx
  dsimp only at h hc hname hl hne hf ⊢
  have hs : s.handle c tHello payload = (s.hello c name, none) := by
    rcases onHello_cases s c payload with ⟨e, hnone, -⟩ | ⟨name', hname', hs⟩
    · rw [hname] at hnone
      cases hnone
    · rw [hname] at hname'
      rw [← Option.some.inj hname'] at hs
      rw [handle, if_neg (by decide), if_pos rfl, hs]
  have hdead : ((s.renamed c name).client c).dead = true := by
    have hd := (dead_replaceOld_iff h hc name).mpr ⟨old, hl, hne, hf⟩
    unfold renamed
    rw [setName_eq, unalias_eq]
    show (if c = c then { (s.replaceOld c name).client c with name := some name } else _).dead = true
    rw [if_pos rfl]
    exact hd
  have hmem : (name, c) ∈ (s.renamed c name).byName := by
    unfold renamed
    rw [setName_eq]
    exact Lib.Dict.mem_set.mpr (Or.inl rfl)
  have hend : (host c).handled s tHello payload = s.renamed c name := by
    rw [handled_eq, hs, hello_eq]
    dsimp only
    rw [onList, send, sendVia, if_pos hdead]
  rw [hend]
  exact ⟨hdead, name, hmem⟩

omit [Transport σ] in
theorem not_wellKept_of_dead {s : Server σ} {c : Nat} (hd : (s.client c).dead = true)
    (hn : ∃ n, (n, c) ∈ s.byName) : ¬ WellKept s := by
  intro h
  obtain ⟨n, hn⟩ := hn
  exact (h.gone c hd).2.1 n hn

theorem items_broken {s : Server σ} (h : Registered s) {c : Nat} (hc : c ∈ s.clients)
    (es : List RxEvent) (hx : ∃ x ∈ itemCalls c s es, Evicts x) :
    ((((runItems (host c).act (host c).dead s es).1).client c).dead = true) ∧
      ∃ n, (n, c) ∈ (runItems (host c).act (host c).dead s es).1.byName := by
  induction es generalizing s with
  | nil =>
    obtain ⟨x, hx, -⟩ := hx
    exact absurd hx List.not_mem_nil
  | cons e es ih =>
    by_cases hhead : ∃ x ∈ callOn c s e, Evicts x
    · obtain ⟨x, hmem, hev⟩ := hhead
      cases e with
      | handle ftype payload =>
        rw [List.mem_singleton.mp hmem] at hev
        obtain ⟨hd, hn⟩ := evicts_broken h hc hev
        rw [runItems, if_pos (by exact hd)]
        exact ⟨hd, hn⟩
      | badLength len => exact absurd hmem List.not_mem_nil
      | overflow => exact absurd hmem List.not_mem_nil
    · obtain ⟨x, hmem, hev⟩ := hx
      rw [itemCalls] at hmem
      rcases List.mem_append.mp hmem with hmem | hmem
      · exact absurd ⟨x, hmem, hev⟩ hhead
      · by_cases hd : (((host c).act s e).client c).dead = true
        · rw [if_pos hd] at hmem
          exact absurd hmem List.not_mem_nil
        · rw [if_neg hd] at hmem
          have h1 := keeping_registered.act h hc e (fun x hx hev => hhead ⟨x, hx, hev⟩)
          have hn := (keeps_act (h.paired.known hc) e h.paired).2
          have hc' := h1.paired.mem_clients (by rw [hn]; exact h.paired.known hc)
            (Bool.eq_false_iff.mpr hd)
          rw [runItems, if_neg (by exact hd)]
          exact ih h1 hc' ⟨x, hmem, hev⟩

theorem step_broken {s : Server σ} (h : Registered s) (e : Event) (hx : ∃ x ∈ s.stepCalls e, Evicts x) :
    ¬ WellKept (s.step e) := by
  obtain ⟨x, hmem, hev⟩ := hx
  unfold stepCalls at hmem
  split at hmem
  · next c b bs =>
    split at hmem
    · next hc =>
      obtain ⟨hd, hn⟩ := items_broken h hc _ ⟨x, hmem, hev⟩
      obtain ⟨rx, hs⟩ := step_data hc b bs
      rw [hs]
      exact not_wellKept_of_dead hd hn
    · exact absurd hmem List.not_mem_nil
  · exact absurd hmem List.not_mem_nil

/-- Over every run, whatever the clients send and the sockets do: clients, rooms and names
    are as promised after every event exactly if no client evicts its own room-mate
    by HELLO while it cannot be told. -/
theorem registry_kept_iff (delay : Int) (autoGo : Nat) (seeds : Nat → UInt16) (net : σ)
    (es : List Event) :
    (∀ k, WellKept ((init delay autoGo seeds net).run (es.take k))) ↔
      ∀ x ∈ (init delay autoGo seeds net).runCalls es, ¬ Evicts x := by
  have h0 := registered_init delay autoGo seeds net
  generalize init delay autoGo seeds net = s at h0
  induction es generalizing s with
  | nil =>
    refine ⟨fun _ x hx => absurd hx List.not_mem_nil, fun _ k => ?_⟩
    rw [List.take_nil]
    exact h0.wellKept
  | cons e es ih =>
    constructor
    · intro hall x hx hev
      have hstep : ∀ x ∈ s.stepCalls e, ¬ Evicts x := fun x hx hev =>
        step_broken h0 e ⟨x, hx, hev⟩ (hall 1)
      rcases List.mem_append.mp hx with hx | hx
      · exact hstep x hx hev
      · exact (ih _ (keeping_registered.step h0 e hstep)).mp (fun k => hall (k + 1)) x hx hev
    · intro hno k
      cases k with
      | zero => exact h0.wellKept
      | succ k =>
        have h1 := keeping_registered.step h0 e (fun x hx => hno x (List.mem_append_left _ hx))
        exact (ih _ h1).mpr (fun x hx => hno x (List.mem_append_right _ hx)) k

end Ops

/-- BO (client 0) and AL (client 1) share a room; AL says HELLO as BO, and the ROOM frame
    that tells AL that BO is gone fails. -/
theorem hello_as_room_mate : ¬ WellKept
    ((init 3 0 (fun _ => 0x1234) [.queued, .queued, .queued, .queued, SendResult.error]).run
      [.connect 1, .connect 2, .recv 0 (.data (frame tHello [2, 66, 79])),
        .recv 1 (.data (frame tHello [2, 65, 76])), .recv 1 (.data (frame tJoin [66, 79])),
        .recv 1 (.data (frame tHello [2, 66, 79]))]) := by
  intro h
  have hnames := (h.names [66, 79] 1).mp (by decide +kernel)
  exact absurd hnames.1 (by decide +kernel)

end Server

end IntvBasketball.Relay
