/-
  What a player of a running match has been told.

  `Told`: the START of the match was queued for it, nothing about rooms since, and behind
  it exactly the frames its room-mates submitted, in the order they were handled. Every
  operation keeps this for every connected client in a started room (`Informed`),
  whatever the sockets do: a failing send ends the match, and a client without a match
  is promised nothing.

  Inside start_room() and handle() some members are not told yet: `Informed E` leaves out
  the clients of `E`.
-/
import IntvBasketball.Relay.Paired

namespace IntvBasketball.Relay

/-- The type byte. -/
def Sent.ftype (q : Sent) : Byte := q.bytes.getD 1 0

/-- A frame about membership. -/
def Sent.Membership (q : Sent) : Prop :=
  q.ftype = tStart ∨ q.ftype = tRoom ∨ q.ftype = tPeerLeft

instance (q : Sent) : Decidable q.Membership := by unfold Sent.Membership; infer_instance

/-- INPUT, CRC, STATE or RESYNC. -/
def Sent.isRelayed (q : Sent) : Bool := q.ftype ∈ relayTypes

/-- The copy of a submitted frame for one member. -/
def Matched.copy (m : Matched) (c : Nat) : Sent :=
  ⟨c, some m.sender, some m.room, frame m.ftype m.payload⟩

namespace Server
variable {σ : Type}

/-- What was submitted in room `r` by the others. -/
def submitted (s : Server σ) (r c : Nat) : List Matched :=
  s.matched.filter (fun m => m.room = r ∧ m.sender ≠ c)

def submit (s : Server σ) (m : Matched) : Server σ := { s with matched := s.matched ++ [m] }

theorem keeps_submit (s : Server σ) (m : Matched) : Keeps s (s.submit m) :=
  keeps_same rfl rfl rfl rfl rfl rfl

/-- `c` has been told of its match in room `r`, and of everything submitted since. -/
def Told (s : Server σ) (c r : Nat) : Prop :=
  ∃ pre st post, s.sentTo c = pre ++ st :: post ∧ st.ftype = tStart ∧ st.about = some r ∧
    (∀ q ∈ post, ¬ q.Membership) ∧
    post.filter Sent.isRelayed = (s.submitted r c).map (·.copy c)

section Told
variable {s s' : Server σ} {c d r : Nat} {origin about : Option Nat} {data : List Byte}

theorem sentTo_push (s : Server σ) (d c : Nat) (origin about : Option Nat) (data : List Byte) :
    (s.push d origin about data).sentTo c =
      if d = c then s.sentTo c ++ [⟨d, origin, about, data⟩] else s.sentTo c := by
  rw [sentTo, sentTo, push, List.filter_append]
  split
  · next h => rw [List.filter_cons_of_pos (by simpa using h), List.filter_nil]
  · next h => rw [List.filter_cons_of_neg (by simpa using h), List.filter_nil, List.append_nil]

theorem Told.congr (h : Told s c r) (hq : s'.sentTo c = s.sentTo c) (hm : s'.matched = s.matched) :
    Told s' c r := by
  rw [Told, submitted, hq, hm]
  exact h

theorem Told.push_other (h : Told s c r) (hd : d ≠ c) : Told (s.push d origin about data) c r :=
  h.congr (by rw [sentTo_push, if_neg hd]) rfl

/-- LOBBY and PONG do not count. -/
theorem Told.push_plain (h : Told s c r)
    (hplain : ∀ q : Sent, q.bytes = data → ¬ q.Membership ∧ q.isRelayed = false) :
    Told (s.push d origin about data) c r := by
  by_cases hd : d = c
  · obtain ⟨pre, st, post, hs, hst, hab, hpost, hrel⟩ := h
    obtain ⟨hno, hnr⟩ := hplain ⟨d, origin, about, data⟩ rfl
    refine ⟨pre, st, post ++ [⟨d, origin, about, data⟩], ?_, hst, hab, fun q hq => ?_, ?_⟩
    · rw [sentTo_push, if_pos hd, hs, List.append_assoc, List.cons_append]
    · rcases List.mem_append.mp hq with hq | hq
      · exact hpost q hq
      · rw [List.mem_singleton.mp hq]
        exact hno
    · rw [List.filter_append, List.filter_cons_of_neg (by rw [hnr]; exact Bool.false_ne_true),
        List.filter_nil, List.append_nil, hrel]
      rfl
  · exact h.push_other hd

/-- START, before anything was submitted. -/
theorem told_start (hsub : s.submitted r c = []) {payload : List Byte} :
    Told (s.push c origin (some r) (frame tStart payload)) c r := by
  refine ⟨s.sentTo c, ⟨c, origin, some r, frame tStart payload⟩, [], ?_, rfl, rfl,
    fun q hq => absurd hq List.not_mem_nil, ?_⟩
  · rw [sentTo_push, if_pos rfl]
  · show [] = (s.submitted r c).map (·.copy c)
    rw [hsub, List.map_nil]

/-- A room-mate submits a frame, and it is queued for `c`. -/
theorem Told.relayed (h : Told s c r) {m : Matched} (hr : m.room = r) (hm : m.sender ≠ c)
    (ht : m.ftype ∈ relayTypes) :
    Told ((s.submit m).push c (some m.sender) (some r) (frame m.ftype m.payload)) c r := by
  obtain ⟨pre, st, post, hs, hst, hab, hpost, hrel⟩ := h
  have hcopy : (⟨c, some m.sender, some r, frame m.ftype m.payload⟩ : Sent) = m.copy c := by
    rw [Matched.copy, hr]
  have hplain : ∀ t ∈ relayTypes, ¬ (t = tStart ∨ t = tRoom ∨ t = tPeerLeft) := by decide +kernel
  refine ⟨pre, st, post ++ [m.copy c], ?_, hst, hab, fun q hq => ?_, ?_⟩
  · have hold : (s.submit m).sentTo c = s.sentTo c := rfl
    rw [sentTo_push, if_pos rfl, hold, hs, hcopy, List.append_assoc, List.cons_append]
  · rcases List.mem_append.mp hq with hq | hq
    · exact hpost q hq
    · rw [List.mem_singleton.mp hq]
      exact hplain m.ftype ht
  · have hone : [m].filter (fun m => m.room = r ∧ m.sender ≠ c) = [m] :=
      List.filter_cons_of_pos (by simpa using ⟨hr, hm⟩)
    have hrelm : (m.copy c).isRelayed = true := decide_eq_true ht
    rw [List.filter_append, List.filter_cons_of_pos hrelm, hrel]
    show _ = ((s.matched ++ [m]).filter (fun m => m.room = r ∧ m.sender ≠ c)).map (·.copy c)
    rw [List.filter_append, hone, List.map_append]
    rfl

/-- A frame submitted elsewhere, or by `c` itself. -/
theorem Told.submitted_other (h : Told s c r) {m : Matched} (hm : m.room ≠ r ∨ m.sender = c) :
    Told (s.submit m) c r := by
  have hnone : [m].filter (fun m => m.room = r ∧ m.sender ≠ c) = [] :=
    List.filter_cons_of_neg (by
      rw [decide_eq_true_eq, not_and_or, not_not]
      exact hm)
  obtain ⟨pre, st, post, hs, hst, hab, hpost, hrel⟩ := h
  refine ⟨pre, st, post, hs, hst, hab, hpost, hrel.trans ?_⟩
  show (s.matched.filter _).map _ = ((s.matched ++ [m]).filter _).map _
  rw [List.filter_append, hnone, List.append_nil]

end Told

/-- `c` plays in room `r`. -/
def Plays (s : Server σ) (c r : Nat) : Prop :=
  c ∈ s.clients ∧ (s.client c).room = some r ∧ (s.room r).started = true

/-- Every player but those of `E` is told. -/
structure Informed (E : List Nat) (s : Server σ) : Prop where
  paired : Paired s
  told : ∀ c r, s.Plays c r → c ∉ E → Told s c r
  begun : ∀ m ∈ s.matched, (s.room m.room).started = true ∧ m.room < s.nextRoom

section Informed
variable {E : List Nat} {s s' : Server σ}

/-- Nobody plays who did not, and nothing is queued. -/
theorem Informed.mono (h : Informed E s) (hp : Paired s') (hq : s'.queued = s.queued)
    (hm : s'.matched = s.matched) (hpl : ∀ c r, s'.Plays c r → s.Plays c r)
    (hst : ∀ r, (s.room r).started = true → (s'.room r).started = true)
    (hnr : s.nextRoom ≤ s'.nextRoom) : Informed E s' where
  paired := hp
  told c r hc hE := (h.told c r (hpl c r hc) hE).congr (by rw [sentTo, sentTo, hq]) hm
  begun m hmem := by
    rw [hm] at hmem
    exact ⟨hst _ (h.begun m hmem).1, Nat.lt_of_lt_of_le (h.begun m hmem).2 hnr⟩

/-- Nobody else has to be told. -/
theorem Informed.forget (h : Informed E s) (hE : ∀ c ∈ E, ∀ r, ¬ s.Plays c r) : Informed [] s where
  paired := h.paired
  told c r hc _ := h.told c r hc (fun hmem => hE c hmem r hc)
  begun := h.begun

theorem Informed.net (h : Informed E s) (net : σ) : Informed E { s with net } :=
  h.mono (keeps_net s net h.paired).1 rfl rfl (fun _ _ h => h) (fun _ h => h) (Nat.le_refl _)

/-- Anything may be queued for a client that does not play. -/
theorem Informed.push_idle (h : Informed E s) {d : Nat} (hd : ∀ r, s.Plays d r → d ∈ E)
    (origin about : Option Nat) (data : List Byte) : Informed E (s.push d origin about data) where
  paired := (keeps_push s d origin about data h.paired).1
  told c r hc hE := by
    have ht := h.told c r hc hE
    by_cases hdc : d = c
    · exact absurd (hdc ▸ hd r (hdc ▸ hc)) hE
    · exact ht.push_other hdc
  begun := h.begun

theorem Informed.push_plain (h : Informed E s) (d : Nat) (origin about : Option Nat)
    {data : List Byte} (hplain : ∀ q : Sent, q.bytes = data → ¬ q.Membership ∧ q.isRelayed = false) :
    Informed E (s.push d origin about data) where
  paired := (keeps_push s d origin about data h.paired).1
  told c r hc hE := (h.told c r hc hE).push_plain hplain
  begun := h.begun

theorem plays_kill {c x r : Nat} (h : (s.kill c).Plays x r) : s.Plays x r := by
  obtain ⟨hx, hroom, hst⟩ := h
  rw [kill_client_room] at hroom
  exact ⟨List.mem_of_mem_erase hx, hroom, hst⟩

theorem Informed.kill (h : Informed E s) {c : Nat} (hc : c < s.nextClient) : Informed E (s.kill c) :=
  h.mono (keeps_kill hc h.paired).1 rfl rfl (fun _ _ h => plays_kill h) (fun _ h => h) (Nat.le_refl _)

theorem unroom_started (s : Server σ) (r k : Nat) :
    ((s.unroom r).room k).started = (s.room k).started := by
  rw [unroom_room]
  split <;> rfl

theorem plays_unroom {r x k : Nat} (h : (s.unroom r).Plays x k) : s.Plays x k := by
  obtain ⟨hx, hroom, hst⟩ := h
  rw [unroom_started] at hst
  exact ⟨hx, (unroom_client_room hroom).1, hst⟩

theorem Informed.unroom (h : Informed E s) (r : Nat) : Informed E (s.unroom r) :=
  h.mono (keeps_unroom s r h.paired).1 rfl rfl (fun _ _ h => plays_unroom h)
    (fun k h => by rw [unroom_started]; exact h) (Nat.le_refl _)

theorem Informed.accept (h : Informed E s) (addr : Nat) : Informed E (s.accept addr) := by
  rcases accept_cases s addr with hs | hs
  · rw [hs]; exact h
  · rw [hs]
    refine h.mono (paired_accepted h.paired addr) rfl rfl (fun c r hc => ?_) (fun _ h => h)
      (Nat.le_refl _)
    obtain ⟨hmem, hroom, hst⟩ := hc
    refine ⟨?_, accepted_room hroom, hst⟩
    rcases List.mem_append.mp hmem with hmem | hmem
    · exact hmem
    · rw [List.mem_singleton.mp hmem, accepted_client, if_pos rfl] at hroom
      cases hroom

/-- A new pair does not play yet. -/
theorem Informed.joined (h : Informed E s) {c t : Nat} (hc : c < s.nextClient)
    (hr : (s.client c).room = none) (htn : t < s.nextClient) (ht : (s.client t).room = none)
    (htc : t ≠ c) : Informed E (s.joined c t) := by
  obtain ⟨hcl, -, -, hq, hm, -⟩ := joined_same s c t
  have hold : ∀ r, r ≠ s.nextRoom → (s.joined c t).room r = s.room r := fun r hne => by
    rw [joined_room ht, if_neg hne]
  have hnew : ((s.joined c t).room s.nextRoom).started = false := by
    rw [joined_room ht, if_pos rfl]
  have hp := (keeps_joined hc hr htn ht htc h.paired).1
  refine ⟨hp, fun x r hx hE => ?_, fun m hmem => ?_⟩
  · obtain ⟨hxm, hroom, hst⟩ := hx
    have hne : r ≠ s.nextRoom := fun he => by
      rw [he, hnew] at hst
      cases hst
    rw [hold r hne] at hst
    rw [joined_client ht] at hroom
    rw [hcl] at hxm
    have hroom : (s.client x).room = some r := by
      split at hroom
      · exact absurd (Option.some.inj hroom).symm hne
      · exact hroom
    exact (h.told x r ⟨hxm, hroom, hst⟩ hE).congr (by rw [sentTo, sentTo, hq]) hm
  · rw [hm] at hmem
    obtain ⟨hst, hlt⟩ := h.begun m hmem
    rw [hold _ (Nat.ne_of_lt hlt), joined_nextRoom ht]
    exact ⟨hst, Nat.lt_succ_of_lt hlt⟩

/-- When a match starts, its members are still to be told. -/
theorem Informed.starting (h : Informed E s) (r : Nat) :
    Informed (E ++ (s.room r).members) (s.starting r) := by
  have hroom : ∀ k, ((s.starting r).room k).started = true → k = r ∨ (s.room k).started = true := by
    intro k hk
    by_cases hkr : k = r
    · exact Or.inl hkr
    · refine Or.inr ?_
      have : (s.starting r).room k = s.room k := if_neg hkr
      rwa [this] at hk
  refine ⟨(keeps_starting s r h.paired).1, fun c k hc hE => ?_, fun m hm => ?_⟩
  · obtain ⟨hcm, hck, hst⟩ := hc
    have hout : c ∉ (s.room r).members := fun hmem => hE (List.mem_append_right _ hmem)
    rcases hroom k hst with hkr | hst
    · obtain ⟨p, -, hm⟩ := h.paired.mates c k hck
      rw [hkr] at hm
      refine absurd ?_ hout
      rcases hm with hm | hm
      · rw [hm]; exact List.mem_cons_self
      · rw [hm]; exact List.mem_cons_of_mem _ List.mem_cons_self
    · exact (h.told c k ⟨hcm, hck, hst⟩ (fun hmem => hE (List.mem_append_left _ hmem))).congr rfl rfl
  · obtain ⟨hst, hlt⟩ := h.begun m hm
    refine ⟨?_, hlt⟩
    show (if m.room = r then { s.room m.room with started := true, seed := s.seeds s.nextSeed }
      else s.room m.room).started = true
    split
    · rfl
    · exact hst

end Informed

/-! ## What a send can do -/

/-- An invariant of a loop over members. -/
theorem eachMember_ind {P : Server σ → Prop} {f : Server σ → Nat → Nat → Server σ} {r : Nat}
    (hf : ∀ s i m, P s → m ∈ (s.room r).members → P (f s i m)) (n i : Nat) {s : Server σ} (h : P s) :
    P (eachMember f r n i s) := by
  induction n generalizing i s with
  | zero => exact h
  | succ n ih =>
    rw [eachMember]
    split
    · exact h
    · next m hm => exact ih _ (hf s i m h (List.mem_of_getElem? hm))

/-- A loop over two members, the first of which may end the room. -/
theorem eachMember_pair {f : Server σ → Nat → Nat → Server σ} {r a b : Nat} {s : Server σ}
    (hm : (s.room r).members = [a, b]) :
    (((f s 0 a).room r).members = [a, b] → eachMember f r 2 0 s = f (f s 0 a) 1 b) ∧
    (((f s 0 a).room r).members = [] → eachMember f r 2 0 s = f s 0 a) := by
  have h0 : eachMember f r 2 0 s = eachMember f r 1 1 (f s 0 a) := by
    rw [eachMember, hm]
    rfl
  rw [h0]
  constructor
  · intro h
    rw [eachMember, h]
    rfl
  · intro h
    rw [eachMember, h]
    rfl

theorem not_member_of_empty {s : Server σ} (h : Paired s) {r x : Nat}
    (he : (s.room r).members = []) : (s.client x).room ≠ some r := by
  intro hx
  obtain ⟨p, -, hm | hm⟩ := h.mates x r hx
  · rw [he] at hm
    cases hm
  · rw [he] at hm
    cases hm

variable [Transport σ]

theorem send_cases (s : Server σ) (c : Nat) (origin about : Option Nat) (data : List Byte) :
    ((s.client c).dead = true ∧ s.send c origin about data = s) ∨
    ∃ net, (s.client c).dead = false ∧
      ((Transport.send s.net c data = (net, .queued) ∧
          s.send c origin about data = { s with net }.push c origin about data) ∨
        (Transport.send s.net c data = (net, .backlog) ∧
          s.send c origin about data = { s with net }.drop c "transmit backlog exceeded") ∨
        (Transport.send s.net c data = (net, .error) ∧
          s.send c origin about data =
            ({ s with net }.push c origin about data).drop c "send error")) := by
  rw [send, sendVia]
  cases hd : (s.client c).dead with
  | true => exact Or.inl ⟨rfl, if_pos rfl⟩
  | false =>
    rw [if_neg Bool.false_ne_true]
    rcases Transport.send s.net c data with ⟨net, res⟩
    refine Or.inr ⟨net, rfl, ?_⟩
    cases res with
    | queued => exact Or.inl ⟨rfl, rfl⟩
    | backlog => exact Or.inr (Or.inl ⟨rfl, rfl⟩)
    | error => exact Or.inr (Or.inr ⟨rfl, rfl⟩)

/-- What drop() leaves alone, and what it takes away. -/
structure Shrunk (s s' : Server σ) : Prop where
  room : ∀ k, s'.room k = s.room k ∨ s'.room k = { s.room k with members := [] }
  client : ∀ x, (s'.client x).room = (s.client x).room ∨ (s'.client x).room = none
  names : ∀ x, (s'.client x).name = (s.client x).name
  same : s'.matched = s.matched ∧ s'.nextRoom = s.nextRoom ∧ s'.nextClient = s.nextClient ∧
    s'.autoGo = s.autoGo ∧ s'.delay = s.delay

omit [Transport σ] in
theorem Shrunk.of_eq {s s' : Server σ} (hr : s'.room = s.room)
    (hc : ∀ x, (s'.client x).room = (s.client x).room ∧ (s'.client x).name = (s.client x).name)
    (hs : s'.matched = s.matched ∧ s'.nextRoom = s.nextRoom ∧ s'.nextClient = s.nextClient ∧
      s'.autoGo = s.autoGo ∧ s'.delay = s.delay) : Shrunk s s' :=
  ⟨fun k => Or.inl (by rw [hr]), fun x => Or.inl (hc x).1, fun x => (hc x).2, hs⟩

omit [Transport σ] in
theorem Shrunk.refl (s : Server σ) : Shrunk s s :=
  .of_eq rfl (fun _ => ⟨rfl, rfl⟩) ⟨rfl, rfl, rfl, rfl, rfl⟩

omit [Transport σ] in
theorem Shrunk.trans {s s' s'' : Server σ} (h : Shrunk s s') (h' : Shrunk s' s'') : Shrunk s s'' where
  room k := by
    rcases h'.room k with h2 | h2
    · rw [h2]; exact h.room k
    · rw [h2]
      rcases h.room k with h1 | h1
      · rw [h1]; exact Or.inr rfl
      · rw [h1]; exact Or.inr rfl
  client x := by
    rcases h'.client x with h2 | h2
    · rw [h2]; exact h.client x
    · exact Or.inr h2
  names x := (h'.names x).trans (h.names x)
  same := ⟨h'.same.1.trans h.same.1, h'.same.2.1.trans h.same.2.1, h'.same.2.2.1.trans h.same.2.2.1,
    h'.same.2.2.2.1.trans h.same.2.2.2.1, h'.same.2.2.2.2.trans h.same.2.2.2.2⟩

omit [Transport σ] in
theorem Shrunk.started {s s' : Server σ} (h : Shrunk s s') (k : Nat) :
    (s'.room k).started = (s.room k).started := by
  rcases h.room k with h1 | h1
  · rw [h1]
  · rw [h1]

omit [Transport σ] in
theorem shrunk_kill (s : Server σ) (c : Nat) : Shrunk s (s.kill c) :=
  .of_eq rfl (fun x => ⟨kill_client_room s c x, kill_client_name s c x⟩) ⟨rfl, rfl, rfl, rfl, rfl⟩

omit [Transport σ] in
theorem shrunk_net (s : Server σ) (net : σ) : Shrunk s { s with net } :=
  .of_eq rfl (fun _ => ⟨rfl, rfl⟩) ⟨rfl, rfl, rfl, rfl, rfl⟩

omit [Transport σ] in
theorem shrunk_push (s : Server σ) (c : Nat) (origin about : Option Nat) (data : List Byte) :
    Shrunk s (s.push c origin about data) :=
  .of_eq rfl (fun _ => ⟨rfl, rfl⟩) ⟨rfl, rfl, rfl, rfl, rfl⟩

omit [Transport σ] in
theorem shrunk_unroom (s : Server σ) (r : Nat) : Shrunk s (s.unroom r) where
  room k := by
    rw [unroom_room]
    split
    · exact Or.inr rfl
    · exact Or.inl rfl
  client x := by
    rw [unroom_client]
    split
    · exact Or.inr rfl
    · exact Or.inl rfl
  names x := unroom_client_name s r x
  same := ⟨rfl, rfl, rfl, rfl, rfl⟩

theorem shrunk_sendSolo (s : Server σ) (c : Nat) (origin about : Option Nat) (data : List Byte) :
    Shrunk s (s.sendSolo c origin about data) := by
  rw [sendSolo, sendVia]
  split
  · exact .refl s
  · split
    · exact (shrunk_net s _).trans (shrunk_push _ _ _ _ _)
    · exact (shrunk_net s _).trans (shrunk_kill _ _)
    · exact ((shrunk_net s _).trans (shrunk_push _ _ _ _ _)).trans (shrunk_kill _ _)

theorem shrunk_drop {s : Server σ} (h : Paired s) {c : Nat} (hc : c < s.nextClient) (why : String) :
    Shrunk s (s.drop c why) := by
  rcases h.drop_cases hc why with ⟨-, hs⟩ | ⟨-, -, hs⟩ | ⟨r, p, -, -, -, -, hs⟩
  · rw [hs]
    exact .refl s
  · rw [hs]
    exact shrunk_kill s c
  · rw [hs]
    exact ((shrunk_unroom s r).trans (shrunk_kill _ c)).trans (shrunk_sendSolo _ _ _ _ _)

theorem shrunk_send {s : Server σ} (h : Paired s) {c : Nat} (hc : c < s.nextClient)
    (origin about : Option Nat) (data : List Byte) : Shrunk s (s.send c origin about data) := by
  have hnet : ∀ net, Paired { s with net } := fun net => (keeps_net s net h).1
  have hpush : ∀ net, Paired ({ s with net }.push c origin about data) := fun net =>
    (keeps_push _ c origin about data (hnet net)).1
  rcases send_cases s c origin about data with ⟨-, hs⟩ | ⟨net, -, ⟨-, hs⟩ | ⟨-, hs⟩ | ⟨-, hs⟩⟩
  · rw [hs]
    exact .refl s
  · rw [hs]
    exact (shrunk_net s net).trans (shrunk_push _ _ _ _ _)
  · rw [hs]
    exact (shrunk_net s net).trans (shrunk_drop (hnet net) (by exact hc) _)
  · rw [hs]
    exact ((shrunk_net s net).trans (shrunk_push _ _ _ _ _)).trans
      (shrunk_drop (hpush net) (by exact hc) _)

/-- Dropping a member leaves the room's members without a room. -/
theorem drop_idle {s : Server σ} (h : Paired s) {c r : Nat} (hc : c < s.nextClient)
    (hd : (s.client c).dead = false) (hr : (s.client c).room = some r) (why : String) {x : Nat}
    (hx : x ∈ (s.room r).members) : ((s.drop c why).client x).room = none := by
  rcases h.drop_cases hc why with ⟨hdead, -⟩ | ⟨-, hnone, -⟩ | ⟨r', p, -, hr', -, -, hs⟩
  · rw [hd] at hdead
    cases hdead
  · rw [hr] at hnone
    cases hnone
  · rw [hr] at hr'
    rw [← Option.some.inj hr'] at hs
    rw [hs]
    have hroom : (((s.unroom r).kill c).client x).room = none := by
      rw [kill_client_room]
      exact solo_unroom hx
    rcases (shrunk_sendSolo ((s.unroom r).kill c) p none (some r) (s.farewell c r)).client x with h1 | h1
    · rw [h1]; exact hroom
    · exact h1

/-- Dropping a member empties its room. -/
theorem drop_empty {s : Server σ} (h : Paired s) {c r : Nat} (hc : c < s.nextClient)
    (hd : (s.client c).dead = false) (hr : (s.client c).room = some r) (why : String) :
    ((s.drop c why).room r).members = [] := by
  rcases h.drop_cases hc why with ⟨hdead, -⟩ | ⟨-, hnone, -⟩ | ⟨r', p, -, hr', -, -, hs⟩
  · rw [hd] at hdead
    cases hdead
  · rw [hr] at hnone
    cases hnone
  · rw [hr] at hr'
    rw [← Option.some.inj hr'] at hs
    have hroom : (((s.unroom r).kill c).room r).members = [] := by
      rw [kill_room, unroom_room, if_pos rfl]
    rw [hs]
    rcases (shrunk_sendSolo ((s.unroom r).kill c) p none (some r) (s.farewell c r)).room r with h1 | h1
    · rw [h1]; exact hroom
    · rw [h1]

/-- Sending to a member: either nobody is dropped, or the room is gone. -/
theorem send_member {s : Server σ} (h : Paired s) {m r : Nat} (hm : m ∈ (s.room r).members)
    (origin about : Option Nat) (data : List Byte) :
    ((s.send m origin about data).room r).members = [] ∨
      (s.send m origin about data).client = s.client := by
  have hn := h.known_member hm
  have hr := h.member r m hm
  rcases send_cases s m origin about data with ⟨-, hs⟩ | ⟨net, hd, ⟨-, hs⟩ | ⟨-, hs⟩ | ⟨-, hs⟩⟩
  · exact Or.inr (by rw [hs])
  · exact Or.inr (by rw [hs]; rfl)
  · rw [hs]
    exact Or.inl (drop_empty (keeps_net s net h).1 hn hd hr _)
  · rw [hs]
    exact Or.inl (drop_empty (keeps_push _ m origin about data (keeps_net s net h).1).1 hn hd hr _)

/-! ## Everybody stays informed -/

section InformedOps
variable {E : List Nat} {s : Server σ}

theorem Informed.sendSolo (h : Informed E s) {c : Nat} (hc : c < s.nextClient)
    (hr : (s.client c).room = none) (origin about : Option Nat) (data : List Byte) :
    Informed E (s.sendSolo c origin about data) := by
  have hidle : ∀ r, s.Plays c r → c ∈ E := fun r hp => by
    have hroom := hp.2.1
    rw [hr] at hroom
    cases hroom
  rw [Server.sendSolo, sendVia]
  split
  · exact h
  · split
    · exact (h.net _).push_idle (by exact hidle) _ _ _
    · exact (h.net _).kill hc
    · exact ((h.net _).push_idle (by exact hidle) _ _ _).kill hc

theorem Informed.drop (h : Informed E s) {c : Nat} (hc : c < s.nextClient) (why : String) :
    Informed E (s.drop c why) := by
  rcases h.paired.drop_cases hc why with ⟨-, hs⟩ | ⟨-, -, hs⟩ | ⟨r, p, -, -, -, hm, hs⟩
  · rw [hs]
    exact h
  · rw [hs]
    exact h.kill hc
  · have hpm : p ∈ (s.room r).members := by
      rcases hm with hm | hm
      · rw [hm]; exact List.mem_cons_of_mem _ List.mem_cons_self
      · rw [hm]; exact List.mem_cons_self
    have hp : (((s.unroom r).kill c).client p).room = none := by
      rw [kill_client_room]
      exact solo_unroom hpm
    rw [hs]
    exact ((h.unroom r).kill hc).sendSolo (h.paired.known_member hpm) hp none (some r) _

/-- Sending to a client that does not play. -/
theorem Informed.send_idle (h : Informed E s) {c : Nat} (hc : c < s.nextClient)
    (hidle : ∀ r, s.Plays c r → c ∈ E) (origin about : Option Nat) (data : List Byte) :
    Informed E (s.send c origin about data) := by
  rcases send_cases s c origin about data with ⟨-, hs⟩ | ⟨net, -, ⟨-, hs⟩ | ⟨-, hs⟩ | ⟨-, hs⟩⟩
  · rw [hs]; exact h
  · rw [hs]; exact (h.net net).push_idle hidle _ _ _
  · rw [hs]; exact (h.net net).drop hc _
  · rw [hs]; exact ((h.net net).push_idle hidle _ _ _).drop hc _

theorem Informed.send_plain (h : Informed E s) {c : Nat} (hc : c < s.nextClient)
    (origin about : Option Nat) {data : List Byte}
    (hplain : ∀ q : Sent, q.bytes = data → ¬ q.Membership ∧ q.isRelayed = false) :
    Informed E (s.send c origin about data) := by
  rcases send_cases s c origin about data with ⟨-, hs⟩ | ⟨net, -, ⟨-, hs⟩ | ⟨-, hs⟩ | ⟨-, hs⟩⟩
  · rw [hs]; exact h
  · rw [hs]; exact (h.net net).push_plain c _ _ hplain
  · rw [hs]; exact (h.net net).drop hc _
  · rw [hs]; exact ((h.net net).push_plain c _ _ hplain).drop hc _

/-- Telling a member, or losing it: either way it need not be left out any more. -/
theorem Informed.tell {m : Nat} (h : Informed (m :: E) s) (hm : m < s.nextClient)
    (origin about : Option Nat) (data : List Byte)
    (htold : ∀ (net : σ) r, s.Plays m r → Told ({ s with net }.push m origin about data) m r) :
    Informed E (s.send m origin about data) := by
  have hpush : ∀ net, Informed (m :: E) ({ s with net }.push m origin about data) := fun net =>
    (h.net net).push_idle (fun _ _ => List.mem_cons_self) _ _ _
  -- a client that does not play any more may be forgotten
  have hforget : ∀ s' : Server σ, Informed (m :: E) s' → (∀ r, ¬ s'.Plays m r) → Informed E s' :=
    fun s' h' hno => ⟨h'.paired, fun c r hc hE => h'.told c r hc (by
      rw [List.mem_cons, not_or]
      exact ⟨fun hcm => hno r (hcm ▸ hc), hE⟩), h'.begun⟩
  have hdrop : ∀ (s' : Server σ) (why : String), Informed (m :: E) s' → (s'.client m).dead = false →
      m < s'.nextClient → Informed E (s'.drop m why) := by
    intro s' why h' hd hmn
    refine hforget _ (h'.drop hmn why) (fun r hp => ?_)
    have hdead : ((s'.drop m why).client m).dead = true :=
      dead_dropN s'.clients.length s' m why (Or.inr rfl)
    rw [(h'.drop hmn why).paired.live m hp.1] at hdead
    cases hdead
  rcases send_cases s m origin about data with ⟨hd, hs⟩ | ⟨net, hd, ⟨-, hs⟩ | ⟨-, hs⟩ | ⟨-, hs⟩⟩
  · rw [hs]
    refine hforget s h (fun r hp => ?_)
    rw [h.paired.live m hp.1] at hd
    cases hd
  · rw [hs]
    refine ⟨(hpush net).paired, fun c r hc hE => ?_, (hpush net).begun⟩
    by_cases hcm : c = m
    · rw [hcm] at hc ⊢
      exact htold net r hc
    · exact (hpush net).told c r hc (by
        rw [List.mem_cons, not_or]
        exact ⟨hcm, hE⟩)
  · rw [hs]
    exact hdrop { s with net } _ (h.net net) hd hm
  · rw [hs]
    exact hdrop ({ s with net }.push m origin about data) _ (hpush net) hd hm

/-- ROOM goes to members of a room that has not started. -/
theorem Informed.roomBroadcast (h : Informed E s) {r : Nat} (hst : (s.room r).started = false) :
    Informed E (s.roomBroadcast r) ∧ Shrunk s (s.roomBroadcast r) := by
  refine (eachMember_ind (P := fun s' => (Informed E s' ∧ Shrunk s s') ∧ (s'.room r).started = false)
    (fun s' i m hs' hm => ?_) _ _ ⟨⟨h, .refl s⟩, hst⟩).1
  obtain ⟨⟨h', hsh⟩, hst'⟩ := hs'
  have hn := h'.paired.known_member hm
  have hsend := shrunk_send h'.paired hn none (some r)
    (frame tRoom (UInt8.ofNat (s.room r).members.length :: s.roster r))
  refine ⟨⟨h'.send_idle hn (fun k hp => ?_) none (some r) _, hsh.trans hsend⟩, ?_⟩
  · have hk := h'.paired.member r m hm
    rw [hp.2.1] at hk
    have := hp.2.2
    rw [Option.some.inj hk, hst'] at this
    cases this
  · exact (hsend.started r).trans hst'

omit [Transport σ] in
theorem starting_members (s : Server σ) (r k : Nat) :
    ((s.starting r).room k).members = (s.room k).members := by
  show (if k = r then { s.room k with started := true, seed := s.seeds s.nextSeed }
    else s.room k).members = _
  split <;> rfl

/-- The START for seat 0. -/
def tellFirst (s : Server σ) (r a : Nat) : Server σ :=
  (s.starting r).send a none (some r) (s.startFrame r 0)

/-- The START for seat 1 follows only if seat 0 is still there. -/
theorem startRoom_pair (h : Paired s) {r a b : Nat} (hm : (s.room r).members = [a, b])
    (hdelay : ¬ (s.delay < 0 ∨ 255 < s.delay)) :
    (((s.tellFirst r a).room r).members = [a, b] ∧
      s.startRoom r = ((s.tellFirst r a).send b none (some r) (s.startFrame r 1), none)) ∨
    (((s.tellFirst r a).room r).members = [] ∧ s.startRoom r = (s.tellFirst r a, none)) := by
  have hm0 : ((s.starting r).room r).members = [a, b] := (starting_members s r r).trans hm
  have h0 := (keeps_starting s r h).1
  have ha : a ∈ ((s.starting r).room r).members := by rw [hm0]; exact List.mem_cons_self
  have hsh := shrunk_send h0 (h0.known_member ha) none (some r) (s.startFrame r 0)
  obtain ⟨hgo, hend⟩ := eachMember_pair (f := fun s' i m => s'.send m none (some r) (s.startFrame r i))
    hm0
  rw [startRoom_eq, if_neg hdelay, hm]
  rcases hsh.room r with hroom | hroom
  · have hm1 : ((s.tellFirst r a).room r).members = [a, b] := by
      rw [tellFirst, hroom]; exact hm0
    exact Or.inl ⟨hm1, congrArg (·, none) (hgo hm1)⟩
  · have hm1 : ((s.tellFirst r a).room r).members = [] := by rw [tellFirst, hroom]
    exact Or.inr ⟨hm1, congrArg (·, none) (hend hm1)⟩

omit [Transport σ] in
/-- START tells a member of the new match: nothing has been submitted there yet. -/
theorem Informed.told_member (h : Informed [] s) {r : Nat} (hst : (s.room r).started = false)
    {s' : Server σ} (hp : Paired s') (hmat : s'.matched = s.matched) {x : Nat}
    (hx : x ∈ (s'.room r).members) (seat : Nat) (net : σ) (k : Nat) (hpl : s'.Plays x k) :
    Told ({ s' with net }.push x none (some r) (s.startFrame r seat)) x k := by
  have hnone : s'.submitted r x = [] := by
    rw [submitted, hmat, List.filter_eq_nil_iff]
    intro m hmem hcond
    rw [decide_eq_true_eq] at hcond
    have := (h.begun m hmem).1
    rw [hcond.1, hst] at this
    cases this
  have hk := hp.member r x hx
  rw [hpl.2.1] at hk
  rw [Option.some.inj hk]
  exact told_start hnone

theorem Informed.tellFirst (h : Informed [] s) {r a b : Nat} (hm : (s.room r).members = [a, b])
    (hst : (s.room r).started = false) : Informed [b] (s.tellFirst r a) := by
  have h0 : Informed ([] ++ (s.room r).members) (s.starting r) := h.starting r
  rw [List.nil_append, hm] at h0
  have ha : a ∈ ((s.starting r).room r).members := by
    rw [starting_members, hm]; exact List.mem_cons_self
  exact h0.tell (h0.paired.known_member ha) none (some r) (s.startFrame r 0)
    (fun net k hpl => h.told_member hst h0.paired rfl ha 0 net k hpl)

/-- START to both members of a new match. -/
theorem Informed.startRoom (h : Informed [] s) {r a b : Nat} (hm : (s.room r).members = [a, b])
    (hst : (s.room r).started = false) (hdelay : ¬ (s.delay < 0 ∨ 255 < s.delay)) :
    Informed [] (s.startRoom r).1 := by
  have h1 := h.tellFirst hm hst
  have h0 := (keeps_starting s r h.paired).1
  have ha : a ∈ ((s.starting r).room r).members := by
    rw [starting_members, hm]; exact List.mem_cons_self
  have hsh := shrunk_send h0 (h0.known_member ha) none (some r) (s.startFrame r 0)
  rcases startRoom_pair h.paired hm hdelay with ⟨hm1, hs⟩ | ⟨hm1, hs⟩
  · have hb : b ∈ ((s.tellFirst r a).room r).members := by
      rw [hm1]; exact List.mem_cons_of_mem _ List.mem_cons_self
    rw [hs]
    exact h1.tell (h1.paired.known_member hb) none (some r) (s.startFrame r 1)
      (fun net k hpl => h.told_member hst h1.paired hsh.same.1 hb 1 net k hpl)
  · rw [hs]
    refine h1.forget (fun x hx k hpl => ?_)
    rw [List.mem_singleton.mp hx] at hpl
    -- `b` was in `r`, which is empty now
    have hbr : ((s.starting r).client b).room = some r := h0.member r b (by
      rw [starting_members, hm]; exact List.mem_cons_of_mem _ List.mem_cons_self)
    rcases hsh.client b with hcl | hcl
    · exact not_member_of_empty h1.paired hm1 (hcl.trans hbr)
    · rw [show ((s.starting r).send a none (some r) (s.startFrame r 0)) = s.tellFirst r a from rfl,
        hpl.2.1] at hcl
      cases hcl

end InformedOps

/-! ## What one call does -/

/-- `start_room`, and the drop of the caller if it raises. -/
def startFor (s : Server σ) (c r : Nat) : Server σ :=
  match (s.startRoom r).2 with
  | none => (s.startRoom r).1
  | some e => (s.startRoom r).1.drop c e

/-- The server and the room with which a call gets to start_room(), if it does. -/
def starts (x : Call σ) : Option (Server σ × Nat) :=
  if x.ftype = tJoin then
    if (x.srv.client x.client).name = none ∨ (x.srv.client x.client).room ≠ none then none
    else
      match x.srv.joinTarget x.client (rstrip (decodeAscii x.payload)) with
      | none => none
      | some t =>
        let r := (x.srv.roomFor t).2
        let s := (x.srv.joined x.client t).roomBroadcast r
        if s.autoGo ≠ 0 ∧ s.autoGo ≤ (s.room r).members.length then some (s, r) else none
  else if x.ftype = tGo then
    match (x.srv.client x.client).room with
    | none => none
    | some r =>
      let members := (x.srv.room r).members
      if (x.srv.room r).started ∨ members.idxOf x.client ≠ 0 then none
      else if ¬ (2 ≤ members.length ∧ members.length ≤ maxSeats) then none
      else some (x.srv, r)
  else none

/-- Everything a call can come to. -/
inductive Handled (x : Call σ) : Server σ → Prop
  | relayed (ht : x.ftype ∈ relayTypes) : Handled x (x.srv.relay x.client x.ftype x.payload)
  | renamed (name : Str) : Handled x ((x.srv.renamed x.client name).onList x.client)
  | listed : Handled x (x.srv.onList x.client)
  | nothing : Handled x x.srv
  | dropped (why : String) : Handled x (x.srv.drop x.client why)
  | ponged : Handled x (x.srv.send x.client none none (frame tPong []))
  | joined (name : Str) (t : Nat) (hr : (x.srv.client x.client).room = none)
      (ht : x.srv.joinTarget x.client name = some t) :
      Handled x ((x.srv.joined x.client t).roomBroadcast (x.srv.roomFor t).2)
  | started (s : Server σ) (r : Nat) (hs : starts x = some (s, r)) :
      Handled x (s.startFor x.client r)

/-- The server after handle() and the drop of the client if it raised. -/
def caught (c : Nat) (out : Server σ × Option String) : Server σ :=
  match out.2 with
  | none => out.1
  | some e => out.1.drop c e

theorem handled_join {x : Call σ} (ht : x.ftype = tJoin) :
    Handled x (caught x.client (x.srv.onJoin x.client x.payload)) := by
  have hs : starts x = if (x.srv.client x.client).name = none ∨
      (x.srv.client x.client).room ≠ none then none
    else
      match x.srv.joinTarget x.client (rstrip (decodeAscii x.payload)) with
      | none => none
      | some t =>
        let r := (x.srv.roomFor t).2
        let s := (x.srv.joined x.client t).roomBroadcast r
        if s.autoGo ≠ 0 ∧ s.autoGo ≤ (s.room r).members.length then some (s, r) else none := by
    rw [starts, if_pos ht]
  unfold onJoin
  split_ifs with hname hroom
  · exact .dropped _
  · exact .nothing
  · rw [if_neg (not_or.mpr ⟨hname, hroom⟩)] at hs
    split
    · exact .listed
    · next t htarget =>
      rw [htarget] at hs
      rw [join_eq]
      dsimp only at hs ⊢
      split
      · next hgo =>
        rw [if_pos hgo] at hs
        exact .started _ _ hs
      · exact .joined _ t (not_not.mp hroom) htarget

theorem handled_go {x : Call σ} (ht : x.ftype = tGo) :
    Handled x (caught x.client (x.srv.onGo x.client)) := by
  unfold onGo
  split
  · exact .nothing
  · next r hr =>
    split
    · exact .nothing
    · next h1 =>
      split
      · exact .nothing
      · next h2 =>
        refine .started x.srv r ?_
        rw [starts, if_neg (by rw [ht]; decide), if_pos ht, hr]
        dsimp only
        rw [if_neg h1, if_neg h2]

theorem handled_spec (x : Call σ) :
    Handled x ((host x.client).handled x.srv x.ftype x.payload) := by
  have hcaught : (host x.client).handled x.srv x.ftype x.payload =
      caught x.client (x.srv.handle x.client x.ftype x.payload) := handled_eq _ _ _ _
  rw [hcaught, handle]
  split_ifs with h1 h2 h3 h4 h5 h6 h7
  · exact .relayed h1
  · rw [onHello]
    dsimp only
    split_ifs
    · exact .dropped _
    · exact .dropped _
    · exact .dropped _
    · exact .renamed _
  · exact .listed
  · exact handled_join h4
  · exact handled_go h5
  · exact .dropped _
  · exact .ponged
  · exact .dropped _

/-- The room a call starts holds two members, the caller among them, and has not started. -/
structure Ready (s : Server σ) (c r : Nat) : Prop where
  paired : Paired s
  live : (s.client c).dead = false
  fresh : (s.room r).started = false
  pair : ∃ a b, a ≠ b ∧ (s.room r).members = [a, b] ∧ (c = a ∨ c = b)

omit [Transport σ] in
theorem ready_go {s : Server σ} (h : Paired s) {c r : Nat} (hc : c ∈ s.clients)
    (hr : (s.client c).room = some r) (hst : (s.room r).started = false) : Ready s c r where
  paired := h
  live := h.live c hc
  fresh := hst
  pair := by
    obtain ⟨p, hp, hm | hm⟩ := h.mates c r hr
    · exact ⟨c, p, hp.symm, hm, Or.inl rfl⟩
    · exact ⟨p, c, hp, hm, Or.inr rfl⟩

/-- What the broadcast leaves of the room: if it is still in use, nobody was dropped. -/
theorem shrunk_roomBroadcast {s : Server σ} (h : Paired s) (r : Nat) :
    Shrunk s (s.roomBroadcast r) ∧ (((s.roomBroadcast r).room r).members = [] ∨
      (s.roomBroadcast r).client = s.client) := by
  refine (eachMember_ind (P := fun s' => Paired s' ∧ Shrunk s s' ∧
    ((s'.room r).members = [] ∨ s'.client = s.client)) (fun s' i m hs' hm => ?_) _ _
    ⟨h, .refl s, Or.inr rfl⟩).2
  obtain ⟨hp, hsh, hcl⟩ := hs'
  have hn := hp.known_member hm
  refine ⟨(keeps_send hn _ _ _ hp).1, hsh.trans (shrunk_send hp hn _ _ _), ?_⟩
  rcases hcl with he | hcl
  · rw [he] at hm
    exact absurd hm List.not_mem_nil
  · rcases send_member hp hm none (some r)
      (frame tRoom (UInt8.ofNat (s.room r).members.length :: s.roster r)) with he | he
    · exact Or.inl he
    · exact Or.inr (he.trans hcl)

theorem ready_join {s : Server σ} {c t r : Nat} (hp : Paired (s.joined c t))
    (hd : (s.client c).dead = false) (ht : (s.client t).room = none) (htc : t ≠ c)
    (hr : r = s.nextRoom) (hm : (((s.joined c t).roomBroadcast r).room r).members ≠ []) :
    Ready ((s.joined c t).roomBroadcast r) c r where
  paired := (keeps_roomBroadcast _ r hp).1
  live := by
    rw [(shrunk_roomBroadcast hp r).2.resolve_left hm, joined_client_dead ht]
    exact hd
  fresh := by
    rw [(shrunk_roomBroadcast hp r).1.started, joined_room ht, if_pos hr]
  pair := by
    rcases (shrunk_roomBroadcast hp r).1.room r with h1 | h1
    · refine ⟨t, c, htc, ?_, Or.inr rfl⟩
      rw [h1, joined_room ht, if_pos hr]
    · rw [h1] at hm
      exact absurd rfl hm

omit [Transport σ] in
theorem roomFor_solo_room {s : Server σ} {t : Nat} (ht : (s.client t).room = none) :
    (s.roomFor t).2 = s.nextRoom := by
  rw [roomFor_solo ht]

/-- Where a call gets to start_room(). -/
theorem starts_cases {x : Call σ} (h : Paired x.srv) (hc : x.client ∈ x.srv.clients)
    {s : Server σ} {r : Nat} (hs : starts x = some (s, r)) :
    Ready s x.client r ∧ (s = x.srv ∨
      ∃ t, t < x.srv.nextClient ∧ (x.srv.client t).room = none ∧ t ≠ x.client ∧
        (x.srv.client x.client).room = none ∧ s = (x.srv.joined x.client t).roomBroadcast r ∧
        r = x.srv.nextRoom) := by
  unfold starts at hs
  split_ifs at hs with hjoin hidle hgo
  · rw [not_or, not_not] at hidle
    split at hs
    · cases hs
    · next t htarget =>
      obtain ⟨hl, htc, -, hsolo⟩ := h.joinTarget_solo htarget
      have htn := h.named _ (lookup_mem hl)
      dsimp only at hs
      split at hs
      · next hlen =>
        obtain ⟨rfl, rfl⟩ := Prod.mk.inj (Option.some.inj hs)
        have hroom := roomFor_solo_room hsolo
        refine ⟨ready_join (keeps_joined (h.known hc) hidle.2 htn hsolo htc h).1 (h.live _ hc) hsolo htc
            hroom ?_,
          Or.inr ⟨t, htn, hsolo, htc, hidle.2, rfl, hroom⟩⟩
        intro hempty
        rw [hempty] at hlen
        exact hlen.1 (Nat.le_zero.mp hlen.2)
      · cases hs
  · split at hs
    · cases hs
    · next r' hr =>
      dsimp only at hs
      split_ifs at hs with h1 h2
      · obtain ⟨rfl, rfl⟩ := Prod.mk.inj (Option.some.inj hs)
        rw [not_or] at h1
        exact ⟨ready_go h hc hr (Bool.eq_false_iff.mpr h1.1), Or.inl rfl⟩

/-- The frame goes to the one other member. -/
theorem relay_cases {s : Server σ} (h : Paired s) (c : Nat) (ftype : Byte) (payload : List Byte) :
    (s.relay c ftype payload = s ∧ ∀ r, (s.client c).room = some r → (s.room r).started = false) ∨
    ∃ r p, (s.client c).room = some r ∧ (s.room r).started = true ∧ p ≠ c ∧ p ∈ (s.room r).members ∧
      s.relay c ftype payload =
        (s.submit ⟨c, r, ftype, payload⟩).send p (some c) (some r) (frame ftype payload) := by
  unfold relay
  split
  · next hnone =>
    refine Or.inl ⟨rfl, fun r hr => ?_⟩
    rw [hnone] at hr
    cases hr
  · next r hr =>
    split
    · next hst =>
      obtain ⟨p, hp, hm⟩ := h.mates c r hr
      have h0 := (keeps_submit s ⟨c, r, ftype, payload⟩ h).1
      have hpm : p ∈ (s.room r).members := by
        rcases hm with hm | hm
        · rw [hm]; exact List.mem_cons_of_mem _ List.mem_cons_self
        · rw [hm]; exact List.mem_cons_self
      refine Or.inr ⟨r, p, hr, hst, hp, hpm, ?_⟩
      have hlen : (s.room r).members.length = 2 := by
        rcases hm with hm | hm
        · rw [hm]; rfl
        · rw [hm]; rfl
      change eachMember (fun s _ m => if m = c then s else s.send m (some c) (some r)
        (frame ftype payload)) r (s.room r).members.length 0 (s.submit ⟨c, r, ftype, payload⟩) = _
      rw [hlen]
      have hsh := shrunk_send h0 (h.known_member hpm) (some c) (some r) (frame ftype payload)
      rcases hm with hm | hm
      · obtain ⟨hgo, -⟩ := eachMember_pair (s := s.submit ⟨c, r, ftype, payload⟩) (f := fun s _ m =>
          if m = c then s else s.send m (some c) (some r) (frame ftype payload)) hm
        refine (hgo ?_).trans ?_
        · rw [if_pos rfl]; exact hm
        · rw [if_pos rfl, if_neg hp]
      · obtain ⟨hgo, hend⟩ := eachMember_pair (s := s.submit ⟨c, r, ftype, payload⟩) (f := fun s _ m =>
          if m = c then s else s.send m (some c) (some r) (frame ftype payload)) hm
        rw [if_neg hp] at hgo hend
        rcases hsh.room r with h1 | h1
        · refine (hgo (by rw [h1]; exact hm)).trans ?_
          rw [if_pos rfl]
        · exact hend (by rw [h1])
    · next hst =>
      refine Or.inl ⟨rfl, fun r' hr' => ?_⟩
      rw [hr] at hr'
      rw [← Option.some.inj hr']
      exact Bool.eq_false_iff.mpr hst

/-! ## Runs -/

section Runs
variable {s : Server σ}

theorem plain_lobby (payload : List Byte) (q : Sent) (hq : q.bytes = frame tLobby payload) :
    ¬ q.Membership ∧ q.isRelayed = false := by
  have ht : q.ftype = tLobby := by rw [Sent.ftype, hq]; rfl
  rw [Sent.Membership, Sent.isRelayed, ht]
  decide

theorem plain_pong (payload : List Byte) (q : Sent) (hq : q.bytes = frame tPong payload) :
    ¬ q.Membership ∧ q.isRelayed = false := by
  have ht : q.ftype = tPong := by rw [Sent.ftype, hq]; rfl
  rw [Sent.Membership, Sent.isRelayed, ht]
  decide

theorem Informed.onList {E : List Nat} (h : Informed E s) {c : Nat} (hc : c < s.nextClient) :
    Informed E (s.onList c) :=
  h.send_plain hc none none (plain_lobby _)

theorem Informed.renamed {E : List Nat} (h : Informed E s) {c : Nat} (hc : c < s.nextClient)
    (name : Str) : Informed E (s.renamed c name) := by
  have h1 : Informed E (s.replaceOld c name) := by
    unfold Server.replaceOld
    split
    · next old hl =>
      split
      · exact h
      · exact h.drop (h.paired.named _ (lookup_mem hl)) _
    · exact h
  have hp := (keeps_renamed hc name h.paired).1
  have hroom : ∀ x, (((s.replaceOld c name).modClient c ({ · with name := some name })).client x).room =
      ((s.replaceOld c name).client x).room := by
    intro x
    rw [modClient]
    dsimp only
    split <;> rfl
  rw [renamed_eq] at hp ⊢
  refine h1.mono hp rfl rfl (fun x r hpl => ?_) (fun _ hst => hst) (Nat.le_refl _)
  exact ⟨hpl.1, (hroom x).symm.trans hpl.2.1, hpl.2.2⟩

theorem Informed.joinedTold {c t : Nat} (h : Informed [] s) (hc : c < s.nextClient)
    (hr : (s.client c).room = none) (htn : t < s.nextClient) (ht : (s.client t).room = none)
    (htc : t ≠ c) : Informed [] ((s.joined c t).roomBroadcast s.nextRoom) := by
  refine ((h.joined hc hr htn ht htc).roomBroadcast ?_).1
  rw [joined_room ht, if_pos rfl]

theorem Informed.startFor {c r : Nat} (h : Informed [] s) (hr : Ready s c r) :
    Informed [] (s.startFor c r) := by
  obtain ⟨a, b, -, hm, hcm⟩ := hr.pair
  unfold Server.startFor
  by_cases hdelay : s.delay < 0 ∨ 255 < s.delay
  · -- bytes() raises, the caller is dropped and the room with it
    have hs := startRoom_eq s r
    rw [if_pos hdelay] at hs
    rw [hs]
    dsimp only
    have h0 : Informed ([] ++ (s.room r).members) (s.starting r) := h.starting r
    rw [List.nil_append] at h0
    have hmem0 := starting_members s r r
    have hcmem : c ∈ ((s.starting r).room r).members := by
      rw [hmem0, hm]
      rcases hcm with rfl | rfl
      · exact List.mem_cons_self
      · exact List.mem_cons_of_mem _ List.mem_cons_self
    have hcn := h0.paired.known_member hcmem
    refine (h0.drop hcn _).forget (fun x hx k hpl => ?_)
    have hidle := drop_idle h0.paired hcn hr.live (h0.paired.member r c hcmem)
      "internal protocol error" (hmem0 ▸ hx)
    rw [hpl.2.1] at hidle
    cases hidle
  · have hs := startRoom_eq s r
    rw [if_neg hdelay] at hs
    have h1 := h.startRoom hm hr.fresh hdelay
    rw [hs] at h1 ⊢
    exact h1

theorem Informed.relay (h : Informed [] s) (c : Nat) {ftype : Byte} (ht : ftype ∈ relayTypes)
    (payload : List Byte) : Informed [] (s.relay c ftype payload) := by
  rcases relay_cases h.paired c ftype payload with ⟨hs, -⟩ | ⟨r, p, hr, hst, hp, hpm, hs⟩
  · rw [hs]
    exact h
  · have h0 : Informed [p] (s.submit ⟨c, r, ftype, payload⟩) := by
      refine ⟨(keeps_submit s _ h.paired).1, fun x k hx hE => ?_, fun m hm => ?_⟩
      · refine (h.told x k hx List.not_mem_nil).submitted_other ?_
        -- the room has no third member
        by_contra hno
        rw [not_or, not_not] at hno
        obtain ⟨hrk, hxc⟩ := hno
        replace hrk : r = k := hrk
        obtain ⟨q, -, hq⟩ := h.paired.mates x k hx.2.1
        have hcm := h.paired.mates c r hr
        obtain ⟨q', -, hq'⟩ := hcm
        rw [hrk] at hq' hpm
        have hxp : x ≠ p := fun he => hE (List.mem_singleton.mpr he)
        have hxm : x ∈ (s.room k).members := by
          rcases hq with hq | hq
          · rw [hq]; exact List.mem_cons_self
          · rw [hq]; exact List.mem_cons_of_mem _ List.mem_cons_self
        rcases hq' with hq' | hq'
        · rw [hq', List.mem_cons, List.mem_singleton] at hxm hpm
          rcases hxm with rfl | rfl
          · exact hxc rfl
          · exact hpm.elim hp (fun he => hxp he.symm)
        · rw [hq', List.mem_cons, List.mem_singleton] at hxm hpm
          rcases hxm with rfl | rfl
          · exact hpm.elim (fun he => hxp he.symm) hp
          · exact hxc rfl
      · rcases List.mem_append.mp hm with hm | hm
        · exact h.begun m hm
        · rw [List.mem_singleton.mp hm]
          exact ⟨hst, (h.paired.seated c r hr).2⟩
    rw [hs]
    refine h0.tell (h.paired.known_member hpm) (some c) (some r) _ (fun net k hpl => ?_)
    have hk : r = k := by
      have := h.paired.member r p hpm
      rw [show (s.client p).room = some k from hpl.2.1] at this
      exact (Option.some.inj this).symm
    have ht0 := h.told p k hpl List.not_mem_nil
    rw [← hk] at ht0 ⊢
    have ht1 : Told { s with net } p r := ht0.congr rfl rfl
    exact ht1.relayed (m := ⟨c, r, ftype, payload⟩) rfl hp.symm ht

theorem informed_handled (x : Call σ) (h : Informed [] x.srv) (hc : x.client ∈ x.srv.clients) :
    Informed [] ((host x.client).handled x.srv x.ftype x.payload) := by
  have hn := h.paired.known hc
  have hspec := handled_spec x
  generalize (host x.client).handled x.srv x.ftype x.payload = s' at hspec ⊢
  cases hspec with
  | relayed ht => exact h.relay _ ht _
  | renamed name =>
    refine (h.renamed hn name).onList ?_
    rw [(keeps_renamed hn name h.paired).2]
    exact hn
  | listed => exact h.onList hn
  | nothing => exact h
  | dropped why => exact h.drop hn why
  | ponged => exact h.send_plain hn none none (plain_pong _)
  | joined name t hr ht =>
    obtain ⟨hl, htc, -, hsolo⟩ := h.paired.joinTarget_solo ht
    rw [roomFor_solo_room hsolo]
    exact h.joinedTold hn hr (h.paired.named _ (lookup_mem hl)) hsolo htc
  | started s1 r hs =>
    obtain ⟨hready, hcase⟩ := starts_cases h.paired hc hs
    refine Informed.startFor ?_ hready
    rcases hcase with rfl | ⟨t, htn, hsolo, htc, hr, rfl, rfl⟩
    · exact h
    · exact h.joinedTold hn hr htn hsolo htc

theorem keeping_informed : Keeping (Informed [] : Server σ → Prop) (fun _ => True) where
  paired _ h := h.paired
  accept _ addr h := h.accept addr
  rx s rx h := h.mono (keeps_rx s rx h.paired).1 rfl rfl (fun _ _ h => h) (fun _ h => h)
    (Nat.le_refl _)
  flush s c h hc := by
    unfold flush
    split
    · exact h.net _
    · exact (h.net _).drop (by exact h.paired.known hc) _
  drop _ _ why h hc := h.drop hc why
  handled x h hc _ := informed_handled x h hc

omit [Transport σ] in
theorem informed_init (delay : Int) (autoGo : Nat) (seeds : Nat → UInt16) (net : σ) :
    Informed [] (init delay autoGo seeds net) where
  paired := paired_init delay autoGo seeds net
  told _ _ h := absurd h.1 List.not_mem_nil
  begun _ h := absurd h List.not_mem_nil

/-- In every reachable server every player has been told. -/
theorem informed_run (delay : Int) (autoGo : Nat) (seeds : Nat → UInt16) (net : σ)
    (es : List Event) : Informed [] ((init delay autoGo seeds net).run es) :=
  keeping_informed.run (informed_init delay autoGo seeds net) es (fun _ _ => trivial)

end Runs

end Server

end IntvBasketball.Relay
