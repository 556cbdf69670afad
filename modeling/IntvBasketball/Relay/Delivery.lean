/-
  What the Python relay delivers, down to the bytes a socket has taken.

  `Fed`: between two states of a server every frame was handed to send(), one after the
  other, and appended to its queue unless the backlog refused it. Everything but accept()
  and an EVENT_WRITE comes to that (`fed_handled`), so what holds of single sends holds of
  runs: only relay() queues frames of a relay type, for the one other member of a started
  room, and on the transport of buffers and sockets (`Net`) what a socket has taken,
  followed by what still waits, is what was queued.

  `relay_delivers` puts this beside `Told` of Relay.Match.
-/
import IntvBasketball.Relay.Match

namespace IntvBasketball.Relay

namespace Server
variable {σ : Type} [Transport σ]

/-! ## Frames handed to send() -/

/-- From one transport and queue to another by sends of frames with `P`. -/
inductive Fed (P : Sent → Prop) (start : σ × List Sent) : σ × List Sent → Prop
  | refl : Fed P start start
  | send {net : σ} {qs : List Sent} (h : Fed P start (net, qs)) (q : Sent) (hq : P q) :
      Fed P start ((Transport.send net q.dest q.bytes).1,
        if (Transport.send net q.dest q.bytes).2 = .backlog then qs else qs ++ [q])

theorem Fed.trans {P : Sent → Prop} {a b c : σ × List Sent} (h : Fed P a b) (h' : Fed P b c) :
    Fed P a c := by
  induction h' with
  | refl => exact h
  | send _ q hq ih => exact ih.send q hq

def Feeds (P : Sent → Prop) (s s' : Server σ) : Prop := Fed P (s.net, s.queued) (s'.net, s'.queued)

variable {P : Sent → Prop}

theorem Feeds.trans {s s' s'' : Server σ} (h : Feeds P s s') (h' : Feeds P s' s'') : Feeds P s s'' :=
  Fed.trans h h'

theorem Feeds.of_eq {s s' : Server σ} (hn : s'.net = s.net) (hq : s'.queued = s.queued) :
    Feeds P s s' := by
  rw [Feeds, hn, hq]
  exact .refl

theorem feeds_sendVia (s : Server σ) (c : Nat) (origin about : Option Nat) (data : List Byte)
    (hP : P ⟨c, origin, about, data⟩) {dropF : Server σ → Nat → String → Server σ}
    (hdrop : ∀ net why, Feeds P { s with net } (dropF { s with net } c why) ∧
      Feeds P ({ s with net }.push c origin about data)
        (dropF ({ s with net }.push c origin about data) c why)) :
    Feeds P s (s.sendVia dropF c origin about data) := by
  have hsend : Fed P (s.net, s.queued) _ := Fed.refl.send ⟨c, origin, about, data⟩ hP
  rw [sendVia]
  split
  · exact .refl
  · rcases hres : Transport.send s.net c data with ⟨net, res⟩
    rw [show Transport.send s.net (⟨c, origin, about, data⟩ : Sent).dest
      (⟨c, origin, about, data⟩ : Sent).bytes = (net, res) from hres] at hsend
    cases res with
    | queued => exact hsend
    | backlog => exact Fed.trans hsend (hdrop net _).1
    | error => exact Fed.trans hsend (hdrop net _).2

theorem feeds_sendSolo (s : Server σ) (c : Nat) (origin about : Option Nat) {data : List Byte}
    (hP : P ⟨c, origin, about, data⟩) : Feeds P s (s.sendSolo c origin about data) :=
  feeds_sendVia s c origin about data hP (fun _ _ => ⟨.of_eq rfl rfl, .of_eq rfl rfl⟩)

/-- Frames of the relay's own, and what `R` allows among those of a relay type. -/
def Allowed (R : Sent → Prop) (q : Sent) : Prop := q.isRelayed = true → R q

theorem allowed_own {R : Sent → Prop} {q : Sent} (ht : q.ftype ∉ relayTypes) : Allowed R q :=
  fun h => absurd (of_decide_eq_true h) ht

variable {R : Sent → Prop}

omit [Transport σ] in
theorem allowed_farewell (s : Server σ) (c r p : Nat) (origin about : Option Nat) :
    Allowed R ⟨p, origin, about, s.farewell c r⟩ := by
  refine allowed_own ?_
  show (s.farewell c r).getD 1 0 ∉ relayTypes
  rw [farewell]
  split
  · show tPeerLeft ∉ relayTypes
    decide
  · show tRoom ∉ relayTypes
    decide

theorem feeds_drop {s : Server σ} (h : Paired s) {c : Nat} (hc : c < s.nextClient) (why : String) :
    Feeds (Allowed R) s (s.drop c why) := by
  rcases h.drop_cases hc why with ⟨-, hs⟩ | ⟨-, -, hs⟩ | ⟨r, p, -, -, -, -, hs⟩
  · rw [hs]
    exact .refl
  · rw [hs]
    exact .of_eq rfl rfl
  · rw [hs]
    exact Fed.trans (b := (((s.unroom r).kill c).net, ((s.unroom r).kill c).queued))
      (Feeds.of_eq (s := s) rfl rfl) (feeds_sendSolo _ p none (some r) (allowed_farewell s c r p _ _))

theorem feeds_send {s : Server σ} (h : Paired s) {c : Nat} (hc : c < s.nextClient)
    (origin about : Option Nat) {data : List Byte} (hP : Allowed R ⟨c, origin, about, data⟩) :
    Feeds (Allowed R) s (s.send c origin about data) := by
  refine feeds_sendVia s c origin about data hP (fun net why => ⟨?_, ?_⟩)
  · exact feeds_drop (keeps_net s net h).1 hc why
  · exact feeds_drop (keeps_push _ c origin about data (keeps_net s net h).1).1 hc why

/-- A loop over members that sends frames of the relay's own. -/
theorem feeds_eachMember {r : Nat} (f : Nat → List Byte) (hf : ∀ i, (f i).getD 1 0 ∉ relayTypes)
    (n : Nat) {s : Server σ} (h : Paired s) :
    Feeds (Allowed R) s (eachMember (fun s i m => s.send m none (some r) (f i)) r n 0 s) :=
  (eachMember_ind (P := fun s' => Paired s' ∧ Feeds (Allowed R) s s') (fun s' i m hs' hm => by
    have hn := hs'.1.known_member hm
    exact ⟨(keeps_send hn _ _ _ hs'.1).1, hs'.2.trans (feeds_send hs'.1 hn none (some r)
      (allowed_own (q := ⟨m, none, some r, f i⟩) (hf i)))⟩) n 0 ⟨h, .refl⟩).2

theorem feeds_onList {s : Server σ} (h : Paired s) {c : Nat} (hc : c < s.nextClient) :
    Feeds (Allowed R) s (s.onList c) :=
  feeds_send h hc none none (allowed_own (by show tLobby ∉ relayTypes; decide))

theorem feeds_roomBroadcast {s : Server σ} (h : Paired s) (r : Nat) :
    Feeds (Allowed R) s (s.roomBroadcast r) :=
  feeds_eachMember (fun _ => frame tRoom (UInt8.ofNat (s.room r).members.length :: s.roster r))
    (fun _ => by show tRoom ∉ relayTypes; decide) _ h

theorem feeds_renamed {s : Server σ} (h : Paired s) (c : Nat) (name : Str) :
    Feeds (Allowed R) s (s.renamed c name) := by
  have h1 : Feeds (Allowed R) s (s.replaceOld c name) := by
    unfold replaceOld
    split
    · next old hl =>
      split
      · exact .refl
      · exact feeds_drop h (h.named _ (lookup_mem hl)) _
    · exact .refl
  rw [renamed_eq]
  exact Fed.trans h1 .refl

theorem feeds_startFor {s : Server σ} {c r : Nat} (hr : Ready s c r) :
    Feeds (Allowed R) s (s.startFor c r) := by
  have h0 := (keeps_starting s r hr.paired).1
  have hc : c < (s.starting r).nextClient := by
    obtain ⟨a, b, -, hm, hcm⟩ := hr.pair
    have hmem : c ∈ (s.room r).members := by
      rw [hm, List.mem_cons, List.mem_singleton]
      exact hcm
    exact hr.paired.known_member hmem
  have hstart : Feeds (Allowed R) s (s.starting r) := .of_eq rfl rfl
  unfold startFor
  rw [startRoom_eq]
  split_ifs
  · exact hstart.trans (feeds_drop h0 hc _)
  · exact hstart.trans (feeds_eachMember (s.startFrame r)
      (fun _ => by show tStart ∉ relayTypes; decide) _ h0)

/-- What relay() may queue in a call: the frame itself, for another member of the sender's
    started room. -/
def RightTo (x : Call σ) (q : Sent) : Prop :=
  x.ftype ∈ relayTypes ∧ q.bytes = frame x.ftype x.payload ∧ q.origin = some x.client ∧
  q.dest ≠ x.client ∧ ∃ r, (x.srv.client x.client).room = some r ∧
    (x.srv.client q.dest).room = some r ∧ (x.srv.room r).started = true ∧ q.about = some r

theorem feeds_handled (x : Call σ) (h : Paired x.srv) (hc : x.client ∈ x.srv.clients) :
    Feeds (Allowed (RightTo x)) x.srv ((host x.client).handled x.srv x.ftype x.payload) := by
  have hn := h.known hc
  have hjoin : ∀ t, t < x.srv.nextClient → (x.srv.client t).room = none → t ≠ x.client →
      (x.srv.client x.client).room = none → ∀ r,
      Feeds (Allowed (RightTo x)) x.srv ((x.srv.joined x.client t).roomBroadcast r) := by
    intro t htn hsolo htc hr r
    obtain ⟨-, -, -, hq, -, hnet⟩ := joined_same x.srv x.client t
    exact Feeds.trans (.of_eq hnet hq) (feeds_roomBroadcast (keeps_joined hn hr htn hsolo htc h).1 r)
  have hspec := handled_spec x
  generalize (host x.client).handled x.srv x.ftype x.payload = s' at hspec ⊢
  cases hspec with
  | relayed ht =>
    rcases relay_cases h x.client x.ftype x.payload with ⟨hs, -⟩ | ⟨r, p, hr, hst, hp, hpm, hs⟩
    · rw [hs]
      exact .refl
    · have hsub := (keeps_submit x.srv ⟨x.client, r, x.ftype, x.payload⟩ h).1
      have hnone : Feeds (Allowed (RightTo x)) x.srv
          (x.srv.submit ⟨x.client, r, x.ftype, x.payload⟩) := .of_eq rfl rfl
      rw [hs]
      exact hnone.trans
        (feeds_send hsub (h.known_member hpm) (some x.client) (some r)
          (fun _ => ⟨ht, rfl, rfl, hp, r, hr, h.member r p hpm, hst, rfl⟩))
  | renamed name =>
    exact (feeds_renamed h x.client name).trans (feeds_onList (keeps_renamed hn name h).1 (by
      rw [(keeps_renamed hn name h).2]
      exact hn))
  | listed => exact feeds_onList h hn
  | nothing => exact .refl
  | dropped why => exact feeds_drop h hn why
  | ponged => exact feeds_send h hn none none (allowed_own (by show tPong ∉ relayTypes; decide))
  | joined name t hr ht =>
    obtain ⟨hl, htc, -, hsolo⟩ := h.joinTarget_solo ht
    exact hjoin t (h.named _ (lookup_mem hl)) hsolo htc hr _
  | started s1 r hs =>
    obtain ⟨hready, hcase⟩ := starts_cases h hc hs
    refine Feeds.trans ?_ (feeds_startFor hready)
    rcases hcase with rfl | ⟨t, htn, hsolo, htc, hr, rfl, -⟩
    · exact .refl
    · exact hjoin t htn hsolo htc hr r

/-! ## What is submitted, and what is queued for it -/

/-- The frame a call submits to its room. -/
def submission (x : Call σ) : List Matched :=
  if x.ftype ∈ relayTypes then
    match (x.srv.client x.client).room with
    | none => []
    | some r => if (x.srv.room r).started then [⟨x.client, r, x.ftype, x.payload⟩] else []
  else []

/-- The frames of a relay type that a call queues. -/
def relayedBy (x : Call σ) : List Sent :=
  (((host x.client).handled x.srv x.ftype x.payload).queued.drop x.srv.queued.length).filter
    Sent.isRelayed

theorem Fed.appends {P : Sent → Prop} {a b : σ × List Sent} (h : Fed P a b) :
    ∃ new, b.2 = a.2 ++ new ∧ ∀ q ∈ new, P q := by
  induction h with
  | refl => exact ⟨[], (List.append_nil _).symm, fun q hq => absurd hq List.not_mem_nil⟩
  | send _ q hq ih =>
    obtain ⟨new, hs, hnew⟩ := ih
    dsimp only at hs ⊢
    split
    · exact ⟨new, hs, hnew⟩
    · refine ⟨new ++ [q], by rw [hs, List.append_assoc], fun q' hq' => ?_⟩
      rcases List.mem_append.mp hq' with hq' | hq'
      · exact hnew q' hq'
      · rw [List.mem_singleton.mp hq']
        exact hq

/-- Nothing but the relay's own frames is queued. -/
theorem Feeds.own {s s' : Server σ} (h : Feeds (Allowed (fun _ => False)) s s') :
    s'.queued.filter Sent.isRelayed = s.queued.filter Sent.isRelayed := by
  obtain ⟨new, hs, hnew⟩ := Fed.appends h
  have hnil : new.filter Sent.isRelayed = [] := List.filter_eq_nil_iff.mpr (fun q hq => hnew q hq)
  rw [show s'.queued = s.queued ++ new from hs, List.filter_append, hnil, List.append_nil]

theorem keeping_paired : Keeping (Paired : Server σ → Prop) (fun _ => True) where
  paired _ h := h
  accept _ addr h := paired_accept h addr
  rx s rx h := (keeps_rx s rx h).1
  flush _ _ h hc := (keeps_flush (h.known hc) h).1
  drop _ _ why h hc := (keeps_drop hc why h).1
  handled x h hc _ := (keeps_handled (h.known hc) x.ftype x.payload h).1

theorem tracking_relayed :
    Tracking (Paired : Server σ → Prop) (fun s => s.queued.filter Sent.isRelayed) relayedBy where
  keeping := keeping_paired
  accept s addr := by
    rcases accept_cases s addr with hs | hs
    · rw [hs]
    · rw [hs]
      rfl
  rx _ _ := rfl
  flush s c h hc := by
    unfold flush
    split
    · rfl
    · next net _ => exact (feeds_drop (keeps_net s net h).1 (h.known hc) _).own
  drop s c why h hc := (feeds_drop h hc why).own
  handled x h hc := by
    obtain ⟨new, hs, -⟩ := Fed.appends (feeds_handled x h hc)
    dsimp only at hs ⊢
    rw [relayedBy, hs, List.drop_left', List.filter_append]
    rfl

theorem matched_renamed {s : Server σ} (h : Paired s) (c : Nat) (name : Str) :
    (s.renamed c name).matched = s.matched := by
  rw [renamed_eq]
  show (s.replaceOld c name).matched = s.matched
  unfold replaceOld
  split
  · next old hl =>
    split
    · rfl
    · exact (shrunk_drop h (h.named _ (lookup_mem hl)) _).same.1
  · rfl

theorem matched_startFor {s : Server σ} {c r : Nat} (hr : Ready s c r) :
    (s.startFor c r).matched = s.matched := by
  have h0 := (keeps_starting s r hr.paired).1
  have hc : c < (s.starting r).nextClient := by
    obtain ⟨a, b, -, hm, hcm⟩ := hr.pair
    have hmem : c ∈ (s.room r).members := by
      rw [hm, List.mem_cons, List.mem_singleton]
      exact hcm
    exact hr.paired.known_member hmem
  unfold startFor
  rw [startRoom_eq]
  split_ifs
  · exact (shrunk_drop h0 hc _).same.1
  · refine (eachMember_ind (P := fun s' => Paired s' ∧ s'.matched = s.matched)
      (fun s' i m hs' hm => ?_) _ _ ⟨h0, rfl⟩).2
    have hn := hs'.1.known_member hm
    exact ⟨(keeps_send hn _ _ _ hs'.1).1, (shrunk_send hs'.1 hn _ _ _).same.1.trans hs'.2⟩

theorem tracking_matched : Tracking (Paired : Server σ → Prop) Server.matched submission where
  keeping := keeping_paired
  accept s addr := by
    rcases accept_cases s addr with hs | hs
    · rw [hs]
    · rw [hs]
      rfl
  rx _ _ := rfl
  flush s c h hc := by
    unfold flush
    split
    · rfl
    · next net _ => exact (shrunk_drop (keeps_net s net h).1 (h.known hc) _).same.1
  drop s c why h hc := (shrunk_drop h hc why).same.1
  handled x h hc := by
    have hn := h.known hc
    have hjoin : ∀ t, t < x.srv.nextClient → (x.srv.client t).room = none → t ≠ x.client →
        (x.srv.client x.client).room = none → ∀ r,
        ((x.srv.joined x.client t).roomBroadcast r).matched = x.srv.matched := by
      intro t htn hsolo htc hr r
      exact (shrunk_roomBroadcast (keeps_joined hn hr htn hsolo htc h).1 r).1.same.1.trans
        (joined_same x.srv x.client t).2.2.2.2.1
    by_cases ht : x.ftype ∈ relayTypes
    · have hs : (host x.client).handled x.srv x.ftype x.payload =
          x.srv.relay x.client x.ftype x.payload := by
        rw [handled_eq, handle, if_pos ht]
      rw [hs, submission, if_pos ht]
      rcases relay_cases h x.client x.ftype x.payload with ⟨hs, hidle⟩ | ⟨r, p, hr, hst, -, hpm, hs⟩
      · rw [hs]
        split
        · exact (List.append_nil _).symm
        · next r hr =>
          rw [if_neg (by rw [hidle r hr]; exact Bool.false_ne_true)]
          exact (List.append_nil _).symm
      · have hsub := (keeps_submit x.srv ⟨x.client, r, x.ftype, x.payload⟩ h).1
        rw [hs, hr]
        dsimp only
        rw [if_pos hst]
        exact (shrunk_send hsub (h.known_member hpm) _ _ _).same.1
    · -- only relay() submits
      rw [submission, if_neg ht, List.append_nil]
      have hspec := handled_spec x
      generalize (host x.client).handled x.srv x.ftype x.payload = s' at hspec ⊢
      cases hspec with
      | relayed ht' => exact absurd ht' ht
      | renamed name =>
        have hren := keeps_renamed hn name h
        refine ((shrunk_send hren.1 ?_ none none _).same.1).trans (matched_renamed h x.client name)
        rw [hren.2]
        exact hn
      | listed => exact (shrunk_send h hn none none _).same.1
      | nothing => rfl
      | dropped why => exact (shrunk_drop h hn why).same.1
      | ponged => exact (shrunk_send h hn none none _).same.1
      | joined name t hr ht =>
        obtain ⟨hl, htc, -, hsolo⟩ := h.joinTarget_solo ht
        exact hjoin t (h.named _ (lookup_mem hl)) hsolo htc hr _
      | started s1 r hs =>
        obtain ⟨hready, hcase⟩ := starts_cases h hc hs
        refine (matched_startFor hready).trans ?_
        rcases hcase with rfl | ⟨t, htn, hsolo, htc, hr, rfl, -⟩
        · rfl
        · exact hjoin t htn hsolo htc hr r

end Server

/-! ## Buffers and sockets -/

/-- What one sock.send() does: take so many bytes, block, or raise. -/
inductive SockResult where
  | took (n : Nat)
  | block
  | error
deriving DecidableEq, Repr

/-- The `tx` buffers, what the sockets have taken, and what sock.send() will do. -/
structure Net where
  tx : Nat → List Byte
  out : Nat → List Byte
  results : List SockResult

def maxTxBacklog : Nat := 64 * 1024

/-- The loop of `flush` over one buffer: what is left of the results, the buffer and what was
    taken, and whether the client may stay. When the results have run out everything is taken. -/
def flushLoop : List SockResult → List Byte → List Byte → List SockResult × List Byte × List Byte × Bool
  | results, [], out => (results, [], out, true)
  | [], tx, out => ([], [], out ++ tx, true)
  | .took n :: results, tx, out =>
    if n = 0 then (results, tx, out, false)
    else flushLoop results (tx.drop n) (out ++ tx.take n)
  | .block :: results, tx, out => (results, tx, out, true)
  | .error :: results, tx, out => (results, tx, out, false)

/-- `flush`. -/
def Net.flush (net : Net) (c : Nat) : Net × Bool :=
  let r := flushLoop net.results (net.tx c) (net.out c)
  (⟨fun i => if i = c then r.2.1 else net.tx i, fun i => if i = c then r.2.2.1 else net.out i, r.1⟩,
    r.2.2.2)

instance : Transport Net where
  send net c data :=
    if maxTxBacklog < (net.tx c).length + data.length then (net, .backlog)
    else
      let r := Net.flush { net with tx := fun i => if i = c then net.tx i ++ data else net.tx i } c
      (r.1, if r.2 then .queued else .error)
  flush := Net.flush

/-- Whatever the socket does, no byte is lost, repeated or moved. -/
theorem flushLoop_bytes (results : List SockResult) (tx out : List Byte) :
    (flushLoop results tx out).2.2.1 ++ (flushLoop results tx out).2.1 = out ++ tx ∧
      (flushLoop results tx out).2.1.length ≤ tx.length := by
  induction results generalizing tx out with
  | nil =>
    cases tx with
    | nil => exact ⟨rfl, Nat.le_refl _⟩
    | cons b tx => exact ⟨List.append_nil _, Nat.zero_le _⟩
  | cons r results ih =>
    cases tx with
    | nil => exact ⟨rfl, Nat.le_refl _⟩
    | cons b tx =>
      cases r with
      | took n =>
        rw [flushLoop]
        split
        · exact ⟨rfl, Nat.le_refl _⟩
        · obtain ⟨h1, h2⟩ := ih ((b :: tx).drop n) (out ++ (b :: tx).take n)
          refine ⟨?_, Nat.le_trans h2 ?_⟩
          · rw [h1, List.append_assoc, List.take_append_drop]
          · rw [List.length_drop]
            exact Nat.sub_le _ _
        · exact nofun
      | block => exact ⟨rfl, Nat.le_refl _⟩
      | error => exact ⟨rfl, Nat.le_refl _⟩

/-- Taken bytes followed by waiting bytes are `sent`, and not too many wait. -/
def Net.Holds (net : Net) (sent : Nat → List Byte) : Prop :=
  ∀ c, net.out c ++ net.tx c = sent c ∧ (net.tx c).length ≤ maxTxBacklog

theorem Net.Holds.flush {net : Net} {sent : Nat → List Byte} (h : net.Holds sent) (c : Nat) :
    (net.flush c).1.Holds sent := by
  intro i
  obtain ⟨h1, h2⟩ := h i
  rw [Net.flush]
  dsimp only
  by_cases hi : i = c
  · rw [if_pos hi, if_pos hi, ← hi]
    obtain ⟨hb, hl⟩ := flushLoop_bytes net.results (net.tx i) (net.out i)
    exact ⟨hb.trans h1, Nat.le_trans hl h2⟩
  · rw [if_neg hi, if_neg hi]
    exact ⟨h1, h2⟩

/-- The bytes of a list of frames for one client. -/
def bytesFor (qs : List Sent) (c : Nat) : List Byte :=
  ((qs.filter (fun q => q.dest = c)).map Sent.bytes).flatten

theorem bytesFor_append (qs : List Sent) (q : Sent) (c : Nat) :
    bytesFor (qs ++ [q]) c = if q.dest = c then bytesFor qs c ++ q.bytes else bytesFor qs c := by
  rw [bytesFor, List.filter_append, List.map_append, List.flatten_append]
  split
  · next h =>
    rw [List.filter_cons_of_pos (by simpa using h), List.filter_nil, List.map_singleton,
      List.flatten_singleton]
    rfl
  · next h =>
    rw [List.filter_cons_of_neg (by simpa using h), List.filter_nil, List.map_nil, List.flatten_nil,
      List.append_nil]
    rfl

/-- `send` when the frame fits. -/
def Net.put (net : Net) (c : Nat) (data : List Byte) : Net :=
  { net with tx := fun i => if i = c then net.tx i ++ data else net.tx i }

theorem send_full {net : Net} {c : Nat} {data : List Byte}
    (h : maxTxBacklog < (net.tx c).length + data.length) :
    Transport.send net c data = (net, .backlog) := if_pos h

theorem send_fits {net : Net} {c : Nat} {data : List Byte}
    (h : ¬ maxTxBacklog < (net.tx c).length + data.length) : Transport.send net c data =
      (((net.put c data).flush c).1, if ((net.put c data).flush c).2 then .queued else .error) :=
  if_neg h

/-- send() keeps the books. -/
theorem Net.Holds.send {net : Net} {qs : List Sent} (h : net.Holds (bytesFor qs)) (q : Sent) :
    (Transport.send net q.dest q.bytes).1.Holds
      (bytesFor (if (Transport.send net q.dest q.bytes).2 = .backlog then qs else qs ++ [q])) := by
  have key : ∀ out : Net × SendResult, Transport.send net q.dest q.bytes = out →
      out.1.Holds (bytesFor (if out.2 = .backlog then qs else qs ++ [q])) := by
    intro out hout
    by_cases hfull : maxTxBacklog < (net.tx q.dest).length + q.bytes.length
    · obtain rfl := (send_full hfull).symm.trans hout
      rw [if_pos rfl]
      exact h
    · have hput : (net.put q.dest q.bytes).Holds (bytesFor (qs ++ [q])) := by
        intro i
        obtain ⟨h1, h2⟩ := h i
        rw [bytesFor_append, Net.put]
        dsimp only
        by_cases hi : i = q.dest
        · rw [if_pos hi, if_pos hi.symm, ← List.append_assoc, h1, List.length_append]
          refine ⟨rfl, ?_⟩
          rw [hi]
          exact Nat.le_of_not_lt hfull
        · rw [if_neg hi, if_neg (Ne.symm hi)]
          exact ⟨h1, h2⟩
      obtain rfl := (send_fits hfull).symm.trans hout
      have hne : (if ((net.put q.dest q.bytes).flush q.dest).2 then SendResult.queued else .error) ≠
          .backlog := by
        split
        · exact nofun
        · exact nofun
      rw [if_neg hne]
      exact hput.flush q.dest
  exact key _ rfl

namespace Server

/-! ## Runs on buffers and sockets -/

/-- The transport's books agree with the queues. -/
def Wired (s : Server Net) : Prop := s.net.Holds s.bytesTo

theorem Feeds.wired {P : Sent → Prop} {s s' : Server Net} (h : Feeds P s s') (hw : Wired s) :
    Wired s' := by
  have hfed : ∀ b : Net × List Sent, Fed P (s.net, s.queued) b → b.1.Holds (bytesFor b.2) := by
    intro b hb
    induction hb with
    | refl => exact hw
    | send _ q _ ih => exact Net.Holds.send ih q
  exact hfed _ h

theorem keeping_wired : Keeping (fun s : Server Net => Paired s ∧ Wired s) (fun _ => True) where
  paired _ h := h.1
  accept s addr h := ⟨paired_accept h.1 addr, by
    rcases accept_cases s addr with hs | hs
    · rw [hs]; exact h.2
    · rw [hs]; exact h.2⟩
  rx s rx h := ⟨keeping_paired.rx s rx h.1, h.2⟩
  flush s c h hc := by
    refine ⟨(keeps_flush (h.1.known hc) h.1).1, ?_⟩
    have hw : ({ s with net := (s.net.flush c).1 } : Server Net).Wired := h.2.flush c
    have hp := (keeps_net s (s.net.flush c).1 h.1).1
    have hflush : Transport.flush s.net c = s.net.flush c := rfl
    rw [flush, hflush]
    generalize s.net.flush c = out at hw hp ⊢
    obtain ⟨net, ok⟩ := out
    cases ok with
    | true => exact hw
    | false =>
      exact (feeds_drop (R := fun _ => True) hp (h.1.known hc) "send error").wired hw
  drop s c why h hc :=
    ⟨(keeps_drop hc why h.1).1, (feeds_drop (R := fun _ => True) h.1 hc why).wired h.2⟩
  handled x h hc _ := ⟨(keeps_handled (h.1.known hc) x.ftype x.payload h.1).1,
    (feeds_handled x h.1 hc).wired h.2⟩

/-- A frame that does not fit drops the client. -/
theorem send_overflow (s : Server Net) (c : Nat) (origin about : Option Nat) (data : List Byte)
    (h : maxTxBacklog < (s.net.tx c).length + data.length) :
    ((s.send c origin about data).client c).dead = true := by
  have hsend : Transport.send s.net c data = (s.net, .backlog) := if_pos h
  rcases send_cases s c origin about data with ⟨hd, hs⟩ | ⟨net, -, ⟨hq, -⟩ | ⟨-, hs⟩ | ⟨hq, -⟩⟩
  · rw [hs]
    exact hd
  · rw [hsend] at hq
    cases hq
  · rw [hs]
    exact dead_dropN _ _ c _ (Or.inr rfl)
  · rw [hsend] at hq
    cases hq

/-- Nothing queued, nothing taken. -/
def Net.start (results : List SockResult) : Net := ⟨fun _ => [], fun _ => [], results⟩

/-- Over every run, whatever the clients send and the sockets do. A player's queue holds the
    START of its match and behind it exactly the frames its room-mates submitted, in the
    order they were handled; a frame of a relay type is only queued by a call that submits
    it, for another member of the sender's started room; each socket has taken the first of
    the queued bytes, the rest waits, and what would exceed the backlog drops the client. -/
theorem relay_delivers (delay : Int) (autoGo : Nat) (seeds : Nat → UInt16)
    (results : List SockResult) (es : List Event) :
    let s0 := init delay autoGo seeds (Net.start results)
    let s := s0.run es
    (∀ c ∈ s.clients, ∀ r, (s.client c).room = some r → (s.room r).started = true → Told s c r) ∧
    s.matched = (s0.runCalls es).flatMap submission ∧
    s.queued.filter Sent.isRelayed = (s0.runCalls es).flatMap relayedBy ∧
    (∀ x ∈ s0.runCalls es, ∀ q ∈ relayedBy x, RightTo x q) ∧
    (∀ c, s.net.out c ++ s.net.tx c = s.bytesTo c ∧ (s.net.tx c).length ≤ maxTxBacklog) ∧
    ∀ c origin about data, maxTxBacklog < (s.net.tx c).length + data.length →
      ((s.send c origin about data).client c).dead = true := by
  intro s0 s
  have hp : Paired s0 := paired_init delay autoGo seeds _
  have hw : Wired s0 := fun c => ⟨rfl, Nat.zero_le _⟩
  refine ⟨fun c hc r hr hst => ?_, ?_, ?_, fun x hx q hq => ?_, ?_, fun c o a data => ?_⟩
  · exact (informed_run delay autoGo seeds _ es).told c r ⟨hc, hr, hst⟩ List.not_mem_nil
  · exact tracking_matched.run hp es
  · exact tracking_relayed.run hp es
  · obtain ⟨hpx, hcx⟩ := keeping_paired.calls hp es (fun _ _ => trivial) x hx
    obtain ⟨new, hs, hnew⟩ := Fed.appends (feeds_handled x hpx hcx)
    dsimp only at hs
    rw [relayedBy, hs, List.drop_left'] at hq
    · obtain ⟨hq, hrel⟩ := List.mem_filter.mp hq
      exact hnew q hq hrel
    · rfl
  · exact (keeping_wired.run ⟨hp, hw⟩ es (fun _ _ => trivial)).2
  · exact send_overflow s c o a data

/-- In a started room each sends one INPUT; of BO's the socket of AL takes three bytes and
    blocks. -/
def twoInputs : List Event :=
  goEvents ++ [.recv 1 (.data (frame tInput [1, 1, 0, 0x40, 0])),
    .recv 0 (.data (frame tInput [0, 1, 0, 0x2E, 0]))]

def twoSockets : List SockResult := List.replicate 7 (.took 64) ++ [.took 3, .block]

theorem relay_delivers_two :
    let s := (init 3 0 (fun _ => 0x1234) (Net.start twoSockets)).run twoInputs
    s.queued.filter Sent.isRelayed =
        [⟨0, some 1, some 0, frame tInput [1, 1, 0, 0x40, 0]⟩,
          ⟨1, some 0, some 0, frame tInput [0, 1, 0, 0x2E, 0]⟩] ∧
      Told s 0 0 ∧ Told s 1 0 ∧
      s.net.tx 1 = [1, 0, 0x2E, 0] ∧ s.net.out 1 ++ s.net.tx 1 = s.bytesTo 1 := by
  intro s
  have hfacts : s.queued.filter Sent.isRelayed =
        [⟨0, some 1, some 0, frame tInput [1, 1, 0, 0x40, 0]⟩,
          ⟨1, some 0, some 0, frame tInput [0, 1, 0, 0x2E, 0]⟩] ∧
      (∀ c < 2, c ∈ s.clients ∧ (s.client c).room = some 0) ∧ (s.room 0).started = true ∧
      s.net.tx 1 = [1, 0, 0x2E, 0] := by
    decide +kernel
  obtain ⟨hrelayed, hseats, hstarted, htx⟩ := hfacts
  obtain ⟨htold, -, -, -, hbytes, -⟩ := relay_delivers 3 0 (fun _ => 0x1234) twoSockets twoInputs
  have h0 := hseats 0 (by decide)
  have h1 := hseats 1 (by decide)
  exact ⟨hrelayed, htold 0 h0.1 0 h0.2 hstarted, htold 1 h1.1 0 h1.2 hstarted, htx,
    (hbytes 1).1⟩

end Server

end IntvBasketball.Relay
