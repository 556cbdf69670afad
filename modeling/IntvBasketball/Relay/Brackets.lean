/-
  START and PEER_LEFT as brackets of a match, in the queue of each client.

  start_room() marks the room started before it sends, and drop() announces the end of a
  started room: if the START for seat 0 fails, seat 1 is told of the end of a match it
  was never told of. The same happens when bytes() raises on a delay that is no byte.
  `peer_left_closes_start`: in every run in which neither happens (`Unannounced`) each
  PEER_LEFT closes a START of the same match, with no ROOM between.
-/
import IntvBasketball.Relay.Match

namespace IntvBasketball.Relay

/-- An open START of this match ends the list. -/
def OpenStart (qs : List Sent) (about : Option Nat) : Prop :=
  ∃ pre st mid, qs = pre ++ st :: mid ∧ st.ftype = tStart ∧ st.about = about ∧
    ∀ x ∈ mid, x.ftype ≠ tPeerLeft ∧ x.ftype ≠ tRoom

/-- Each PEER_LEFT closes a START of its match. -/
def Bracketed (qs : List Sent) : Prop :=
  ∀ pre q post, qs = pre ++ q :: post → q.ftype = tPeerLeft → OpenStart pre q.about

theorem bracketed_nil : Bracketed [] := fun _ _ _ h => absurd h.symm (by simp)

theorem Bracketed.append {qs : List Sent} (h : Bracketed qs) {q : Sent}
    (hq : q.ftype = tPeerLeft → OpenStart qs q.about) : Bracketed (qs ++ [q]) := by
  intro pre q' post heq ht
  rcases List.eq_nil_or_concat post with rfl | ⟨post', q'', rfl⟩
  · obtain ⟨rfl, hqq⟩ := List.append_inj' heq rfl
    obtain rfl := List.head_eq_of_cons_eq hqq
    exact hq ht
  · rw [List.concat_eq_append, ← List.cons_append, ← List.append_assoc] at heq
    obtain ⟨rfl, -⟩ := List.append_inj' heq rfl
    exact h pre q' post' rfl ht

namespace Server
variable {σ : Type}

theorem Told.openStart {s : Server σ} {c r : Nat} (h : Told s c r) :
    OpenStart (s.sentTo c) (some r) := by
  obtain ⟨pre, st, post, hs, hst, hab, hpost, -⟩ := h
  refine ⟨pre, st, post, hs, hst, hab, fun x hx => ?_⟩
  have hno := hpost x hx
  exact ⟨fun ht => hno (Or.inr (Or.inr ht)), fun ht => hno (Or.inr (Or.inl ht))⟩

/-- The brackets of every queue. -/
def AllBracketed (s : Server σ) : Prop := ∀ x, Bracketed (s.sentTo x)

theorem AllBracketed.of_eq {s s' : Server σ} (h : AllBracketed s) (hq : s'.queued = s.queued) :
    AllBracketed s' := by
  intro x
  rw [sentTo, hq]
  exact h x

theorem AllBracketed.push {s : Server σ} (h : AllBracketed s) (c : Nat) (origin about : Option Nat)
    {data : List Byte} (hopen : data.getD 1 0 = tPeerLeft → OpenStart (s.sentTo c) about) :
    AllBracketed (s.push c origin about data) := by
  intro x
  rw [sentTo_push]
  split
  · next hx =>
    rw [← hx]
    exact (h c).append hopen
  · exact h x

variable [Transport σ]

/-- A frame for a solo client: PEER_LEFT only behind an open START, unless it is refused. -/
theorem AllBracketed.sendSolo {s : Server σ} (h : AllBracketed s) (c : Nat)
    (origin about : Option Nat) {data : List Byte}
    (hopen : data.getD 1 0 = tPeerLeft → (s.client c).dead = false →
      OpenStart (s.sentTo c) about ∨ (Transport.send s.net c data).2 = .backlog) :
    AllBracketed (s.sendSolo c origin about data) := by
  rw [Server.sendSolo, sendVia]
  split
  · exact h
  · next hd =>
    have hd := Bool.eq_false_iff.mpr hd
    rcases hsend : Transport.send s.net c data with ⟨net, res⟩
    rw [hsend] at hopen
    have hnet : AllBracketed { s with net } := h.of_eq rfl
    cases res with
    | queued =>
      exact hnet.push c origin about (fun ht => (hopen ht hd).resolve_right SendResult.noConfusion)
    | backlog => exact hnet.of_eq rfl
    | error =>
      exact (hnet.push c origin about (fun ht => (hopen ht hd).resolve_right SendResult.noConfusion)).of_eq rfl

omit [Transport σ] in
theorem farewell_type {s : Server σ} {c r : Nat}
    (h : (s.farewell c r).getD 1 0 = tPeerLeft) : (s.room r).started = true := by
  rw [farewell] at h
  split at h
  · next hst => exact hst
  · exact absurd (show tRoom = tPeerLeft from h) (by decide)

/-- drop() closes the bracket of the one who stays, if it is open. -/
theorem AllBracketed.drop {s : Server σ} (h : AllBracketed s) (hp : Paired s) {c : Nat}
    (hc : c < s.nextClient) (why : String)
    (htold : ∀ p r, p ≠ c → (s.client c).room = some r → s.Plays p r →
      Told s p r ∨ (Transport.send s.net p (s.farewell c r)).2 = .backlog) :
    AllBracketed (s.drop c why) := by
  rcases hp.drop_cases hc why with ⟨-, hs⟩ | ⟨-, -, hs⟩ | ⟨r, p, -, hr, hpc, hm, hs⟩
  · rw [hs]
    exact h
  · rw [hs]
    exact h.of_eq rfl
  · rw [hs]
    have h' : AllBracketed ((s.unroom r).kill c) := h.of_eq rfl
    refine h'.sendSolo p none (some r) (fun ht hd => ?_)
    have hpm : p ∈ (s.room r).members := by
      rcases hm with hm | hm
      · rw [hm]; exact List.mem_cons_of_mem _ List.mem_cons_self
      · rw [hm]; exact List.mem_cons_self
    rw [kill_client, if_neg hpc, unroom_client_dead] at hd
    have hpl : s.Plays p r :=
      ⟨hp.mem_clients (hp.known_member hpm) hd, hp.member r p hpm, farewell_type ht⟩
    exact (htold p r hpc hr hpl).imp (fun ht => ht.openStart) id

theorem AllBracketed.send {s : Server σ} (h : AllBracketed s) (hp : Paired s) {c : Nat}
    (hc : c < s.nextClient) (origin about : Option Nat) {data : List Byte}
    (hne : data.getD 1 0 ≠ tPeerLeft)
    (htold : ∀ net res, Transport.send s.net c data = (net, res) → res ≠ .queued →
      (s.client c).dead = false →
      ∀ p r, p ≠ c → (s.client c).room = some r → s.Plays p r →
        Told s p r ∨ (Transport.send net p (s.farewell c r)).2 = .backlog) :
    AllBracketed (s.send c origin about data) := by
  have hnet : ∀ net, AllBracketed { s with net } := fun net => h.of_eq rfl
  have hpush : ∀ net, AllBracketed ({ s with net }.push c origin about data) := fun net =>
    (hnet net).push c origin about (fun ht => absurd ht hne)
  rcases send_cases s c origin about data with
    ⟨-, hs⟩ | ⟨net, hd, ⟨-, hs⟩ | ⟨hsend, hs⟩ | ⟨hsend, hs⟩⟩
  · rw [hs]
    exact h
  · rw [hs]
    exact hpush net
  · rw [hs]
    exact (hnet net).drop (keeps_net s net hp).1 hc _ (fun p r hpc hr hpl =>
      (htold net _ hsend nofun hd p r hpc hr hpl).imp (fun ht => ht.congr rfl rfl) id)
  · rw [hs]
    exact (hpush net).drop (keeps_push _ c origin about data (keeps_net s net hp).1).1 hc _
      (fun p r hpc hr hpl => (htold net _ hsend nofun hd p r hpc hr hpl).imp
        (fun ht => by
          have ht' : Told { s with net } p r := ht.congr rfl rfl
          exact ht'.push_other hpc.symm) id)

/-- Everybody is informed, and the brackets match. -/
def Bracketing (E : List Nat) (s : Server σ) : Prop := Informed E s ∧ AllBracketed s

section Bracketing
variable {s : Server σ}

/-- A send while nobody else is left out. -/
theorem Bracketing.send {E : List Nat} (h : Bracketing E s) {c : Nat} (hE : ∀ p ∈ E, p = c)
    (hc : c < s.nextClient) (origin about : Option Nat) {data : List Byte}
    (hne : data.getD 1 0 ≠ tPeerLeft) : AllBracketed (s.send c origin about data) :=
  h.2.send h.1.paired hc origin about hne (fun _ _ _ _ _ p r hpc _ hpl =>
    Or.inl (h.1.told p r hpl (fun hmem => hpc (hE p hmem))))

theorem Bracketing.drop {E : List Nat} (h : Bracketing E s) {c : Nat} (hE : ∀ p ∈ E, p = c)
    (hc : c < s.nextClient) (why : String) : Bracketing E (s.drop c why) :=
  ⟨h.1.drop hc why, h.2.drop h.1.paired hc why (fun p r hpc _ hpl =>
    Or.inl (h.1.told p r hpl (fun hmem => hpc (hE p hmem))))⟩

theorem Bracketing.onList (h : Bracketing [] s) {c : Nat} (hc : c < s.nextClient) :
    Bracketing [] (s.onList c) :=
  ⟨h.1.onList hc, h.send (fun _ hm => absurd hm List.not_mem_nil) hc none none (by
    show tLobby ≠ tPeerLeft
    decide)⟩

theorem Bracketing.roomBroadcast (h : Bracketing [] s) {r : Nat} (hst : (s.room r).started = false) :
    Bracketing [] (s.roomBroadcast r) := by
  refine (eachMember_ind (P := fun s' => Bracketing [] s' ∧ (s'.room r).started = false)
    (fun s' i m hs' hm => ?_) _ _ ⟨h, hst⟩).1
  obtain ⟨hb, hst'⟩ := hs'
  have hn := hb.1.paired.known_member hm
  refine ⟨⟨hb.1.send_idle hn (fun k hpl => ?_) none (some r) _,
    hb.send (fun _ hm => absurd hm List.not_mem_nil) hn none (some r) ?_⟩, ?_⟩
  · have hk := hb.1.paired.member r m hm
    rw [hpl.2.1] at hk
    have := hpl.2.2
    rw [Option.some.inj hk, hst'] at this
    cases this
  · show tRoom ≠ tPeerLeft
    decide
  · exact ((shrunk_send hb.1.paired hn _ _ _).started r).trans hst'

theorem Bracketing.relay (h : Bracketing [] s) (c : Nat) {ftype : Byte} (ht : ftype ∈ relayTypes)
    (payload : List Byte) : Bracketing [] (s.relay c ftype payload) := by
  refine ⟨h.1.relay c ht payload, ?_⟩
  rcases relay_cases h.1.paired c ftype payload with ⟨hs, -⟩ | ⟨r, p, hr, -, hp, hpm, hs⟩
  · rw [hs]
    exact h.2
  · have hpair := (keeps_submit s ⟨c, r, ftype, payload⟩ h.1.paired).1
    have hsub : AllBracketed (s.submit ⟨c, r, ftype, payload⟩) := h.2.of_eq rfl
    have hty : ∀ t ∈ relayTypes, t ≠ tPeerLeft := by decide +kernel
    rw [hs]
    refine hsub.send hpair (h.1.paired.known_member hpm) (some c) (some r) (hty ftype ht)
      (fun _ _ _ _ _ q k hqp hpk hpl => Or.inl ?_)
    -- the only other member is the sender
    have hk : r = k := by
      have := h.1.paired.member r p hpm
      rw [show (s.client p).room = some k from hpk] at this
      exact (Option.some.inj this).symm
    refine (h.1.told q k hpl List.not_mem_nil).submitted_other (Or.inr ?_)
    obtain ⟨a, ha, hm⟩ := h.1.paired.mates c r hr
    have hqm : q ∈ (s.room r).members := by
      obtain ⟨b, -, hq⟩ := h.1.paired.mates q k hpl.2.1
      rw [← hk] at hq
      rcases hq with hq | hq
      · rw [hq]; exact List.mem_cons_self
      · rw [hq]; exact List.mem_cons_of_mem _ List.mem_cons_self
    rcases hm with hm | hm
    · rw [hm, List.mem_cons, List.mem_singleton] at hqm hpm
      rw [hpm.resolve_left hp] at hqp
      exact (hqm.resolve_right hqp).symm
    · rw [hm, List.mem_cons, List.mem_singleton] at hqm hpm
      rw [hpm.resolve_right hp] at hqp
      exact (hqm.resolve_left hqp).symm

theorem Bracketing.renamed (h : Bracketing [] s) {c : Nat} (hc : c < s.nextClient) (name : Str) :
    Bracketing [] (s.renamed c name) := by
  refine ⟨h.1.renamed hc name, ?_⟩
  have h1 : AllBracketed (s.replaceOld c name) := by
    unfold replaceOld
    split
    · next old hl =>
      split
      · exact h.2
      · exact (h.drop (fun _ hm => absurd hm List.not_mem_nil)
          (h.1.paired.named _ (lookup_mem hl)) _).2
    · exact h.2
  refine h1.of_eq ?_
  rw [renamed_eq]
  rfl

/-- Dropping `d` from the room it is starting queues a PEER_LEFT for `p`. -/
def Farewells (s : Server σ) (net : σ) (r d p : Nat) : Prop :=
  (s.client p).dead = false ∧ (Transport.send net p ((s.starting r).farewell d r)).2 ≠ .backlog

/-- start_room() ends the match before a member was told of its start, and tells it so: the
    caller is dropped because the delay is no byte, or seat 0 because its START fails. -/
def Unannounced (s : Server σ) (c r : Nat) : Prop :=
  match (s.room r).members with
  | [a, b] =>
    if s.delay < 0 ∨ 255 < s.delay then
      (c = a ∧ Farewells s s.net r a b) ∨ (c = b ∧ Farewells s s.net r b a)
    else
      let first := Transport.send s.net a (s.startFrame r 0)
      (s.client a).dead = false ∧ first.2 ≠ .queued ∧ Farewells s first.1 r a b
  | _ => False

/-- A call that does. -/
def EndsUnannounced (x : Call σ) : Prop :=
  match starts x with
  | some (s, r) => Unannounced s x.client r
  | none => False

instance (s : Server σ) (net : σ) (r d p : Nat) : Decidable (Farewells s net r d p) := by
  unfold Farewells; infer_instance

instance (s : Server σ) (c r : Nat) : Decidable (Unannounced s c r) := by
  unfold Unannounced; split <;> infer_instance

instance (x : Call σ) : Decidable (EndsUnannounced x) := by
  unfold EndsUnannounced; split <;> infer_instance

theorem Bracketing.startFor (h : Bracketing [] s) {c r : Nat} (hr : Ready s c r)
    (hno : ¬ Unannounced s c r) : Bracketing [] (s.startFor c r) := by
  refine ⟨h.1.startFor hr, ?_⟩
  obtain ⟨a, b, hab, hm, hcm⟩ := hr.pair
  have hB0 : AllBracketed (s.starting r) := h.2.of_eq rfl
  have hp0 := (keeps_starting s r hr.paired).1
  have hm0 : ((s.starting r).room r).members = [a, b] := (starting_members s r r).trans hm
  have hra : ((s.starting r).client a).room = some r := hp0.member r a (by
    rw [hm0]; exact List.mem_cons_self)
  have hrb : ((s.starting r).client b).room = some r := hp0.member r b (by
    rw [hm0]; exact List.mem_cons_of_mem _ List.mem_cons_self)
  have hna := (hp0.seated a r hra).1
  have hplayer : ∀ p k d, p ≠ d → (d = a ∨ d = b) → ((s.starting r).client d).room = some k →
      (s.starting r).Plays p k → k = r ∧ (p = a ∨ p = b) := by
    intro p k d hpd hd hdk hpl
    have hk : k = r := by
      rcases hd with rfl | rfl
      · rw [hra] at hdk
        exact (Option.some.inj hdk).symm
      · rw [hrb] at hdk
        exact (Option.some.inj hdk).symm
    refine ⟨hk, ?_⟩
    obtain ⟨q, -, hq⟩ := hp0.mates p k hpl.2.1
    have hpm : p ∈ ((s.starting r).room k).members := by
      rcases hq with hq | hq
      · rw [hq]; exact List.mem_cons_self
      · rw [hq]; exact List.mem_cons_of_mem _ List.mem_cons_self
    rw [hk, hm0, List.mem_cons, List.mem_singleton] at hpm
    exact hpm
  unfold Server.startFor
  by_cases hdelay : s.delay < 0 ∨ 255 < s.delay
  · have hs := startRoom_eq s r
    rw [if_pos hdelay] at hs
    rw [hs]
    have hcn : c < (s.starting r).nextClient := by
      rcases hcm with rfl | rfl
      · exact hna
      · exact (hp0.seated c r hrb).1
    refine hB0.drop hp0 hcn _ (fun p k hpc hck hpl => Or.inr ?_)
    obtain ⟨rfl, hpab⟩ := hplayer p k c hpc hcm hck hpl
    -- otherwise `p` is the other member, and is told
    by_contra hq
    have hf : Farewells s s.net k c p := ⟨hr.paired.live p hpl.1, hq⟩
    refine hno ?_
    rw [Unannounced, hm]
    dsimp only
    rw [if_pos hdelay]
    rcases hcm with rfl | rfl
    · rw [hpab.resolve_left hpc] at hf
      exact Or.inl ⟨rfl, hf⟩
    · rw [hpab.resolve_right hpc] at hf
      exact Or.inr ⟨rfl, hf⟩
  · -- START for seat 0
    have h1 := h.1.tellFirst hm hr.fresh
    have hB1 : AllBracketed (s.tellFirst r a) := by
      refine hB0.send hp0 hna none (some r) (by show tStart ≠ tPeerLeft; decide)
        (fun net res hsend hres hd p k hpa hak hpl => Or.inr ?_)
      obtain ⟨rfl, hpab⟩ := hplayer p k a hpa (Or.inl rfl) hak hpl
      by_contra hq
      have hf : Farewells s net k a p := ⟨hr.paired.live p hpl.1, hq⟩
      have hsend' : Transport.send s.net a (s.startFrame k 0) = (net, res) := hsend
      rw [hpab.resolve_left hpa] at hf
      refine hno ?_
      rw [Unannounced, hm]
      dsimp only
      rw [if_neg hdelay, hsend']
      exact ⟨hd, hres, hf⟩
    rcases startRoom_pair hr.paired hm hdelay with ⟨hm1, hs⟩ | ⟨-, hs⟩
    · have hbm : b ∈ ((s.tellFirst r a).room r).members := by
        rw [hm1]; exact List.mem_cons_of_mem _ List.mem_cons_self
      have hb1 : Bracketing [b] (s.tellFirst r a) := ⟨h1, hB1⟩
      rw [hs]
      exact hb1.send (fun p hp => List.mem_singleton.mp hp) (h1.paired.known_member hbm) none (some r)
        (by show tStart ≠ tPeerLeft; decide)
    · rw [hs]
      exact hB1

theorem bracketing_handled (x : Call σ) (h : Bracketing [] x.srv) (hc : x.client ∈ x.srv.clients)
    (hno : ¬ EndsUnannounced x) :
    Bracketing [] ((host x.client).handled x.srv x.ftype x.payload) := by
  have hn := h.1.paired.known hc
  have hnil : ∀ p ∈ ([] : List Nat), p = x.client := fun _ hm => absurd hm List.not_mem_nil
  have hjoin : ∀ t, t < x.srv.nextClient → (x.srv.client t).room = none → t ≠ x.client →
      (x.srv.client x.client).room = none →
      Bracketing [] ((x.srv.joined x.client t).roomBroadcast x.srv.nextRoom) := by
    intro t htn hsolo htc hr
    have hj : Bracketing [] (x.srv.joined x.client t) :=
      ⟨h.1.joined hn hr htn hsolo htc, h.2.of_eq (joined_same x.srv x.client t).2.2.2.1⟩
    exact hj.roomBroadcast (by rw [joined_room hsolo, if_pos rfl])
  have hspec := handled_spec x
  generalize (host x.client).handled x.srv x.ftype x.payload = s' at hspec ⊢
  cases hspec with
  | relayed ht => exact h.relay _ ht _
  | renamed name =>
    refine (h.renamed hn name).onList ?_
    rw [(keeps_renamed hn name h.1.paired).2]
    exact hn
  | listed => exact h.onList hn
  | nothing => exact h
  | dropped why => exact h.drop hnil hn why
  | ponged =>
    exact ⟨h.1.send_plain hn none none (plain_pong _),
      h.send hnil hn none none (by show tPong ≠ tPeerLeft; decide)⟩
  | joined name t hr ht =>
    obtain ⟨hl, htc, -, hsolo⟩ := h.1.paired.joinTarget_solo ht
    rw [roomFor_solo_room hsolo]
    exact hjoin t (h.1.paired.named _ (lookup_mem hl)) hsolo htc hr
  | started s1 r hs =>
    obtain ⟨hready, hcase⟩ := starts_cases h.1.paired hc hs
    rw [EndsUnannounced, hs] at hno
    refine Bracketing.startFor ?_ hready hno
    rcases hcase with rfl | ⟨t, htn, hsolo, htc, hr, rfl, rfl⟩
    · exact h
    · exact hjoin t htn hsolo htc hr

theorem keeping_bracketing :
    Keeping (Bracketing [] : Server σ → Prop) (fun x => ¬ EndsUnannounced x) where
  paired _ h := h.1.paired
  accept s addr h := ⟨h.1.accept addr, by
    rcases accept_cases s addr with hs | hs
    · rw [hs]; exact h.2
    · rw [hs]; exact h.2.of_eq rfl⟩
  rx s rx h := ⟨keeping_informed.rx s rx h.1, h.2.of_eq rfl⟩
  flush s c h hc := by
    have hnet : ∀ net, Bracketing [] { s with net } := fun net => ⟨h.1.net net, h.2.of_eq rfl⟩
    unfold flush
    split
    · exact hnet _
    · next net _ =>
      exact (hnet net).drop (fun _ hm => absurd hm List.not_mem_nil) (h.1.paired.known hc) _
  drop s c why h hc := h.drop (fun _ hm => absurd hm List.not_mem_nil) hc why
  handled x h hc hno := bracketing_handled x h hc hno

end Bracketing

/-- In every run in which no match ends before a member was told of its start and then is
    told of its end, each PEER_LEFT in a queue closes a START of the same match. -/
theorem peer_left_closes_start (delay : Int) (autoGo : Nat) (seeds : Nat → UInt16) (net : σ)
    (es : List Event) (hno : ∀ x ∈ (init delay autoGo seeds net).runCalls es, ¬ EndsUnannounced x)
    (c : Nat) : Bracketed (((init delay autoGo seeds net).run es).sentTo c) := by
  have h0 : Bracketing [] (init delay autoGo seeds net) :=
    ⟨informed_init delay autoGo seeds net, fun _ => bracketed_nil⟩
  exact (keeping_bracketing.run h0 es hno).2 c

/-! ## Two clients -/

theorem peer_left_closes_start_bye : Bracketed
    (((init 3 0 (fun _ => 0x1234) ([] : List SendResult)).run
      (goEvents ++ [.recv 0 (.data (frame tBye []))])).sentTo 1) :=
  peer_left_closes_start 3 0 (fun _ => 0x1234) [] (goEvents ++ [.recv 0 (.data (frame tBye []))])
    (by decide +kernel) 1

/-- The START for BO fails: AL is told that BO left a match that AL never heard of. -/
theorem lost_start_orphans_peer_left : ¬ Bracketed
    (((init 3 0 (fun _ => 0x1234)
      [.queued, .queued, .queued, .queued, SendResult.error]).run goEvents).sentTo 1) := by
  intro h
  have hq : ((init 3 0 (fun _ => 0x1234)
      [.queued, .queued, .queued, .queued, SendResult.error]).run goEvents).sentTo 1 =
      [⟨1, none, none, frame tLobby (1 :: (padName [66, 79] ++ [1]))⟩,
        ⟨1, none, some 0, frame tRoom (2 :: (padName [66, 79] ++ padName [65, 76] ++
          List.replicate 16 0))⟩] ++
      ⟨1, none, some 0, frame tPeerLeft (0 :: padName [66, 79])⟩ :: [] := by decide +kernel
  obtain ⟨pre, st, mid, hpre, hst, -⟩ := h _ _ _ hq rfl
  have hmem : st ∈ pre ++ st :: mid := List.mem_append_right _ List.mem_cons_self
  rw [← hpre] at hmem
  simp only [List.mem_cons, List.not_mem_nil, or_false] at hmem
  rcases hmem with rfl | rfl
  · exact absurd hst (by decide)
  · exact absurd hst (by decide)

end Server

end IntvBasketball.Relay
