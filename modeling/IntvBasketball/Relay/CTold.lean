/-
  What a client of the C relay was last told about its room, and what the relay believes.

  room_broadcast() and start_room() walk a snapshot of the members. A send that is refused
  in the middle drops its client, and drop() tells the others what became of the room;
  then the loop goes on with the frame it has, which is no longer true. `stale` says that
  a job gets that far: some send of such a loop is taken after another one was refused.
  As long as no job is stale, the last ROOM, START or PEER_LEFT in the queue of every
  client agrees with clients[] and rooms[] (`told_agrees`).
-/
import IntvBasketball.Relay.CRun

namespace IntvBasketball.Relay

/-- A frame about who is in a room. -/
def membership (data : List Byte) : Bool :=
  data.getD 1 0 = tRoom ∨ data.getD 1 0 = tStart ∨ data.getD 1 0 = tPeerLeft

/-- The last such frame queued for a connection. -/
def lastTold (queued : List (Nat × List Byte)) (conn : Nat) : Option (List Byte) :=
  ((queued.filter (fun q => q.1 = conn ∧ membership q.2)).getLast?).map Prod.snd

theorem lastTold_append (queued : List (Nat × List Byte)) (c conn : Nat) (data : List Byte) :
    lastTold (queued ++ [(c, data)]) conn =
      if c = conn ∧ membership data then some data else lastTold queued conn := by
  rw [lastTold, List.filter_append, List.filter_singleton]
  by_cases h : c = conn ∧ membership data
  · simp [h]
  · simp [h, lastTold]

theorem lastTold_none {queued : List (Nat × List Byte)} {conn : Nat}
    (h : ∀ q ∈ queued, q.1 ≠ conn) : lastTold queued conn = none := by
  rw [lastTold, Option.map_eq_none_iff, List.getLast?_eq_none_iff, List.filter_eq_nil_iff]
  intro q hq
  simp [h q hq]

namespace CServer
variable {σ : Type}

/-- The frame is right about the client. -/
def Right (t : CServer σ) (i : Nat) (data : List Byte) : Prop :=
  if data.getD 1 0 = tRoom ∧ 2 ≤ (data.getD 2 0).toNat then
    ∃ ri, (t.client i).room = some ri ∧ (t.room ri).started = false ∧
      (t.room ri).members.length = (data.getD 2 0).toNat
  else if data.getD 1 0 = tStart then
    ∃ ri, (t.client i).room = some ri ∧ (t.room ri).started = true ∧
      (t.room ri).members[(data.getD 2 0).toNat]? = some i
  else (t.client i).room = none

/-- The client was last told what is the case; if it was told nothing, it is solo. -/
def Agrees (t : CServer σ) (i : Nat) : Prop :=
  match lastTold t.queued (t.client i).conn with
  | some data => t.Right i data
  | none => (t.client i).room = none

/-- So it is with everybody. -/
def AllAgree (t : CServer σ) : Prop := ∀ i, t.Up i → t.Agrees i

/-! ## Stale sends -/

/-- send_raw() takes the frame. -/
def takes [Transport σ] (t : CServer σ) (ci : Nat) (data : List Byte) : Bool :=
  (t.client ci).dead = false ∧ (Transport.send t.net (t.client ci).conn data).2 = .queued

section Via
variable [Transport σ] (dropF : CServer σ → Nat → CServer σ) (staleF : CServer σ → Nat → Bool)

/-- The drop() of a send that is refused has a stale send. -/
def staleSend (t : CServer σ) (ci : Nat) (data : List Byte) : Bool :=
  if (t.client ci).dead then false
  else
    match Transport.send t.net (t.client ci).conn data with
    | (_, .queued) => false
    | (net, .backlog) => staleF { t with net } ci
    | (net, .error) => staleF ({ t with net }.push ci data) ci

/-- A send of the loop is taken after one was refused, or one that is refused has a stale
    send in its drop(). -/
def staleEach (data : Nat → List Byte) : Bool → CServer σ → List (Nat × Nat) → Bool
  | _, _, [] => false
  | lost, t, m :: mm =>
    (lost && t.takes m.1 (data m.2)) || t.staleSend staleF m.1 (data m.2) ||
      staleEach data (lost || !t.takes m.1 (data m.2)) (t.sendVia dropF m.1 (data m.2)) mm

/-- The ROOM of room_broadcast(). -/
def roomFrame (t : CServer σ) (ri : Nat) : List Byte :=
  frame tRoom (UInt8.ofNat (t.room ri).members.length :: t.roomRoster ri)

def staleBroadcast (t : CServer σ) (ri : Nat) : Bool :=
  staleEach dropF staleF (fun _ => t.roomFrame ri) false t (t.room ri).members.zipIdx

/-- drop() has a stale send: in the room_broadcast() when a guest leaves a forming room
    and two or more stay. -/
def staleDrop (t : CServer σ) (ci : Nat) : Bool :=
  if (t.client ci).dead then false
  else
    match (t.client ci).room with
    | none => false
    | some ri =>
      let t1 := (t.bury ci).unseat ci ri
      if (t.room ri).started ∨ t.roomSeat ri ci = some 0 ∨ (t1.room ri).members.length < 2 then false
      else t1.staleBroadcast dropF staleF ri

end Via

def staleN [Transport σ] : Nat → CServer σ → Nat → Bool
  | 0, _, _ => false
  | n + 1, t, ci => t.staleDrop (dropN n) (staleN n) ci

/-! ## The invariant -/

/-- Connections are told apart, and every client that is up was told what is the case, but
    for those that are about to be told. -/
structure Informed (P : Nat → Prop) (t : CServer σ) : Prop where
  conn_lt : ∀ i, t.Up i → (t.client i).conn < t.nextConn
  conn_inj : ∀ i j, t.Up i → t.Up j → (t.client i).conn = (t.client j).conn → i = j
  queued_lt : ∀ q ∈ t.queued, q.1 < t.nextConn
  agrees : ∀ i, t.Up i → ¬ P i → t.Agrees i

theorem Right.of_eq {t t' : CServer σ} {i : Nat} {data : List Byte} (h : t.Right i data)
    (hr : (t'.client i).room = (t.client i).room)
    (hroom : ∀ ri, (t.client i).room = some ri → (t'.room ri).started = (t.room ri).started ∧
      (t'.room ri).members = (t.room ri).members) : t'.Right i data := by
  unfold Right at h ⊢
  split
  · next hd =>
    rw [if_pos hd] at h
    obtain ⟨ri, hri, hst, hlen⟩ := h
    obtain ⟨h1, h2⟩ := hroom ri hri
    exact ⟨ri, hr.trans hri, h1.trans hst, by rw [h2]; exact hlen⟩
  · next hd =>
    rw [if_neg hd] at h
    split
    · next hs =>
      rw [if_pos hs] at h
      obtain ⟨ri, hri, hst, hm⟩ := h
      obtain ⟨h1, h2⟩ := hroom ri hri
      exact ⟨ri, hr.trans hri, h1.trans hst, by rw [h2]; exact hm⟩
    · next hs =>
      rw [if_neg hs] at h
      exact hr.trans h

/-- Nothing is queued; the clients that are not excepted keep their room as it is. -/
theorem Informed.of_same {P P' : Nat → Prop} {t t' : CServer σ} (h : Informed P t)
    (hup : ∀ i, t'.Up i → t.Up i) (hconn : ∀ i, (t'.client i).conn = (t.client i).conn)
    (hnext : t'.nextConn = t.nextConn) (hq : t'.queued = t.queued)
    (hP : ∀ i, t'.Up i → ¬ P' i → ¬ P i ∧ (t'.client i).room = (t.client i).room ∧
      ∀ ri, (t.client i).room = some ri → (t'.room ri).started = (t.room ri).started ∧
        (t'.room ri).members = (t.room ri).members) : Informed P' t' where
  conn_lt i hi := by
    rw [hconn, hnext]
    exact h.conn_lt i (hup i hi)
  conn_inj i j hi hj he := by
    rw [hconn, hconn] at he
    exact h.conn_inj i j (hup i hi) (hup j hj) he
  queued_lt q := by
    rw [hq, hnext]
    exact h.queued_lt q
  agrees i hi hn := by
    obtain ⟨hP, hr, hroom⟩ := hP i hi hn
    have ha := h.agrees i (hup i hi) hP
    unfold Agrees at ha ⊢
    rw [hq, hconn]
    split
    · next data hd =>
      rw [hd] at ha
      exact ha.of_eq hr hroom
    · next hd =>
      rw [hd] at ha
      exact hr.trans ha

theorem Informed.mono {P P' : Nat → Prop} {t : CServer σ} (h : Informed P t)
    (hP : ∀ i, t.Up i → P i → P' i) : Informed P' t :=
  h.of_same (fun _ hi => hi) (fun _ => rfl) rfl rfl
    (fun i hi hn => ⟨fun hp => hn (hP i hi hp), rfl, fun _ _ => ⟨rfl, rfl⟩⟩)

theorem Informed.alike {P : Nat → Prop} {t t' : CServer σ} (h : Informed P t) (a : Alike t t')
    (hst : ∀ j, (t'.room j).started = (t.room j).started) (hnext : t'.nextConn = t.nextConn)
    (hq : t'.queued = t.queued) : Informed P t' :=
  h.of_same (fun _ hi => a.up.mp hi) (fun i => by rw [a.client]) hnext hq
    (fun i _ hn => ⟨hn, by rw [a.client], fun ri _ => ⟨hst ri, a.members ri⟩⟩)

/-- A frame for a client that is up. -/
theorem Informed.push {P P' : Nat → Prop} {t : CServer σ} (h : Informed P t) {ci : Nat}
    (hci : t.Up ci) {data : List Byte} (hP : ∀ i, i ≠ ci → P i → P' i)
    (hself : ¬ P' ci → (membership data = true ∧ t.Right ci data) ∨
      (membership data = false ∧ ¬ P ci)) : Informed P' (t.push ci data) where
  conn_lt := h.conn_lt
  conn_inj := h.conn_inj
  queued_lt q hq := by
    rcases List.mem_append.mp hq with hq | hq
    · exact h.queued_lt q hq
    · rw [List.mem_singleton.mp hq]
      exact h.conn_lt ci hci
  agrees i hi hn := by
    have hlast : lastTold (t.push ci data).queued ((t.push ci data).client i).conn =
        if (t.client ci).conn = (t.client i).conn ∧ membership data then some data
        else lastTold t.queued (t.client i).conn := lastTold_append t.queued _ _ data
    rw [Agrees, hlast]
    by_cases he : i = ci
    · subst he
      rcases hself hn with ⟨hm, hr⟩ | ⟨hm, hnp⟩
      · rw [if_pos ⟨rfl, hm⟩]
        exact hr
      · rw [if_neg (fun hc => by rw [hm] at hc; exact nomatch hc.2)]
        exact h.agrees i hi hnp
    · rw [if_neg (fun hc => he (h.conn_inj i ci hi hci hc.1.symm))]
      exact h.agrees i hi (fun hp => hn (hP i he hp))

/-! ## Sends -/

/-- Both are in the same room. -/
def Mates (t : CServer σ) (ci x : Nat) : Prop :=
  ∃ ri, (t.client ci).room = some ri ∧ (t.client x).room = some ri

/-- Where nested drops of `--proto 2` start from. -/
structure Within (n : Nat) (xs rs : List Nat) (t : CServer σ) : Prop where
  sound : Sound xs rs t
  alive : t.alive.length ≤ n
  proto : t.proto = protoV2

theorem Within.goes {n : Nat} {xs rs : List Nat} {t t' : CServer σ} (h : Within n xs rs t)
    (hg : Goes xs rs t t') : Within n xs rs t' :=
  ⟨hg.sound, hg.later.alive.trans h.alive, hg.later.fixed.proto.trans h.proto⟩

/-- `dropF` is a drop() that tells the room-mates what became of the room, unless `staleF`
    says that it has a stale send. -/
structure Informs [Transport σ] (n : Nat) (dropF : CServer σ → Nat → CServer σ)
    (staleF : CServer σ → Nat → Bool) : Prop where
  drops : Drops n dropF
  solo : ∀ t ci, (t.client ci).room = none → staleF t ci = false
  informs : ∀ xs rs t ci P, Within n xs rs t → t.Known ci → Informed P t → staleF t ci = false →
    Informed (fun x => P x ∧ ¬ t.Mates ci x) (dropF t ci)

section Sends
variable [Transport σ] {dropF : CServer σ → Nat → CServer σ} {staleF : CServer σ → Nat → Bool}
  {n : Nat} {xs rs : List Nat} {P : Nat → Prop} {t : CServer σ} {ci : Nat}

theorem sendVia_taken (dropF : CServer σ → Nat → CServer σ) {data : List Byte} (h : t.takes ci data = true) :
    ∃ net, t.sendVia dropF ci data = CServer.push { t with net } ci data := by
  rw [takes, decide_eq_true_eq] at h
  rw [CServer.sendVia, if_neg (by rw [h.1]; exact Bool.false_ne_true)]
  split
  · next net _ => exact ⟨net, rfl⟩
  · next hs =>
    rw [hs] at h
    cases h.2
  · next hs =>
    rw [hs] at h
    cases h.2

/-- The client is dead, or it is dropped. -/
theorem sendVia_refused (dropF : CServer σ → Nat → CServer σ) (staleF : CServer σ → Nat → Bool)
    {data : List Byte} (h : t.takes ci data = false) :
    ((t.client ci).dead = true ∧ t.sendVia dropF ci data = t) ∨
    ((t.client ci).dead = false ∧ ∃ net t', (t' = { t with net } ∨
      t' = CServer.push { t with net } ci data) ∧ t.sendVia dropF ci data = dropF t' ci ∧
      t.staleSend staleF ci data = staleF t' ci) := by
  by_cases hd : (t.client ci).dead = true
  · rw [CServer.sendVia, if_pos hd]
    exact Or.inl ⟨hd, rfl⟩
  · refine Or.inr ⟨Bool.eq_false_iff.mpr hd, ?_⟩
    rw [takes, decide_eq_false_iff_not, not_and] at h
    have h := h (Bool.eq_false_iff.mpr hd)
    rw [CServer.sendVia, staleSend, if_neg hd, if_neg hd]
    generalize Transport.send t.net (t.client ci).conn data = r at h ⊢
    obtain ⟨net, res⟩ := r
    cases res with
    | queued => exact absurd rfl h
    | backlog => exact ⟨net, _, Or.inl rfl, rfl, rfl⟩
    | error => exact ⟨net, _, Or.inr rfl, rfl, rfl⟩

omit [Transport σ] in
theorem Informed.net (h : Informed P t) (net : σ) : Informed P { t with net } :=
  h.alike (alike_net t net) (fun _ => rfl) rfl rfl

omit [Transport σ] in
theorem Informed.no_mates {t' : CServer σ} (h : Informed P t') (hr : (t.client ci).room = none) :
    Informed (fun x => P x ∧ ¬ t.Mates ci x) t' := by
  refine h.mono (fun x _ hp => ⟨hp, ?_⟩)
  rintro ⟨ri, hri, -⟩
  rw [hr] at hri
  cases hri

theorem Informs.refused (hf : Informs n dropF staleF) (hv : Within n xs rs t) (hk : t.Known ci)
    (h : Informed (fun x => P x ∨ x = ci) t) {data : List Byte}
    (hs : t.staleSend staleF ci data = false) (ht : t.takes ci data = false) :
    Informed (fun x => P x ∧ ¬ t.Mates ci x) (t.sendVia dropF ci data) := by
  rcases sendVia_refused dropF staleF ht with
    ⟨hd, heq⟩ | ⟨hd, net, t', ht', heq, hst⟩
  · rw [heq]
    refine (h.mono (fun x hx hp => hp.resolve_right ?_)).no_mates (hv.sound.dead_solo hd)
    rintro rfl
    rw [hx.2.2] at hd
    exact nomatch hd
  · have hinf : Alike t t' ∧ Fixed t t' ∧ Informed (fun x => P x ∨ x = ci) t' := by
      rcases ht' with rfl | rfl
      · exact ⟨alike_net t net, ⟨rfl, rfl, rfl, rfl, rfl, rfl⟩, h.net net⟩
      · refine ⟨⟨rfl, fun _ => rfl, fun _ => rfl, rfl, rfl, rfl, rfl, rfl⟩,
          ⟨rfl, rfl, rfl, rfl, rfl, rfl⟩, ?_⟩
        exact (h.net net).push (hk.up hd) (fun _ _ hp => hp) (fun hn => absurd (Or.inr rfl) hn)
    obtain ⟨a, f, hinf⟩ := hinf
    have hk' := a.known.mpr hk
    have hv' : Within n xs rs t' :=
      ⟨hv.sound.alike a, by rw [a.alive]; exact hv.alive, f.proto.trans hv.proto⟩
    have hdead := (hf.drops xs rs t' ci hv'.sound hk' hv'.alive).2
    rw [heq]
    refine (hf.informs xs rs t' ci _ hv' hk' hinf (hst.symm.trans hs)).mono (fun x hx hp => ?_)
    obtain ⟨hp | rfl, hm⟩ := hp
    · refine ⟨hp, fun hm' => hm ?_⟩
      rw [Mates, a.client]
      exact hm'
    · rw [hx.2.2] at hdead
      exact nomatch hdead

/-- A frame that is about something else. -/
theorem Informs.plain (hf : Informs n dropF staleF) (hv : Within n xs rs t) (hk : t.Known ci)
    (h : Informed P t) {data : List Byte} (hdata : membership data = false)
    (hs : t.staleSend staleF ci data = false) : Informed P (t.sendVia dropF ci data) := by
  cases ht : t.takes ci data with
  | true =>
    obtain ⟨net, heq⟩ := sendVia_taken dropF ht
    rw [takes, decide_eq_true_eq] at ht
    rw [heq]
    exact (h.net net).push (hk.up ht.1) (fun _ _ hp => hp) (fun hn => Or.inr ⟨hdata, hn⟩)
  | false =>
    exact (hf.refused hv hk (h.mono (fun _ _ hp => Or.inl hp)) hs ht).mono (fun _ _ hp => hp.1)

/-- A frame that is right. -/
theorem Informs.tell (hf : Informs n dropF staleF) (hv : Within n xs rs t) (hk : t.Known ci)
    (h : Informed (fun x => P x ∨ x = ci) t) {data : List Byte} (hdata : membership data = true)
    (hr : t.Right ci data) (hs : t.staleSend staleF ci data = false) :
    Informed P (t.sendVia dropF ci data) := by
  cases ht : t.takes ci data with
  | true =>
    obtain ⟨net, heq⟩ := sendVia_taken dropF ht
    rw [takes, decide_eq_true_eq] at ht
    rw [heq]
    exact (h.net net).push (hk.up ht.1) (fun i hi hp => hp.resolve_right hi)
      (fun _ => Or.inl ⟨hdata, hr⟩)
  | false => exact (hf.refused hv hk h hs ht).mono (fun _ _ hp => hp.1)

theorem sendEachVia_cons (t : CServer σ) (data : Nat → List Byte) (m : Nat × Nat)
    (mm : List (Nat × Nat)) : t.sendEachVia dropF data (m :: mm) =
      (t.sendVia dropF m.1 (data m.2)).sendEachVia dropF data mm := rfl

/-- The rest of a loop in which no send is taken any more. -/
theorem Informs.lost (hf : Informs n dropF staleF) (hv : Within n xs rs t) (h : Informed P t)
    {data : Nat → List Byte} {mm : List (Nat × Nat)} (hk : ∀ m ∈ mm, t.Known m.1)
    (hs : staleEach dropF staleF data true t mm = false) :
    Informed P (t.sendEachVia dropF data mm) := by
  induction mm generalizing t with
  | nil => exact h
  | cons m mm ih =>
    rw [staleEach, Bool.true_and, Bool.true_or, Bool.or_eq_false_iff, Bool.or_eq_false_iff] at hs
    obtain ⟨⟨ht, hs1⟩, hs2⟩ := hs
    have hkm := hk m List.mem_cons_self
    have hg := hf.drops.sendVia hv.sound hkm hv.alive (data m.2)
    have h1 := hf.refused hv hkm (h.mono (fun _ _ hp => Or.inl hp)) hs1 ht
    exact ih (hv.goes hg) (h1.mono (fun _ _ hp => hp.1))
      (fun m' hm => hg.later.known (hk m' (List.mem_cons_of_mem _ hm))) hs2

/-- A loop over the members of a room, each of which is told what is the case. -/
theorem Informs.each (hf : Informs n dropF staleF) (hv : Within n xs rs t) (ri : Nat)
    {data : Nat → List Byte} {mm : List (Nat × Nat)}
    (h : Informed (fun x => P x ∨ x ∈ mm.map Prod.fst) t)
    (hm : ∀ m ∈ mm, t.Known m.1 ∧ (t.client m.1).room = some ri ∧
      membership (data m.2) = true ∧ t.Right m.1 (data m.2))
    (hs : staleEach dropF staleF data false t mm = false) :
    Informed P (t.sendEachVia dropF data mm) := by
  induction mm generalizing t with
  | nil => exact h.mono (fun _ _ hp => hp.resolve_right List.not_mem_nil)
  | cons m mm ih =>
    rw [staleEach, Bool.false_and, Bool.false_or, Bool.false_or, Bool.or_eq_false_iff] at hs
    obtain ⟨hs1, hs2⟩ := hs
    obtain ⟨hkm, hroom, hdata, hright⟩ := hm m List.mem_cons_self
    have hm' := fun m' h' => hm m' (List.mem_cons_of_mem m h')
    have h1 : Informed (fun x => (P x ∨ x ∈ mm.map Prod.fst) ∨ x = m.1) t := by
      refine h.mono (fun x _ hp => ?_)
      rw [List.map_cons, List.mem_cons] at hp
      tauto
    have hg := hf.drops.sendVia hv.sound hkm hv.alive (data m.2)
    cases ht : t.takes m.1 (data m.2) with
    | true =>
      have h2 := hf.tell hv hkm h1 hdata hright hs1
      obtain ⟨net, heq⟩ := sendVia_taken dropF ht
      rw [ht, Bool.not_true] at hs2
      rw [sendEachVia_cons]
      refine ih (hv.goes hg) h2 (fun m' h' => ?_) hs2
      rw [heq]
      exact hm' m' h'
    | false =>
      have h2 := hf.refused hv hkm h1 hs1 ht
      rw [ht, Bool.not_false] at hs2
      refine hf.lost (hv.goes hg) (h2.mono (fun x _ hp => ?_))
        (fun m' h' => hg.later.known (hm' m' h').1) hs2
      -- whoever was still to be told is a room-mate of the client that was dropped
      obtain ⟨hp | hp, hno⟩ := hp
      · exact hp
      · obtain ⟨m', h', rfl⟩ := List.mem_map.mp hp
        exact absurd ⟨ri, hroom, (hm' m' h').2.1⟩ hno

/-- A loop over solo clients, who are told so. -/
theorem Informs.soloEach (hf : Informs n dropF staleF) (hv : Within n xs rs t)
    {data : List Byte} {mm : List (Nat × Nat)}
    (h : Informed (fun x => P x ∨ x ∈ mm.map Prod.fst) t) (hdata : membership data = true)
    (hsolo : ∀ t' : CServer σ, ∀ i, (t'.client i).room = none → t'.Right i data)
    (hm : ∀ m ∈ mm, t.Known m.1 ∧ (t.client m.1).room = none) :
    Informed P (t.sendEachVia dropF (fun _ => data) mm) := by
  induction mm generalizing t with
  | nil => exact h.mono (fun _ _ hp => hp.resolve_right List.not_mem_nil)
  | cons m mm ih =>
    obtain ⟨hkm, hroom⟩ := hm m List.mem_cons_self
    have h1 : Informed (fun x => (P x ∨ x ∈ mm.map Prod.fst) ∨ x = m.1) t := by
      refine h.mono (fun x _ hp => ?_)
      rw [List.map_cons, List.mem_cons] at hp
      tauto
    have hs : t.staleSend staleF m.1 data = false := by
      rw [staleSend]
      split
      · rfl
      · split
        · rfl
        · exact hf.solo _ _ hroom
        · exact hf.solo _ _ hroom
    have hg := hf.drops.sendVia hv.sound hkm hv.alive data
    refine ih (hv.goes hg) (hf.tell hv hkm h1 hdata (hsolo t m.1 hroom) hs) (fun m' h' => ?_)
    obtain ⟨hk', hr'⟩ := hm m' (List.mem_cons_of_mem m h')
    refine ⟨hg.later.known hk', ?_⟩
    rcases hg.later.room m'.1 with hr | hr
    · exact hr.trans hr'
    · exact hr

/-! ## drop() -/

theorem broadcastVia_eq (t : CServer σ) (ri : Nat) :
    t.broadcastVia dropF ri =
      t.sendEachVia dropF (fun _ => t.roomFrame ri) (t.room ri).members.zipIdx := rfl

omit [Transport σ] in
theorem membership_frame {ftype : Byte} (payload : List Byte)
    (h : ftype = tRoom ∨ ftype = tStart ∨ ftype = tPeerLeft) :
    membership (frame ftype payload) = true := decide_eq_true h

omit [Transport σ] in
theorem Within.seats_le (hv : Within n xs rs t) : t.maxSeats ≤ maxSeatsCap := by
  rcases hv.sound.seats with ⟨hp, -⟩ | ⟨-, -, hm⟩
  · rw [hv.proto] at hp
    exact absurd hp (by decide)
  · exact hm

omit [Transport σ] in
theorem count_toNat {k : Nat} (h : k ≤ maxSeatsCap) : (UInt8.ofNat k).toNat = k := by
  rw [UInt8.toNat_ofNat']
  exact Nat.mod_eq_of_lt (lt_of_le_of_lt h (by decide))

omit [Transport σ] in
theorem map_fst_zipIdx (ms : List Nat) : ms.zipIdx.map Prod.fst = ms := by
  simp

/-- room_broadcast() of a forming room. -/
theorem Informs.broadcast (hf : Informs n dropF staleF) (hv : Within n xs rs t) {ri : Nat}
    (hh : t.Housed ri) (hst : (t.room ri).started = false)
    (h : Informed (fun x => P x ∨ x ∈ (t.room ri).members) t)
    (hs : t.staleBroadcast dropF staleF ri = false) : Informed P (t.broadcastVia dropF ri) := by
  rw [broadcastVia_eq]
  refine hf.each hv ri (by rw [map_fst_zipIdx]; exact h) (fun m hm => ?_) hs
  obtain ⟨hup, hroom⟩ := hh.member m.1 (List.fst_mem_of_mem_zipIdx hm)
  refine ⟨hup.known, hroom, membership_frame _ (Or.inl rfl), ?_⟩
  have hcount : ((t.roomFrame ri).getD 2 0).toNat = (t.room ri).members.length :=
    count_toNat (hh.cap.trans hv.seats_le)
  rw [Right, if_pos ⟨rfl, by rw [hcount]; exact hh.two⟩]
  exact ⟨ri, hroom, hst, hcount.symm⟩

omit [Transport σ] in
theorem Informed.unlink (h : Informed (fun x => P x ∨ x ∈ (t.room ri).members) t) :
    Informed (fun x => P x ∨ x ∈ (t.room ri).members) (t.unlink (t.room ri).members) := by
  refine h.of_same (fun i hi => unlink_up.mp hi) (fun i => ?_) (by rw [unlink_eq]) (by rw [unlink_eq])
    (fun i _ hn => ⟨hn, ?_, fun _ _ => by rw [unlink_room]; exact ⟨rfl, rfl⟩⟩)
  · rw [unlink_client]
    split <;> rfl
  · rw [unlink_client, if_neg (fun hm => hn (Or.inr hm))]

omit [Transport σ] in
theorem Informed.closeRoom {ri : Nat} (h : Informed P t)
    (hleft : ∀ i, (t.client i).room ≠ some ri) : Informed P (t.closeRoom ri) :=
  h.of_same (fun _ hi => hi) (fun _ => rfl) rfl rfl (fun i _ hn =>
    ⟨hn, rfl, fun rj hrj => by
      have hne : rj ≠ ri := fun he => hleft i (by rw [hrj, he])
      rw [closeRoom_room hne]
      exact ⟨rfl, rfl⟩⟩)

omit [Transport σ] in
theorem right_solo {t : CServer σ} {i : Nat} {data : List Byte} (hr : (t.client i).room = none)
    (hroom : ¬ (data.getD 1 0 = tRoom ∧ 2 ≤ (data.getD 2 0).toNat))
    (hstart : data.getD 1 0 ≠ tStart) : t.Right i data := by
  rw [Right, if_neg hroom, if_neg hstart]
  exact hr

omit [Transport σ] in
theorem right_room_zero {t : CServer σ} {i : Nat} (payload : List Byte)
    (hr : (t.client i).room = none) : t.Right i (frame tRoom (0 :: payload)) :=
  right_solo hr (fun h => absurd (show 2 ≤ (0 : Byte).toNat from h.2) (by decide))
    (by show tRoom ≠ tStart; decide)

omit [Transport σ] in
theorem right_peerLeft {t : CServer σ} {i : Nat} (payload : List Byte)
    (hr : (t.client i).room = none) : t.Right i (frame tPeerLeft payload) :=
  right_solo hr (fun h => absurd (show tPeerLeft = tRoom from h.1) (by decide))
    (by show tPeerLeft ≠ tStart; decide)

/-- dissolve(): the members are solo and are told so. -/
theorem Informs.dissolve (hf : Informs n dropF staleF) {ri : Nat} (h : Parting n xs rs ri t)
    (hp : t.proto = protoV2) (hinf : Informed (fun x => P x ∨ x ∈ (t.room ri).members) t) :
    Informed P (t.dissolveVia dropF ri (t.room ri).members) := by
  have hl := later_unlink h.roomed
  have hsolo : ∀ m ∈ (t.room ri).members.zipIdx,
      (t.unlink (t.room ri).members).Known m.1 ∧
        ((t.unlink (t.room ri).members).client m.1).room = none := by
    intro m hm
    have hmem := List.fst_mem_of_mem_zipIdx hm
    refine ⟨hl.known (h.roomed.member m.1 hmem).1.known, ?_⟩
    rw [unlink_client, if_pos hmem]
  have hv : Within n xs (ri :: rs) (t.unlink (t.room ri).members) :=
    ⟨h.unlink, hl.alive.trans h.alive, hl.fixed.proto.trans hp⟩
  have hg := hf.drops.sendEachVia hv.sound (fun _ => frame tRoom (0 :: List.replicate 32 0)) _
    (fun m hm => (hsolo m hm).1) hv.alive
  rw [dissolveVia_eq]
  refine Informed.closeRoom ?_ (fun i hi => hg.sound.left i ri hi List.mem_cons_self)
  refine hf.soloEach hv ?_ (membership_frame _ (Or.inl rfl)) (fun t' i => right_room_zero _) hsolo
  rw [map_fst_zipIdx]
  exact hinf.unlink

/-- The end of a match: dissolve(), then PEER_LEFT for everybody. -/
theorem Informs.finish (hf : Informs n dropF staleF) {ri : Nat} (h : Parting n xs rs ri t)
    (hp : t.proto = protoV2) (hinf : Informed (fun x => P x ∨ x ∈ (t.room ri).members) t)
    (payload : List Byte) :
    Informed P ((t.dissolveVia dropF ri []).sendEachVia dropF
      (fun _ => frame tPeerLeft payload) (t.room ri).members.zipIdx) := by
  have hg := hf.drops.dissolveVia h [] (fun _ hm => absurd hm List.not_mem_nil)
  have hclosed : t.dissolveVia dropF ri [] =
      (t.unlink (t.room ri).members).closeRoom ri := rfl
  have hv : Within n xs rs (t.dissolveVia dropF ri []) :=
    ⟨hg.sound, hg.later.alive.trans h.alive, hg.later.fixed.proto.trans hp⟩
  refine hf.soloEach hv ?_ (membership_frame _ (Or.inr (Or.inr rfl)))
    (fun t' i => right_peerLeft _) (fun m hm => ?_)
  · rw [map_fst_zipIdx, hclosed]
    refine hinf.unlink.closeRoom (fun i hi => ?_)
    obtain ⟨hnm, hi⟩ := unlink_member hi
    exact hnm (h.linked.seat i ri hi).2
  · have hmem := List.fst_mem_of_mem_zipIdx hm
    refine ⟨hg.later.known (h.roomed.member m.1 hmem).1.known, ?_⟩
    rw [hclosed]
    show ((t.unlink (t.room ri).members).client m.1).room = none
    rw [unlink_client, if_pos hmem]

theorem Informs.leave (hf : Informs n dropF staleF) {ri : Nat} (h : Parting n xs rs ri t)
    (hp : t.proto = protoV2) (hinf : Informed (fun x => P x ∨ x ∈ (t.room ri).members) t)
    (ci : Nat) (seat : Option Nat)
    (hs : (t.room ri).started = false → seat ≠ some 0 → 2 ≤ (t.room ri).members.length →
      t.staleBroadcast dropF staleF ri = false) :
    Informed P (t.leaveVia dropF ci ri seat) := by
  rw [CServer.leaveVia]
  split
  · next hv1 =>
    rw [hp] at hv1
    exact absurd hv1 (by decide)
  · split
    · exact hf.finish h hp hinf _
    · next hst =>
      have hst := Bool.eq_false_iff.mpr hst
      split
      · exact hf.dissolve h hp hinf
      · next hseat =>
        split
        · exact hf.dissolve h hp hinf
        · next hlt =>
          have htwo := Nat.not_lt.mp hlt
          exact hf.broadcast ⟨h.keep htwo, h.alive, hp⟩ ⟨h.roomed, htwo⟩ hst hinf
            (hs hst hseat htwo)

omit [Transport σ] in
theorem Informed.clientFree (h : Informed P t) (ci : Nat) : Informed P (t.clientFree ci) := by
  have hsame : ∀ i, ((t.clientFree ci).client i).room = (t.client i).room ∧
      ((t.clientFree ci).client i).conn = (t.client i).conn := fun i => by
    rw [clientFree_client]
    split <;> exact ⟨rfl, rfl⟩
  refine h.of_same (fun i hi => ?_) (fun i => (hsame i).2) rfl rfl
    (fun i _ hn => ⟨hn, (hsame i).1, fun _ _ => ⟨rfl, rfl⟩⟩)
  rw [Up, clientFree_client] at hi
  split at hi
  · cases hi.2.1
  · exact hi

omit [Transport σ] in
theorem Up.of_bury {i : Nat} (h : (t.bury ci).Up i) : i ≠ ci ∧ t.Up i := by
  rw [Up, bury_client] at h
  split at h
  · cases h.2.2
  · next hne => exact ⟨hne, h⟩

omit [Transport σ] in
theorem Informed.bury (h : Informed P t) (ci : Nat) : Informed P (t.bury ci) := by
  refine h.of_same (fun i hi => hi.of_bury.2) (fun i => ?_) rfl rfl
    (fun i _ hn => ⟨hn, bury_room t ci i, fun _ _ => ⟨rfl, rfl⟩⟩)
  rw [bury_client]
  split <;> rfl

omit [Transport σ] in
/-- The room-mates are about to be told. -/
theorem Informed.unseat (h : Informed P t) (hs : Sound xs rs t) {ri : Nat}
    (hroom : (t.client ci).room = some ri) :
    Informed (fun x => (P x ∧ ¬ t.Mates ci x) ∨
      x ∈ (((t.bury ci).unseat ci ri).room ri).members) ((t.bury ci).unseat ci ri) := by
  have hcl : ∀ i, i ≠ ci → ((t.bury ci).unseat ci ri).client i = t.client i := fun i hi => by
    rw [unseat_client, if_neg hi, bury_client, if_neg hi]
  have hup : ∀ i, ((t.bury ci).unseat ci ri).Up i → i ≠ ci ∧ t.Up i := by
    intro i hi
    have hb : (t.bury ci).Up i := by
      rw [Up, unseat_client] at hi
      split at hi <;> exact hi
    exact hb.of_bury
  refine h.of_same (fun i hi => (hup i hi).2) (fun i => ?_) rfl rfl (fun i hi hn => ?_)
  · rw [unseat_client, bury_client]
    split <;> rfl
  · obtain ⟨hne, -⟩ := hup i hi
    rw [not_or, unseat_members] at hn
    have hmate : (t.client i).room ≠ some ri := fun hi =>
      hn.2 ((List.mem_erase_of_ne hne).mpr (hs.seat i ri hi).2)
    refine ⟨fun hp => hn.1 ⟨hp, ?_⟩, by rw [hcl i hne], fun rj hrj => ?_⟩
    · rintro ⟨rj, hcj, hij⟩
      rw [hroom] at hcj
      exact hmate (hij.trans hcj.symm)
    · have hj : rj ≠ ri := fun he => hmate (hrj.trans (congrArg some he))
      rw [unseat_room hj]
      exact ⟨rfl, rfl⟩

theorem Informs.drop (hf : Informs n dropF staleF) :
    Informs (n + 1) (fun t ci => t.dropVia dropF ci)
      (fun t ci => t.staleDrop dropF staleF ci) where
  drops := hf.drops.dropVia
  solo t ci hr := by
    rw [staleDrop, hr]
    split <;> rfl
  informs xs rs t ci P hv hk h hs := by
    rw [staleDrop] at hs
    rw [CServer.dropVia]
    split
    · next hdead => exact h.no_mates (hv.sound.dead_solo hdead)
    · next hdead =>
      rw [if_neg hdead] at hs
      have hup := hk.up (Bool.eq_false_iff.mpr hdead)
      dsimp only
      split
      · next hroom =>
        rw [bury_room] at hroom
        exact ((h.bury ci).clientFree ci).no_mates hroom
      · next ri hroom =>
        rw [bury_room] at hroom
        rw [hroom] at hs
        dsimp only at hs
        have hpart := (hv.sound.parting hup hroom).1
        have hn := hv.alive
        refine Informed.clientFree ?_ ci
        refine hf.leave (hpart.mono (by omega)) hv.proto (h.unseat hv.sound hroom) ci _ ?_
        intro hst hseat htwo
        rwa [if_neg] at hs
        rw [not_or, not_or, Bool.not_eq_true, Nat.not_lt]
        refine ⟨?_, hseat, htwo⟩
        rw [← hst, CServer.unseat, modRoom]
        dsimp only
        rw [if_pos rfl]
        rfl

theorem informs_dropN (n : Nat) : Informs n (dropN n : CServer σ → Nat → CServer σ) (staleN n) := by
  induction n with
  | zero =>
    refine ⟨drops_dropN 0, fun _ _ _ => rfl, fun xs rs t ci P hv hk h _ => ?_⟩
    have hd : (t.client ci).dead = true := by
      by_contra hd
      have hm := mem_alive.mpr (hk.up (Bool.not_eq_true _ ▸ hd))
      rw [List.length_eq_zero_iff.mp (Nat.le_zero.mp hv.alive)] at hm
      exact absurd hm List.not_mem_nil
    rw [dropN, if_pos hd]
    exact h.no_mates (hv.sound.dead_solo hd)
  | succ n ih => exact ih.drop

end Sends

end CServer

end IntvBasketball.Relay
