/-
  The jobs of the C relay that have no stale send leave every client with the truth.

  `staleJob` follows a job as far as its send loops and the drops of the clients that are
  refused. `told_agrees` is about runs: as long as no job has a stale send, what each
  client was last told is what the relay believes. With two seats, it takes a ROOM or
  START that is refused for the host while the guest takes its own.
-/
import IntvBasketball.Relay.CTold

namespace IntvBasketball.Relay.CServer

variable {σ : Type}

/-- The name of an accepted HELLO. -/
def helloName (proto : Nat) (payload : List Byte) : Option (List Byte) :=
  if payload.length < 3 then none
  else if proto = protoV2 ∧ payload.headD 0 ≠ protoVer then none
  else
    let raw := rstripNulSpace (payload.drop 1)
    if raw.length < 2 ∨ 8 < raw.length then none
    else if ¬ raw.all nameByte then none
    else some raw

/-- The LOBBY of on_list(). -/
def lobbyFrame (t : CServer σ) (ci : Nat) : List Byte :=
  let others :=
    ((t.byName.map (·.2)).filter (fun oc => oc ≠ ci ∧ (t.client oc).name ≠ [])).take lobbyEntries
  let entries := (others.map (fun oc => cPadName (t.client oc).name ++ [t.statusByte oc])).flatten
  frame tLobby (UInt8.ofNat others.length :: entries)

/-- The client that on_join() joins, if it comes to that. -/
def joins (t : CServer σ) (ci : Nat) (payload : List Byte) : Option Nat :=
  if (t.client ci).name = [] ∨ (t.client ci).room ≠ none ∨ 8 < (rstripNulSpace payload).length then none
  else t.joinTarget ci (cstr (rstripNulSpace payload))

/-- The room that on_go() starts. -/
def goes (t : CServer σ) (ci : Nat) : Option Nat :=
  match (t.client ci).room with
  | none => none
  | some ri =>
    if (t.room ri).started ∨ t.roomSeat ri ci ≠ some 0 then none
    else if (t.room ri).members.length < 2 ∨ t.maxSeats < (t.room ri).members.length then none
    else some ri

variable [Transport σ]

/-! ## Jobs with a stale send -/

def stale (t : CServer σ) (ci : Nat) : Bool := staleN t.alive.length t ci

def staleHello (t : CServer σ) (ci : Nat) (name : List Byte) : Bool :=
  (match t.nameClient name with
    | some old => if old = ci then false else t.stale old
    | none => false) ||
  (let t := t.replaceOld ci name
   if (t.client ci).dead then false
   else (t.rename ci name).staleSend stale ci ((t.rename ci name).lobbyFrame ci))

def staleStart (t : CServer σ) (ri : Nat) : Bool :=
  staleEach drop stale ((t.marked ri).startFrame ri (t.seeds t.nextSeed)) false (t.marked ri)
    ((t.marked ri).room ri).members.zipIdx

def staleAnnounce (t : CServer σ) (ri : Nat) : Bool :=
  t.staleBroadcast drop stale ri ||
  (let t := t.roomBroadcast ri
   if t.autoGo ≠ 0 ∧ t.autoGo ≤ (t.room ri).members.length then t.staleStart ri else false)

def staleJoin (t : CServer σ) (ci target : Nat) : Bool :=
  match t.roomFor target with
  | (_, none) => false
  | (t, some ri) => ((t.addMember ri ci).modClient ci ({ · with room := some ri })).staleAnnounce ri

def staleHandle (t : CServer σ) (ci : Nat) (ftype : Byte) (payload : List Byte) : Bool :=
  if ftype ∈ relayTypes then false
  else if ftype = tHello then
    match helloName t.proto payload with
    | none => t.stale ci
    | some name => t.staleHello ci name
  else if ftype = tList then t.staleSend stale ci (t.lobbyFrame ci)
  else if ftype = tJoin then
    if (t.client ci).name = [] then t.stale ci
    else ((t.joins ci payload).map (t.staleJoin ci)).getD false
  else if ftype = tGo then ((t.goes ci).map t.staleStart).getD false
  else if ftype = tPing then t.staleSend stale ci (frame tPong [])
  else t.stale ci

/-- Some send of a loop in this job is taken after another one was refused. -/
def staleJob (x : CCall σ) : Bool :=
  match x.job with
  | .handle ftype payload => x.srv.staleHandle x.slot ftype payload
  | .drop => x.srv.stale x.slot
  | .flush =>
    match Transport.flush x.srv.net (x.srv.client x.slot).conn with
    | (_, true) => false
    | (net, false) => stale { x.srv with net } x.slot

/-! ## The handlers, by what they do -/

theorem onHello_eq (t : CServer σ) (ci : Nat) (payload : List Byte) :
    t.onHello ci payload =
      match helloName t.proto payload with
      | none => t.drop ci
      | some name => t.hello ci name := by
  rw [onHello, helloName]
  dsimp only
  split_ifs <;> rfl

theorem onGo_eq (t : CServer σ) (ci : Nat) :
    t.onGo ci = ((t.goes ci).map t.startRoom).getD t := by
  rw [onGo, goes]
  cases (t.client ci).room with
  | none => rfl
  | some ri =>
    dsimp only
    split_ifs <;> rfl

theorem onJoin_eq {t : CServer σ} (hp : t.proto = protoV2) (ci : Nat) (payload : List Byte) :
    (∃ x, t.joins ci payload = some x ∧ t.onJoin ci payload = t.join ci x ∧
      (t.client ci).room = none ∧ t.joinTarget ci (cstr (rstripNulSpace payload)) = some x) ∨
    (t.joins ci payload = none ∧ ((t.client ci).name = [] ∧ t.onJoin ci payload = t.drop ci ∨
      t.onJoin ci payload = t ∨
      (t.client ci).room = none ∧ t.onJoin ci payload = t.onList ci)) := by
  rw [onJoin, joins]
  have hv1 : t.proto ≠ protoV1 := by rw [hp]; decide
  by_cases hn : (t.client ci).name = []
  · rw [if_pos hn, if_pos (Or.inl hn)]
    exact Or.inr ⟨rfl, Or.inl ⟨hn, rfl⟩⟩
  · rw [if_neg hn]
    by_cases hr : (t.client ci).room = none
    · rw [if_neg (not_not.mpr hr)]
      dsimp only
      by_cases hl : 8 < (rstripNulSpace payload).length
      · rw [if_pos hl, if_pos (Or.inr (Or.inr hl))]
        exact Or.inr ⟨rfl, Or.inr (Or.inr ⟨hr, rfl⟩)⟩
      · rw [if_neg hl, if_neg hv1, if_neg (by tauto)]
        split
        · next hx => exact Or.inr ⟨hx, Or.inr (Or.inr ⟨hr, rfl⟩)⟩
        · next x hx => exact Or.inl ⟨x, hx, rfl, hr, hx⟩
    · rw [if_pos hr, if_pos (Or.inr (Or.inl hr))]
      exact Or.inr ⟨rfl, Or.inr (Or.inl rfl)⟩

/-! ## The invariant in the handlers -/

theorem informs_drop (n : Nat) : Informs n (drop : CServer σ → Nat → CServer σ) stale where
  drops := drops_drop n
  solo t ci := (informs_dropN t.alive.length).solo t ci
  informs xs rs t ci P hv hk h hs :=
    (informs_dropN t.alive.length).informs xs rs t ci P ⟨hv.sound, le_rfl, hv.proto⟩ hk h hs

/-- While a client is served, and everybody knows what is the case. -/
structure Tells (ci : Nat) (t0 t : CServer σ) : Prop extends Serves ci t0 t where
  proto : t.proto = protoV2
  informed : Informed (fun _ => False) t

section Handlers
variable {ci : Nat} {t0 t : CServer σ}

omit [Transport σ] in
theorem Tells.within (h : Tells ci t0 t) : Within t.alive.length [] [] t :=
  ⟨h.sound, le_rfl, h.proto⟩

theorem Tells.drop (h : Tells ci t0 t) {x : Nat} (hx : t.Known x) (hs : t.stale x = false) :
    Tells ci t0 (t.drop x) where
  toServes := h.toServes.drop hx
  proto := (h.sound.drop hx).later.fixed.proto.trans h.proto
  informed := ((informs_drop _).informs [] [] t x _ h.within hx h.informed hs).mono
    (fun _ _ hp => hp.1)

theorem Tells.send (h : Tells ci t0 t) {x : Nat} (hx : t.Known x) {data : List Byte}
    (hdata : membership data = false) (hs : t.staleSend stale x data = false) :
    Tells ci t0 (t.sendRaw x data) where
  toServes := h.toServes.sendRaw hx data
  proto := ((drops_drop _).sendVia h.sound hx le_rfl data).later.fixed.proto.trans h.proto
  informed := (informs_drop _).plain h.within hx h.informed hdata hs

omit [Transport σ] in
theorem plain_frame {ftype : Byte} (payload : List Byte)
    (h : ¬ (ftype = tRoom ∨ ftype = tStart ∨ ftype = tPeerLeft)) :
    membership (frame ftype payload) = false := decide_eq_false h

theorem Tells.onList (h : Tells ci t0 t) {x : Nat} (hx : t.Known x)
    (hs : t.staleSend stale x (t.lobbyFrame x) = false) : Tells ci t0 (t.onList x) :=
  h.send hx (plain_frame _ (by decide)) hs

/-- A solo client has no room-mates to tell. -/
theorem staleSend_solo {x : Nat} (hr : (t.client x).room = none) (data : List Byte) :
    t.staleSend stale x data = false := by
  rw [staleSend]
  split
  · rfl
  · split
    · rfl
    · exact (informs_drop 0).solo _ _ hr
    · exact (informs_drop 0).solo _ _ hr

omit [Transport σ] in
theorem Tells.rename (h : Tells ci t0 t) (hci : t.Up ci) {name : List Byte} (hnil : name ≠ []) :
    Tells ci t0 (t.rename ci name) := by
  have heq := h.sound.rename_eq hci name
  have hcl : ∀ i, ((t.rename ci name).client i).room = (t.client i).room ∧
      ((t.rename ci name).client i).conn = (t.client i).conn ∧
      ((t.rename ci name).client i).inUse = (t.client i).inUse ∧
      ((t.rename ci name).client i).dead = (t.client i).dead := by
    intro i
    rw [heq]
    dsimp only
    split <;> exact ⟨rfl, rfl, rfl, rfl⟩
  have hup : ∀ i, (t.rename ci name).Up i → t.Up i := by
    intro i hi
    rw [Up, (hcl i).2.2.1, (hcl i).2.2.2] at hi
    exact hi
  have hfix : Fixed t (t.rename ci name) := by
    rw [heq]
    exact ⟨rfl, rfl, rfl, rfl, rfl, rfl⟩
  refine ⟨h.toServes.rename hci hnil, hfix.proto.trans h.proto, ?_⟩
  · refine h.informed.of_same hup (fun i => (hcl i).2.1) hfix.nextConn ?_ (fun i _ hn =>
      ⟨hn, (hcl i).1, fun ri _ => ?_⟩)
    · rw [heq]
    · rw [heq]
      exact ⟨rfl, rfl⟩

theorem Tells.hello (h : Tells ci t0 t) {name : List Byte} (hnil : name ≠ [])
    (hs : t.staleHello ci name = false) : Tells ci t0 (t.hello ci name) := by
  rw [staleHello, Bool.or_eq_false_iff] at hs
  obtain ⟨hs1, hs2⟩ := hs
  have h1 : Tells ci t0 (t.replaceOld ci name) := by
    rw [replaceOld]
    split
    · next old hold =>
      rw [hold] at hs1
      dsimp only at hs1
      split
      · exact h
      · next hne =>
        rw [if_neg hne] at hs1
        exact h.drop (h.sound.named _ (nameClient_mem hold)).1.known hs1
    · exact h
  rw [hello_eq]
  generalize t.replaceOld ci name = t1 at h1 hs2 ⊢
  dsimp only at hs2
  split
  · exact h1
  · next hdead =>
    rw [if_neg hdead] at hs2
    have h2 := h1.rename (h1.known.up (Bool.eq_false_iff.mpr hdead)) hnil
    exact h2.onList h2.known hs2

omit [Transport σ] in
theorem helloName_some {proto : Nat} {payload name : List Byte}
    (h : helloName proto payload = some name) : 2 ≤ name.length ∧ name.length ≤ 8 := by
  rw [helloName] at h
  dsimp only at h
  split_ifs at h with h1 h2 h3 h4
  obtain rfl := Option.some.inj h
  rw [not_or, Nat.not_lt, Nat.not_lt] at h3
  exact h3

theorem Tells.onHello (h : Tells ci t0 t) (payload : List Byte)
    (hs : (match helloName t.proto payload with
      | none => t.stale ci
      | some name => t.staleHello ci name) = false) : Tells ci t0 (t.onHello ci payload) := by
  rw [onHello_eq]
  split
  · next hn =>
    rw [hn] at hs
    exact h.drop h.known hs
  · next name hn =>
    rw [hn] at hs
    refine h.hello (fun hnil => ?_) hs
    have := (helloName_some hn).1
    rw [hnil] at this
    exact absurd this (by decide)

omit [Transport σ] in
theorem marked_room (t : CServer σ) (ri : Nat) :
    ((t.marked ri).room ri).started = true ∧
      ((t.marked ri).room ri).members = (t.room ri).members := by
  rw [marked, modRoom]
  dsimp only
  rw [if_pos rfl]
  exact ⟨rfl, rfl⟩

omit [Transport σ] in
theorem marked_other {ri j : Nat} (hj : j ≠ ri) : (t.marked ri).room j = t.room j := if_neg hj

/-- start_room() of a used room. -/
theorem Tells.startRoom (h : Tells ci t0 t) {ri : Nat} (hu : (t.room ri).used = true)
    (hs : t.staleStart ri = false) : Tells ci t0 (t.startRoom ri) := by
  obtain ⟨hst, hmem⟩ := marked_room t ri
  have hh := h.sound.room ri List.not_mem_nil hu
  have h1 : Serves ci t0 (t.marked ri) :=
    h.toServes.alike (alike_marked t ri) ⟨rfl, rfl, rfl, rfl, rfl, rfl⟩
  have hk : ∀ m ∈ ((t.marked ri).room ri).members.zipIdx, (t.marked ri).Known m.1 := fun m hm =>
    (h1.sound.member_up (List.fst_mem_of_mem_zipIdx hm)).known
  have hg := (drops_drop (t.marked ri).alive.length).sendEachVia h1.sound
    ((t.marked ri).startFrame ri (t.seeds t.nextSeed)) _ hk le_rfl
  have hv : Within (t.marked ri).alive.length [] [] (t.marked ri) := ⟨h1.sound, le_rfl, h.proto⟩
  have hinf : Informed (fun x => False ∨ x ∈ ((t.marked ri).room ri).members) (t.marked ri) := by
    refine h.informed.of_same (fun _ hi => hi) (fun _ => rfl) rfl rfl
      (fun i _ hn => ⟨id, rfl, fun rj hrj => ?_⟩)
    have hj : rj ≠ ri := by
      rintro rfl
      rw [hmem] at hn
      exact hn (Or.inr (h.sound.seat i rj hrj).2)
    rw [marked_other hj]
    exact ⟨rfl, rfl⟩
  rw [startRoom_eq]
  refine ⟨h1.goes hg, hg.later.fixed.proto.trans h.proto, ?_⟩
  refine (informs_drop _).each hv ri ?_ (fun m hm => ?_) hs
  · rw [map_fst_zipIdx]
    exact hinf
  · obtain ⟨x, seat⟩ := m
    have hx := List.mem_zipIdx_iff_getElem?.mp hm
    have hxm : x ∈ (t.room ri).members := by
      rw [← hmem]
      exact List.fst_mem_of_mem_zipIdx hm
    refine ⟨hk _ hm, (hh.member x hxm).2, membership_frame _ (Or.inr (Or.inl rfl)), ?_⟩
    have hseat : (((t.marked ri).startFrame ri (t.seeds t.nextSeed) seat).getD 2 0).toNat = seat := by
      refine count_toNat ?_
      have hlt := (List.getElem?_eq_some_iff.mp hx).1
      rw [hmem] at hlt
      exact (hlt.le.trans hh.cap).trans h.within.seats_le
    have htype : ((t.marked ri).startFrame ri (t.seeds t.nextSeed) seat).getD 1 0 = tStart := rfl
    rw [Right, htype, if_neg (fun h => absurd h.1 (by decide)), if_pos rfl, hseat]
    exact ⟨ri, (hh.member x hxm).2, hst, hx⟩

theorem Tells.announce (h : Serves ci t0 t) (hp : t.proto = protoV2) {ri : Nat}
    (hu : (t.room ri).used = true) (hst : (t.room ri).started = false)
    (hinf : Informed (fun x => False ∨ x ∈ (t.room ri).members) t)
    (hs : t.staleAnnounce ri = false) : Tells ci t0 (t.announce ri) := by
  rw [staleAnnounce, Bool.or_eq_false_iff] at hs
  obtain ⟨hs1, hs2⟩ := hs
  have hg : Goes [] [] t (t.roomBroadcast ri) := (drops_drop _).broadcastVia h.sound
    (fun _ hm => (h.sound.member_up hm).known) le_rfl
  have h1 : Tells ci t0 (t.roomBroadcast ri) := by
    refine ⟨h.goes hg, hg.later.fixed.proto.trans hp, ?_⟩
    exact (informs_drop _).broadcast ⟨h.sound, le_rfl, hp⟩ (h.sound.room ri List.not_mem_nil hu)
      hst hinf hs1
  rw [CServer.announce]
  dsimp only at hs2
  split
  · next hgo =>
    rw [if_pos hgo] at hs2
    refine h1.startRoom ?_ hs2
    by_contra hu1
    have hm := h1.sound.vacant ri (Bool.not_eq_true _ ▸ hu1)
    rw [hm] at hgo
    exact hgo.1 (Nat.le_zero.mp hgo.2)
  · exact h1

omit [Transport σ] in
/-- The members of the room are about to be told. -/
theorem Informed.enter (h : Informed (fun _ => False) t) {ri : Nat} {room : CRoom}
    (he : t.Entrance ri room) :
    Informed (fun x => False ∨ x ∈ ((t.enter ri room).room ri).members) (t.enter ri room) := by
  rw [enter_room]
  refine h.of_same (fun i hi => enter_up.mp hi) (fun i => ?_) rfl rfl
    (fun i _ hn => ⟨id, ?_, fun rj hrj => ?_⟩)
  · rw [enter_client]
    split <;> rfl
  · rw [enter_client, if_neg (fun hm => hn (Or.inr hm))]
  · have hj : rj ≠ ri := by
      rintro rfl
      exact hn (Or.inr (he.all i hrj))
    rw [enter_other room hj]
    exact ⟨rfl, rfl⟩

theorem Tells.join (h : Tells ci t0 t) (hci : t.Up ci) (hroom : (t.client ci).room = none)
    {name : List Byte} {x : Nat} (hx : t.joinTarget ci name = some x)
    (hs : t.staleJoin ci x = false) : Tells ci t0 (t.join ci x) := by
  obtain ⟨t1, g, ri, room, hf, heq, he, hst⟩ := h.sound.joining hci hroom hx
  have a : Alike t { t with nextGid := g } :=
    ⟨rfl, fun _ => rfl, fun _ => rfl, rfl, rfl, rfl, rfl, rfl⟩
  have h1 := h.toServes.alike a ⟨rfl, rfl, rfl, rfl, rfl, rfl⟩
  have hinf : Informed (fun _ => False) ({ t with nextGid := g } : CServer σ) :=
    h.informed.alike a (fun _ => rfl) rfl rfl
  rw [staleJoin, hf] at hs
  dsimp only at hs
  rw [heq] at hs
  rw [join_of_room hf, heq]
  refine Tells.announce (h1.enter he) h.proto ?_ ?_ (hinf.enter he) hs
  · rw [enter_room]
    exact he.used
  · rw [enter_room]
    exact hst

theorem Tells.onJoin (h : Tells ci t0 t) (hci : t.Up ci) (payload : List Byte)
    (hs : (if (t.client ci).name = [] then t.stale ci
      else ((t.joins ci payload).map (t.staleJoin ci)).getD false) = false) :
    Tells ci t0 (t.onJoin ci payload) := by
  rcases onJoin_eq h.proto ci payload with ⟨x, hx, heq, hroom, ht⟩ |
    ⟨-, ⟨hnil, heq⟩ | heq | ⟨hroom, heq⟩⟩
  · have hname : (t.client ci).name ≠ [] := by
      rw [joins] at hx
      split_ifs at hx with hno
      exact fun hnil => hno (Or.inl hnil)
    rw [if_neg hname, hx] at hs
    rw [heq]
    exact h.join hci hroom ht hs
  · rw [if_pos hnil] at hs
    rw [heq]
    exact h.drop h.known hs
  · rw [heq]
    exact h
  · rw [heq]
    exact h.onList h.known (staleSend_solo hroom _)

omit [Transport σ] in
theorem goes_some {ri : Nat} (h : t.goes ci = some ri) : (t.client ci).room = some ri := by
  rw [goes] at h
  split at h
  · exact nomatch h
  · next rj hr =>
    split_ifs at h
    rw [hr, h]

theorem Tells.onGo (h : Tells ci t0 t) (hs : ((t.goes ci).map t.staleStart).getD false = false) :
    Tells ci t0 (t.onGo ci) := by
  rw [onGo_eq]
  cases hg : t.goes ci with
  | none => exact h
  | some ri =>
    rw [hg] at hs
    exact h.startRoom (h.sound.seat ci ri (goes_some hg)).1 hs

/-- The drop() of a player ends the match, and has no stale send. -/
theorem stale_started {x : Nat} (h : ∀ ri, (t.client x).room = some ri → (t.room ri).started = true) :
    t.stale x = false := by
  rw [stale]
  cases t.alive.length with
  | zero => rfl
  | succ n =>
    rw [staleN, staleDrop]
    split
    · rfl
    · split
      · rfl
      · next ri hr => exact if_pos (Or.inl (h ri hr))

theorem staleSend_started {x : Nat}
    (h : ∀ ri, (t.client x).room = some ri → (t.room ri).started = true) (data : List Byte) :
    t.staleSend stale x data = false := by
  rw [staleSend]
  split
  · rfl
  · split
    · rfl
    · exact stale_started h
    · exact stale_started h

theorem Tells.relay (h : Tells ci t0 t) {ftype : Byte} (payload : List Byte)
    (hf : ftype ∈ relayTypes) : Tells ci t0 (t.relay ci ftype payload) := by
  have hdata : membership (frame ftype payload) = false := by
    refine plain_frame payload ?_
    rintro (rfl | rfl | rfl) <;> exact absurd hf (by decide +kernel)
  rw [CServer.relay]
  split
  · exact h
  · next ri hri =>
    split
    · next hst =>
      have hh := h.sound.housed hri
      have hm : ∀ m ∈ (t.room ri).members, t.Known m ∧
          ∀ rj, (t.client m).room = some rj → (t.room rj).started = true := by
        intro m hm
        refine ⟨(hh.member m hm).1.known, fun rj hrj => ?_⟩
        rw [(hh.member m hm).2] at hrj
        exact Option.some.inj hrj ▸ hst
      clear * - h hm hdata
      generalize (t.room ri).members = ms at hm
      induction ms generalizing t with
      | nil => exact h
      | cons m ms ih =>
        rw [List.foldl_cons]
        split
        · obtain ⟨hk, hstart⟩ := hm m List.mem_cons_self
          have hg := (drops_drop _).sendVia h.sound hk le_rfl (frame ftype payload)
          refine ih (h.send hk hdata (staleSend_started hstart _)) (fun m' hm' => ?_)
          obtain ⟨hk', hstart'⟩ := hm m' (List.mem_cons_of_mem _ hm')
          refine ⟨hg.later.known hk', fun rj hrj => ?_⟩
          refine (hg.later.started rj).trans (hstart' rj ?_)
          rcases hg.later.room m' with hr | hr
          · exact hr.symm.trans hrj
          · cases hr.symm.trans hrj
        · exact ih h (fun m' hm' => hm m' (List.mem_cons_of_mem _ hm'))
    · exact h

theorem Tells.handle (h : Tells ci t0 t) (hci : t.Up ci) (ftype : Byte) (payload : List Byte)
    (hs : t.staleHandle ci ftype payload = false) : Tells ci t0 (t.handle ci ftype payload) := by
  rw [staleHandle] at hs
  rw [CServer.handle]
  by_cases h1 : ftype ∈ relayTypes
  · rw [if_pos h1]
    exact h.relay payload h1
  rw [if_neg h1] at hs ⊢
  by_cases h2 : ftype = tHello
  · rw [if_pos h2] at hs ⊢
    exact h.onHello payload hs
  rw [if_neg h2] at hs ⊢
  by_cases h3 : ftype = tList
  · rw [if_pos h3] at hs ⊢
    exact h.onList h.known hs
  rw [if_neg h3] at hs ⊢
  by_cases h4 : ftype = tJoin
  · rw [if_pos h4] at hs ⊢
    exact h.onJoin hci payload hs
  rw [if_neg h4] at hs ⊢
  by_cases h5 : ftype = tGo
  · rw [if_pos h5] at hs ⊢
    rw [if_neg (by rw [h.proto]; decide)]
    exact h.onGo hs
  rw [if_neg h5] at hs ⊢
  by_cases h6 : ftype = tPing
  · rw [if_pos h6] at hs
    rw [if_neg (by rw [h6]; decide), if_pos h6]
    exact h.send h.known (plain_frame _ (by decide)) hs
  · rw [if_neg h6] at hs ⊢
    rw [ite_self]
    exact h.drop h.known hs

end Handlers

/-! ## Runs -/

/-- Between events. -/
structure Told (t : CServer σ) : Prop where
  ready : Ready t
  proto : t.proto = protoV2
  informed : Informed (fun _ => False) t

theorem Told.does {t : CServer σ} (h : Told t) {ci : Nat} (hci : t.Up ci) (j : Job)
    (hs : staleJob ⟨t, ci, j⟩ = false) : Told (t.does ci j) := by
  have h0 : Tells ci t t := ⟨Serves.start h.ready.sound hci, h.proto, h.informed⟩
  have h1 : Tells ci t (t.does ci j) := by
    rw [staleJob] at hs
    cases j with
    | handle ftype payload => exact h0.handle hci ftype payload hs
    | drop => exact h0.drop h0.known hs
    | flush =>
      have hnet : ∀ net, Tells ci t { t with net } := fun net =>
        ⟨h0.toServes.alike (alike_net t net) ⟨rfl, rfl, rfl, rfl, rfl, rfl⟩, h.proto,
          h.informed.net net⟩
      dsimp only at hs
      show Tells ci t (t.flush ci)
      rw [flush]
      split
      · exact hnet _
      · next net hf =>
        rw [hf] at hs
        exact (hnet net).drop (hnet net).known hs
  exact ⟨h.ready.does hci j, h1.proto, h1.informed⟩

omit [Transport σ] in
theorem Informed.accept {t : CServer σ} (h : Informed (fun _ => False) t) (ip : Nat) :
    Informed (fun _ => False) (t.acceptClient ip) := by
  rcases accept_cases t ip with heq | ⟨ci, -, -, heq⟩
  · rw [heq]
    exact h
  · rw [heq]
    have hself : (t.clientAlloc ci ip).client ci =
        ⟨true, t.nextConn, ip, [], none, false, (t.client ci).gen⟩ := by
      rw [clientAlloc_client, if_pos rfl]
    have hother : ∀ {i}, i ≠ ci → (t.clientAlloc ci ip).client i = t.client i := fun hi => by
      rw [clientAlloc_client, if_neg hi]
    have hold : ∀ {i}, i ≠ ci → (t.clientAlloc ci ip).Up i →
        t.Up i ∧ ((t.clientAlloc ci ip).client i).conn < t.nextConn := by
      intro i hi hup
      rw [Up, hother hi] at hup
      rw [hother hi]
      exact ⟨hup, h.conn_lt i hup⟩
    refine ⟨fun i hi => ?_, fun i j hi hj he => ?_, fun q hq => ?_, fun i hi hn => ?_⟩
    · show _ < t.nextConn + 1
      by_cases hic : i = ci
      · rw [hic, hself]
        exact Nat.lt_succ_self _
      · exact Nat.lt_succ_of_lt (hold hic hi).2
    · by_cases hic : i = ci <;> by_cases hjc : j = ci
      · rw [hic, hjc]
      · have := (hold hjc hj).2
        rw [← he, hic, hself] at this
        exact absurd this (Nat.lt_irrefl _)
      · have := (hold hic hi).2
        rw [he, hjc, hself] at this
        exact absurd this (Nat.lt_irrefl _)
      · rw [hother hic, hother hjc] at he
        exact h.conn_inj i j (hold hic hi).1 (hold hjc hj).1 he
    · exact Nat.lt_succ_of_lt (h.queued_lt q hq)
    · rw [Agrees]
      by_cases hic : i = ci
      · rw [hic, hself]
        have hnone : lastTold (t.clientAlloc ci ip).queued t.nextConn = none :=
          lastTold_none (fun q hq => (h.queued_lt q hq).ne)
        rw [hnone]
      · have ha := h.agrees i (hold hic hi).1 hn
        rw [Agrees] at ha
        have hq : (t.clientAlloc ci ip).queued = t.queued := rfl
        rw [hother hic, hq]
        split
        · next data hd =>
          rw [hd] at ha
          exact ha.of_eq (by rw [hother hic]) (fun _ _ => ⟨rfl, rfl⟩)
        · next hd =>
          rw [hd] at ha
          exact ha

theorem keeping_told : CKeeping (Told : CServer σ → Prop) (fun x => staleJob x = false) where
  ready _ h := h.ready
  accept t ip h := by
    refine ⟨h.ready.accept ip, ?_, h.informed.accept ip⟩
    rcases accept_cases t ip with heq | ⟨ci, -, -, heq⟩
    · rw [heq]
      exact h.proto
    · rw [heq]
      exact h.proto
  rx t rx h hb := by
    have a : Alike t { t with rx } := ⟨rfl, fun _ => rfl, fun _ => rfl, rfl, rfl, rfl, rfl, rfl⟩
    exact ⟨⟨h.ready.sound.alike a, hb⟩, h.proto, h.informed.alike a (fun _ => rfl) rfl rfl⟩
  does x h hup hs := h.does hup x.job hs

omit [Transport σ] in
theorem told_init (o : Options) (ho : o.proto = protoV2) (seeds : Nat → UInt16) (net : σ) :
    Told (init o seeds net) where
  ready := ready_init o seeds net
  proto := ho
  informed := ⟨fun _ h => absurd h.2.1 Bool.false_ne_true,
    fun _ _ h => absurd h.2.1 Bool.false_ne_true, fun _ h => absurd h List.not_mem_nil,
    fun _ h => absurd h.2.1 Bool.false_ne_true⟩

/-- In every run of `--proto 2` whose jobs have no stale send, what every client was last
    told is what the relay believes, after every event. -/
theorem told_agrees (o : Options) (ho : o.proto = protoV2) (seeds : Nat → UInt16) (net : σ)
    (es : List Server.Event) (hs : ∀ x ∈ (init o seeds net).runCalls es, staleJob x = false) :
    ((init o seeds net).run es).AllAgree :=
  fun i hi => (keeping_told.run (told_init o ho seeds net) es hs).informed.agrees i hi id

/-! ## Two clients -/

/-- `--proto 2` with two seats. -/
def twoSeats : Options := ⟨protoV2, 2, 3, 0, Or.inr ⟨rfl, by decide, by decide⟩⟩

/-- BO (slot 0) and AL (slot 1), and AL joins BO. -/
def joinEvents : List Server.Event :=
  [.connect 1, .connect 2, .recv 0 (.data (frame tHello [2, 66, 79])),
    .recv 1 (.data (frame tHello [2, 65, 76])), .recv 1 (.data (frame tJoin [66, 79]))]

theorem told_agrees_join :
    ((init twoSeats (fun _ => 0x1234) ([] : List SendResult)).run joinEvents).AllAgree :=
  told_agrees twoSeats rfl (fun _ => 0x1234) ([] : List SendResult) joinEvents (by decide +kernel)

/-- The ROOM for BO fails: AL is told that the room is gone, and then that it has two
    members. -/
theorem room_frame_goes_stale :
    ¬ ((init twoSeats (fun _ => 0x1234)
        [.queued, .queued, SendResult.error]).run joinEvents).AllAgree := by
  intro h
  have hend : ((init twoSeats (fun _ => 0x1234)
        [.queued, .queued, SendResult.error]).run joinEvents).Up 1 ∧
      lastTold ((init twoSeats (fun _ => 0x1234)
        [.queued, .queued, SendResult.error]).run joinEvents).queued
        (((init twoSeats (fun _ => 0x1234)
        [.queued, .queued, SendResult.error]).run joinEvents).client 1).conn =
        some (frame tRoom (2 :: (cPadName [66, 79] ++ cPadName [65, 76] ++ List.replicate 16 0))) ∧
      (((init twoSeats (fun _ => 0x1234)
        [.queued, .queued, SendResult.error]).run joinEvents).client 1).room = none := by
    unfold Up
    decide +kernel
  obtain ⟨hup, htold, hroom⟩ := hend
  have h1 := h 1 hup
  rw [Agrees, htold] at h1
  dsimp only at h1
  rw [Right, if_pos (by decide)] at h1
  obtain ⟨ri, hri, -⟩ := h1
  rw [hroom] at hri
  cases hri

end IntvBasketball.Relay.CServer
