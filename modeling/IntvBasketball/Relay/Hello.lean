/-
  A HELLO on its way into on_hello(): read from the socket in any number of pieces, parsed
  by service() once it is whole, accepted if the name is one of A-Z0-9 and of length 2-8.

  Between two of the reads anything may happen to the rest of the server (`Reads.other`):
  only the receive buffer of the client has to stay.
-/
import IntvBasketball.Relay.Registry

namespace IntvBasketball.Relay

/-- The payload of the HELLO a console sends. -/
def helloPayload (name : Str) : List Byte := protoVer :: name.map UInt8.ofNat

/-! ## The name -/

theorem nameChar_lt {ch : Nat} (h : nameChar ch = true) : ch < 128 := by
  simp only [nameChar, decide_eq_true_eq] at h
  omega

theorem decodeAscii_name {name : Str} (h : ∀ ch ∈ name, nameChar ch = true) :
    decodeAscii (name.map UInt8.ofNat) = name := by
  rw [decodeAscii, List.map_map]
  conv_rhs => rw [← List.map_id name]
  apply List.map_congr_left
  intro ch hch
  have hlt := nameChar_lt (h ch hch)
  have hval : (UInt8.ofNat ch).toNat = ch := by
    rw [UInt8.toNat_ofNat']
    omega
  have hsmall : UInt8.ofNat ch < 0x80 := by
    rw [UInt8.lt_iff_toNat_lt, hval]
    exact hlt
  rw [Function.comp_apply, if_pos hsmall, hval, id_eq]

/-- A name has neither NUL nor blank at its end. -/
theorem rstrip_name {name : Str} (h : ∀ ch ∈ name, nameChar ch = true) : rstrip name = name := by
  rw [rstrip, List.rdropWhile_eq_self_iff]
  intro hne
  have hch := h _ (List.getLast_mem hne)
  simp only [nameChar, decide_eq_true_eq] at hch ⊢
  omega

/-- on_hello() accepts every such name, as it is. -/
theorem helloName_payload {name : Str} (hlen : 2 ≤ name.length ∧ name.length ≤ 8)
    (h : ∀ ch ∈ name, nameChar ch = true) : Server.helloName (helloPayload name) = some name := by
  have hlong : ¬ ((helloPayload name).length < 3 ∨ (helloPayload name).headD 0 ≠ protoVer) := by
    rw [helloPayload, List.length_cons, List.length_map]
    intro hbad
    rcases hbad with hbad | hbad
    · omega
    · exact hbad rfl
  have hname : rstrip (decodeAscii ((helloPayload name).drop 1)) = name := by
    rw [helloPayload, List.drop_one, List.tail_cons, decodeAscii_name h, rstrip_name h]
  rw [Server.helloName, if_neg hlong]
  dsimp only
  rw [hname, if_neg]
  intro hbad
  rcases hbad with hbad | hbad
  · exact hbad hlen
  · exact hbad (List.all_eq_true.mpr h)

/-! ## The frame -/

/-- A frame as service() takes it. -/
theorem not_badLen_frame {payload : List Byte} (h : payload.length ≤ 199) :
    ¬ badLen (UInt8.ofNat (payload.length + 1)) ∧
      (UInt8.ofNat (payload.length + 1)).toNat = payload.length + 1 := by
  have hval : (UInt8.ofNat (payload.length + 1)).toNat = payload.length + 1 := by
    rw [UInt8.toNat_ofNat']
    omega
  refine ⟨?_, hval⟩
  rw [badLen, not_or, ← UInt8.toNat_inj, hval]
  exact ⟨Nat.succ_ne_zero _, by omega⟩

theorem rxPeek_frame (ftype : Byte) {payload : List Byte} (h : payload.length ≤ 199) :
    rxPeek (frame ftype payload) = .emit (.handle ftype payload) (frame ftype payload).length := by
  obtain ⟨hbad, hval⟩ := not_badLen_frame h
  have hall : (UInt8.ofNat (payload.length + 1)).toNat ≤ (ftype :: payload).length := by
    rw [hval, List.length_cons]
  have hwhole := rxPeek_whole hbad hall
  rw [hval, List.take_of_length_le (by rw [List.length_cons])] at hwhole
  exact hwhole

/-- Any part of it that is not all of it. -/
theorem rxPeek_part {ftype : Byte} {payload : List Byte} (h : payload.length ≤ 199)
    {xs ys : List Byte} (hys : ys ≠ []) (he : xs ++ ys = frame ftype payload) :
    rxPeek xs = .more := by
  obtain ⟨hbad, hval⟩ := not_badLen_frame h
  cases xs with
  | nil => rfl
  | cons x xs =>
    rw [List.cons_append, frame] at he
    obtain ⟨rfl, hrest⟩ := List.cons.inj he
    have hlen := congrArg List.length hrest
    have hpos := List.length_pos_iff.mpr hys
    rw [List.length_append, List.length_cons] at hlen
    exact rxPeek_short hbad (by rw [hval]; omega)

namespace Server
variable {σ : Type} [Transport σ]

/-- The receive buffer of one client, replaced. -/
def setRx (s : Server σ) (c : Nat) (rx : List Byte) : Server σ :=
  { s with rx := fun i => if i = c then rx else s.rx i }

theorem service_eq (s : Server σ) (c : Nat) {d : List Byte} (hd : d ≠ []) :
    s.service c (.data d) = (serviceLoop (host c) ⟨s, s.rx c ++ d, []⟩).srv.setRx c
      (serviceLoop (host c) ⟨s, s.rx c ++ d, []⟩).rx := by
  cases d with
  | nil => exact absurd rfl hd
  | cons b bs => rfl

/-- Part of a frame: service() keeps it and waits. -/
theorem service_part {s : Server σ} {c : Nat} {d : List Byte} (hd : d ≠ [])
    (hp : rxPeek (s.rx c ++ d) = .more) : s.service c (.data d) = s.setRx c (s.rx c ++ d) := by
  rw [service_eq s c hd, (rounds_serviceLoop (host c)).more ⟨s, s.rx c ++ d, []⟩ hp]

/-- The rest of a frame: service() handles it, and nothing is left over. -/
theorem service_whole {s : Server σ} {c : Nat} {d : List Byte} (hd : d ≠ []) {ftype : Byte}
    {payload : List Byte} (hlen : payload.length ≤ 199) (hf : s.rx c ++ d = frame ftype payload) :
    s.service c (.data d) = ((host c).handled s ftype payload).setRx c [] := by
  have hp := rxPeek_frame ftype hlen
  rw [← hf] at hp
  have hemit := (rounds_serviceLoop (host c)).emit ⟨s, s.rx c ++ d, []⟩ _ _ hp
  have hnil := (rounds_serviceLoop (host c)).more ⟨(host c).act s (.handle ftype payload),
    (s.rx c ++ d).drop (s.rx c ++ d).length, [] ++ [.handle ftype payload]⟩
    (by rw [List.drop_length]; rfl)
  dsimp only at hemit
  rw [hnil, ite_self, List.drop_length] at hemit
  rw [service_eq s c hd, hemit]
  rfl

/-- What client `c` has sent so far, read in pieces; between two reads the rest of the server
    may change. -/
inductive Reads (c : Nat) : List Byte → Server σ → Prop where
  | start (s : Server σ) (hrx : s.rx c = []) : Reads c [] s
  | read {bs : List Byte} {s : Server σ} (h : Reads c bs s) (d : List Byte) (hd : d ≠ []) :
    Reads c (bs ++ d) (s.service c (.data d))
  | other {bs : List Byte} {s : Server σ} (h : Reads c bs s) (s' : Server σ)
    (hrx : s'.rx c = s.rx c) : Reads c bs s'

/-- As long as the frame is not whole, all of it is in the buffer. -/
theorem Reads.buffered {c : Nat} {xs : List Byte} {s : Server σ} (h : Reads c xs s) {ftype : Byte}
    {payload : List Byte} (hlen : payload.length ≤ 199) (ys : List Byte) (hys : ys ≠ [])
    (he : xs ++ ys = frame ftype payload) : s.rx c = xs := by
  induction h generalizing ys with
  | start s hrx => exact hrx
  | @read bs s h d hd ih =>
    have hne : d ++ ys ≠ [] := fun hnil => hd (List.append_eq_nil_iff.mp hnil).1
    have hrx := ih (d ++ ys) hne (by rw [← List.append_assoc]; exact he)
    have hpart := rxPeek_part hlen hys he
    rw [← hrx] at hpart
    rw [service_part hd hpart, setRx]
    dsimp only
    rw [if_pos rfl, hrx]
  | other h s' hrx ih => exact hrx.trans (ih ys hys he)

/-- `on_hello` has stored the client under exactly this name, before it answers. -/
theorem renamed_registers (s : Server σ) (c : Nat) (name : Str) :
    (s.renamed c name).lookup name = some c ∧ ((s.renamed c name).client c).name = some name := by
  refine ⟨?_, ?_⟩
  · rw [renamed, setName_eq]
    exact Lib.Dict.get_set_self _ name c
  · rw [renamed_eq]
    exact congrArg Client.name (if_pos rfl)

/-- Client `c` completes a HELLO with `d`: on_hello() raises nothing and stores the client under
    `name` before it answers. -/
structure Accepts (s : Server σ) (c : Nat) (d payload : List Byte) (name : Str) : Prop where
  accepted : s.onHello c payload = (s.hello c name, none)
  served : s.service c (.data d) = (s.hello c name).setRx c []
  answered : s.hello c name = (s.renamed c name).onList c
  stored : (s.renamed c name).lookup name = some c
  named : ((s.renamed c name).client c).name = some name

/-- The HELLO of a console. -/
theorem Reads.hello {c : Nat} {xs : List Byte} {s : Server σ} (h : Reads c xs s) {d : List Byte}
    (hd : d ≠ []) {name : Str} (hlen : 2 ≤ name.length ∧ name.length ≤ 8)
    (hch : ∀ ch ∈ name, nameChar ch = true) (he : xs ++ d = frame tHello (helloPayload name)) :
    s.Accepts c d (helloPayload name) name := by
  have hname := helloName_payload hlen hch
  have hacc : s.onHello c (helloPayload name) = (s.hello c name, none) := by
    rcases onHello_cases s c (helloPayload name) with ⟨_, hnone, -⟩ | ⟨name', hsome, hacc⟩
    · rw [hname] at hnone
      cases hnone
    · rw [hname] at hsome
      cases hsome
      exact hacc
  have hsize : (helloPayload name).length ≤ 199 := by
    rw [helloPayload, List.length_cons, List.length_map]
    omega
  obtain ⟨hstored, hnamed⟩ := s.renamed_registers c name
  refine ⟨hacc, ?_, hello_eq s c name, hstored, hnamed⟩
  have hrx := h.buffered hsize d hd he
  rw [service_whole hd hsize (by rw [hrx]; exact he)]
  congr 1
  have hhandle : (host c).handle s tHello (helloPayload name) = (s.hello c name, none) := hacc
  rw [PyHost.handled, hhandle]

end Server

end IntvBasketball.Relay
