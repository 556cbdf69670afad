/-
  The messages of the two consoles as frames.

  A tick is 16 bits on the wire, and an epoch is not there at all. A frame is one unit of
  the parser, so a stream cut into reads anywhere falls back into the frames it was made
  of.
-/
import IntvBasketball.Duel.Protocol
import IntvBasketball.Console.Gate

namespace IntvBasketball.Duel

open Lib Console

/-- The frame of a message from seat `s`. -/
def Msg.bytes (s : Nat) : Msg → List Byte
  | .input t c => wire [6, ftInput, s, t, t / 256, c.dec, c.kp]
  | .crc t v => wire [6, ftCrc, s, t, t / 256, v, v / 256]
  | .hold r => beginFrame r
  | .chunk f => f
  | .fin => endFrame
  | .ask t => wire [3, ftResync, t, t / 256]

/-- What a console can put in its messages. -/
def Msg.Fits : Msg → Prop
  | .input _ c => c.dec < 256 ∧ c.kp < 256
  | .crc t v => t % 64 = 0 ∧ v < 65536
  | .chunk f => ∃ h p n, f = chunkFrame h p n ∧ 0 < n ∧ n ≤ rsChunk ∧ p + n ≤ imgTotal
  | _ => True

/-- The bytes of a stream of messages. -/
def flat (s : Nat) : List (Nat × Msg) → List Byte
  | [] => []
  | x :: q => x.2.bytes s ++ flat s q

theorem flat_append (s : Nat) (q q' : List (Nat × Msg)) :
    flat s (q ++ q') = flat s q ++ flat s q' := by
  induction q with
  | nil => rfl
  | cons x q ih => rw [List.cons_append, flat, flat, ih, List.append_assoc]

/-! ## Frames are units -/

/-- A frame of an admitted type and length is a unit of the parser. -/
theorem unit_frame {len type : Byte} {xs : List Byte} (hok : flenOk type.toNat len.toNat = true)
    (hlen : xs.length + 1 = len.toNat) :
    sesScanner.Unit (len :: type :: xs) (.frame (len :: type :: xs)) := by
  unfold Scanner.Unit
  have htake : (len :: type :: xs).take (len.toNat + 1) = len :: type :: xs := by
    apply List.take_of_length_le
    simp only [List.length_cons]
    omega
  have hsize : (len :: type :: xs).length = len.toNat + 1 := by
    simp only [List.length_cons]
    omega
  change sesPeek (len :: type :: xs) = _
  rw [sesPeek_cons, if_pos hok, if_neg (by omega), htake, hsize]

theorem flenOk_state {n : Nat} (h : 3 ≤ n) (h' : n ≤ 99) : flenOk ftState n = true := by
  have hget : sesFlen.getD ftState (0, 0) = (3, 99) := by decide
  unfold flenOk
  rw [hget]
  simp only [Bool.and_eq_true, decide_eq_true_eq]
  exact ⟨⟨⟨by decide, by decide⟩, h⟩, h'⟩

theorem unit_chunk (h : Mach) {p n : Nat} (hn : 0 < n) (hn' : n ≤ rsChunk) :
    sesScanner.Unit (chunkFrame h p n) (.frame (chunkFrame h p n)) := by
  have hlen := length_chunkFrame h p n
  have hhead : (UInt8.ofNat (n + 3)).toNat = n + 3 := by
    rw [UInt8.toNat_ofNat']
    exact Nat.mod_eq_of_lt (by unfold rsChunk at hn'; omega)
  unfold chunkFrame wire at hlen ⊢
  simp only [List.cons_append, List.nil_append, List.map_cons, List.length_cons] at hlen ⊢
  apply unit_frame
  · rw [hhead]
    exact flenOk_state (by omega) (by unfold rsChunk at hn'; omega)
  · rw [hhead]
    simp only [List.length_cons]
    omega

/-- Every message a console can send is one frame. -/
theorem Msg.unit (s : Nat) {m : Msg} (h : m.Fits) :
    sesScanner.Unit (m.bytes s) (.frame (m.bytes s)) := by
  cases m with
  | input t c => exact unit_frame (by decide) rfl
  | crc t v => exact unit_frame (by decide) rfl
  | hold r => exact unit_frame (by decide) rfl
  | chunk f =>
    obtain ⟨m, p, n, rfl, hn, hn', -⟩ := h
    exact unit_chunk m hn hn'
  | fin => exact unit_frame (by decide) rfl
  | ask t => exact unit_frame (by decide) rfl

/-- The head of a stream, part of which has been read: nothing complete, or the first
    message as a frame. -/
theorem peek_flat {s : Nat} {q : List (Nat × Msg)} (hq : ∀ x ∈ q, x.2.Fits)
    {bs rest : List Byte} (h : bs ++ rest = flat s q) {e : Item} {k : Nat}
    (hp : sesPeek bs = .emit e k) :
    ∃ x q', q = x :: q' ∧ e = .frame (x.2.bytes s) ∧ bs.drop k ++ rest = flat s q' := by
  have hle : k ≤ bs.length := sesScanner.emit_le hp
  have happ : sesPeek (bs ++ rest) = .emit e k := sesScanner.emit_append hp rest
  cases q with
  | nil =>
    have hnil : bs = [] := (List.append_eq_nil_iff.mp h).1
    rw [hnil] at hp
    cases hp
  | cons x q' =>
    have hu := x.2.unit s (hq x List.mem_cons_self)
    have hx : sesPeek (x.2.bytes s ++ flat s q') = _ := sesScanner.emit_append hu (flat s q')
    rw [h, flat, hx, Peek.emit.injEq] at happ
    obtain ⟨rfl, rfl⟩ := happ
    refine ⟨x, q', rfl, rfl, ?_⟩
    have hdrop := congrArg (List.drop (x.2.bytes s).length) h
    rw [List.drop_append_of_le_length hle, flat, List.drop_left] at hdrop
    exact hdrop

/-! ## Frames in FRMBUF -/

section
variable {m : Mach} {s : Nat}

/-- A byte of a frame made of numbers. -/
theorem holds_wire {l : List Nat} (h : Holds m (wire l)) {i : Nat} (hi : i < l.length) :
    m.rd (frmBuf + i) = l[i] % 256 := by
  have hi' : i < (wire l).length := by rwa [wire, List.length_map]
  rw [h i hi']
  simp only [wire, List.getElem_map, UInt8.toNat_ofNat']

/-- Seat, tick and payload of an INPUT or CRC frame. -/
theorem holds_six {type t a b : Nat} (h : Holds m (wire [6, type, s, t, t / 256, a, b])) :
    m.rd frmBuf = 6 ∧ m.rd (frmBuf + 1) = type % 256 ∧ m.rd (frmBuf + 2) = s % 256 ∧
      m.rd (frmBuf + 3) = t % 256 ∧ m.rd (frmBuf + 4) = t / 256 % 256 ∧
      m.rd (frmBuf + 5) = a % 256 ∧ m.rd (frmBuf + 6) = b % 256 :=
  ⟨holds_wire h (i := 0) (by simp), holds_wire h (i := 1) (by simp),
    holds_wire h (i := 2) (by simp), holds_wire h (i := 3) (by simp),
    holds_wire h (i := 4) (by simp), holds_wire h (i := 5) (by simp),
    holds_wire h (i := 6) (by simp)⟩

theorem word_mod (t : Nat) : word (t % 256) (t / 256 % 256) = t % 65536 := by
  unfold word
  omega

/-- A word that differs from another by less than 32768 tells which is the later. -/
theorem ahead_near {w t : Nat} (h : t ≤ w + 64) (h' : w ≤ t + 64) :
    neg16 (sub16 (t % 65536) (w % 65536)) = false ∧ sub16 (t % 65536) (w % 65536) ≠ 0 ↔ w < t := by
  unfold neg16 sub16
  simp only [decide_eq_false_iff_not]
  omega

end

end IntvBasketball.Duel
