/-
  The parse loop of SES_PUMP, one round at a time, against a reference parser.

  `sesScanner` is the reference: peek (len, type), slip one byte unless SES_FLEN
  admits the pair, else take len + 1 bytes. `Acc m bs` says the circular accumulator
  of `m` holds exactly the bytes `bs`. What one round does to an accumulator holding
  `bs` is what the reference does to `bs` (`ppRound_more`, `ppRound_slip_acc`,
  `ppRound_frame_acc`).
-/
import IntvBasketball.Lib.Stream
import IntvBasketball.Lib.Ring
import IntvBasketball.Console.Session

namespace IntvBasketball.Console

open Mach (Within Does)
open Lib (Scanner Peek RingHolds)

/-! ## The reference parser -/

def sesPeek (xs : List Byte) : Peek Item :=
  match xs with
  | len :: type :: _ =>
    if flenOk type.toNat len.toNat then
      if xs.length < len.toNat + 1 then .more
      else .emit (.frame (xs.take (len.toNat + 1))) (len.toNat + 1)
    else .emit .slip 1
  | _ => .more

theorem sesPeek_cons (len type : Byte) (xs : List Byte) :
    sesPeek (len :: type :: xs) =
      if flenOk type.toNat len.toNat then
        if xs.length + 1 < len.toNat then .more
        else .emit (.frame ((len :: type :: xs).take (len.toNat + 1))) (len.toNat + 1)
      else .emit .slip 1 := by
  simp [sesPeek]

theorem sesPeek_emit_two {xs : List Byte} {e : Item} {n : Nat} (h : sesPeek xs = .emit e n) :
    ∃ len type ys, xs = len :: type :: ys := by
  match xs with
  | [] => simp [sesPeek] at h
  | [_] => simp [sesPeek] at h
  | len :: type :: ys => exact ⟨len, type, ys, rfl⟩

def sesScanner : Scanner Byte Item where
  peek := sesPeek
  emit_pos h := by
    obtain ⟨len, type, ys, rfl⟩ := sesPeek_emit_two h
    rw [sesPeek_cons] at h
    split_ifs at h <;> cases h <;> omega
  emit_le h := by
    obtain ⟨len, type, ys, rfl⟩ := sesPeek_emit_two h
    rw [sesPeek_cons] at h
    split_ifs at h <;> cases h <;> simp only [List.length_cons] <;> omega
  emit_append h zs := by
    obtain ⟨len, type, ys, rfl⟩ := sesPeek_emit_two h
    rw [sesPeek_cons] at h
    rw [List.cons_append, List.cons_append, sesPeek_cons]
    split_ifs at h with h1 h2
    · cases h
      rw [if_pos h1, if_neg (by rw [List.length_append]; omega), ← List.cons_append,
        ← List.cons_append, List.take_append_of_le_length (by simp only [List.length_cons]; omega)]
    · cases h
      rw [if_neg h1]
  halt_append h := by
    unfold sesPeek at h
    split at h
    · split_ifs at h
    · cases h

/-- The reference parser on a whole stream: frames and slips in order, and the rest. -/
def reference (xs : List Byte) : Lib.Drained Byte Item := sesScanner.drain xs

/-! ## The accumulator -/

/-- The accumulator of `m` holds exactly `bs`. -/
structure Acc (m : Mach) (bs : List Byte) : Prop where
  wr : m.rd rxWr = (m.rd rxRd + bs.length) % 256
  ring : RingHolds 256 (fun i => m.rd (rxAcc + i)) (m.rd rxRd) (bs.map UInt8.toNat)

/-- The cells the parser relies on. -/
def parserCell (a : Nat) : Prop := a = rxWr ∨ a = rxRd ∨ a = diagSlip ∨ area rxAcc 256 a

instance (a : Nat) : Decidable (parserCell a) := by unfold parserCell; infer_instance

theorem Acc.congr {m m' : Mach} {bs : List Byte} (h : Acc m bs)
    (hk : ∀ a, parserCell a → m'.rd a = m.rd a) : Acc m' bs := by
  have hrd : m'.rd rxRd = m.rd rxRd := hk _ (by decide)
  refine ⟨by rw [hk _ (by decide), hrd, h.wr], ?_⟩
  rw [hrd]
  exact h.ring.congr (fun i hi => hk _ (Or.inr (Or.inr (Or.inr ⟨by omega, by omega⟩))))

theorem Acc.length_lt {m : Mach} {bs : List Byte} (h : Acc m bs) : bs.length < 256 := by
  have := h.ring.room
  rwa [List.length_map] at this

/-- What the parse loop computes as the number of buffered bytes. -/
theorem Acc.buffered {m : Mach} {bs : List Byte} (h : Acc m bs) :
    (m.rd rxWr + 256 - m.rd rxRd) % 256 = bs.length := by
  have hlt := h.length_lt
  have hrd := m.rd_lt_cart (a := rxRd) (by decide)
  rw [h.wr]
  omega

theorem Acc.nil {m : Mach} (h : m.rd rxWr = m.rd rxRd) : Acc m [] := by
  have hrd := m.rd_lt_cart (a := rxRd) (by decide)
  exact ⟨by rw [h, List.length_nil, Nat.add_zero, Nat.mod_eq_of_lt hrd], RingHolds.nil _ _ (by omega)⟩

/-- The byte at offset `i` of the unread part. -/
theorem Acc.get {m : Mach} {bs : List Byte} (h : Acc m bs) {i : Nat} (hi : i < bs.length) :
    m.rd (rxAcc + (m.rd rxRd + i) % 256) = (bs[i]).toNat := by
  have := h.ring.at_ i (by rwa [List.length_map])
  rwa [List.getElem_map] at this

theorem Acc.rd_next {m : Mach} {b : Byte} {bs : List Byte} (h : Acc m (b :: bs)) (m' : Mach)
    (hrd : m'.rd rxRd = (m.rd rxRd + 1) % 256)
    (hk : ∀ a, a = rxWr ∨ area rxAcc 256 a → m'.rd a = m.rd a) : Acc m' bs := by
  have hr := m.rd_lt_cart (a := rxRd) (by decide)
  refine ⟨?_, ?_⟩
  · rw [hk _ (Or.inl rfl), h.wr, hrd, List.length_cons]
    omega
  · have := h.ring
    rw [List.map_cons] at this
    rw [hrd]
    exact this.pop.congr (fun i hi => hk _ (Or.inr ⟨by omega, by omega⟩))

/-- One round of the copy loop. -/
theorem Acc.push {m : Mach} {bs : List Byte} (h : Acc m bs) (b : Byte)
    (hroom : bs.length + 1 < 256) :
    Acc ((m.st (rxAcc + m.rd rxWr) b.toNat).st rxWr ((m.rd rxWr + 1) % 256)) (bs ++ [b]) := by
  have hwr := m.rd_lt_cart (a := rxWr) (by decide)
  have hring : rxAcc + m.rd rxWr ≠ rxWr := by simp only [rxAcc, rxWr]; omega
  have hrd : ((m.st (rxAcc + m.rd rxWr) b.toNat).st rxWr ((m.rd rxWr + 1) % 256)).rd rxRd =
      m.rd rxRd := by
    rw [Mach.rd_st_ne _ _ (by decide), Mach.rd_st_ne _ _ (by simp only [rxAcc, rxRd]; omega)]
  refine ⟨?_, ?_⟩
  · rw [hrd, Mach.rd_st_self, cellMod_cart (by decide), h.wr, List.length_append,
      List.length_singleton]
    omega
  · rw [hrd, List.map_append]
    refine h.ring.push (by rwa [List.length_map]) ?_ (fun i hi hne => ?_)
    · rw [List.length_map, ← h.wr, Mach.rd_st_ne _ _ hring, Mach.rd_st_self,
        cellMod_cart (by simp only [rxAcc]; omega), Nat.mod_eq_of_lt b.toNat_lt]
    · rw [List.length_map, ← h.wr] at hne
      rw [Mach.rd_st_ne _ _ (by simp only [rxAcc, rxWr]; omega), Mach.rd_st_ne _ _ (by omega)]

/-! ## Where the parser stores -/

theorem flenOk_le {type len : Nat} (h : flenOk type len = true) : len ≤ 99 := by
  simp only [flenOk, Bool.and_eq_true, decide_eq_true_eq] at h
  obtain ⟨⟨⟨ht, -⟩, -⟩, hmax⟩ := h
  have : ∀ t < 16, (sesFlen.getD t (0, 0)).2 ≤ 99 := by decide
  exact Nat.le_trans hmax (this type ht)

theorem within_ppCp (m : Mach) (got : List Byte) :
    Within (fun a => a = rxWr ∨ area rxAcc 256 a) m (ppCp m got) := by
  induction got generalizing m with
  | nil => exact Does.refl _ m
  | cons b got ih =>
    have hwr := m.rd_lt_cart (a := rxWr) (by decide)
    exact Does.within (((Does.refl _ m).st _ (Or.inr ⟨by omega, by omega⟩)).st _ (Or.inl rfl))
      (ih _)

theorem within_ppX (m : Mach) (r5 n : Nat) :
    Within (fun a => a = rxRd ∨ area r5 n a) m (ppX m r5 n) := by
  induction n generalizing m r5 with
  | zero => exact Does.refl _ m
  | succ n ih =>
    refine Does.within (((Does.refl _ m).st _ (Or.inr ⟨by omega, by omega⟩)).st _ (Or.inl rfl))
      ((ih _ (r5 + 1)).mono ?_)
    rintro a (h | h)
    · exact Or.inl h
    · simp only [area] at *
      exact Or.inr (by omega)

theorem does_ppSlip (m : Mach) :
    Does (fun a => a = rxRd ∨ a = diagSlip) [] [.slip] m (ppSlip m) := by
  have h : Within (fun a => a = rxRd ∨ a = diagSlip) m (m.st rxRd ((m.rd rxRd + 1) % 256)) :=
    (Does.refl _ m).st _ (Or.inl rfl)
  exact (h.log .slip).within ((within_diagBump _ _).mono (fun _ => Or.inr))

/-- A round that finds a frame moves at most 100 bytes to FRMBUF. -/
theorem ppRound_frame {m m' : Mach} (h : ppRound m = .frame m') :
    ∃ n ≤ 100, m' = ppX m frmBuf n := by
  simp only [ppRound] at h
  split_ifs at h with h0 h1 h2
  cases h
  rw [Bool.not_eq_true, Bool.not_eq_false'] at h1
  exact ⟨_, Nat.succ_le_succ (flenOk_le h1), rfl⟩

theorem ppRound_slip {m m' : Mach} (h : ppRound m = .slip m') : m' = ppSlip m := by
  simp only [ppRound] at h
  split_ifs at h
  cases h
  rfl

/-! ## What holds along a pump -/

/-- Cells SES_PUMP stores to, its handlers apart. -/
def pumpCell (a : Nat) : Prop := parserCell a ∨ area frmBuf 100 a

instance (a : Nat) : Decidable (pumpCell a) := by unfold pumpCell; infer_instance

theorem mute_ppCp (m : Mach) (got : List Byte) : Mach.Mute pumpCell m (ppCp m got) := by
  refine (within_ppCp m got).mute.mono ?_
  rintro a (h | h)
  · exact Or.inl (Or.inl h)
  · exact Or.inl (Or.inr (Or.inr (Or.inr h)))

theorem mute_ppSlip (m : Mach) : Mach.Mute pumpCell m (ppSlip m) := by
  refine Mach.Mute.mono ⟨_, _, does_ppSlip m, fun e he => ?_⟩ ?_
  · rw [List.mem_singleton.mp he]
    rfl
  · rintro a (h | h)
    · exact Or.inl (Or.inr (Or.inl h))
    · exact Or.inl (Or.inr (Or.inr (Or.inl h)))

theorem mute_ppX (m : Mach) {n : Nat} (hn : n ≤ 100) : Mach.Mute pumpCell m (ppX m frmBuf n) := by
  refine (within_ppX m frmBuf n).mute.mono ?_
  rintro a (h | h)
  · exact Or.inl (Or.inr (Or.inl h))
  · exact Or.inr ⟨h.1, Nat.lt_of_lt_of_le h.2 (Nat.add_le_add_left hn _)⟩

/-- What a slip, the move to FRMBUF and each dispatched frame preserve holds wherever the
    parse loop enters SES_ONFRAME, and at its end. -/
theorem ppLoop_rule {P : Mach → Prop} (hslip : ∀ m, P m → P (ppSlip m))
    (hx : ∀ m, ∀ n ≤ 100, P m → P (ppX m frmBuf n)) (fuel : Nat) (m : Mach)
    (hf : ∀ me ∈ ppEntries fuel m, P me → P (sesOnframe me)) (h : P m) :
    (∀ me ∈ ppEntries fuel m, P me) ∧ ∀ m', ppLoop fuel m = some m' → P m' := by
  induction fuel generalizing m with
  | zero => exact ⟨fun _ hm => absurd hm List.not_mem_nil, fun _ hm => by cases hm⟩
  | succ fuel ih =>
    simp only [ppEntries, ppLoop] at hf ⊢
    cases hr : ppRound m with
    | done => exact ⟨fun _ hm => absurd hm List.not_mem_nil, fun m' hm => by cases hm; exact h⟩
    | slip m1 =>
      simp only [hr] at hf ⊢
      have h1 : P m1 := ppRound_slip hr ▸ hslip m h
      exact ih m1 hf h1
    | frame m1 =>
      simp only [hr] at hf ⊢
      obtain ⟨n, hn, rfl⟩ := ppRound_frame hr
      have h1 : P (ppX m frmBuf n) := hx m n hn h
      obtain ⟨hent, hend⟩ := ih _ (fun me hme => hf me (List.mem_cons_of_mem _ hme))
        (hf _ List.mem_cons_self h1)
      refine ⟨fun me hme => ?_, hend⟩
      rcases List.mem_cons.mp hme with rfl | hme
      · exact h1
      · exact hent me hme

/-- The same for a property that all stores of the pump preserve. -/
theorem ppLoop_mute {P : Mach → Prop} (hcell : ∀ m m', Mach.Mute pumpCell m m' → P m → P m')
    (fuel : Nat) (m : Mach) (hf : ∀ me ∈ ppEntries fuel m, P me → P (sesOnframe me)) (h : P m) :
    (∀ me ∈ ppEntries fuel m, P me) ∧ ∀ m', ppLoop fuel m = some m' → P m' :=
  ppLoop_rule (fun m => hcell _ _ (mute_ppSlip m)) (fun m _ hn => hcell _ _ (mute_ppX m hn)) fuel m
    hf h

theorem ppLoop_ind {P : Mach → Prop} (hcell : ∀ m m', Mach.Only pumpCell m m' → P m → P m')
    (fuel : Nat) (m : Mach) (hf : ∀ me ∈ ppEntries fuel m, P me → P (sesOnframe me)) (h : P m) :
    (∀ me ∈ ppEntries fuel m, P me) ∧ ∀ m', ppLoop fuel m = some m' → P m' :=
  ppLoop_mute (fun m m' ho => hcell m m' ho.only) fuel m hf h

/-- The same over a whole call of SES_PUMP. -/
theorem sesPump_mute {P : Mach → Prop} (hcell : ∀ m m', Mach.Mute pumpCell m m' → P m → P m')
    {m m' : Mach} {got : List Byte}
    (hf : ∀ me ∈ ppEntries ppFuel (ppCp m got), P me → P (sesOnframe me)) (h : P m)
    (hp : sesPump m got = some m') : P m' :=
  (ppLoop_mute hcell ppFuel _ hf (hcell _ _ (mute_ppCp m got) h)).2 m' hp

theorem sesPump_ind {P : Mach → Prop} (hcell : ∀ m m', Mach.Only pumpCell m m' → P m → P m')
    {m m' : Mach} {got : List Byte}
    (hf : ∀ me ∈ ppEntries ppFuel (ppCp m got), P me → P (sesOnframe me)) (h : P m)
    (hp : sesPump m got = some m') : P m' :=
  sesPump_mute (fun m m' ho => hcell m m' ho.only) hf h hp

/-! ## Reading in -/

theorem ppCp_acc {m : Mach} {bs : List Byte} (h : Acc m bs) (got : List Byte)
    (hroom : bs.length + got.length < 256) : Acc (ppCp m got) (bs ++ got) := by
  induction got generalizing m bs with
  | nil => rwa [List.append_nil]
  | cons b got ih =>
    rw [List.length_cons] at hroom
    rw [ppCp, ← List.singleton_append, ← List.append_assoc]
    exact ih (h.push b (by omega)) (by rw [List.length_append, List.length_singleton]; omega)

/-! ## One round -/

/-- `@@pp_x` moves the head of the accumulator to `r`, `r + 1`, .. -/
theorem ppX_acc {m : Mach} {bs : List Byte} (h : Acc m bs) {r n : Nat} (hr : frmBuf ≤ r)
    (hn : n ≤ bs.length) :
    Acc (ppX m r n) (bs.drop n) ∧
      ∀ i (hi : i < bs.length), i < n → (ppX m r n).rd (r + i) = bs[i].toNat := by
  induction n generalizing m bs r with
  | zero => exact ⟨h, fun i _ hi => absurd hi (Nat.not_lt_zero i)⟩
  | succ n ih =>
    cases bs with
    | nil => simp at hn
    | cons b bs =>
      have hrd := m.rd_lt_cart (a := rxRd) (by decide)
      have hb : m.rd (rxAcc + m.rd rxRd) = b.toNat := by
        have := h.get (i := 0) (Nat.succ_pos _)
        rwa [Nat.add_zero, Nat.mod_eq_of_lt hrd] at this
      have hne : r ≠ rxRd := by simp only [frmBuf, rxRd] at *; omega
      -- the state after one byte
      have h1 : Acc ((m.st r (m.rd (rxAcc + m.rd rxRd))).st rxRd ((m.rd rxRd + 1) % 256)) bs := by
        refine h.rd_next _ ?_ (fun a ha => ?_)
        · rw [Mach.rd_st_self, cellMod_cart (by decide), Nat.mod_mod]
        · have hlt : a ≠ rxRd ∧ a ≠ r := by
            simp only [area, frmBuf, rxRd, rxWr, rxAcc] at *
            omega
          rw [Mach.rd_st_ne _ _ hlt.1, Mach.rd_st_ne _ _ hlt.2]
      obtain ⟨ha, hx⟩ := ih h1 (r := r + 1) (by omega) (by simpa using hn)
      refine ⟨ha, fun i hi hin => ?_⟩
      cases i with
      | zero =>
        have hk : ¬ (r + 0 = rxRd ∨ area (r + 1) n (r + 0)) := by
          simp only [area]
          omega
        rw [ppX, (within_ppX _ _ _).keep _ hk]
        rw [Nat.add_zero r, Mach.rd_st_ne _ _ hne, Mach.rd_st_self, hb, Nat.mod_eq_of_lt]
        · rfl
        · rw [cellMod_cart (by simp only [frmBuf] at hr; omega)]
          exact b.toNat_lt
      | succ i =>
        have := hx i (by simpa using hi) (by omega)
        rwa [Nat.add_assoc, Nat.add_comm 1 i] at this

/-- The header the parse loop peeks. -/
theorem Acc.header {m : Mach} {len type : Byte} {bs : List Byte} (h : Acc m (len :: type :: bs)) :
    m.rd (rxAcc + m.rd rxRd) = len.toNat ∧
      m.rd (rxAcc + (m.rd rxRd + 1) % 256) = type.toNat := by
  have hr := m.rd_lt_cart (a := rxRd) (by decide)
  have h0 := h.get (i := 0) (by simp)
  rw [Nat.add_zero, Nat.mod_eq_of_lt hr] at h0
  exact ⟨h0, h.get (i := 1) (by simp)⟩

theorem ppRound_cons {m : Mach} {len type : Byte} {bs : List Byte}
    (h : Acc m (len :: type :: bs)) :
    ppRound m =
      if flenOk type.toNat len.toNat then
        if bs.length + 1 < len.toNat then .done else .frame (ppX m frmBuf (len.toNat + 1))
      else .slip (ppSlip m) := by
  obtain ⟨h0, h1⟩ := h.header
  have hlen := h.buffered
  rw [List.length_cons, List.length_cons] at hlen
  rw [ppRound]
  simp only [h0, h1, hlen]
  rw [if_neg (by omega)]
  cases flenOk type.toNat len.toNat
  · rfl
  · simp only [Bool.not_true, Bool.false_eq_true, if_false, if_true]
    exact if_congr (by omega) rfl rfl

theorem ppRound_more {m : Mach} {bs : List Byte} (h : Acc m bs) (hp : sesPeek bs = .more) :
    ppRound m = .done := by
  match bs, h, hp with
  | [], h, _ =>
    rw [ppRound, h.buffered]
    rfl
  | [_], h, _ =>
    rw [ppRound, h.buffered]
    rfl
  | len :: type :: ys, h, hp =>
    rw [sesPeek_cons] at hp
    rw [ppRound_cons h]
    split_ifs at hp with h1 h2
    rw [if_pos h1, if_pos h2]

theorem ppRound_slip_acc {m : Mach} {bs : List Byte} (h : Acc m bs) {k : Nat}
    (hp : sesPeek bs = .emit .slip k) :
    ppRound m = .slip (ppSlip m) ∧ Acc (ppSlip m) (bs.drop k) := by
  obtain ⟨len, type, ys, rfl⟩ := sesPeek_emit_two hp
  rw [sesPeek_cons] at hp
  rw [ppRound_cons h]
  split_ifs at hp with h1 <;> cases hp
  refine ⟨by rw [if_neg h1], h.rd_next _ ?_ (fun a ha => (does_ppSlip m).keep a ?_)⟩
  · rw [ppSlip, (within_diagBump _ _).keep _ (by decide), Mach.rd_log, Mach.rd_st_self,
      cellMod_cart (by decide), Nat.mod_mod]
  · simp only [area, rxWr, rxAcc, rxRd, diagSlip] at *
    omega

/-- A round on a whole frame leaves it in FRMBUF and takes it out of the accumulator. -/
theorem ppRound_frame_acc {m : Mach} {bs f : List Byte} (h : Acc m bs) {k : Nat}
    (hp : sesPeek bs = .emit (.frame f) k) :
    ∃ m', ppRound m = .frame m' ∧ Acc m' (bs.drop k) ∧
      Within (fun a => a = rxRd ∨ area frmBuf 100 a) m m' ∧ frameBytes m' = f ∧
      m'.rd frmBuf + 1 ≤ 100 ∧ ∀ i (hi : i < f.length), m'.rd (frmBuf + i) = f[i].toNat := by
  obtain ⟨len, type, ys, rfl⟩ := sesPeek_emit_two hp
  rw [sesPeek_cons] at hp
  rw [ppRound_cons h]
  split_ifs at hp with h1 h2 <;> cases hp
  have hle := flenOk_le h1
  obtain ⟨ha, hx⟩ := ppX_acc h (Nat.le_refl frmBuf) (n := len.toNat + 1)
    (by simp only [List.length_cons]; omega)
  have hlen : (ppX m frmBuf (len.toNat + 1)).rd frmBuf = len.toNat := hx 0 (by simp) (by omega)
  have hw := (within_ppX m frmBuf (len.toNat + 1)).mono (T := fun a => a = rxRd ∨ area frmBuf 100 a)
    (fun a ha => ha.imp_right (fun h => ⟨h.1, by have := h.2; omega⟩))
  refine ⟨_, by rw [if_pos h1, if_neg h2], ha, hw, ?_, by rw [hlen]; omega, fun i hi => ?_⟩
  · refine List.ext_getElem ?_ (fun i hi hi' => ?_)
    · simp only [frameBytes, List.length_map, List.length_range, List.length_take,
        List.length_cons, hlen]
      omega
    · simp only [frameBytes, List.length_map, List.length_range, hlen] at hi
      simp only [frameBytes, List.getElem_map, List.getElem_range, List.getElem_take]
      rw [hx i (by simp only [List.length_cons]; omega) hi]
      exact UInt8.ofNat_toNat
  · rw [List.length_take] at hi
    rw [hx i (by omega) (by omega), List.getElem_take]

end IntvBasketball.Console
