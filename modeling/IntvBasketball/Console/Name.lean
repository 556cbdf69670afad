/-
  src/netcode/session.asm: SES_GETNAME, and SES_MAIN from there to the HELLO.

  The name comes from an appkey the peripheral may or may not have, of any length and any
  bytes (`GnTry` says what it answers on one try), or is GUESTnn. `named_sesGetname`: either
  way NAME_BUF holds 2-8 characters of A-Z0-9 and a NUL, although a try that fails may have
  left part of a name and its length behind. `name_registered`: the relay takes the HELLO
  made of it, and on_hello() stores the client under that very name.
-/
import IntvBasketball.Console.Transact
import IntvBasketball.Relay.Hello

namespace IntvBasketball.Console

open Mach (Within Does)
open Relay (Str nameChar)

def nameLen : Nat := 0x8159
def execRng : Nat := 0x35E
def fnTx : Nat := 0x9C40
def fujiDeviceid : Nat := 0x70
def cmdOpenAppkey : Nat := 0xDC
def cmdCloseAppkey : Nat := 0xDB
def cmdReadAppkey : Nat := 0xDD
def ftHello : Nat := 1

def strGuest : List Nat := chars "GUEST"
def strName : List Nat := chars "NAME: "

/-! ## SES_GETNAME -/

/-- What the peripheral does on one try. -/
structure GnTry where
  onOpen : Answer
  onRead : Answer
  onClose : Answer

/-- How a try ends. -/
inductive GnExit where
  | done | bad | retry
deriving DecidableEq

section
variable (hud : Bool)

/-- SES_AK_CLOSE. -/
def sesAkClose (x : Answer) (m : Mach) : Mach :=
  mbTransact hud ((Call.appkey fujiDeviceid cmdCloseAppkey 0 0 0).stage m) x

/-- OPEN: creator 1, app 1, key 0, mode read. -/
def gnOpen (x : Answer) (m : Mach) : Mach :=
  let m := m.stList fnTx [1, 0, 1, 0, 0, 0]
  mbTransact hud ((Call.appkey fujiDeviceid cmdOpenAppkey 0 6 0).stage m) x

/-- READ; what else it needs is staged from the OPEN. -/
def gnRead (x : Answer) (m : Mach) : Mach :=
  mbTransact hud ((m.st mbCmd cmdReadAppkey).st mbTxlenLo 0) x

/-- The tests at `@@gn_c`. -/
def gnChar (r0 : Nat) : Bool :=
  if r0 < 48 then false
  else if r0 ≤ 57 then true
  else if r0 < 65 then false
  else if 90 < r0 then false
  else true

/-- The loop at `@@gn_c`, and the NUL. -/
def gnCopy (m : Mach) (r4 r5 : Nat) : Nat → Mach × Bool
  | 0 => (m.st r5 0, true)
  | n + 1 =>
    if gnChar (m.rd r4) then gnCopy (m.st r5 (m.rd r4)) (r4 + 1) (r5 + 1) n
    else (m, false)

/-- What was read, as a name. -/
def gnTake (m : Mach) : Mach × Bool :=
  let r2 := if m.rd fnRx < 8 then m.rd fnRx else 8
  if r2 < 2 then (m, false)
  else gnCopy (m.st nameLen r2) (fnRx + 2) nameBuf r2

/-- From `@@gn_try` on. -/
def gnTry (t : GnTry) (m : Mach) : Mach × GnExit :=
  let m := gnOpen hud t.onOpen m
  if m.rd mbOk = 0 then (sesAkClose hud t.onClose m, .retry)
  else
    let m := gnRead hud t.onRead m
    if m.rd mbOk = 0 then (sesAkClose hud t.onClose m, .retry)
    else (sesAkClose hud t.onClose (gnTake m).1, if (gnTake m).2 then .done else .bad)

/-- A digit of GUESTnn. -/
def gnDigit (r0 : Nat) : Nat := (if r0 % 16 < 10 then r0 % 16 else r0 % 16 - 10) + 48

/-- `@@gn_fallback`. -/
def gnFallback (m : Mach) : Mach :=
  let m := m.stList nameBuf strGuest
  let m := m.st (nameBuf + 5) (gnDigit (m.rd execRng))
  let m := m.st (nameBuf + 6) (gnDigit (m.rd execRng / 256))
  (m.st (nameBuf + 7) 0).st nameLen 7

/-- `n` tries at most; the code counts them in PP_TMP. -/
def gnLoop (ts : Nat → GnTry) : Nat → Mach → Mach
  | 0, m => m
  | n + 1, m =>
    match gnTry hud (ts n) m with
    | (m, .done) => m
    | (m, .bad) => gnFallback m
    | (m, .retry) =>
      let r0 := sub16 (m.rd ppTmp) 1
      let m := m.st ppTmp r0
      if r0 = 0 then gnFallback m else gnLoop ts n m

/-- SES_GETNAME: two tries. -/
def sesGetname (ts : Nat → GnTry) (m : Mach) : Mach := gnLoop hud ts 2 (m.st ppTmp 2)

/-! ## SES_MAIN, up to the HELLO -/

/-- UI_PRINT of a string in memory. -/
def uiPrintRam (m : Mach) (off src : Nat) : Mach :=
  uiPrintNGo (m.rd uiColor % 8) m (off + backtab) src 65536

/-- The characters of NAME_BUF that HELLO sends. -/
def sesName (m : Mach) : Str := (List.range (m.rd nameLen)).map (fun i => m.rd (nameBuf + i))

/-- `@@ses_conn`: the HELLO. -/
def sesHello (m : Mach) : Mach := m.netWrite ([m.rd nameLen + 2, ftHello, 2] ++ sesName m)

/-- From `@@ses_mb` to the HELLO, with `spec` at SRV_SPEC; `none` if NET_OPEN fails and the
    console goes back to the local game. -/
def sesConnect (spec : List Nat) (ts : Nat → GnTry) (x : Answer) (m : Mach) : Option Mach :=
  let m := uiPrintRam (uiPrint (sesGetname hud ts m) 40 strName) 46 nameBuf
  let m := ((m.stList fnTx spec).st nreqLo spec.length).st nreqHi 0
  let m := mbTransact hud (stageOpen m) x
  if m.rd mbOk = 0 then none else some (sesHello m)

end

/-! ## The name -/

/-- A name, its length and its NUL. -/
structure Named (m : Mach) : Prop where
  len : 2 ≤ m.rd nameLen ∧ m.rd nameLen ≤ 8
  char : ∀ i < m.rd nameLen, nameChar (m.rd (nameBuf + i)) = true
  nul : m.rd (nameBuf + m.rd nameLen) = 0

/-- The cells of the name. -/
def nameCell (a : Nat) : Prop := area nameBuf 10 a

theorem nameCell_nameLen : nameCell nameLen := by
  unfold nameCell area
  decide

theorem nameCell_buf {i : Nat} (hi : i ≤ 8) : nameCell (nameBuf + i) := ⟨by omega, by omega⟩

theorem Named.frame {m m' : Mach} (h : Named m) (hk : ∀ a, nameCell a → m'.rd a = m.rd a) :
    Named m' := by
  have hlen := hk _ nameCell_nameLen
  have hle := h.len.2
  refine ⟨hlen.symm ▸ h.len, fun i hi => ?_, ?_⟩
  · rw [hlen] at hi
    rw [hk _ (nameCell_buf (by omega))]
    exact h.char i hi
  · rw [hlen, hk _ (nameCell_buf hle)]
    exact h.nul

theorem gnChar_eq (r0 : Nat) : gnChar r0 = nameChar r0 := by
  unfold gnChar nameChar
  split_ifs <;> simp <;> omega

/-- The copy stays in the buffer, stores nothing but valid characters, and is complete with
    the NUL if it gets to its end. -/
theorem within_gnCopy (m : Mach) (r4 r5 n : Nat) :
    Within (area r5 (n + 1)) m (gnCopy m r4 r5 n).1 := by
  induction n generalizing m r4 r5 with
  | zero => exact (Does.refl _ m).st _ ⟨by omega, by omega⟩
  | succ n ih =>
    rw [gnCopy]
    split
    · refine Does.within ((Does.refl _ m).st _ ⟨by omega, by omega⟩) ((ih _ _ _).mono ?_)
      intro a ha
      exact ⟨by have := ha.1; omega, by have := ha.2; omega⟩
    · exact Does.refl _ m

theorem gnCopy_true {m : Mach} {r4 r5 n : Nat} (hr : 0x8000 ≤ r5)
    (h : (gnCopy m r4 r5 n).2 = true) :
    (∀ i < n, nameChar ((gnCopy m r4 r5 n).1.rd (r5 + i)) = true) ∧
      (gnCopy m r4 r5 n).1.rd (r5 + n) = 0 := by
  induction n generalizing m r4 r5 with
  | zero =>
    refine ⟨fun i hi => absurd hi (Nat.not_lt_zero i), ?_⟩
    rw [gnCopy, Nat.add_zero, Mach.rd_st_self, Nat.zero_mod]
  | succ n ih =>
    rw [gnCopy] at h ⊢
    by_cases hc : gnChar (m.rd r4) = true
    · rw [if_pos hc] at h ⊢
      obtain ⟨hchars, hnul⟩ := ih (by omega) h
      refine ⟨fun i hi => ?_, ?_⟩
      · cases i with
        | zero =>
          have hout : ¬ area (r5 + 1) (n + 1) r5 := fun ha => absurd ha.1 (by omega)
          have hlt := Relay.nameChar_lt ((gnChar_eq _).symm.trans hc)
          have hfirst : (gnCopy (m.st r5 (m.rd r4)) (r4 + 1) (r5 + 1) n).1.rd r5 = m.rd r4 := by
            rw [(within_gnCopy _ (r4 + 1) (r5 + 1) n).keep r5 hout, Mach.rd_st_self,
              cellMod_cart hr, Nat.mod_eq_of_lt (by omega)]
          rw [Nat.add_zero r5, hfirst, ← gnChar_eq]
          exact hc
        | succ i =>
          have := hchars i (by omega)
          rwa [Nat.add_right_comm, Nat.add_assoc] at this
      · rwa [Nat.add_right_comm, Nat.add_assoc] at hnul
    · rw [if_neg hc] at h
      cases h

/-- A name that was read. -/
theorem gnTake_named {m : Mach} (h : (gnTake m).2 = true) : Named (gnTake m).1 := by
  unfold gnTake at h ⊢
  dsimp only at h ⊢
  generalize hr2 : (if m.rd fnRx < 8 then m.rd fnRx else 8) = r2 at h ⊢
  have hle : r2 ≤ 8 := by
    rw [← hr2]
    split_ifs <;> omega
  by_cases hmin : r2 < 2
  · rw [if_pos hmin] at h
    cases h
  · rw [if_neg hmin] at h ⊢
    obtain ⟨hchars, hnul⟩ := gnCopy_true (by decide) h
    have hout : ¬ area nameBuf (r2 + 1) nameLen := by
      intro ha
      have := ha.2
      have hb : nameLen = nameBuf + 9 := rfl
      omega
    have hlen : (gnCopy (m.st nameLen r2) (fnRx + 2) nameBuf r2).1.rd nameLen = r2 := by
      rw [(within_gnCopy _ _ _ _).keep nameLen hout, Mach.rd_st_self]
      exact Nat.mod_eq_of_lt (by unfold cellMod; split <;> omega)
    refine ⟨?_, fun i hi => ?_, ?_⟩
    · rw [hlen]
      exact ⟨by omega, hle⟩
    · rw [hlen] at hi
      exact hchars i hi
    · rw [hlen]
      exact hnul

theorem gnDigit_char (r0 : Nat) : nameChar (gnDigit r0) = true := by
  unfold nameChar gnDigit
  rw [decide_eq_true_eq]
  split_ifs <;> omega

/-- GUESTnn is a name, whatever EXEC_RNG holds. -/
theorem gnFallback_named (m : Mach) : Named (gnFallback m) := by
  have hsmall : ∀ r0, gnDigit r0 < 256 := fun r0 =>
    Nat.lt_trans (Relay.nameChar_lt (gnDigit_char r0)) (by decide)
  have hlen : (gnFallback m).rd nameLen = 7 := rfl
  have hchars : ∀ i < 5, (gnFallback m).rd (nameBuf + i) = strGuest.getD i 0 := by
    intro i hi
    match i, hi with
    | 0, _ => rfl
    | 1, _ => rfl
    | 2, _ => rfl
    | 3, _ => rfl
    | 4, _ => rfl
  have hd1 : (gnFallback m).rd (nameBuf + 5) = gnDigit (m.rd execRng) :=
    (rfl : _ = gnDigit (m.rd execRng) % 256).trans (Nat.mod_eq_of_lt (hsmall _))
  have hd2 : (gnFallback m).rd (nameBuf + 6) = gnDigit (m.rd execRng / 256) :=
    (rfl : _ = gnDigit (m.rd execRng / 256) % 256).trans (Nat.mod_eq_of_lt (hsmall _))
  refine ⟨hlen ▸ by decide, fun i hi => ?_, ?_⟩
  · rw [hlen] at hi
    rcases Nat.lt_or_ge i 5 with h5 | h5
    · rw [hchars i h5]
      have hguest : ∀ i < 5, nameChar (strGuest.getD i 0) = true := by decide
      exact hguest i h5
    · rcases Nat.lt_or_ge i 6 with h6 | h6
      · rw [show i = 5 by omega, hd1]
        exact gnDigit_char _
      · rw [show i = 6 by omega, hd2]
        exact gnDigit_char _
  · rw [hlen]
    rfl

theorem within_gnTake (m : Mach) : Within nameCell m (gnTake m).1 := by
  unfold gnTake
  dsimp only
  generalize hr2 : (if m.rd fnRx < 8 then m.rd fnRx else 8) = r2
  have hle : r2 ≤ 8 := by
    rw [← hr2]
    split_ifs <;> omega
  split
  · exact Does.refl _ m
  · refine Does.within ((Does.refl _ m).st _ nameCell_nameLen) ((within_gnCopy _ _ _ _).mono ?_)
    intro a ha
    exact ⟨ha.1, by have := ha.2; omega⟩

section
variable (hud : Bool)

/-- What a call of SES_GETNAME stores to, staging included. -/
def gnCell (a : Nat) : Prop := mbCell a ∨ stageCell a ∨ area fnTx 6 a

theorem not_gnCell_name {a : Nat} (h : nameCell a) : ¬ gnCell a := by
  have hmb : ∀ i < 10, ¬ mbCell (nameBuf + i) := by decide
  have hst : ∀ i < 10, ¬ stageCell (nameBuf + i) := by decide
  have htx : ∀ i < 10, ¬ area fnTx 6 (nameBuf + i) := by decide
  obtain ⟨i, rfl⟩ := Nat.exists_eq_add_of_le h.1
  have hi : i < 10 := by have := h.2; omega
  intro hc
  rcases hc with hc | hc | hc
  · exact hmb i hi hc
  · exact hst i hi hc
  · exact htx i hi hc

theorem not_gnCell_ppTmp : ¬ gnCell ppTmp := by
  have hout : ¬ mbCell ppTmp ∧ ¬ stageCell ppTmp ∧ ¬ area fnTx 6 ppTmp := by decide
  intro hc
  rcases hc with hc | hc | hc
  · exact hout.1 hc
  · exact hout.2.1 hc
  · exact hout.2.2 hc

theorem within_sesAkClose (x : Answer) (m : Mach) : Within gnCell m (sesAkClose hud x m) :=
  ((within_stage _ m).mono (fun _ h => Or.inr (Or.inl h))).within
    ((within_mbTransact _ hud x).mono (fun _ h => Or.inl h))

theorem within_gnOpen (x : Answer) (m : Mach) : Within gnCell m (gnOpen hud x m) := by
  have htx : Within gnCell m (m.stList fnTx [1, 0, 1, 0, 0, 0]) :=
    (Does.refl _ m).stList (fun b h1 h2 => Or.inr (Or.inr ⟨h1, h2⟩))
  exact (htx.within ((within_stage _ _).mono (fun _ h => Or.inr (Or.inl h)))).within
    ((within_mbTransact _ hud x).mono (fun _ h => Or.inl h))

theorem within_gnRead (x : Answer) (m : Mach) : Within gnCell m (gnRead hud x m) := by
  have hst : Within stageCell m ((m.st mbCmd cmdReadAppkey).st mbTxlenLo 0) :=
    ((Does.refl _ m).st _ (by decide)).st _ (by decide)
  exact (hst.mono (fun _ h => Or.inr (Or.inl h))).within
    ((within_mbTransact _ hud x).mono (fun _ h => Or.inl h))

/-- A try that is done leaves a name; none touches PP_TMP. -/
theorem gnTry_spec (t : GnTry) (m : Mach) :
    ((gnTry hud t m).2 = .done → Named (gnTry hud t m).1) ∧
      Within (fun a => gnCell a ∨ nameCell a) m (gnTry hud t m).1 := by
  have hopen := (within_gnOpen hud t.onOpen m).mono (T := fun a => gnCell a ∨ nameCell a)
    (fun _ => Or.inl)
  have hread := hopen.within ((within_gnRead hud t.onRead (gnOpen hud t.onOpen m)).mono
    (fun _ => Or.inl))
  have hclose := fun m => (within_sesAkClose hud t.onClose m).mono (T := fun a => gnCell a ∨ nameCell a)
    (fun _ => Or.inl)
  rw [gnTry]
  dsimp only
  split_ifs with ho hr ht
  · exact ⟨nofun, hopen.within (hclose _)⟩
  · exact ⟨nofun, hread.within (hclose _)⟩
  · refine ⟨fun _ => (gnTake_named ht).frame (fun a ha => ?_), ?_⟩
    · exact (within_sesAkClose hud t.onClose _).keep a (not_gnCell_name ha)
    · exact (hread.within ((within_gnTake _).mono (fun _ => Or.inr))).within (hclose _)
  · refine ⟨nofun, ?_⟩
    exact (hread.within ((within_gnTake _).mono (fun _ => Or.inr))).within (hclose _)

theorem within_gnFallback (m : Mach) : Within nameCell m (gnFallback m) := by
  have hguest : Within nameCell m (m.stList nameBuf strGuest) := by
    refine (Does.refl _ m).stList (fun b h1 h2 => ⟨h1, ?_⟩)
    have hlen : strGuest.length = 5 := rfl
    omega
  exact (((hguest.st _ (nameCell_buf (by decide))).st _ (nameCell_buf (by decide))).st _
    (nameCell_buf (by decide))).st _ nameCell_nameLen

/-- What SES_GETNAME stores to. -/
def gnStores (a : Nat) : Prop := gnCell a ∨ nameCell a ∨ a = ppTmp

/-- One try of the loop, with PP_TMP at the number of tries left: a name, or one try less. -/
theorem gnLoop_round (ts : Nat → GnTry) (n : Nat) {m : Mach} (hpp : m.rd ppTmp = n + 1) :
    (Named (gnLoop hud ts (n + 1) m) ∧ Within gnStores m (gnLoop hud ts (n + 1) m)) ∨
      ∃ m', n ≠ 0 ∧ m'.rd ppTmp = n ∧ Within gnStores m m' ∧
        gnLoop hud ts (n + 1) m = gnLoop hud ts n m' := by
  obtain ⟨hdone, htry⟩ := gnTry_spec hud (ts n) m
  have hkeep := htry.keep ppTmp (not_or.mpr ⟨not_gnCell_ppTmp, by unfold nameCell; decide⟩)
  replace htry := htry.mono (T := gnStores) (fun _ h => h.imp id Or.inl)
  have hfall := fun m => (within_gnFallback m).mono (T := gnStores) (fun _ h => Or.inr (Or.inl h))
  rw [gnLoop]
  generalize gnTry hud (ts n) m = x at hdone hkeep htry ⊢
  obtain ⟨m1, e⟩ := x
  dsimp only at hdone hkeep htry ⊢
  cases e with
  | done => exact Or.inl ⟨hdone rfl, htry⟩
  | bad => exact Or.inl ⟨gnFallback_named m1, htry.within (hfall m1)⟩
  | retry =>
    have hlt := m.rd_lt_cart (a := ppTmp) (by decide)
    have hr0 : sub16 (m1.rd ppTmp) 1 = n := by
      rw [hkeep, hpp, sub16]
      omega
    dsimp only
    rw [hr0]
    have hst : Within gnStores m (m1.st ppTmp n) := htry.st n (Or.inr (Or.inr rfl))
    split_ifs with hn
    · exact Or.inl ⟨gnFallback_named _, hst.within (hfall _)⟩
    · refine Or.inr ⟨m1.st ppTmp n, hn, ?_, hst, rfl⟩
      rw [Mach.rd_st_self, cellMod_cart (by decide)]
      omega

theorem named_gnLoop (ts : Nat → GnTry) (n : Nat) {m : Mach} (hpp : m.rd ppTmp = n + 1) :
    Named (gnLoop hud ts (n + 1) m) ∧ Within gnStores m (gnLoop hud ts (n + 1) m) := by
  induction n generalizing m with
  | zero =>
    rcases gnLoop_round hud ts 0 hpp with h | ⟨_, hn, -⟩
    · exact h
    · exact absurd rfl hn
  | succ n ih =>
    rcases gnLoop_round hud ts (n + 1) hpp with h | ⟨m', -, hpp', hst, hloop⟩
    · exact h
    · rw [hloop]
      exact ⟨(ih hpp').1, hst.within (ih hpp').2⟩

/-- SES_GETNAME ends with a name, whatever the peripheral answers. -/
theorem named_sesGetname (ts : Nat → GnTry) (m : Mach) :
    Named (sesGetname hud ts m) ∧ Within gnStores m (sesGetname hud ts m) := by
  obtain ⟨hnamed, hstores⟩ := named_gnLoop hud ts 1 (m := m.st ppTmp 2) (Mach.rd_st_self m ppTmp 2)
  exact ⟨hnamed, ((Does.refl _ m).st _ (Or.inr (Or.inr rfl))).within hstores⟩

/-! ## The HELLO -/

omit hud in
/-- UI_PRINT of a string in memory gets no further than its NUL. -/
theorem uiPrintNGo_nul (r1 : Nat) {m : Mach} {r4 r5 k n : Nat} (hlow : r4 < r5) (hk : k ≤ n)
    (hnul : m.rd (r5 + k) = 0) : uiPrintNGo r1 m r4 r5 n = uiPrintNGo r1 m r4 r5 k := by
  induction k generalizing m r4 r5 n with
  | zero =>
    cases n with
    | zero => rfl
    | succ n =>
      exact if_pos hnul
  | succ k ih =>
    obtain ⟨n, rfl⟩ : ∃ n', n = n' + 1 := ⟨n - 1, by omega⟩
    rw [uiPrintNGo, uiPrintNGo]
    split
    · rfl
    · apply ih
      · omega
      · omega
      · rw [Mach.rd_st_ne _ _ (by omega), Nat.add_right_comm, Nat.add_assoc]
        exact hnul

omit hud in
theorem within_uiPrintRam {m : Mach} (h : Named m) :
    Within (fun a => ¬ nameCell a) m (uiPrintRam m 46 nameBuf) := by
  have hle := h.len.2
  rw [uiPrintRam, uiPrintNGo_nul _ (by decide) (by omega) h.nul]
  refine (within_uiPrintNGo _ _ _ _ _).mono (fun a ha hn => ?_)
  have h1 := ha.2
  have h2 := hn.1
  simp only [backtab, nameBuf] at h1 h2
  omega

omit hud in
/-- The same name, read later. -/
theorem sesName_congr {m m' : Mach} (h : Named m) (hk : ∀ a, nameCell a → m'.rd a = m.rd a) :
    sesName m' = sesName m := by
  have hle := h.len.2
  rw [sesName, sesName, hk _ nameCell_nameLen]
  apply List.map_congr_left
  intro i hi
  have := List.mem_range.mp hi
  exact hk _ (nameCell_buf (by omega))

omit hud in
theorem sesName_spec {m : Mach} (h : Named m) :
    (2 ≤ (sesName m).length ∧ (sesName m).length ≤ 8) ∧
      ∀ ch ∈ sesName m, nameChar ch = true := by
  refine ⟨?_, fun ch hch => ?_⟩
  · rw [sesName, List.length_map, List.length_range]
    exact h.len
  · obtain ⟨i, hi, rfl⟩ := List.mem_map.mp hch
    exact h.char i (List.mem_range.mp hi)

/-- From SES_GETNAME to the HELLO: the name stays, and the HELLO is the frame of it. -/
theorem sesConnect_sends {spec : List Nat} {ts : Nat → GnTry} {x : Answer} {m m' : Mach}
    (h : sesConnect hud spec ts x m = some m') : m'.tx = m.tx ++
      Relay.frame Relay.tHello (Relay.helloPayload (sesName (sesGetname hud ts m))) := by
  obtain ⟨hnamed, hget⟩ := named_sesGetname hud ts m
  have hhello : Within (fun a => ¬ nameCell a) (sesGetname hud ts m)
      (uiPrint (sesGetname hud ts m) 40 strName) := by
    refine (within_uiPrint _ _ _).mono (fun a ha hn => ?_)
    have h1 := ha.2
    have h2 := hn.1
    have hlen : strName.length = 6 := rfl
    simp only [backtab, nameBuf, hlen] at h1 h2
    omega
  have hnamed1 := hnamed.frame (fun a ha => hhello.keep a (not_not.mpr ha))
  have hscreen := hhello.within (within_uiPrintRam hnamed1)
  rw [sesConnect] at h
  generalize hm1 : uiPrintRam (uiPrint (sesGetname hud ts m) 40 strName) 46 nameBuf = m1
    at h hscreen
  -- NET_OPEN
  have hspec : Within (fun a => ¬ nameCell a) m1 (((m1.stList fnTx spec).st nreqLo spec.length).st
      nreqHi 0) := by
    have htx : Within (fun a => ¬ nameCell a) m1 (m1.stList fnTx spec) := by
      refine (Does.refl _ m1).stList (fun b h1 _ hn => ?_)
      have h2 := hn.2
      simp only [fnTx, nameBuf] at h1 h2
      omega
    exact (htx.st _ (by unfold nameCell; decide)).st _ (by unfold nameCell; decide)
  have hcell : ∀ a, gnCell a → ¬ nameCell a := fun a ha hn => not_gnCell_name hn ha
  have hcall := ((hscreen.within hspec).within ((within_stage .open _).mono
    (fun a ha => hcell a (Or.inr (Or.inl ha))))).within ((within_mbTransact _ hud x).mono
    (fun a ha => hcell a (Or.inl ha)))
  change (if (mbTransact hud (Call.open.stage (((m1.stList fnTx spec).st nreqLo spec.length).st
    nreqHi 0)) x).rd mbOk = 0 then none else some (sesHello (mbTransact hud (Call.open.stage
      (((m1.stList fnTx spec).st nreqLo spec.length).st nreqHi 0)) x))) = some m' at h
  generalize mbTransact hud (Call.open.stage (((m1.stList fnTx spec).st nreqLo spec.length).st
    nreqHi 0)) x = m2 at h hcall
  split_ifs at h
  obtain rfl := Option.some.inj h
  have hname := sesName_congr hnamed (fun a ha => hcall.keep a (not_not.mpr ha))
  have hlen : (sesName (sesGetname hud ts m)).length = m2.rd nameLen := by
    rw [← hname, sesName, List.length_map, List.length_range]
  rw [sesHello, Mach.tx_netWrite, hcall.tx_eq, hget.tx_eq, List.append_nil, List.append_nil, hname,
    Relay.frame, Relay.helloPayload, List.length_cons, List.length_map, hlen]
  rfl

/-- The name is one the relay accepts: SES_GETNAME always ends with 2-8 characters of A-Z0-9
    and a NUL, and if the console then sends a HELLO, service() parses it however it arrives,
    on_hello() raises nothing and stores the client under that name. -/
theorem name_registered (spec : List Nat) (ts : Nat → GnTry) (x : Answer) (m : Mach) :
    Named (sesGetname hud ts m) ∧ ∀ m', sesConnect hud spec ts x m = some m' →
      let name := sesName (sesGetname hud ts m)
      let hello := Relay.frame Relay.tHello (Relay.helloPayload name)
      m'.tx = m.tx ++ hello ∧ ∀ (σ : Type) [Relay.Transport σ] (s : Relay.Server σ) (c : Nat)
        (xs d : List Byte), Relay.Server.Reads c xs s → d ≠ [] → xs ++ d = hello →
          s.Accepts c d (Relay.helloPayload name) name := by
  obtain ⟨hnamed, -⟩ := named_sesGetname hud ts m
  refine ⟨hnamed, fun m' hm' => ⟨sesConnect_sends hud hm', ?_⟩⟩
  intro σ _ s c xs d hread hd he
  obtain ⟨hlen, hch⟩ := sesName_spec hnamed
  exact hread.hello hd hlen hch he

end

/-- A call that is acknowledged at once. -/
def ackNow (rx : List Nat) : Answer :=
  ⟨(fnReplyCmd, fujicmdAck) :: rx.zipIdx.map (fun w => (fnRx + w.2, w.1)), some 0⟩

/-- The second try reads an appkey of 12 characters. -/
def longName : Nat → GnTry
  | 1 => ⟨⟨[], none⟩, ⟨[], none⟩, ackNow []⟩
  | _ => ⟨ackNow [], ackNow (12 :: 0 :: chars "BALLPLAYER12"), ackNow []⟩

theorem name_registered_long : Named (sesGetname true longName Mach.zero) ∧
    ∃ m', sesConnect true [78] longName (ackNow []) Mach.zero = some m' ∧
      (Relay.Server.init 3 0 (fun _ => 0) ([] : List Relay.SendResult)).Accepts 0 m'.tx
        (Relay.helloPayload (chars "BALLPLAY")) (chars "BALLPLAY") := by
  have hsome : (sesConnect true [78] longName (ackNow []) Mach.zero).isSome = true := by
    decide +kernel
  have hname : sesName (sesGetname true longName Mach.zero) = chars "BALLPLAY" := by decide +kernel
  obtain ⟨m', hm'⟩ := Option.isSome_iff_exists.mp hsome
  obtain ⟨hnamed, hrest⟩ := name_registered true [78] longName (ackNow []) Mach.zero
  obtain ⟨htx, hreg⟩ := hrest m' hm'
  rw [hname] at htx hreg
  refine ⟨hnamed, m', hm', ?_⟩
  rw [htx]
  exact hreg _ _ 0 [] _ (.start _ rfl) (by decide) rfl

end IntvBasketball.Console
