/-
  MB_TRANSACT as one step, and the poll counts of the NET_HUD build.

  `mbTransact` is what a call leaves behind, given what the peripheral does meanwhile
  (`Answer`); `box_transact` finds it among the runs of `Box`. The NET_HUD build adds the
  poll count to a 16-bit total that HUD_DRAW shows the high byte of and clears.

  The count is in R1. Where it is a new maximum, `@@acked` swaps the bytes of R1 to store
  the high one, and R1 stays swapped for the addition; and that maximum is a signed one.
  `polls_accounted_iff` says which counts come out right all the same.
-/
import IntvBasketball.Console.Mailbox
import IntvBasketball.Console.Ui

namespace IntvBasketball.Console

open Mach (Within Does)

/-! ## The call -/

def hudPll : Nat := 0x8190
def hudPlh : Nat := 0x8191
def hudStl : Nat := 0x8192
def hudHld : Nat := 0x8193
def hudLead : Nat := 0x8194
def hudRsy : Nat := 0x8195

/-- SWAP. -/
def swap16 (a : Nat) : Nat := a % 256 * 256 + a / 256 % 256

/-- R1 at `@@no_max`: a count that went into MB_PMAX has its bytes swapped. -/
def pmaxR1 (m : Mach) (r1 : Nat) : Nat :=
  if slt16 r1 (word (m.rd mbPmaxLo) (m.rd mbPmaxHi)) then r1 else swap16 r1

/-- The NET_HUD part: add R1 to HUD_PLH/HUD_PLL, saturating. -/
def hudPolls (m : Mach) (r1 : Nat) : Mach :=
  let r0 := m.rd hudPll + r1 % 256
  let m := m.st hudPll r0
  let r2 := swap16 r1 % 256
  let r2 := if r0 < 0x100 then r2 else r2 + 1
  let r0 := m.rd hudPlh + r2
  m.st hudPlh (if r0 < 0xFF then r0 else 0xFF)

/-- What the peripheral does during a call: the reply registers it writes, in order, and after
    how many polls it completes the transaction, if it does in time. -/
structure Answer where
  writes : List (Nat × Nat)
  polls : Option UInt16

/-- The writes of the peripheral. -/
def periph (m : Mach) (ws : List (Nat × Nat)) : Mach :=
  ws.foldl (fun m w => if replyReg w.1 then m.st w.1 w.2 else m) m

/-- From the read of FN_REPLY_CMD on. -/
def mbReply (m : Mach) : Mach :=
  if m.rd fnReplyCmd = fujicmdAck then m.st mbOk 1
  else diagBump ((m.st mbErr (m.rd fnErr)).st mbOk 0) diagErr

/-- `@@acked`, in a build with or without NET_HUD. -/
def mbAcked (hud : Bool) (m : Mach) (r1 : Nat) : Mach :=
  let r1' := pmaxR1 m r1
  let m := mbPmax m r1
  mbReply (if hud then hudPolls m r1' else m)

theorem mbAcked_false (m : Mach) (r1 : Nat) : mbAcked false m r1 = mbReply (mbPmax m r1) := by
  unfold mbAcked
  simp only [Bool.false_eq_true, if_false]

theorem mbAcked_true (m : Mach) (r1 : Nat) :
    mbAcked true m r1 = mbReply (hudPolls (mbPmax m r1) (pmaxR1 m r1)) := by
  unfold mbAcked
  simp only [if_true]

/-- MB_TRANSACT of what is staged. -/
def mbTransact (hud : Bool) (m : Mach) (x : Answer) : Mach :=
  let m := mbIssue m
  let r2 := nextSeq (m.rd fnAckseq)
  let m := periph (m.st fnSeq r2) x.writes
  match x.polls with
  | none => mbTimeout m
  | some p => mbAcked hud (m.st fnAckseq r2) p.toNat

/-- A call that is acknowledged. -/
theorem mbTransact_some (hud : Bool) (m : Mach) (ws : List (Nat × Nat)) (p : UInt16) :
    mbTransact hud m ⟨ws, some p⟩ =
      mbAcked hud ((periph ((mbIssue m).st fnSeq (nextSeq ((mbIssue m).rd fnAckseq))) ws).st fnAckseq
        (nextSeq ((mbIssue m).rd fnAckseq))) p.toNat := rfl

/-! ## Where it stores -/

/-- The cells of a call, staging apart. -/
def mbCell (a : Nat) : Prop :=
  replyReg a ∨ a ∈ [fnDevice, fnCmd, fnNparam, fnTxlenLo, fnTxlenHi, fnSeq, fnAckseq, mbOk, mbErr,
    mbPmaxLo, mbPmaxHi, diagTmo, diagErr, hudPll, hudPlh]

instance (a : Nat) : Decidable (mbCell a) := by unfold mbCell; infer_instance

section
variable (m : Mach)

theorem within_mbIssue :
    Within (· ∈ [fnDevice, fnCmd, fnNparam, fnTxlenLo, fnTxlenHi]) m (mbIssue m) :=
  (((((Does.refl _ m).st _ (by decide)).st _ (by decide)).st _ (by decide)).st _ (by decide)).st _
    (by decide)

theorem within_periph (ws : List (Nat × Nat)) : Within replyReg m (periph m ws) := by
  induction ws generalizing m with
  | nil => exact Does.refl _ m
  | cons w ws ih =>
    rw [periph, List.foldl_cons]
    split_ifs with hw
    · exact Does.within ((Does.refl _ m).st _ hw) (ih _)
    · exact ih m

theorem within_mbPmax (r1 : Nat) : Within (· ∈ [mbPmaxLo, mbPmaxHi]) m (mbPmax m r1) := by
  unfold mbPmax
  split_ifs
  · exact Does.refl _ m
  · exact ((Does.refl _ m).st _ (by decide)).st _ (by decide)

theorem within_hudPolls (r1 : Nat) : Within (· ∈ [hudPll, hudPlh]) m (hudPolls m r1) :=
  ((Does.refl _ m).st _ (by decide)).st _ (by decide)

theorem within_mbReply : Within (· ∈ [mbOk, mbErr, diagErr]) m (mbReply m) := by
  unfold mbReply
  split_ifs
  · exact (Does.refl _ m).st _ (by decide)
  · have herr : Within (· ∈ [mbOk, mbErr, diagErr]) m ((m.st mbErr (m.rd fnErr)).st mbOk 0) :=
      ((Does.refl _ m).st _ (by decide)).st _ (by decide)
    refine herr.within ((within_diagBump _ diagErr).mono ?_)
    intro a ha
    rw [ha]
    decide

theorem within_mbAcked (hud : Bool) (r1 : Nat) : Within mbCell m (mbAcked hud m r1) := by
  have hpm : ∀ a ∈ [mbPmaxLo, mbPmaxHi], mbCell a := by decide
  have hhud : ∀ a ∈ [hudPll, hudPlh], mbCell a := by decide
  have hrep : ∀ a ∈ [mbOk, mbErr, diagErr], mbCell a := by decide
  unfold mbAcked
  dsimp only
  refine Does.within ?_ ((within_mbReply _).mono hrep)
  split_ifs
  · exact ((within_mbPmax m r1).mono hpm).within ((within_hudPolls _ _).mono hhud)
  · exact (within_mbPmax m r1).mono hpm

theorem within_mbTransact (hud : Bool) (x : Answer) : Within mbCell m (mbTransact hud m x) := by
  have hissue : ∀ a ∈ [fnDevice, fnCmd, fnNparam, fnTxlenLo, fnTxlenHi], mbCell a := by decide
  have h0 : Within mbCell m ((mbIssue m).st fnSeq (nextSeq ((mbIssue m).rd fnAckseq))) :=
    ((within_mbIssue m).mono hissue).st _ (by decide)
  have h1 := h0.within ((within_periph _ x.writes).mono (fun _ => Or.inl))
  have htmo : ∀ m, Within mbCell m (mbTimeout m) := by
    intro m
    have hz : Within mbCell m ((m.st mbOk 0).st mbErr 0) :=
      ((Does.refl _ m).st _ (by decide)).st _ (by decide)
    refine hz.within ((within_diagBump _ diagTmo).mono ?_)
    intro a ha
    rw [ha]
    decide
  unfold mbTransact
  dsimp only
  split
  · exact h1.within (htmo _)
  · exact (h1.st _ (by decide)).within (within_mbAcked _ _ _)

end

/-! ## Among the runs of the box -/

namespace Box

/-- Polls that do not find the sequence number. -/
theorem run_polls {b : Box} {c : Call} {t r2 : Nat} (hack : b.m.rd fnAckseq ≠ r2) (n r1 : Nat)
    (hpc : b.pc = .poll c t r2 r1) (hn : r1 + n < 65536) :
    b.run (List.replicate n .cpu) = some { b with pc := .poll c t r2 (r1 + n) } := by
  induction n generalizing b r1 with
  | zero =>
    rw [List.replicate_zero, run, Nat.add_zero, ← hpc]
  | succ n ih =>
    have hstep : b.step .cpu = some { b with pc := .poll c t r2 (r1 + 1) } := by
      show b.cpu = _
      rw [cpu, hpc]
      dsimp only
      rw [pollRound, if_neg hack, if_neg (by omega)]
    rw [List.replicate_succ, run, hstep, Option.bind_some,
      ih (b := { b with pc := .poll c t r2 (r1 + 1) }) hack (r1 + 1) rfl (by omega)]
    dsimp only
    rw [Nat.add_assoc, Nat.add_comm 1]

/-- The peripheral's writes, for the first transaction of its queue. -/
theorem run_writes {b : Box} {x : Txn} {q : List Txn} (hq : b.queue = x :: q)
    (ws : List (Nat × Nat)) (hws : ∀ w ∈ ws, replyReg w.1) : ∃ owner,
    b.run (ws.map (fun w => .reply w.1 w.2)) = some { b with m := periph b.m ws, owner } ∧
      (∀ w ∈ ws, owner w.1 = some x.id) ∧ ∀ a, b.owner a = some x.id → owner a = some x.id := by
  induction ws generalizing b with
  | nil => exact ⟨b.owner, rfl, nofun, fun a ha => ha⟩
  | cons w ws ih =>
    have hw := hws w List.mem_cons_self
    have hstep : b.step (.reply w.1 w.2) = some { b with
        m := b.m.st w.1 w.2, owner := fun k => if k = w.1 then some x.id else b.owner k } := by
      show b.reply w.1 w.2 = _
      rw [reply, hq]
      dsimp only
      rw [if_pos hw]
    obtain ⟨owner, hrun, hnew, hold⟩ := ih (b := { b with
      m := b.m.st w.1 w.2, owner := fun k => if k = w.1 then some x.id else b.owner k }) hq
      (fun w' hw' => hws w' (List.mem_cons_of_mem _ hw'))
    refine ⟨owner, ?_, fun w' hw' => ?_, fun a ha => hold a ?_⟩
    · rw [List.map_cons, run, hstep, Option.bind_some, hrun, periph, periph, List.foldl_cons,
        if_pos hw]
    · rcases List.mem_cons.mp hw' with rfl | hw'
      · exact hold _ (if_pos rfl)
      · exact hnew w' hw'
    · dsimp only
      split_ifs
      · rfl
      · exact ha

/-- From `@@acked` to the return, for a caller other than NET_STATUS and NET_READ. -/
theorem run_reply {b : Box} {c : Call} {t : Nat} (hpc : b.pc = .acked c t)
    (hc : c ≠ .status ∧ c ≠ .read) : ∃ as b',
    b.run as = some b' ∧ b'.pc = .idle ∧ b'.queue = b.queue ∧ b'.m = mbReply b.m := by
  have hstep : b.step .cpu = some (b.replyCmd c t) := by
    show b.cpu = _
    rw [cpu, hpc]
  by_cases hok : b.m.rd fnReplyCmd = fujicmdAck
  · have hreply : b.replyCmd c t = b.look t fnReplyCmd .idle (b.m.st mbOk 1) := by
      unfold replyCmd
      rw [if_pos hok]
      cases c with
      | status => exact absurd rfl hc.1
      | read => exact absurd rfl hc.2
      | write | «open» | close | appkey => rfl
    rw [hreply] at hstep
    refine ⟨[.cpu], b.look t fnReplyCmd .idle (b.m.st mbOk 1), ?_, rfl, rfl, ?_⟩
    · rw [run, hstep, Option.bind_some, run]
    · rw [mbReply, if_pos hok]
      rfl
  · have hnack : b.replyCmd c t = b.look t fnReplyCmd (.nack c t) b.m := by
      unfold replyCmd
      rw [if_neg hok]
    rw [hnack] at hstep
    have hstep2 : (b.look t fnReplyCmd (.nack c t) b.m).step .cpu =
        some ((b.look t fnReplyCmd (.nack c t) b.m).replyErr c t) := rfl
    have hfail : ∀ m, callFail c m = m := by
      intro m
      cases c with
      | status => exact absurd rfl hc.1
      | read => exact absurd rfl hc.2
      | write | «open» | close | appkey => rfl
    refine ⟨[.cpu, .cpu], (b.look t fnReplyCmd (.nack c t) b.m).replyErr c t, ?_, rfl, rfl, ?_⟩
    · rw [run, hstep, Option.bind_some, run, hstep2, Option.bind_some, run]
    · rw [mbReply, if_neg hok]
      exact hfail _

/-- What a caller other than NET_STATUS and NET_READ finds when the peripheral answers it: some
    run of the box leaves the machine `mbTransact` computes. -/
theorem box_transact {b : Box} (hpc : b.pc = .idle) (hq : b.queue = []) {c : Call}
    (hc : c ≠ .status ∧ c ≠ .read) (ws : List (Nat × Nat)) (hws : ∀ w ∈ ws, replyReg w.1)
    (hown : ∀ a ∈ c.replyRegs, ∃ w ∈ ws, w.1 = a) (p : UInt16) : ∃ as b',
    b.run as = some b' ∧ b'.pc = .idle ∧ b'.queue = [] ∧
      b'.m = mbTransact false (c.stage b.m) ⟨ws, some p⟩ := by
  generalize hm1 : mbIssue (c.stage b.m) = m1
  have hack := nextSeq_ne (m1.rd fnAckseq) (m1.rd_lt_cart (by decide))
  generalize hr2 : nextSeq (m1.rd fnAckseq) = r2 at hack
  have hp : p.toNat < 65536 := p.toNat_lt
  -- FN_SEQ, then the polls
  let b1 : Box := { b with
    pc := .poll c b.issued r2 0, m := m1.st fnSeq r2, issued := b.issued + 1,
    queue := [⟨b.issued, r2, c⟩] }
  have hcall : b.run [.call c, .cpu] = some b1 := by
    have henter : b.step (.call c) = some { b with m := m1, pc := .issue c r2 } := by
      show b.enter c = _
      rw [enter, if_pos hpc]
      dsimp only
      rw [hm1, hr2]
    rw [run, henter, Option.bind_some]
    show some _ = some b1
    simp only [hq, List.nil_append]
    rfl
  have hne : b1.m.rd fnAckseq ≠ r2 := by
    show (m1.st fnSeq r2).rd fnAckseq ≠ r2
    rw [Mach.rd_st_ne _ _ (by decide)]
    exact hack.1
  have hpoll := run_polls hne p.toNat 0 rfl (by omega)
  -- the answer
  let b2 : Box := { b1 with pc := .poll c b.issued r2 (0 + p.toNat) }
  obtain ⟨owner, hwrite, hnew, -⟩ := run_writes (b := b2) (x := ⟨b.issued, r2, c⟩) (q := []) rfl
    ws hws
  let b3 : Box := { b1 with
    pc := .poll c b.issued r2 (0 + p.toNat), m := periph (m1.st fnSeq r2) ws, owner }
  let b4 : Box := { b3 with m := b3.m.st fnAckseq r2, queue := [] }
  have hdone : b3.run [.ack] = some b4 := by
    have howned : ∀ a ∈ c.replyRegs, owner a = some b.issued := by
      intro a ha
      obtain ⟨w, hw, rfl⟩ := hown a ha
      exact hnew w hw
    have hstep : b3.step .ack = some b4 := by
      show (if ∀ a ∈ c.replyRegs, owner a = some b.issued then some b4 else none) = _
      rw [if_pos howned]
    rw [run, hstep, Option.bind_some, run]
  -- the reply
  let b5 : Box := { b4 with pc := .acked c b.issued, m := mbPmax b4.m p.toNat }
  have hack5 : b4.run [.cpu] = some b5 := by
    have hstep : b4.step .cpu = some b5 := by
      show some (b4.pollRound c b.issued r2 (0 + p.toNat)) = _
      have hseen : b4.m.rd fnAckseq = r2 :=
        (Mach.rd_st_self _ _ _).trans (Nat.mod_eq_of_lt hack.2)
      rw [pollRound, if_pos hseen, Nat.zero_add]
    rw [run, hstep, Option.bind_some, run]
  obtain ⟨as, b6, hrun6, hpc6, hq6, hm6⟩ := b5.run_reply rfl hc
  refine ⟨[.call c, .cpu] ++ List.replicate p.toNat .cpu ++
    ws.map (fun w => .reply w.1 w.2) ++ [.ack] ++ [.cpu] ++ as, b6, ?_, hpc6, hq6.trans rfl, ?_⟩
  · rw [run_append, run_append, run_append, run_append, run_append, hcall, Option.bind_some, hpoll,
      Option.bind_some]
    show ((((b2.run (ws.map (fun w => .reply w.1 w.2))).bind (fun b => b.run [.ack])).bind
      (fun b => b.run [.cpu])).bind (fun b => b.run as)) = some b6
    rw [hwrite, Option.bind_some]
    show ((b3.run [.ack]).bind (fun b => b.run [.cpu])).bind (fun b => b.run as) = some b6
    rw [hdone, Option.bind_some, hack5, Option.bind_some, hrun6]
  · rw [hm6, mbTransact_some, hm1, hr2, mbAcked_false]

end Box

/-! ## The poll total of the HUD -/

/-- STR_HUD. -/
def strHud : List Nat := chars "L   S   T   R   H   "

/-- HUD_DRAW: the row, then a new window. -/
def hudDraw (m : Mach) : Mach :=
  let m := uiPrint (m.st uiColor cWhite) 220 strHud
  let m := uiHex2 m (m.rd hudLead) 221
  let m := uiHex2 m (m.rd hudStl) 225
  let m := uiHex2 m (m.rd hudPlh) 229
  let m := uiHex2 m (m.rd hudRsy) 233
  let m := uiHex2 m (m.rd hudHld) 237
  ((((m.st hudPll 0).st hudPlh 0).st hudStl 0).st hudHld 0).st hudLead 15

/-- The four cells that count polls. -/
def pollCells : List Nat := [mbPmaxLo, mbPmaxHi, hudPll, hudPlh]

/-- What happens to those cells, in a NET_HUD build. -/
inductive HudEv where
  | call (c : Call) (ws : List (Nat × Nat)) (p : UInt16)  -- a call acknowledged after `p` polls
  | draw                                                  -- HUD_DRAW
  | store (a v : Nat)                                     -- anything else: not these cells

def hudStep (m : Mach) : HudEv → Mach
  | .call c ws p => mbTransact true (c.stage m) ⟨ws, some p⟩
  | .draw => hudDraw m
  | .store a v => if a ∈ pollCells then m else m.st a v

def hudRun (m : Mach) (evs : List HudEv) : Mach := evs.foldl hudStep m

/-- What was counted: the largest count of the run, the sum of this window, and over the
    counts of this window that were not below any earlier one how much the low bytes exceed
    the high bytes. -/
structure Tally where
  best : Nat
  sum : Nat
  skew : Int

namespace Tally

def zero : Tally := ⟨0, 0, 0⟩

def count (y : Tally) (p : Nat) : Tally where
  best := max y.best p
  sum := y.sum + p
  skew := if y.best ≤ p then y.skew + ((p % 256 : Nat) - (p / 256 : Nat) : Int) else y.skew

def step (y : Tally) : HudEv → Tally
  | .call _ _ p => y.count p.toNat
  | .draw => { y with sum := 0, skew := 0 }
  | .store _ _ => y

def ofEvs (evs : List HudEv) : Tally := evs.foldl step zero

/-- Counts that come out right: none with bit 15 set; and the byte-swapped ones do not show in
    the high byte of the sum, because they make no difference to it, or one that stays below
    256, or because both sums are out of range. -/
def Shows (y : Tally) : Prop :=
  y.best < 32768 ∧
    (y.skew = 0 ∨ (y.skew = 1 ∧ y.sum % 256 = 0) ∨ (y.skew = -1 ∧ y.sum % 256 = 255) ∨
      (65280 ≤ y.sum ∧ 65280 ≤ (y.sum : Int) + 255 * y.skew))

instance (y : Tally) : Decidable y.Shows := by unfold Shows; infer_instance

end Tally

/-- MB_PMAX as a word. -/
def pmax (m : Mach) : Nat := word (m.rd mbPmaxLo) (m.rd mbPmaxHi)

/-- MB_PMAX is the maximum of the counts, and HUD_PLH the sum since the last HUD window over
    256, saturated. -/
def Accounted (m : Mach) (y : Tally) : Prop :=
  pmax m = y.best ∧ m.rd hudPlh = min 255 (y.sum / 256)

/-- What the cells hold instead: the counts below 32768, and a sum that takes the counts which
    were not below an earlier one with their bytes swapped. -/
structure PollSums (m : Mach) (y : Tally) : Prop where
  small : pmax m < 32768
  best : y.best < 32768 → pmax m = y.best
  sum : y.best < 32768 → ∃ e : Nat, (e : Int) = y.sum + 255 * y.skew ∧
    m.rd hudPll = e % 256 ∧ m.rd hudPlh = min 255 (e / 256)

theorem swap16_of_lt {a : Nat} (h : a < 65536) :
    (swap16 a : Int) = a + 255 * ((a % 256 : Nat) - (a / 256 : Nat) : Int) := by
  unfold swap16
  omega

theorem swap16_lt (a : Nat) : swap16 a < 65536 := by
  unfold swap16
  omega

theorem swap16_mod (a : Nat) : swap16 a % 256 = a / 256 % 256 := by
  unfold swap16
  omega

/-- MB_PMAX after a call: a count with bit 15 set compares as a negative one. -/
theorem pmax_mbPmax {m : Mach} (h : pmax m < 32768) {r1 : Nat} (hr : r1 < 65536) :
    pmax (mbPmax m r1) = if r1 < 32768 then max (pmax m) r1 else pmax m := by
  have hslt : slt16 r1 (pmax m) = true ↔ r1 < pmax m ∨ 32768 ≤ r1 := by
    unfold slt16
    rw [decide_eq_true_iff]
    omega
  unfold mbPmax
  rw [show word (m.rd mbPmaxLo) (m.rd mbPmaxHi) = pmax m from rfl]
  by_cases hb : r1 < pmax m ∨ 32768 ≤ r1
  · rw [if_pos (hslt.mpr hb)]
    split_ifs
    · omega
    · rfl
  · rw [if_neg (fun hc => hb (hslt.mp hc)), if_pos (by omega)]
    have hlo : ((m.st mbPmaxLo r1).st mbPmaxHi (r1 / 256)).rd mbPmaxLo = r1 % 256 := by
      rw [Mach.rd_st_ne _ _ (by decide), Mach.rd_st_self]
      rfl
    have hhi : ((m.st mbPmaxLo r1).st mbPmaxHi (r1 / 256)).rd mbPmaxHi = r1 / 256 % 256 := by
      rw [Mach.rd_st_self]
      rfl
    rw [pmax, hlo, hhi, word]
    omega

/-- R1 after `@@acked` has compared it. -/
theorem pmaxR1_eq {m : Mach} (h : pmax m < 32768) {r1 : Nat} (hr : r1 < 32768) :
    pmaxR1 m r1 = if pmax m ≤ r1 then swap16 r1 else r1 := by
  have hslt : slt16 r1 (pmax m) = true ↔ r1 < pmax m := by
    unfold slt16
    rw [decide_eq_true_iff]
    omega
  unfold pmaxR1
  rw [show word (m.rd mbPmaxLo) (m.rd mbPmaxHi) = pmax m from rfl]
  by_cases hb : r1 < pmax m
  · rw [if_pos (hslt.mpr hb), if_neg (by omega)]
  · rw [if_neg (fun hc => hb (hslt.mp hc)), if_pos (by omega)]

/-- The addition, carry and saturation of the NET_HUD part. -/
theorem hudPolls_adds {m : Mach} {e r1 : Nat} (hr : r1 < 65536) (hl : m.rd hudPll = e % 256)
    (hh : m.rd hudPlh = min 255 (e / 256)) :
    (hudPolls m r1).rd hudPll = (e + r1) % 256 ∧
      (hudPolls m r1).rd hudPlh = min 255 ((e + r1) / 256) := by
  have hll : (hudPolls m r1).rd hudPll = (m.rd hudPll + r1 % 256) % 256 := by
    unfold hudPolls
    dsimp only
    rw [Mach.rd_st_ne _ _ (by decide), Mach.rd_st_self]
    rfl
  have hhh : (hudPolls m r1).rd hudPlh = min 255 (m.rd hudPlh +
      if m.rd hudPll + r1 % 256 < 256 then r1 / 256 % 256 else r1 / 256 % 256 + 1) := by
    unfold hudPolls
    dsimp only
    rw [Mach.rd_st_self, Mach.rd_st_ne _ _ (by decide : hudPlh ≠ hudPll), swap16_mod]
    show _ % 256 = _
    split_ifs <;> omega
  rw [hll, hhh, hl, hh]
  constructor
  · omega
  · split_ifs <;> omega

/-! ### What leaves them alone -/

/-- Code that stores elsewhere. -/
theorem polls_frame {S : Nat → Prop} {m m' : Mach} (h : Within S m m')
    (hS : ∀ a ∈ pollCells, ¬ S a) (a : Nat) (ha : a ∈ pollCells) : m'.rd a = m.rd a :=
  h.keep a (hS a ha)

theorem PollSums.frame {m m' : Mach} {y : Tally} (h : PollSums m y)
    (hrd : ∀ a ∈ pollCells, m'.rd a = m.rd a) : PollSums m' y := by
  have hp : pmax m' = pmax m := by
    rw [pmax, pmax, hrd _ (by decide), hrd _ (by decide)]
  refine ⟨hp.symm ▸ h.small, fun hb => hp.trans (h.best hb), fun hb => ?_⟩
  obtain ⟨e, he, hl, hh⟩ := h.sum hb
  exact ⟨e, he, (hrd _ (by decide)).trans hl, (hrd _ (by decide)).trans hh⟩

/-- The cells a caller stages. -/
def stageCell (a : Nat) : Prop := area mbDev 5 a ∨ area fnParamSize 32 a

instance (a : Nat) : Decidable (stageCell a) := by unfold stageCell area; infer_instance

theorem within_stage (c : Call) (m : Mach) : Within stageCell m (c.stage m) := by
  have hsizes : ∀ (cmd nparam : Nat) (sizes : List Nat), sizes.length ≤ 32 →
      Within stageCell m (stage m cmd nparam sizes) := by
    intro cmd nparam sizes hlen
    have hdev : Within stageCell m (((m.st mbDev netDeviceid).st mbCmd cmd).st mbNparam nparam) :=
      (((Does.refl _ m).st _ (by decide)).st _ (by decide)).st _ (by decide)
    refine hdev.stList (fun b h1 h2 => Or.inr ⟨h1, ?_⟩)
    omega
  cases c with
  | status =>
    have h := hsizes netcmdStatus 2 [1, 1] (by decide)
    exact (((h.st _ (by decide)).st _ (by decide)).st _ (by decide)).st _ (by decide)
  | read =>
    have h := hsizes netcmdRead 1 [2] (by decide)
    exact (((h.st _ (by decide)).st _ (by decide)).st _ (by decide)).st _ (by decide)
  | write =>
    have h := hsizes netcmdWrite 1 [2] (by decide)
    exact (((h.st _ (by decide)).st _ (by decide)).st _ (by decide)).st _ (by decide)
  | «open» =>
    have h := hsizes netcmdOpen 2 [1, 1] (by decide)
    exact (((h.st _ (by decide)).st _ (by decide)).st _ (by decide)).st _ (by decide)
  | close =>
    have h := hsizes netcmdClose 0 [] (by decide)
    exact (h.st _ (by decide)).st _ (by decide)
  | appkey dev cmd nparam txlenLo txlenHi =>
    exact (Does.refl _ m).stList (fun b h1 h2 => Or.inl ⟨h1, h2⟩)

/-- The poll cells at `@@acked` are the ones the call was entered with. -/
theorem polls_acked (m : Mach) (ws : List (Nat × Nat)) (r2 : Nat) (a : Nat) (ha : a ∈ pollCells) :
    ((periph ((mbIssue m).st fnSeq r2) ws).st fnAckseq r2).rd a = m.rd a := by
  have hissue : ∀ a ∈ pollCells, a ∉ [fnDevice, fnCmd, fnNparam, fnTxlenLo, fnTxlenHi] := by decide
  have hreply : ∀ a ∈ pollCells, ¬ replyReg a := by decide
  have hseq : ∀ a ∈ pollCells, a ≠ fnSeq ∧ a ≠ fnAckseq := by decide
  rw [Mach.rd_st_ne _ _ (hseq a ha).2, polls_frame (within_periph _ ws) hreply a ha,
    Mach.rd_st_ne _ _ (hseq a ha).1, polls_frame (within_mbIssue m) hissue a ha]

theorem polls_mbReply (m : Mach) (a : Nat) (ha : a ∈ pollCells) : (mbReply m).rd a = m.rd a :=
  polls_frame (within_mbReply m) (by decide) a ha

theorem hudDraw_window (m : Mach) : (hudDraw m).rd hudPll = 0 ∧ (hudDraw m).rd hudPlh = 0 := by
  unfold hudDraw
  dsimp only
  constructor
  · rw [Mach.rd_st_ne _ _ (by decide), Mach.rd_st_ne _ _ (by decide), Mach.rd_st_ne _ _ (by decide),
      Mach.rd_st_ne _ _ (by decide), Mach.rd_st_self]
    rfl
  · rw [Mach.rd_st_ne _ _ (by decide), Mach.rd_st_ne _ _ (by decide), Mach.rd_st_ne _ _ (by decide),
      Mach.rd_st_self]
    rfl

/-- The cells HUD_DRAW stores to. -/
theorem within_hudDraw (m : Mach) : Within (fun a => area backtab 240 a ∨
    a ∈ [uiColor, hudPll, hudPlh, hudStl, hudHld, hudLead]) m (hudDraw m) := by
  have hhex : ∀ (m : Mach) (v off : Nat), off + 2 ≤ 240 → Within (fun a => area backtab 240 a ∨
      a ∈ [uiColor, hudPll, hudPlh, hudStl, hudHld, hudLead]) m (uiHex2 m v off) := by
    intro m v off hoff
    refine (within_uiHex2 m v off).mono (fun a ha => Or.inl ?_)
    simp only [area, backtab] at *
    omega
  have hrow : Within (fun a => area backtab 240 a ∨
      a ∈ [uiColor, hudPll, hudPlh, hudStl, hudHld, hudLead]) m
      (uiPrint (m.st uiColor cWhite) 220 strHud) := by
    refine Does.within ((Does.refl _ m).st _ (by decide)) ((within_uiPrint _ 220 strHud).mono ?_)
    intro a ha
    refine Or.inl ?_
    have hlen : strHud.length = 20 := by decide
    simp only [area, backtab, hlen] at *
    omega
  unfold hudDraw
  refine ((((Does.st (Does.within ?_ (hhex _ _ 237 (by decide))) _ (by decide)).st _ (by decide)).st _
    (by decide)).st _ (by decide)).st _ (by decide)
  exact (((hrow.within (hhex _ _ 221 (by decide))).within (hhex _ _ 225 (by decide))).within
    (hhex _ _ 229 (by decide))).within (hhex _ _ 233 (by decide))

theorem pmax_hudDraw (m : Mach) : pmax (hudDraw m) = pmax m := by
  have hkeep : ∀ a ∈ [mbPmaxLo, mbPmaxHi], (hudDraw m).rd a = m.rd a := by
    intro a ha
    have hout : ∀ a ∈ [mbPmaxLo, mbPmaxHi], ¬ (area backtab 240 a ∨
        a ∈ [uiColor, hudPll, hudPlh, hudStl, hudHld, hudLead]) := by decide
    exact (within_hudDraw m).keep a (hout a ha)
  rw [pmax, pmax, hkeep _ (by decide), hkeep _ (by decide)]

/-! ### A run -/

section
variable {m : Mach} {y : Tally}

/-- `@@acked` with a count of `p`. -/
theorem PollSums.acked (h : PollSums m y) (p : UInt16) : PollSums (mbAcked true m p.toNat) (y.count p.toNat) := by
  have hp : p.toNat < 65536 := p.toNat_lt
  generalize p.toNat = n at *
  have hout : ∀ a ∈ [mbPmaxLo, mbPmaxHi], a ∉ [hudPll, hudPlh] := by decide
  have hin : ∀ a ∈ [hudPll, hudPlh], a ∉ [mbPmaxLo, mbPmaxHi] := by decide
  have hmax : ∀ r1, pmax (hudPolls (mbPmax m n) r1) = pmax (mbPmax m n) := by
    intro r1
    rw [pmax, pmax, (within_hudPolls _ r1).keep _ (hout _ (by decide)),
      (within_hudPolls _ r1).keep _ (hout _ (by decide))]
  rw [mbAcked_true]
  refine PollSums.frame ?_ (polls_mbReply _)
  refine ⟨?_, fun hb => ?_, fun hb => ?_⟩
  · rw [hmax, pmax_mbPmax h.small hp]
    split_ifs
    · have := h.small
      omega
    · exact h.small
  · have hb' : max y.best n < 32768 := hb
    rw [hmax, pmax_mbPmax h.small hp, if_pos (by omega), h.best (by omega)]
    rfl
  · have hb' : max y.best n < 32768 := hb
    have hbest := h.best (by omega)
    obtain ⟨e, he, hl, hh⟩ := h.sum (by omega)
    -- the count that is added, whichever way R1 came out
    have hr1 : (pmaxR1 m n : Int) = n + 255 * (if y.best ≤ n then
        ((n % 256 : Nat) - (n / 256 : Nat) : Int) else 0) := by
      rw [pmaxR1_eq h.small (by omega), hbest]
      split_ifs
      · exact swap16_of_lt hp
      · omega
    have hlt : pmaxR1 m n < 65536 := by
      unfold pmaxR1
      split_ifs
      · exact hp
      · exact swap16_lt n
    have hadd := hudPolls_adds (m := mbPmax m n) (e := e) hlt
      (((within_mbPmax m n).keep _ (hin _ (by decide))).trans hl)
      (((within_mbPmax m n).keep _ (hin _ (by decide))).trans hh)
    refine ⟨e + pmaxR1 m n, ?_, hadd.1, hadd.2⟩
    have hsum : ((e + pmaxR1 m n : Nat) : Int) = y.sum + 255 * y.skew +
        (n + 255 * (if y.best ≤ n then ((n % 256 : Nat) - (n / 256 : Nat) : Int) else 0)) := by
      rw [← he, ← hr1]
      rfl
    rw [hsum]
    dsimp only [Tally.count]
    split_ifs <;> omega

theorem PollSums.step (h : PollSums m y) (ev : HudEv) : PollSums (hudStep m ev) (y.step ev) := by
  cases ev with
  | call c ws p =>
    have hstage := polls_frame (within_stage c m) (by decide)
    have hacked := ((h.frame hstage).frame (polls_acked _ ws (nextSeq
      ((mbIssue (c.stage m)).rd fnAckseq)))).acked p
    rw [← mbTransact_some] at hacked
    exact hacked
  | draw =>
    change PollSums (hudDraw m) { y with sum := 0, skew := 0 }
    refine ⟨?_, fun hb => ?_, fun _ => ⟨0, rfl, ?_, ?_⟩⟩
    · exact Nat.lt_of_le_of_lt (Nat.le_of_eq (pmax_hudDraw m)) h.small
    · exact (pmax_hudDraw m).trans (h.best hb)
    · exact (hudDraw_window m).1
    · exact (hudDraw_window m).2
  | store a v =>
    refine h.frame (fun b hb => ?_)
    show (if a ∈ pollCells then m else m.st a v).rd b = m.rd b
    split_ifs with ha
    · rfl
    · exact Mach.rd_st_ne _ _ (fun he => ha (he ▸ hb))

theorem PollSums.run (h : PollSums m y) (evs : List HudEv) :
    PollSums (hudRun m evs) (evs.foldl Tally.step y) := by
  induction evs generalizing m y with
  | nil => exact h
  | cons ev evs ih => exact ih (h.step ev)

end

theorem pollSums_start {m : Mach} (hz : ∀ a ∈ pollCells, m.rd a = 0) : PollSums m Tally.zero := by
  have hp : pmax m = 0 := by
    rw [pmax, hz _ (by decide), hz _ (by decide)]
    rfl
  refine ⟨?_, fun _ => hp, fun _ => ⟨0, rfl, hz _ (by decide), hz _ (by decide)⟩⟩
  rw [hp]
  decide

/-- When the cells show what they are kept for. -/
theorem PollSums.accounted_iff {m : Mach} {y : Tally} (h : PollSums m y) : Accounted m y ↔ y.Shows := by
  unfold Accounted Tally.Shows
  by_cases hb : y.best < 32768
  · obtain ⟨e, he, -, hh⟩ := h.sum hb
    rw [h.best hb, hh]
    constructor
    · intro ⟨_, hsum⟩
      refine ⟨hb, ?_⟩
      omega
    · intro ⟨_, hshow⟩
      refine ⟨rfl, ?_⟩
      omega
  · constructor
    · intro ⟨hbest, _⟩
      exact absurd (hbest ▸ h.small) hb
    · intro ⟨hsmall, _⟩
      exact absurd hsmall hb

/-- Poll accounting, from zeroed counters and over any run: it comes out right exactly when
    the counts satisfy `Shows`. -/
theorem polls_accounted_iff (m : Mach) (hz : ∀ a ∈ pollCells, m.rd a = 0) (evs : List HudEv) :
    Accounted (hudRun m evs) (Tally.ofEvs evs) ↔ (Tally.ofEvs evs).Shows :=
  ((pollSums_start hz).run evs).accounted_iff

/-- Two calls, a new window and a shorter call. -/
def threeCalls : List HudEv := [.call .close [] 514, .call .status [] 300, .draw, .call .read [] 9]

theorem polls_accounted_three :
    Accounted (hudRun Mach.zero threeCalls) (Tally.ofEvs threeCalls) ↔
      (Tally.ofEvs threeCalls).Shows :=
  polls_accounted_iff Mach.zero (fun _ _ => rfl) threeCalls

/-- One call that polls once: HUD_PLH shows 1. -/
theorem one_poll_shows : ¬ ∀ (m : Mach), (∀ a ∈ pollCells, m.rd a = 0) → ∀ evs : List HudEv,
    Accounted (hudRun m evs) (Tally.ofEvs evs) := by
  intro h
  have hshow := (h Mach.zero (fun _ _ => rfl) [.call .close [] 1]).2
  have hplh : (hudRun Mach.zero [.call .close [] 1]).rd hudPlh = 1 := by decide +kernel
  rw [hplh] at hshow
  exact absurd hshow (by decide +kernel)

end IntvBasketball.Console
