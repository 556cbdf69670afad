/-
  src/netcode/mailbox.asm: MB_TRANSACT and its callers, against a peripheral that may
  complete a transaction after the console has stopped waiting for it.

  `Box` is the console between two accesses to the mailbox (`pc`) together with the
  peripheral: `queue` holds the transactions it has taken and not completed, in the order
  FN_SEQ was written. One step is one access of either side. The peripheral answers the
  first transaction of its queue: it writes reply registers, then copies the sequence
  number to FN_ACKSEQ. What it writes is arbitrary.

  `owner` and `reads` are only recorded: the transaction whose reply a register holds,
  and every reply register the console read, with its owner at that moment.
-/
import IntvBasketball.Console.Ram

namespace IntvBasketball.Console

/-! ## Registers -/

def mbDev : Nat := 0x8114
def mbCmd : Nat := 0x8115
def mbNparam : Nat := 0x8116
def mbTxlenLo : Nat := 0x8117
def mbTxlenHi : Nat := 0x8118
def mbOk : Nat := 0x8119
def mbErr : Nat := 0x811A
def mbPmaxLo : Nat := 0x811B
def mbPmaxHi : Nat := 0x811C
def navailLo : Nat := 0x811D
def navailHi : Nat := 0x811E
def nreqLo : Nat := 0x8130
def nreqHi : Nat := 0x8131
def ngotLo : Nat := 0x8132
def ngotHi : Nat := 0x8133

def fnSeq : Nat := 0x9C03
def fnAckseq : Nat := 0x9C04
def fnDevice : Nat := 0x9C05
def fnCmd : Nat := 0x9C06
def fnNparam : Nat := 0x9C07
def fnTxlenLo : Nat := 0x9C08
def fnTxlenHi : Nat := 0x9C09
def fnErr : Nat := 0x9C0B
def fnRxlenLo : Nat := 0x9C0C
def fnRxlenHi : Nat := 0x9C0D
def fnReplyCmd : Nat := 0x9C0E
def fnParamSize : Nat := 0x9C10
def fnParamVal : Nat := 0x9C20
def fnRx : Nat := 0x9D40

def fujicmdAck : Nat := 0x06
def netDeviceid : Nat := 0x71
def netcmdOpen : Nat := 0x4F
def netcmdClose : Nat := 0x43
def netcmdRead : Nat := 0x52
def netcmdWrite : Nat := 0x57
def netcmdStatus : Nat := 0x53
def openModeRw : Nat := 12
def openTransNone : Nat := 0

/-- FN_ERR, FN_RXLEN, FN_REPLY_CMD and the 512 cells of FN_RX. -/
def replyReg (a : Nat) : Prop := area fnErr 4 a ∨ area fnRx 512 a

instance (a : Nat) : Decidable (replyReg a) := by unfold replyReg area; infer_instance

/-! ## The callers -/

/-- The routines that call MB_TRANSACT; `appkey` is a call of SES_GETNAME, given by what
    it has staged in MB_DEV .. MB_TXLEN_HI. -/
inductive Call where
  | status | read | write | open | close
  | appkey (dev cmd nparam txlenLo txlenHi : Nat)
deriving DecidableEq, Repr

/-- Device, command, parameter count and sizes, as every caller stages them. -/
def stage (m : Mach) (cmd nparam : Nat) (sizes : List Nat) : Mach :=
  (((m.st mbDev netDeviceid).st mbCmd cmd).st mbNparam nparam).stList fnParamSize sizes

def stageStatus (m : Mach) : Mach :=
  let m := stage m netcmdStatus 2 [1, 1]
  (((m.st fnParamVal 0).st (fnParamVal + 4) 0).st mbTxlenLo 0).st mbTxlenHi 0

def stageRead (m : Mach) : Mach :=
  let m := stage m netcmdRead 1 [2]
  let m := m.st fnParamVal (m.rd nreqLo)
  let m := m.st (fnParamVal + 1) (m.rd nreqHi)
  (m.st mbTxlenLo 0).st mbTxlenHi 0

def stageWrite (m : Mach) : Mach :=
  let m := stage m netcmdWrite 1 [2]
  let m := (m.st fnParamVal (m.rd nreqLo)).st mbTxlenLo (m.rd nreqLo)
  (m.st (fnParamVal + 1) (m.rd nreqHi)).st mbTxlenHi (m.rd nreqHi)

def stageOpen (m : Mach) : Mach :=
  let m := stage m netcmdOpen 2 [1, 1]
  let m := (m.st fnParamVal openModeRw).st (fnParamVal + 4) openTransNone
  (m.st mbTxlenLo (m.rd nreqLo)).st mbTxlenHi 0

def stageClose (m : Mach) : Mach :=
  ((stage m netcmdClose 0 []).st mbTxlenLo 0).st mbTxlenHi 0

/-- What a caller does before MB_TRANSACT. -/
def Call.stage : Call → Mach → Mach
  | .status => stageStatus
  | .read => stageRead
  | .write => stageWrite
  | .open => stageOpen
  | .close => stageClose
  | .appkey dev cmd nparam txlenLo txlenHi => fun m =>
    m.stList mbDev [dev, cmd, nparam, txlenLo, txlenHi]

/-- The reply registers a transaction of this kind gets written: the header, and for
    STATUS the four status bytes. -/
def Call.replyRegs : Call → List Nat
  | .status => [fnErr, fnRxlenLo, fnRxlenHi, fnReplyCmd, fnRx, fnRx + 1, fnRx + 2, fnRx + 3]
  | _ => [fnErr, fnRxlenLo, fnRxlenHi, fnReplyCmd]

/-! ## MB_TRANSACT -/

/-- BLT after `CMPR b, a`: `a < b` as signed 16-bit words. -/
def slt16 (a b : Nat) : Bool := (a + 32768) % 65536 < (b + 32768) % 65536

/-- The registers copied to the mailbox before the sequence number. -/
def mbIssue (m : Mach) : Mach :=
  let m := m.st fnDevice (m.rd mbDev)
  let m := m.st fnCmd (m.rd mbCmd)
  let m := m.st fnNparam (m.rd mbNparam)
  let m := m.st fnTxlenLo (m.rd mbTxlenLo)
  m.st fnTxlenHi (m.rd mbTxlenHi)

/-- The sequence number after ACKSEQ, 0 skipped. -/
def nextSeq (ack : Nat) : Nat := if (ack + 1) % 256 = 0 then 1 else (ack + 1) % 256

/-- The worst poll count. -/
def mbPmax (m : Mach) (r1 : Nat) : Mach :=
  if slt16 r1 (word (m.rd mbPmaxLo) (m.rd mbPmaxHi)) then m
  else (m.st mbPmaxLo r1).st mbPmaxHi (r1 / 256)

/-- A caller's exit when MB_TRANSACT has failed. -/
def callFail (c : Call) (m : Mach) : Mach :=
  match c with
  | .status => (m.st navailLo 0).st navailHi 0
  | .read => (m.st ngotLo 0).st ngotHi 0
  | _ => m

/-- The timeout exit. -/
def mbTimeout (m : Mach) : Mach := diagBump ((m.st mbOk 0).st mbErr 0) diagTmo

/-! ## Console and peripheral -/

/-- Where the console is; `t` is the number of its transaction. -/
inductive Pc where
  | idle                              -- between two calls
  | issue (c : Call) (r2 : Nat)       -- about to write FN_SEQ
  | poll (c : Call) (t r2 r1 : Nat)   -- about to read FN_ACKSEQ
  | acked (c : Call) (t : Nat)        -- about to read FN_REPLY_CMD
  | nack (c : Call) (t : Nat)         -- about to read FN_ERR
  | avail (t : Nat)                   -- NET_STATUS, about to read FN_RX
  | availHi (t : Nat)                 -- .. FN_RX+1
  | devStatus (t : Nat)               -- .. FN_RX+3
  | got (t : Nat)                     -- NET_READ, about to read FN_RXLEN_LO
  | gotHi (t : Nat)                   -- .. FN_RXLEN_HI
deriving DecidableEq, Repr

/-- A transaction the peripheral has taken. -/
structure Txn where
  id : Nat
  seq : Nat
  call : Call
deriving DecidableEq, Repr

/-- A read of a reply register during transaction `txn`. -/
structure RegRead where
  txn : Nat
  reg : Nat
  owner : Option Nat
deriving DecidableEq, Repr

structure Box where
  m : Mach
  pc : Pc
  issued : Nat
  queue : List Txn
  owner : Nat → Option Nat
  reads : List RegRead

/-- One access to the mailbox, or a caller entering MB_TRANSACT. -/
inductive Act where
  | call (c : Call)       -- up to the read of FN_ACKSEQ
  | cpu                   -- the console's next access
  | reply (a v : Nat)     -- the peripheral writes a reply register
  | ack                   -- the peripheral completes a transaction
deriving DecidableEq, Repr

namespace Box

/-- Read reply register `a`, then go on. -/
def look (b : Box) (t a : Nat) (pc : Pc) (m : Mach) : Box :=
  { b with m, pc, reads := b.reads ++ [⟨t, a, b.owner a⟩] }

/-- `@@acked`, reading FN_REPLY_CMD. -/
def replyCmd (b : Box) (c : Call) (t : Nat) : Box :=
  if b.m.rd fnReplyCmd = fujicmdAck then
    b.look t fnReplyCmd
      (match c with
        | .status => .avail t
        | .read => .got t
        | _ => .idle) (b.m.st mbOk 1)
  else b.look t fnReplyCmd (.nack c t) b.m

/-- The exit with a reply error. -/
def replyErr (b : Box) (c : Call) (t : Nat) : Box :=
  b.look t fnErr .idle
    (callFail c (diagBump ((b.m.st mbErr (b.m.rd fnErr)).st mbOk 0) diagErr))

/-- The device status byte of NET_STATUS. -/
def statusByte (b : Box) (t : Nat) : Box :=
  let r0 := b.m.rd (fnRx + 3)
  b.look t (fnRx + 3) .idle (if r0 = 1 then b.m else (b.m.st mbErr r0).st mbOk 0)

/-- One round of the poll loop; R1 counts to 0 again. -/
def pollRound (b : Box) (c : Call) (t r2 r1 : Nat) : Box :=
  if b.m.rd fnAckseq = r2 then { b with pc := .acked c t, m := mbPmax b.m r1 }
  else if (r1 + 1) % 65536 = 0 then { b with pc := .idle, m := callFail c (mbTimeout b.m) }
  else { b with pc := .poll c t r2 (r1 + 1) }

/-- The console's next access. -/
def cpu (b : Box) : Option Box :=
  match b.pc with
  | .idle => none
  | .issue c r2 => some { b with
      pc := .poll c b.issued r2 0, m := b.m.st fnSeq r2, issued := b.issued + 1,
      queue := b.queue ++ [⟨b.issued, r2, c⟩] }
  | .poll c t r2 r1 => some (b.pollRound c t r2 r1)
  | .acked c t => some (b.replyCmd c t)
  | .nack c t => some (b.replyErr c t)
  | .avail t => some (b.look t fnRx (.availHi t) (b.m.st navailLo (b.m.rd fnRx)))
  | .availHi t => some (b.look t (fnRx + 1) (.devStatus t) (b.m.st navailHi (b.m.rd (fnRx + 1))))
  | .devStatus t => some (b.statusByte t)
  | .got t => some (b.look t fnRxlenLo (.gotHi t) (b.m.st ngotLo (b.m.rd fnRxlenLo)))
  | .gotHi t => some (b.look t fnRxlenHi .idle (b.m.st ngotHi (b.m.rd fnRxlenHi)))

/-- A caller stages its transaction and MB_TRANSACT reads FN_ACKSEQ. -/
def enter (b : Box) (c : Call) : Option Box :=
  if b.pc = .idle then
    let m := mbIssue (c.stage b.m)
    some { b with m, pc := .issue c (nextSeq (m.rd fnAckseq)) }
  else none

/-- The peripheral writes a reply register for the first transaction of its queue. -/
def reply (b : Box) (a v : Nat) : Option Box :=
  match b.queue with
  | [] => none
  | x :: _ =>
    if replyReg a then
      some { b with m := b.m.st a v, owner := fun k => if k = a then some x.id else b.owner k }
    else none

/-- The peripheral completes that transaction, once its reply registers are written. -/
def ack (b : Box) : Option Box :=
  match b.queue with
  | [] => none
  | x :: q =>
    if ∀ a ∈ x.call.replyRegs, b.owner a = some x.id then
      some { b with m := b.m.st fnAckseq x.seq, queue := q }
    else none

def step (b : Box) : Act → Option Box
  | .call c => b.enter c
  | .cpu => b.cpu
  | .reply a v => b.reply a v
  | .ack => b.ack

def run (b : Box) : List Act → Option Box
  | [] => some b
  | a :: as => (b.step a).bind (fun b => b.run as)

/-! ## Whose reply is read -/

/-- Every MB_TRANSACT of the run is entered with no transaction outstanding. -/
def Prompt (b : Box) : List Act → Prop
  | [] => True
  | a :: as =>
    (∀ c, a = .call c → b.queue = []) ∧ ∀ b', b.step a = some b' → b'.Prompt as

/-- The reply registers hold the reply to transaction `t`, which is complete. -/
structure Answered (b : Box) (c : Call) (t : Nat) : Prop where
  done : b.queue = []
  own : ∀ a ∈ c.replyRegs, b.owner a = some t

/-- What holds at each place, for a console that issues one transaction at a time. -/
def At (b : Box) : Pc → Prop
  | .idle => True
  | .issue _ r2 => b.queue = [] ∧ b.m.rd fnAckseq ≠ r2 ∧ r2 < 256
  | .poll c t r2 _ =>
    (b.queue = [⟨t, r2, c⟩] ∧ b.m.rd fnAckseq ≠ r2) ∨ b.Answered c t
  | .acked c t => b.Answered c t
  | .nack c t => b.Answered c t
  | .avail t => b.Answered .status t
  | .availHi t => b.Answered .status t
  | .devStatus t => b.Answered .status t
  | .got t => b.Answered .read t
  | .gotHi t => b.Answered .read t

/-- The invariant: place by place, and every reply read so far was the right one. -/
structure Ok (b : Box) : Prop where
  at_pc : b.At b.pc
  reads : ∀ r ∈ b.reads, r.owner = some r.txn

theorem nextSeq_ne (ack : Nat) (h : ack < 256) : ack ≠ nextSeq ack ∧ nextSeq ack < 256 := by
  unfold nextSeq
  split
  · omega
  · omega

section Step
variable {b b' : Box} {c : Call} {t : Nat}

/-- Reading a register of the reply keeps the invariant, wherever the console goes. -/
theorem Ok.look (h : b.Ok) {a : Nat} (ha : b.owner a = some t) {pc : Pc} {m : Mach}
    (hpc : (b.look t a pc m).At pc) : (b.look t a pc m).Ok where
  at_pc := hpc
  reads r hr := by
    rcases List.mem_append.mp hr with hr | hr
    · exact h.reads r hr
    · rw [List.mem_singleton.mp hr]
      exact ha

theorem Answered.look (h : b.Answered c t) (a : Nat) (pc : Pc) (m : Mach) :
    (b.look t a pc m).Answered c t := ⟨h.done, h.own⟩

theorem header_mem (c : Call) : fnReplyCmd ∈ c.replyRegs ∧ fnErr ∈ c.replyRegs ∧
    fnRxlenLo ∈ c.replyRegs ∧ fnRxlenHi ∈ c.replyRegs := by
  cases c <;> simp [Call.replyRegs]

theorem ok_replyCmd (h : b.Ok) (ha : b.Answered c t) : (b.replyCmd c t).Ok := by
  have hown := ha.own fnReplyCmd (header_mem c).1
  unfold replyCmd
  split
  · apply h.look hown
    cases c
    case status => exact ha.look _ _ _
    case read => exact ha.look _ _ _
    all_goals trivial
  · exact h.look hown (ha.look _ _ _)

theorem ok_pollRound (h : b.Ok) {r2 r1 : Nat}
    (ha : (b.queue = [⟨t, r2, c⟩] ∧ b.m.rd fnAckseq ≠ r2) ∨ b.Answered c t) :
    (b.pollRound c t r2 r1).Ok := by
  unfold pollRound
  split
  · next heq =>
    refine ⟨?_, h.reads⟩
    rcases ha with ⟨-, hne⟩ | ha
    · exact absurd heq hne
    · exact ⟨ha.done, ha.own⟩
  · split
    · exact ⟨trivial, h.reads⟩
    · refine ⟨?_, h.reads⟩
      exact ha.imp id (fun ha => ⟨ha.done, ha.own⟩)

theorem ok_cpu (h : b.Ok) (hs : b.cpu = some b') : b'.Ok := by
  have hat := h.at_pc
  unfold cpu at hs
  split at hs
  · cases hs
  · next c r2 hpc =>
    rw [hpc] at hat
    obtain rfl := Option.some.inj hs
    refine ⟨Or.inl ⟨?_, ?_⟩, h.reads⟩
    · rw [hat.1, List.nil_append]
    · show (b.m.st fnSeq r2).rd fnAckseq ≠ r2
      rw [Mach.rd_st_ne _ _ (by decide)]
      exact hat.2.1
  · next c t r2 r1 hpc =>
    rw [hpc] at hat
    obtain rfl := Option.some.inj hs
    exact ok_pollRound h hat
  · next c t hpc =>
    rw [hpc] at hat
    obtain rfl := Option.some.inj hs
    exact ok_replyCmd h hat
  · next c t hpc =>
    rw [hpc] at hat
    obtain rfl := Option.some.inj hs
    exact h.look (hat.own fnErr (header_mem c).2.1) trivial
  · next t hpc =>
    rw [hpc] at hat
    obtain rfl := Option.some.inj hs
    exact h.look (hat.own fnRx (by decide)) (Answered.look hat _ _ _)
  · next t hpc =>
    rw [hpc] at hat
    obtain rfl := Option.some.inj hs
    exact h.look (hat.own (fnRx + 1) (by decide)) (Answered.look hat _ _ _)
  · next t hpc =>
    rw [hpc] at hat
    obtain rfl := Option.some.inj hs
    exact h.look (hat.own (fnRx + 3) (by decide)) trivial
  · next t hpc =>
    rw [hpc] at hat
    obtain rfl := Option.some.inj hs
    exact h.look (hat.own fnRxlenLo (by decide)) (Answered.look hat _ _ _)
  · next t hpc =>
    rw [hpc] at hat
    obtain rfl := Option.some.inj hs
    exact h.look (hat.own fnRxlenHi (by decide)) trivial

theorem ok_enter (h : b.Ok) (hq : b.queue = []) (hs : b.enter c = some b') : b'.Ok := by
  unfold enter at hs
  split at hs
  · obtain rfl := Option.some.inj hs
    have hack := Mach.rd_lt_cart (mbIssue (c.stage b.m)) (a := fnAckseq) (by decide)
    exact ⟨⟨hq, nextSeq_ne _ hack⟩, h.reads⟩
  · cases hs

/-- While a transaction is outstanding the console is between calls, or polls for that one. -/
theorem Ok.busy (h : b.Ok) (hq : b.queue ≠ []) : b.pc = .idle ∨
    ∃ c t r2 r1, b.pc = .poll c t r2 r1 ∧ b.queue = [⟨t, r2, c⟩] ∧ b.m.rd fnAckseq ≠ r2 := by
  have hat := h.at_pc
  cases hpc : b.pc with
  | idle => exact Or.inl rfl
  | poll c t r2 r1 =>
    rw [hpc] at hat
    rcases hat with hone | hans
    · exact Or.inr ⟨c, t, r2, r1, rfl, hone⟩
    · exact absurd hans.done hq
  | issue c r2 => rw [hpc] at hat; exact absurd hat.1 hq
  | acked c t => rw [hpc] at hat; exact absurd hat.done hq
  | nack c t => rw [hpc] at hat; exact absurd hat.done hq
  | avail t => rw [hpc] at hat; exact absurd hat.done hq
  | availHi t => rw [hpc] at hat; exact absurd hat.done hq
  | devStatus t => rw [hpc] at hat; exact absurd hat.done hq
  | got t => rw [hpc] at hat; exact absurd hat.done hq
  | gotHi t => rw [hpc] at hat; exact absurd hat.done hq

theorem ok_reply (h : b.Ok) {a v : Nat} (hs : b.reply a v = some b') : b'.Ok := by
  unfold reply at hs
  split at hs
  · cases hs
  · next x q hq =>
    split at hs
    · next hreg =>
      obtain rfl := Option.some.inj hs
      refine ⟨?_, h.reads⟩
      show At _ b.pc
      obtain hpc | ⟨c, t, r2, r1, hpc, hone, hne⟩ := h.busy (by rw [hq]; exact List.cons_ne_nil _ _)
      · rw [hpc]
        trivial
      · rw [hpc]
        refine Or.inl ⟨hone, ?_⟩
        show (b.m.st a v).rd fnAckseq ≠ r2
        have hack : fnAckseq ≠ a := by
          intro he
          rw [← he] at hreg
          exact absurd hreg (by decide)
        rwa [Mach.rd_st_ne _ _ hack]
    · cases hs

theorem ok_ack (h : b.Ok) (hs : b.ack = some b') : b'.Ok := by
  unfold ack at hs
  split at hs
  · cases hs
  · next x q hq =>
    split at hs
    · next hown =>
      obtain rfl := Option.some.inj hs
      refine ⟨?_, h.reads⟩
      show At _ b.pc
      obtain hpc | ⟨c, t, r2, r1, hpc, hone, -⟩ := h.busy (by rw [hq]; exact List.cons_ne_nil _ _)
      · rw [hpc]
        trivial
      · -- the only transaction in the queue is the console's own
        rw [hpc]
        rw [hq] at hone
        obtain ⟨rfl, rfl⟩ := List.cons.inj hone
        exact Or.inr ⟨rfl, hown⟩
    · cases hs

theorem ok_step (h : b.Ok) {a : Act} (hq : ∀ c, a = .call c → b.queue = [])
    (hs : b.step a = some b') : b'.Ok := by
  cases a with
  | call c => exact ok_enter h (hq c rfl) hs
  | cpu => exact ok_cpu h hs
  | reply a v => exact ok_reply h hs
  | ack => exact ok_ack h hs

theorem ok_run (h : b.Ok) {as : List Act} (hp : b.Prompt as) (hs : b.run as = some b') :
    b'.Ok := by
  induction as generalizing b with
  | nil =>
    obtain rfl := Option.some.inj hs
    exact h
  | cons a as ih =>
    obtain ⟨b₁, hstep, hrun⟩ := Option.bind_eq_some_iff.mp hs
    exact ih (ok_step h hp.1 hstep) (hp.2 b₁ hstep) hrun

end Step

/-- A console between calls, with nothing outstanding and whatever is in memory. -/
def start (m : Mach) : Box := ⟨m, .idle, 0, [], fun _ => none, []⟩

theorem ok_start (m : Mach) : (start m).Ok := ⟨trivial, fun _ h => absurd h List.not_mem_nil⟩

/-- If no call is made while an earlier transaction is outstanding, every reply register
    read during a transaction holds that transaction's reply. -/
theorem reply_is_own (m : Mach) (as : List Act) (hp : (start m).Prompt as) (b : Box)
    (hs : (start m).run as = some b) : ∀ r ∈ b.reads, r.owner = some r.txn :=
  (ok_run (ok_start m) hp hs).reads

theorem prompt_of_no_call {as : List Act} (h : ∀ a ∈ as, ∀ c, a ≠ .call c) (b : Box) :
    b.Prompt as := by
  induction as generalizing b with
  | nil => trivial
  | cons a as ih =>
    refine ⟨fun c hc => absurd hc (h a List.mem_cons_self c), fun b' _ => ?_⟩
    exact ih (fun a' ha => h a' (List.mem_cons_of_mem _ ha)) b'

/-- The peripheral answers a STATUS. -/
def answerStatus : List Act := Call.status.replyRegs.map (fun a => .reply a fujicmdAck)

/-- One STATUS, answered and completed in time. -/
def promptStatus : List Act :=
  [.call .status, .cpu] ++ answerStatus ++ [.ack, .cpu, .cpu, .cpu, .cpu, .cpu]

theorem reply_is_own_status : ∃ b, (start Mach.zero).run promptStatus = some b ∧
    b.reads.length = 4 ∧ ∀ r ∈ b.reads, r.owner = some r.txn := by
  have hrun : ((start Mach.zero).run promptStatus).map (fun b => b.reads.length) = some 4 := by
    decide +kernel
  obtain ⟨b, hb, hlen⟩ := Option.map_eq_some_iff.mp hrun
  have hp : (start Mach.zero).Prompt promptStatus := by
    refine ⟨fun _ _ => rfl, fun b' _ => prompt_of_no_call ?_ b'⟩
    intro a ha c he
    rw [he] at ha
    exact absurd ha (by simp [answerStatus])
  exact ⟨b, hb, hlen, reply_is_own Mach.zero promptStatus hp b hb⟩

/-! ## A late completion -/

theorem run_append (b : Box) (as as' : List Act) :
    b.run (as ++ as') = (b.run as).bind (fun b => b.run as') := by
  induction as generalizing b with
  | nil => rfl
  | cons a as ih =>
    rw [List.cons_append, run, run, Option.bind_assoc]
    exact congrArg _ (funext ih)

/-- With FN_ACKSEQ unchanged the poll loop runs to its timeout. -/
theorem run_poll {b : Box} {c : Call} {t r2 : Nat} (hack : b.m.rd fnAckseq ≠ r2) (n r1 : Nat)
    (hpc : b.pc = .poll c t r2 r1) (hn : r1 + n = 65535) :
    b.run (List.replicate (n + 1) .cpu) =
      some { b with pc := .idle, m := callFail c (mbTimeout b.m) } := by
  induction n generalizing b r1 with
  | zero =>
    have hstep : b.step .cpu = some { b with pc := .idle, m := callFail c (mbTimeout b.m) } := by
      show b.cpu = _
      rw [cpu, hpc]
      dsimp only
      rw [pollRound, if_neg hack, if_pos (by omega)]
    rw [List.replicate_one, run, hstep]
    rfl
  | succ n ih =>
    have hstep : b.step .cpu = some { b with pc := .poll c t r2 (r1 + 1) } := by
      show b.cpu = _
      rw [cpu, hpc]
      dsimp only
      rw [pollRound, if_neg hack, if_neg (by omega)]
    rw [List.replicate_succ, run, hstep, Option.bind_some]
    exact ih hack (r1 + 1) rfl (by omega)

/-- A STATUS whose FN_SEQ is written. -/
def polling : Box :=
  { start (mbIssue (stageStatus Mach.zero)) with
    pc := .poll .status 0 1 0, m := (mbIssue (stageStatus Mach.zero)).st fnSeq 1, issued := 1,
    queue := [⟨0, 1, .status⟩] }

/-- A NET_READ during which that STATUS is answered and completed. -/
def lateStatus : List Act := [.call .read, .cpu] ++ answerStatus ++ [.ack, .cpu, .cpu]

/-- STATUS times out and NET_READ picks the sequence number that is still outstanding: it
    takes the reply to STATUS for its own. -/
theorem late_status_is_read : ¬ ∀ (m : Mach) (as : List Act) (b : Box),
    (start m).run as = some b → ∀ r ∈ b.reads, r.owner = some r.txn := by
  intro h
  have hstart : (start Mach.zero).run [.call .status, .cpu] = some polling := rfl
  have hpoll := run_poll (b := polling) (c := .status) (t := 0) (by decide) 65535 0 rfl rfl
  have hlate : (({ polling with
      pc := .idle, m := callFail .status (mbTimeout polling.m) } : Box).run lateStatus).map (·.reads) =
      some [⟨1, fnReplyCmd, some 0⟩] := by
    decide +kernel
  obtain ⟨b, hb, hreads⟩ := Option.map_eq_some_iff.mp hlate
  have hrun : (start Mach.zero).run
      ([.call .status, .cpu] ++ (List.replicate (65535 + 1) .cpu ++ lateStatus)) = some b := by
    rw [run_append, hstart, Option.bind_some, run_append, hpoll, Option.bind_some, hb]
  have := h Mach.zero _ b hrun ⟨1, fnReplyCmd, some 0⟩ (by rw [hreads]; exact List.mem_singleton_self _)
  exact absurd this (by decide)

end Box

end IntvBasketball.Console
