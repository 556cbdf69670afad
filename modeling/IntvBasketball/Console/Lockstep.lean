/-
  src/netcode/lockstep.asm: LS_PASS, the body of MASTER_TICK while a match is on.

  A pass pumps the link, captures and sends the local input for tick T + d, waits in
  the gate until every remote watermark has reached T, and runs tick T. With a resync
  hold open it pumps once and returns; once the peer is gone it paints the peer-left
  screen and parks. The list `reads` holds what NET_READ returns, one entry for each
  pump of the pass. The gate is the only loop without a bound of its own: each round
  takes one read.
-/
import IntvBasketball.Console.Pump

namespace IntvBasketball.Console

/-! ## Clocks -/

/-- TICK_HI/TICK_LO. -/
def lsTick (m : Mach) : Nat := word (m.rd tickLo) (m.rd tickHi)

/-- Freeze the ISR phase counter, once. -/
def lsFreeze (m : Mach) : Mach :=
  if m.rd lsFroze ≠ 0 then m
  else
    let m := m.st lsFroze 1
    (m.st lsSave102 (m.rd isrPhase)).st isrPhase 0

/-- `@@ls_run`: unfreeze it. -/
def lsUnfreeze (m : Mach) : Mach :=
  if m.rd lsFroze = 0 then m
  else
    let m := ((m.st lsFroze 0).st lsWaitcLo 0).st lsWaitcHi 0
    m.st isrPhase (m.rd lsSave102)

/-- Count a pump round in the cell pair `lo`, `hi`; at `limit` x 256 rounds, give up. -/
def countRound (lo hi limit : Nat) (giveUp : Mach → Mach) (m : Mach) : Mach :=
  let r0 := m.rd lo + 1
  let m := m.st lo r0
  if r0 ≠ 0x100 then m
  else
    let r0 := m.rd hi + 1
    let m := m.st hi r0
    if r0 < limit then m else giveUp m

/-- RS_HOLD_TMO and LS_TIMEOUT, in steps of 256 rounds. -/
def rsHoldTmo : Nat := 0x0600 / 256
def lsTimeout : Nat := 900 / 256

/-- A round in a hold; the peer vanished if there were too many. -/
def lsHoldRound (m : Mach) : Mach :=
  countRound rsToLo rsToHi rsHoldTmo
    (fun m => lsIdleRmt (((m.st peerWhy 0).st netDropped 1).st resyncHold 0)) m

/-- A round in the gate. -/
def lsWaitRound (m : Mach) : Mach :=
  countRound lsWaitcLo lsWaitcHi lsTimeout
    (fun m => lsIdleRmt ((m.st peerWhy 0).st netDropped 1)) m

/-! ## The gate -/

/-- Capture the local input for tick T + d into our own ring pages and send it. -/
def lsCapture (m : Mach) : Mach :=
  let r2 := lsTick m + m.rd netDelay
  let m := m.st lsTmpb (m.rd execInL)
  let m := m.st lsTmpb2 (m.rd execKpL)
  let r3 := inputAddr (m.rd netSeat) (r2 % 256)
  let m := m.st r3 (m.rd lsTmpb)
  let m := m.st ((r3 + (seatKp - seatRing)) % 65536) (m.rd lsTmpb2)
  m.netWrite [6, ftInput, m.rd netSeat, r2, r2 / 256, m.rd lsTmpb, m.rd lsTmpb2]

/-- WM - T of a seat, as a 16-bit difference. -/
def lsSlack (m : Mach) (r2 : Nat) : Nat :=
  sub16 (word (m.rd (seatWm + 2 * r2)) (m.rd (seatWm + 2 * r2 + 1))) (lsTick m)

/-- `@@ls_gs`: no remote seat's watermark is behind T. Seat 0 is looked at whatever
    NET_COUNT says. -/
def lsOpen (m : Mach) : Bool :=
  (List.range (max (m.rd netCount) 1)).all (fun r2 => r2 = m.rd netSeat || !neg16 (lsSlack m r2))

/-- `@@ls_gate`: the state at `@@ls_run`, if these reads are enough to get there. -/
def lsGate : List (List Byte) → Mach → Option Mach
  | [], m => if m.rd netDropped ≠ 0 ∨ lsOpen m then some m else none
  | got :: reads, m =>
    if m.rd netDropped ≠ 0 ∨ lsOpen m then some m
    else
      match sesPump (lsFreeze m) got with
      | none => none
      | some m => lsGate reads (lsWaitRound m)

/-- From `@@ls_go0` to `@@ls_run`. -/
def lsTurn (reads : List (List Byte)) (m : Mach) : Option Mach :=
  match reads with
  | [] => none
  | got :: reads =>
    match sesPump m got with
    | none => none
    | some m => lsGate reads (lsCapture m)

/-! ## The tick -/

/-- One round of the checksum: rotate left, add. -/
def ckRound (r0 v : Nat) : Nat := (r0 * 2 % 65536 + r0 / 32768 + v) % 65536

/-- LS_CKSUM: $015D-$01EF without $016B, the game RNG, the timer countdowns. -/
def lsCksum (m : Mach) : Nat :=
  ((List.range' 0x15D 14 ++ List.range' 0x16C 132 ++ [rngLo, rngHi, rsSpare0, rsSpare1] ++
    List.range' scCnt2 8).map m.rd).foldl ckRound 0

/-- Install the game's handler table, if it has one. -/
def lsInstall (m : Mach) : Mach :=
  let r1 := word (m.rd gameTblLo) (m.rd gameTblHi)
  if r1 = 0 then m else m.st execHtbl r1

/-- `@@ls_run` up to the replay. -/
def lsRunHead (k : Cart) (m : Mach) : Mach :=
  lsInstall (lsTblAdopt k (shadowFromRings (lsUnfreeze m)))

/-- Replay one seat's events. -/
def lsReplay (k : Cart) (m : Mach) (seat : Nat) : Mach :=
  lsVdispatch k ((m.st vdSide seat).st vdCtrl seat)

/-- The tick about to run, as an event. -/
def lsTickEv (m : Mach) : Ev :=
  .tick (lsTick m) (seatCells m 0 (m.rd tickLo)) (seatCells m 1 (m.rd tickLo))

/-- Both seats' events, then the game's own tick. -/
def lsPlay (k : Cart) (m : Mach) : Mach :=
  nbGameTick k (lsReplay k (lsReplay k (m.log (lsTickEv m)) 0) 1)

/-- Adopt whatever the game installed, and null the live table. -/
def lsNull (k : Cart) (m : Mach) : Mach := (lsTblAdopt k m).st execHtbl (k.nullTbl + 4)

/-- The checksum report, every 64 ticks. -/
def lsCrc (m : Mach) : Mach :=
  if m.rd tickLo % 64 ≠ 0 then m
  else
    let m := rsDisplayReset m
    let r0 := lsCksum m
    let m := rsRecordCrc ((m.st lsTmpb r0).st lsTmpb2 (r0 / 256))
    m.netWrite [6, ftCrc, m.rd netSeat, m.rd tickLo, m.rd tickHi, m.rd lsTmpb, m.rd lsTmpb2]

/-- tick++ -/
def lsTickInc (m : Mach) : Mach :=
  let r0 := m.rd tickLo + 1
  let m := m.st tickLo r0
  if r0 ≠ 0x100 then m else m.st tickHi (m.rd tickHi + 1)

/-- `@@ls_run` to the end of the pass. -/
def lsRun (k : Cart) (m : Mach) : Mach :=
  rsPending (lsTickInc (lsCrc (lsNull k (lsPlay k (lsRunHead k m)))))

/-! ## The pass -/

def strGone : List Nat := chars "PLAYER LEFT"
def strLost : List Nat := chars "CONNECTION LOST"
def strReset : List Nat := chars "PRESS RESET"
def strDiag : List Nat := chars "SLIP REJ TMO ERR"

/-- LS_PEER_LEFT: the terminal screen. LEFT_NAME ends in a NUL behind its 8 cells. -/
def lsPeerLeft (m : Mach) : Mach :=
  let m := uiCls (rsDisplayReset m)
  let m := if m.rd peerWhy = 0 then uiPrint m 82 strLost else uiPrint m 83 strGone
  let m := uiPrint (uiPrint (uiPrintN m 126 leftName 8) 184 strReset) 202 strDiag
  let m := uiHex2 (uiHex2 m (m.rd diagSlip) 222) (m.rd diagRej) 227
  uiHex2 (uiHex2 m (m.rd diagTmo) 231) (m.rd diagErr) 235

/-- How a call of LS_PASS ends. -/
inductive LsEnd where
  | back (m : Mach)     -- it returned to the EXEC
  | parked (m : Mach)   -- `@@pl_park`, for good
  | waiting             -- these reads did not get it that far

/-- A game tick is due: `@@ls_go0` is reached. -/
def lsDue (m : Mach) : Bool :=
  m.rd peerScr = 0 && m.rd netDropped = 0 && m.rd resyncHold = 0

def lsPass (k : Cart) (reads : List (List Byte)) (m : Mach) : LsEnd :=
  if m.rd peerScr ≠ 0 then .back m
  else if m.rd netDropped ≠ 0 then .parked ((lsPeerLeft (lsFreeze m)).st peerScr 1)
  else if m.rd resyncHold ≠ 0 then
    match reads with
    | [] => .waiting
    | got :: _ =>
      match sesPump (lsFreeze m) got with
      | none => .waiting
      | some m => .back (lsHoldRound m)
  else
    match lsTurn reads m with
    | none => .waiting
    | some m => .back (lsRun k m)

/-- UPDATE_SHADOW: local passthrough. -/
def updateShadow (m : Mach) : Mach :=
  let m := m.st shadowCtrl (m.rd execInL)
  m.st shadowCtrlR (m.rd 0x0120)

/-- MASTER_TICK of the netplay build: LS_PASS in a match, else the local body. -/
def masterTick (k : Cart) (reads : List (List Byte)) (m : Mach) : LsEnd :=
  if m.rd netActive ≠ 0 then lsPass k reads m
  else .back (lsTickInc (nbGameTick k (updateShadow m)))

/-! ## The frames of a pass -/

/-- The states in which the gate's pumps enter SES_ONFRAME. -/
def gateEntries : List (List Byte) → Mach → List Mach
  | [], _ => []
  | got :: reads, m =>
    if m.rd netDropped ≠ 0 ∨ lsOpen m then []
    else
      ppEntries ppFuel (ppCp (lsFreeze m) got) ++
        match sesPump (lsFreeze m) got with
        | none => []
        | some m => gateEntries reads (lsWaitRound m)

/-- The states in which a pass enters SES_ONFRAME. -/
def passEntries (reads : List (List Byte)) (m : Mach) : List Mach :=
  match reads with
  | [] => []
  | got :: reads =>
    if lsDue m then
      ppEntries ppFuel (ppCp m got) ++
        match sesPump m got with
        | none => []
        | some m => gateEntries reads (lsCapture m)
    else ppEntries ppFuel (ppCp (lsFreeze m) got)


/-! ## Where it stores -/

open Mach (Within Does Only Mute)

/-- Cells LS_PASS stores to, frame handlers, game code and handler table apart. -/
def lsCell (a : Nat) : Prop :=
  rebaseCell a ∨ pushCell a ∨ area scCnt2 8 a ∨
  a ∈ [lsFroze, lsSave102, isrPhase, peerWhy, netDropped, lsTmpb, lsTmpb2, shadowCtrl, shadowCtrlR,
    vdTmp, vdSide, vdCur, vdPrev, vdKp, vdKppre, vdCtrl, rsGate, rsWaited, rsRLo, rsRHi]

instance (a : Nat) : Decidable (lsCell a) := by unfold lsCell; infer_instance

theorem lsCell_of_ring {a : Nat} (h : area seatRing 2048 a) : lsCell a :=
  Or.inl (Or.inr (Or.inr (Or.inr (Or.inr (Or.inl h)))))

theorem lsCell_of_wm {a : Nat} (h : area seatWm 8 a) : lsCell a :=
  Or.inl (Or.inr (Or.inr (Or.inr (Or.inr (Or.inr h)))))

theorem within_lsIdleRmt_ls (m : Mach) : Within lsCell m (lsIdleRmt m) :=
  (within_lsIdleRmt m).mono (fun _ h => h.elim lsCell_of_ring lsCell_of_wm)

theorem within_lsFreeze (m : Mach) : Within lsCell m (lsFreeze m) := by
  unfold lsFreeze
  split
  · exact Does.refl _ m
  · exact (((Does.refl _ m).st _ (by decide)).st _ (by decide)).st _ (by decide)

theorem within_lsUnfreeze (m : Mach) : Within lsCell m (lsUnfreeze m) := by
  unfold lsUnfreeze
  split
  · exact Does.refl _ m
  · exact ((((Does.refl _ m).st _ (by decide)).st _ (by decide)).st _ (by decide)).st _ (by decide)

theorem within_countRound {lo hi limit : Nat} {giveUp : Mach → Mach} (hlo : lsCell lo)
    (hhi : lsCell hi) (hg : ∀ m, Within lsCell m (giveUp m)) (m : Mach) :
    Within lsCell m (countRound lo hi limit giveUp m) := by
  have h1 : Within lsCell m (m.st lo (m.rd lo + 1)) := (Does.refl _ m).st _ hlo
  unfold countRound
  dsimp only
  split_ifs
  · exact h1
  · exact h1.st _ hhi
  · exact (h1.st _ hhi).within (hg _)

theorem within_lsHoldRound (m : Mach) : Within lsCell m (lsHoldRound m) := by
  refine within_countRound (by decide) (by decide) (fun m => ?_) m
  refine Does.within ?_ (within_lsIdleRmt_ls _)
  exact (((Does.refl _ m).st _ (by decide)).st _ (by decide)).st _ (by decide)

theorem within_lsWaitRound (m : Mach) : Within lsCell m (lsWaitRound m) := by
  refine within_countRound (by decide) (by decide) (fun m => ?_) m
  refine Does.within ?_ (within_lsIdleRmt_ls _)
  exact ((Does.refl _ m).st _ (by decide)).st _ (by decide)

/-- Our own ring pages, as long as we are one of four seats. -/
theorem only_lsCapture {m : Mach} (hs : m.rd netSeat < 4) : Only lsCell m (lsCapture m) := by
  have h0 : Within lsCell m ((m.st lsTmpb (m.rd execInL)).st lsTmpb2
      ((m.st lsTmpb (m.rd execInL)).rd execKpL)) :=
    ((Does.refl _ m).st _ (by decide)).st _ (by decide)
  have hseat := h0.keep netSeat (by decide)
  have hslot : (lsTick m + m.rd netDelay) % 256 < 256 := Nat.mod_lt _ (by decide)
  refine Does.only (Does.netWrite (Does.st (Does.st h0 _ (lsCell_of_ring ?_)) _
    (lsCell_of_ring ?_)) _)
  all_goals
    rw [hseat]
    simp only [inputAddr, area, seatRing, seatKp]
    omega

theorem within_shadowFromRings (m : Mach) : Within lsCell m (shadowFromRings m) :=
  ((Does.refl _ m).st _ (by decide)).st _ (by decide)

theorem within_rsRecordCrc {m : Mach} : Only lsCell m (rsRecordCrc m) := by
  have hslot : ∀ i < 4, lsCell (crcSlot (m.rd tickLo) + i) := by
    intro i hi
    refine Or.inl (Or.inl (Or.inr ?_))
    simp only [area, crcSlot]
    omega
  refine Does.only (Does.log (Does.st (Does.st (Does.st (Does.st (Does.refl _ m) _ ?_) _ ?_) _ ?_) _
    ?_) _)
  · exact hslot 0 (by decide)
  · exact hslot 1 (by decide)
  · exact hslot 2 (by decide)
  · exact hslot 3 (by decide)

theorem only_lsCrc (m : Mach) : Only lsCell m (lsCrc m) := by
  unfold lsCrc
  split
  · exact (Does.refl _ m).only
  · have hd : Within lsCell m (rsDisplayReset m) := by
      refine (within_rsDisplayReset m).mono ?_
      intro b hb
      refine Or.inl (Or.inr ?_)
      rcases hb with rfl | hb
      · exact Or.inl (by decide)
      · exact Or.inr (Or.inl hb)
    obtain ⟨tx, ev, hr⟩ := within_rsRecordCrc (m := ((rsDisplayReset m).st lsTmpb
      (lsCksum (rsDisplayReset m))).st lsTmpb2 (lsCksum (rsDisplayReset m) / 256))
    exact (((hd.st _ (by decide)).st _ (by decide)).trans hr).netWrite _ |>.only

theorem within_lsTickInc (m : Mach) : Within lsCell m (lsTickInc m) := by
  have h1 : Within lsCell m (m.st tickLo (m.rd tickLo + 1)) := (Does.refl _ m).st _ (by decide)
  unfold lsTickInc
  dsimp only
  split
  · exact h1
  · exact h1.st _ (by decide)

/-- Cells of a push. -/
def sentCell (a : Nat) : Prop := rebaseCell a ∨ pushCell a ∨ a = rsRLo ∨ a = rsRHi

instance (a : Nat) : Decidable (sentCell a) := by unfold sentCell; infer_instance

theorem lsCell_of_sent {a : Nat} (h : sentCell a) : lsCell a := by
  rcases h with h | h | rfl | rfl
  · exact Or.inl h
  · exact Or.inr (Or.inl h)
  · decide
  · decide

theorem only_rsPush (m : Mach) : Only sentCell m (rsPush m) := by
  have h1 := (does_rsEnterHold m).only.mono (T := sentCell) (fun _ h => Or.inl (Or.inl h))
  have h2 := (psBegin_spec (rsEnterHold m)).1.only.mono (T := sentCell)
    (fun _ h => Or.inr (Or.inr h))
  have h3 := (does_psImage (psBegin (rsEnterHold m))).only.mono (T := sentCell)
    (fun _ h => Or.inr (Or.inl h))
  have h4 : Only sentCell (psImage (psBegin (rsEnterHold m)))
      ((psImage (psBegin (rsEnterHold m))).netWrite [3, ftState, 1, 0xFF]) :=
    ((Does.refl _ _).netWrite _).only
  have h5 := (does_rsRebase ((psImage (psBegin (rsEnterHold m))).netWrite
    [3, ftState, 1, 0xFF])).only.mono (T := sentCell) (fun _ => Or.inl)
  exact (((h1.trans h2).trans h3).trans h4).trans h5

/-- What a push does: it opens a hold, announces the resume tick and re-baselines. -/
theorem ev_rsPush (m : Mach) : ∃ r r', (rsPush m).ev = m.ev ++ [.hold, .push r, .rebase r'] := by
  have hev := (does_rsRebase ((psImage (psBegin (rsEnterHold m))).netWrite
    [3, ftState, 1, 0xFF])).ev_eq
  rw [Mach.ev_netWrite, (does_psImage _).ev_eq, (psBegin_spec _).1.ev_eq,
    (does_rsEnterHold m).ev_eq, List.append_nil, List.append_assoc, List.append_assoc] at hev
  exact ⟨_, _, hev⟩

theorem only_rsPending (m : Mach) : Only lsCell m (rsPending m) := by
  have hp : Only lsCell m (m.st rsPtmo (m.rd rsPtmo + 1)) := ((Does.refl _ m).st _ (by decide)).only
  have hgo : ∀ (m1 : Mach) (v : Nat),
      Only lsCell m1 (rsPush ((m1.st rsGate v).st rsWaited ((m1.st rsGate v).rd rsPtmo))) := by
    intro m1 v
    exact (((Does.refl _ m1).st _ (by decide)).st _ (by decide)).only.trans
      ((only_rsPush _).mono (fun _ => lsCell_of_sent))
  unfold rsPending
  dsimp only
  split_ifs
  · exact (Does.refl _ m).only
  · exact hp.trans (hgo _ _)
  · exact hp
  · exact hp.trans (hgo _ _)

/-! ## What the game can reach -/

/-- Cells the replay and the game's tick store to, the rest of LS_PASS apart. -/
def actCell (a : Nat) : Prop :=
  gameCell a ∨ area scCnt2 8 a ∨ a ∈ [vdTmp, vdSide, vdCur, vdPrev, vdKp, vdKppre, vdCtrl]

instance (a : Nat) : Decidable (actCell a) := by unfold actCell; infer_instance

/-- Cells the replay and the game's tick store to. -/
def playCell (a : Nat) : Prop := lsCell a ∨ gameCell a

instance (a : Nat) : Decidable (playCell a) := by unfold playCell; infer_instance

theorem playCell_of_act {a : Nat} (h : actCell a) : playCell a := by
  rcases h with h | h | h
  · exact Or.inr h
  · exact Or.inl (Or.inr (Or.inr (Or.inl h)))
  · have hin : ∀ a ∈ [vdTmp, vdSide, vdCur, vdPrev, vdKp, vdKppre, vdCtrl], lsCell a := by decide
    exact Or.inl (hin a h)

theorem mute_lsVcall (k : Cart) (m : Mach) (r0 : Nat) : Mute actCell m (lsVcall k m r0) := by
  have h0 : Mute actCell m (m.log (.vcall (m.rd vdSide) (m.rd vdTmp) r0)) := Mute.log m rfl
  unfold lsVcall
  dsimp only
  split_ifs
  · exact h0
  · exact h0
  · exact h0.trans ((Does.refl actCell _).game _ (fun _ => Or.inl)).mute

theorem mute_vcall_at (k : Cart) (m : Mach) (v r0 : Nat) :
    Mute actCell m (lsVcall k (m.st vdTmp v) r0) :=
  ((Does.refl _ m).st _ (by decide)).mute.trans (mute_lsVcall _ _ _)

theorem mute_lsVdispatch (k : Cart) (m : Mach) : Mute actCell m (lsVdispatch k m) := by
  have hload : Mute actCell m (vdLoad m) :=
    (((((Does.refl _ m).st _ (by decide)).st _ (by decide)).st _ (by decide)).st _ (by decide)).mute
  have hrel : ∀ m1, Mute actCell m1 (vdRelease k m1) := by
    intro m1
    unfold vdRelease
    dsimp only
    split
    · exact Mute.refl _ m1
    · exact mute_vcall_at _ _ _ _
  have hpress : ∀ m1, Mute actCell m1 (vdPress k m1) := by
    intro m1
    unfold vdPress
    dsimp only
    split
    · exact Mute.refl _ m1
    · exact mute_vcall_at _ _ _ _
  have hdisc : ∀ m1, Mute actCell m1 (vdDisc k m1) := by
    intro m1
    unfold vdDisc
    dsimp only
    split_ifs
    · exact Mute.refl _ m1
    · exact mute_vcall_at _ _ _ _
    · exact mute_vcall_at _ _ _ _
    · exact mute_vcall_at _ _ _ _
    · exact Mute.refl _ m1
  exact ((hload.trans (hrel _)).trans (hpress _)).trans (hdisc _)

theorem mute_lsReplay (k : Cart) (m : Mach) (seat : Nat) : Mute actCell m (lsReplay k m seat) :=
  (((Does.refl _ m).st _ (by decide)).st _ (by decide)).mute.trans (mute_lsVdispatch _ _)

theorem mute_nbGameTick (k : Cart) (m : Mach) : Mute actCell m (nbGameTick k m) := by
  refine Does.mute (Does.copy ((Does.refl _ m).game _ (fun _ => Or.inl)) ?_)
  exact fun b h1 h2 => Or.inr (Or.inl ⟨h1, h2⟩)

/-- Behind the tick's own event the replay and the tick are quiet. -/
theorem mute_lsPlay (k : Cart) (m : Mach) : Mute actCell (m.log (lsTickEv m)) (lsPlay k m) :=
  ((mute_lsReplay k _ 0).trans (mute_lsReplay k _ 1)).trans (mute_nbGameTick k _)

theorem only_lsPlay (k : Cart) (m : Mach) : Only playCell m (lsPlay k m) :=
  ((Does.refl playCell m).log (lsTickEv m)).only.trans
    ((mute_lsPlay k m).only.mono (fun _ => playCell_of_act))

/-! ## Invariants of the waiting -/

/-- What LS_PASS's and the pump's own stores and each dispatched frame preserve holds when
    the gate opens. -/
theorem lsGate_ind {P : Mach → Prop} (hcell : ∀ m m', Only pumpCell m m' → P m → P m')
    (hls : ∀ m m', Only lsCell m m' → P m → P m') (reads : List (List Byte)) (m : Mach)
    (hf : ∀ me ∈ gateEntries reads m, P me → P (sesOnframe me)) (h : P m) {m' : Mach}
    (hg : lsGate reads m = some m') : P m' := by
  induction reads generalizing m with
  | nil =>
    simp only [lsGate, Option.ite_none_right_eq_some, Option.some.injEq] at hg
    exact hg.2 ▸ h
  | cons got reads ih =>
    simp only [lsGate, gateEntries] at hg hf
    split_ifs at hg hf with ho
    · cases hg
      exact h
    · have hfr : P (lsFreeze m) := hls _ _ (within_lsFreeze m).only h
      cases hp : sesPump (lsFreeze m) got with
      | none => simp [hp] at hg
      | some m1 =>
        simp only [hp, List.mem_append] at hg hf
        have h1 : P m1 := sesPump_ind hcell (fun me hme => hf me (Or.inl hme)) hfr hp
        exact ih _ (fun me hme => hf me (Or.inr hme)) (hls _ _ (within_lsWaitRound m1).only h1) hg

/-- The same from the start of a pass with a tick due. -/
theorem lsTurn_ind {P : Mach → Prop} (hcell : ∀ m m', Only pumpCell m m' → P m → P m')
    (hls : ∀ m m', Only lsCell m m' → P m → P m') (hseat : ∀ m, P m → m.rd netSeat < 4)
    {reads : List (List Byte)} {m m' : Mach} (hdue : lsDue m = true)
    (hf : ∀ me ∈ passEntries reads m, P me → P (sesOnframe me)) (h : P m)
    (ht : lsTurn reads m = some m') : P m' := by
  cases reads with
  | nil => simp [lsTurn] at ht
  | cons got reads =>
    simp only [lsTurn, passEntries, hdue, if_true] at ht hf
    cases hp : sesPump m got with
    | none => simp [hp] at ht
    | some m1 =>
      simp only [hp, List.mem_append] at ht hf
      have h1 : P m1 := sesPump_ind hcell (fun me hme => hf me (Or.inl hme)) h hp
      exact lsGate_ind hcell hls _ _ (fun me hme => hf me (Or.inr hme))
        (hls _ _ (only_lsCapture (hseat _ h1)) h1) ht

/-- The same over the one pump of a pass in a hold. -/
theorem lsHold_ind {P : Mach → Prop} (hcell : ∀ m m', Only pumpCell m m' → P m → P m')
    (hls : ∀ m m', Only lsCell m m' → P m → P m') {got : List Byte} {reads : List (List Byte)}
    {m m' : Mach} (hdue : lsDue m = false)
    (hf : ∀ me ∈ passEntries (got :: reads) m, P me → P (sesOnframe me)) (h : P m)
    (hp : sesPump (lsFreeze m) got = some m') : P (lsHoldRound m') := by
  simp only [passEntries, hdue, Bool.false_eq_true, if_false] at hf
  exact hls _ _ (within_lsHoldRound m').only
    (sesPump_ind hcell hf (hls _ _ (within_lsFreeze m).only h) hp)

end IntvBasketball.Console
