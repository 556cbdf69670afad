/-
  What holds of the pair in every reachable state, first part: streams and clocks.

  Each direction is a `Link`, with epoch `e` starting at `base e + d`. The guest may be
  epochs behind the host; what it sends from there is refused by the host's watermark,
  because the guest cannot run further than the host's inputs of that epoch reach, and
  the resume tick is 16 past the last of them.
-/
import IntvBasketball.Duel.Protocol

namespace IntvBasketball.Duel

open Lib Console

/-- The first tick an input is captured for in an epoch. -/
def starts (d : Nat) (base : Nat → Nat) (e : Nat) : Nat := base e + d

/-- A console's tick, watermark and rings; `I` are its own inputs, `J` the peer's. -/
structure Clock (d : Nat) (base : Nat → Nat) (I J : Nat → Nat → Option Cell) (p : Party) :
    Prop where
  base_le : base p.ep ≤ p.t
  t_le : p.t ≤ p.wm + 1
  wm_ge : base p.ep + d ≤ p.wm + 1
  own : p.own = ringAt 256 idleCell (I p.ep) (p.nt d)
  rmt : p.rmt = ringAt 256 idleCell (J p.ep) (p.wm + 1)

/-- The flags and the records are no part of it. -/
theorem Clock.flags {d : Nat} {base : Nat → Nat} {I J : Nat → Nat → Option Cell} {p : Party}
    (h : Clock d base I J p) (hold : Bool) (r : Nat) (pend : Bool)
    (recs : Nat → Option (Nat × Nat)) :
    Clock d base I J { p with hold := hold, r := r, pend := pend, recs := recs } :=
  ⟨h.base_le, h.t_le, h.wm_ge, h.own, h.rmt⟩

/-- What is on its way to a guest in epoch `v`, up to the host's epoch `σ`: inputs and
    reports, and whole pushes; a hold is open while the rest of a push is on its way. -/
def Script (base : Nat → Nat) (σ : Nat) : Bool → Nat → List (Nat × Msg) → Prop
  | b, v, [] => b = false ∧ v = σ
  | b, v, (e, m) :: q =>
    e = v ∧
      match m with
      | .input _ _ => b = false ∧ Script base σ false v q
      | .crc _ _ => b = false ∧ Script base σ false v q
      | .hold r => b = false ∧ r = base (v + 1) ∧ Script base σ true v q
      | .chunk _ => b = true ∧ Script base σ true v q
      | .fin => b = true ∧ Script base σ false (v + 1) q
      | .ask _ => False

/-- What a guest sends. -/
def Up : Msg → Prop
  | .input _ _ => True
  | .crc _ _ => True
  | .ask _ => True
  | _ => False

structure Core (d : Nat) (s : Sys) : Prop where
  linkG : Link (coding d) (starts d s.base) s.toG s.inH s.h.ep (s.h.nt d) s.g.ep (s.g.wm + 1)
  linkH : Link (coding d) (starts d s.base) s.toH s.inG s.g.ep (s.g.nt d) s.h.ep (s.h.wm + 1)
  clockH : Clock d s.base s.inH s.inG s.h
  clockG : Clock d s.base s.inG s.inH s.g
  script : Script s.base s.h.ep s.g.hold s.g.ep s.toG
  holdH : s.h.hold = false
  resume : s.g.hold = true → s.g.r = s.base (s.g.ep + 1)
  apart : ∀ e < s.h.ep, s.base e + 16 ≤ s.base (e + 1)
  last : ∀ e t c, e < s.h.ep → s.inH e t = some c → t + 17 ≤ s.base (e + 1) + d
  behind : s.g.ep < s.h.ep → s.g.wm + 17 ≤ s.base (s.g.ep + 1) + d
  up : ∀ x ∈ s.toH, Up x.2
  fresh : s.g.ep < s.h.ep → s.h.wm + 1 = s.base s.h.ep + d
  old : ∀ x ∈ s.toH, x.1 < s.g.ep → ∀ k, (coding d).level x.2 = some k → k < s.base (x.1 + 1) + d

/-! ## Scripts -/

section
variable {base base' : Nat → Nat} {σ σ' : Nat}

theorem Script.le {b : Bool} {v : Nat} {q : List (Nat × Msg)} (h : Script base σ b v q) :
    v ≤ σ ∧ (b = true → v + 1 ≤ σ) := by
  induction q generalizing b v with
  | nil => exact ⟨Nat.le_of_eq h.2, fun hb => by rw [h.1] at hb; cases hb⟩
  | cons x q ih =>
    obtain ⟨e, m⟩ := x
    obtain ⟨-, hm⟩ := h
    cases m with
    | input t c => exact ⟨(ih hm.2).1, fun hb => by rw [hm.1] at hb; cases hb⟩
    | crc t v' => exact ⟨(ih hm.2).1, fun hb => by rw [hm.1] at hb; cases hb⟩
    | hold r => exact ⟨(ih hm.2.2).1, fun _ => (ih hm.2.2).2 rfl⟩
    | chunk f => exact ⟨(ih hm.2).1, fun _ => (ih hm.2).2 rfl⟩
    | fin =>
      have := (ih hm.2).1
      exact ⟨by omega, fun _ => this⟩
    | ask t => exact hm.elim

theorem Script.congr {b : Bool} {v : Nat} {q : List (Nat × Msg)} (h : Script base σ b v q)
    (hb : ∀ e ≤ σ, base' e = base e) : Script base' σ b v q := by
  induction q generalizing b v with
  | nil => exact h
  | cons x q ih =>
    obtain ⟨e, m⟩ := x
    obtain ⟨he, hm⟩ := h
    refine ⟨he, ?_⟩
    cases m with
    | input t c => exact ⟨hm.1, ih hm.2⟩
    | crc t v' => exact ⟨hm.1, ih hm.2⟩
    | hold r => exact ⟨hm.1, hm.2.1.trans (hb _ (hm.2.2.le.2 rfl)).symm, ih hm.2.2⟩
    | chunk f => exact ⟨hm.1, ih hm.2⟩
    | fin => exact ⟨hm.1, ih hm.2⟩
    | ask t => exact hm.elim

theorem Script.append {b : Bool} {v : Nat} {q q' : List (Nat × Msg)} (h : Script base σ b v q)
    (h' : Script base σ' false σ q') : Script base σ' b v (q ++ q') := by
  induction q generalizing b v with
  | nil =>
    obtain ⟨rfl, rfl⟩ := h
    exact h'
  | cons x q ih =>
    obtain ⟨e, m⟩ := x
    obtain ⟨he, hm⟩ := h
    refine ⟨he, ?_⟩
    cases m with
    | input t c => exact ⟨hm.1, ih hm.2⟩
    | crc t v' => exact ⟨hm.1, ih hm.2⟩
    | hold r => exact ⟨hm.1, hm.2.1, ih hm.2.2⟩
    | chunk f => exact ⟨hm.1, ih hm.2⟩
    | fin => exact ⟨hm.1, ih hm.2⟩
    | ask t => exact hm.elim

/-- A whole push. -/
theorem Script.push {t : Nat} (fs : List (List Byte)) (h : base (σ + 1) = t + 16) :
    Script base (σ + 1) false σ (tagged σ (pushMsgs t fs)) := by
  have hrest : ∀ fs : List (List Byte),
      Script base (σ + 1) true σ (tagged σ (fs.map .chunk ++ [.fin])) := by
    intro fs
    induction fs with
    | nil => exact ⟨rfl, rfl, rfl, rfl⟩
    | cons f fs ih => exact ⟨rfl, rfl, ih⟩
  exact ⟨rfl, rfl, h.symm, hrest fs⟩

end

/-! ## Where the two can be -/

section
variable {d : Nat} {s : Sys}

namespace Core

theorem ep_le (h : Core d s) : s.g.ep ≤ s.h.ep := h.script.le.1

theorem base_mono (h : Core d s) {e e' : Nat} (he : e ≤ e') (he' : e' ≤ s.h.ep) :
    s.base e ≤ s.base e' := by
  induction e' with
  | zero => exact Nat.le_of_eq (by rw [Nat.le_zero.mp he])
  | succ k ih =>
    by_cases hk : e = k + 1
    · exact Nat.le_of_eq (by rw [hk])
    · have := ih (by omega) (by omega)
      have := h.apart k (by omega)
      omega

/-- A guest that is behind cannot capture past the start of its next epoch. -/
theorem nt_behind (h : Core d s) (hd : d ≤ 15) (hb : s.g.ep < s.h.ep) :
    s.g.nt d ≤ s.base (s.g.ep + 1) + d := by
  have h1 := h.behind hb
  have h2 := h.clockG.t_le
  unfold Party.nt
  split <;> omega

/-- What the guest sent in an epoch that is over stays below the next epoch's start. -/
theorem stale_lt (h : Core d s) (hd : d ≤ 15) {x : Nat × Msg} (hx : x ∈ s.toH)
    (he : x.1 < s.h.ep) {k : Nat} (hk : (coding d).level x.2 = some k) :
    k < s.base (x.1 + 1) + d := by
  have htag := h.linkH.tag_le x hx
  by_cases hg : x.1 < s.g.ep
  · exact h.old x hx hg k hk
  · have heq : x.1 = s.g.ep := by omega
    have h1 := h.linkH.newest x hx heq k hk
    have h2 := h.nt_behind hd (by omega)
    rw [heq]
    omega

/-- So the host's watermark refuses it. -/
theorem stale_le_wm (h : Core d s) (hd : d ≤ 15) {x : Nat × Msg} (hx : x ∈ s.toH)
    (he : x.1 < s.h.ep) {k : Nat} (hk : (coding d).level x.2 = some k) : k ≤ s.h.wm := by
  have h1 := h.stale_lt hd hx he hk
  have h2 := h.base_mono (e := x.1 + 1) he (Nat.le_refl _)
  have h3 := h.clockH.wm_ge
  omega

theorem tag_toH (h : Core d s) {x : Nat × Msg} (hx : x ∈ s.toH) : x.1 ≤ s.h.ep :=
  Nat.le_trans (h.linkH.tag_le x hx) h.ep_le

end Core

/-! ## One step -/

theorem Core.recvH (h : Core d s) (hd : d ≤ 15) {e : Nat} {m : Msg} {q : List (Nat × Msg)}
    (hq : s.toH = (e, m) :: q) : Core d (s.recvH d m q) := by
  have hmem : (e, m) ∈ s.toH := by rw [hq]; exact List.mem_cons_self
  have hsub : ∀ x ∈ q, x ∈ s.toH := fun x hx => by rw [hq]; exact List.mem_cons_of_mem _ hx
  have htag := h.tag_toH hmem
  have hup := h.up _ hmem
  have hlink := h.linkH
  rw [hq] at hlink
  cases m with
  | input t c =>
    by_cases he : e = s.h.ep
    · subst he
      have hlt : s.h.wm < t := hlink.data_live _ List.mem_cons_self rfl t c rfl
      have hring := hlink.ring_recv 256 idleCell (t := t) (c := c) rfl
      have hrecv : s.h.recv d true (.input t c) =
          { s.h with wm := t, rmt := Function.update s.h.rmt (t % 256) c } := if_pos hlt
      have h1 := h.clockH.t_le
      have h2 := h.clockH.wm_ge
      unfold Sys.recvH
      rw [hrecv]
      exact { h with
        linkH := hlink.recvData rfl
        clockH := ⟨h.clockH.base_le, by dsimp only; omega, by dsimp only; omega, h.clockH.own,
          by rw [hring, ← h.clockH.rmt]⟩
        fresh := fun hb => by
          have := hlink.tag_le _ List.mem_cons_self
          dsimp only at this hb
          omega
        up := fun x hx => h.up x (hsub x hx)
        old := fun x hx => h.old x (hsub x hx) }
    · have hlt : e < s.h.ep := by omega
      have hle : t ≤ s.h.wm := h.stale_le_wm hd hmem hlt rfl
      have hrecv : s.h.recv d true (.input t c) = s.h := if_neg (by omega)
      unfold Sys.recvH
      rw [hrecv]
      exact { h with
        linkH := hlink.recvStale hlt
        up := fun x hx => h.up x (hsub x hx)
        old := fun x hx => h.old x (hsub x hx) }
  | crc t v =>
    have hp : s.h.recv d true (.crc t v) = s.h ∨
        s.h.recv d true (.crc t v) = { s.h with pend := true } := by
      unfold Party.recv
      dsimp only
      split <;> simp
    unfold Sys.recvH
    rcases hp with hp | hp <;> rw [hp]
    all_goals
      exact { h with
        clockH := h.clockH.flags _ _ _ _
        linkH := hlink.recvPlain rfl
        up := fun x hx => h.up x (hsub x hx)
        old := fun x hx => h.old x (hsub x hx) }
  | ask t =>
    have hp : s.h.recv d true (.ask t) = s.h ∨
        s.h.recv d true (.ask t) = { s.h with pend := true } := by
      unfold Party.recv
      dsimp only
      split <;> simp
    unfold Sys.recvH
    rcases hp with hp | hp <;> rw [hp]
    all_goals
      exact { h with
        clockH := h.clockH.flags _ _ _ _
        linkH := hlink.recvPlain rfl
        up := fun x hx => h.up x (hsub x hx)
        old := fun x hx => h.old x (hsub x hx) }
  | hold r => exact hup.elim
  | chunk f => exact hup.elim
  | fin => exact hup.elim

theorem Party.nt_ge (d : Nat) (p : Party) : p.t + d ≤ p.nt d ∧ p.nt d ≤ p.t + d + 1 := by
  unfold Party.nt
  split <;> omega

/-- END: the guest enters its next epoch. -/
theorem Core.recvFin (h : Core d s) (hd : 1 ≤ d) (hd' : d ≤ 15) {q : List (Nat × Msg)}
    (hq : s.toG = (s.g.ep, .fin) :: q) (hhold : s.g.hold = true)
    (hscript : Script s.base s.h.ep false (s.g.ep + 1) q) :
    Core d { s with g := s.g.rebase d s.g.r, toG := q } := by
  have hr := h.resume hhold
  have hle := hscript.le.1
  have hbehind : s.g.ep < s.h.ep := hle
  have hlink := h.linkG
  rw [hq] at hlink
  have hwm : s.g.r + d - 1 + 1 = starts d s.base (s.g.ep + 1) := by
    unfold starts
    omega
  have hnt := Party.nt_ge d (s.g.rebase d s.g.r)
  have hnone : ∀ t, s.inG (s.g.ep + 1) t = none := fun t => h.linkH.later _ t (Nat.lt_succ_self _)
  refine { h with linkG := ?_, linkH := ?_, clockG := ⟨?_, ?_, ?_, ?_, ?_⟩, script := hscript,
                  resume := ?_, behind := ?_, fresh := ?_, old := ?_ }
  · have h1 := (hlink.recvPlain rfl).nextReceiver (fun he => by
      have := h.clockH.base_le
      have := (Party.nt_ge d s.h).1
      unfold starts
      omega)
    change Link _ _ q _ _ _ (s.g.ep + 1) (s.g.r + d - 1 + 1)
    rw [hwm]
    exact h1
  · refine h.linkH.nextSender (fun he => ?_)
    change s.h.wm + 1 ≤ (s.g.rebase d s.g.r).nt d
    have h1 := h.fresh hbehind
    have h2 : (s.g.rebase d s.g.r).t = s.g.r := rfl
    rw [← he] at hr
    omega
  · exact Nat.le_of_eq hr.symm
  · change s.g.r ≤ s.g.r + d - 1 + 1
    omega
  · exact Nat.le_of_eq hwm.symm
  · exact (ringAt_idle (fun u _ => hnone u)).symm
  · change _ = ringAt 256 idleCell (s.inH (s.g.ep + 1)) (s.g.r + d - 1 + 1)
    rw [hwm, hlink.ring_start]
    rfl
  · intro hc
    cases hc
  · intro hb
    have h1 := h.apart _ hb
    change s.g.r + d - 1 + 17 ≤ s.base (s.g.ep + 1 + 1) + d
    change s.base (s.g.ep + 1) + 16 ≤ s.base (s.g.ep + 1 + 1) at h1
    omega
  · intro _
    exact h.fresh hbehind
  · intro x hx he k hk
    change x.1 < s.g.ep + 1 at he
    exact h.stale_lt hd' hx (by omega) hk

theorem Core.recvG (h : Core d s) (hd : 1 ≤ d) (hd' : d ≤ 15) {e : Nat} {m : Msg}
    {q : List (Nat × Msg)} (hq : s.toG = (e, m) :: q) : Core d (s.recvG d m q) := by
  have hlink := h.linkG
  have hscript := h.script
  rw [hq] at hlink hscript
  obtain ⟨rfl, hm⟩ := hscript
  unfold Sys.recvG
  cases m with
  | input t c =>
    obtain ⟨hb, hs⟩ := hm
    have hlt : s.g.wm < t := hlink.data_live _ List.mem_cons_self rfl t c rfl
    have hring := hlink.ring_recv 256 idleCell (t := t) (c := c) rfl
    have hrecv : s.g.recv d false (.input t c) =
        { s.g with wm := t, rmt := Function.update s.g.rmt (t % 256) c } := if_pos hlt
    have h1 := h.clockG.t_le
    have h2 := h.clockG.wm_ge
    rw [hrecv]
    simp only [Party.reply, tagged, List.map_nil, List.append_nil]
    exact { h with
      linkG := hlink.recvData rfl
      clockG := ⟨h.clockG.base_le, by dsimp only; omega, by dsimp only; omega, h.clockG.own,
        by rw [hring, ← h.clockG.rmt]⟩
      script := by rw [← hb] at hs; exact hs
      behind := fun hlt' => h.last _ t c hlt' (hlink.sent _ List.mem_cons_self t c rfl) }
  | crc t v =>
    obtain ⟨hb, hs⟩ := hm
    rw [← hb] at hs
    simp only [Party.recv, Party.reply]
    split
    · have hsend := h.linkH.sendLevel (m := .ask t) rfl (fun k hk => by cases hk)
      refine { h with linkG := hlink.recvPlain rfl, linkH := hsend,
                      clockG := h.clockG.flags _ _ _ _, script := hs, up := ?_, old := ?_ }
      · simp only [tagged, List.map_cons, List.map_nil, List.mem_append, List.mem_singleton]
        rintro x (hx | rfl)
        · exact h.up x hx
        · trivial
      · simp only [tagged, List.map_cons, List.map_nil, List.mem_append, List.mem_singleton]
        rintro x (hx | rfl) he k hk
        · exact h.old x hx he k hk
        · cases hk
    · simp only [tagged, List.map_nil, List.append_nil]
      exact { h with linkG := hlink.recvPlain rfl, script := hs }
  | hold r =>
    obtain ⟨hb, hr, hs⟩ := hm
    simp only [Party.recv, Party.reply, tagged, List.map_nil, List.append_nil]
    exact { h with linkG := hlink.recvPlain rfl, clockG := h.clockG.flags _ _ _ _, script := hs
                   resume := fun _ => hr }
  | chunk f =>
    obtain ⟨hb, hs⟩ := hm
    rw [← hb] at hs
    simp only [Party.recv, Party.reply, tagged, List.map_nil, List.append_nil]
    exact { h with linkG := hlink.recvPlain rfl, script := hs }
  | fin =>
    obtain ⟨hb, hs⟩ := hm
    simp only [Party.recv, hb, if_true, Party.reply, tagged, List.map_nil, List.append_nil]
    exact h.recvFin hd hd' hq hb hs
  | ask t => exact hm.elim

/-- The rings hold what was captured before the item of the next tick, and that item. -/
theorem Clock.capture {base : Nat → Nat} {I J : Nat → Nat → Option Cell} {p : Party}
    (h : Clock d base I J p) (hc : p.cap = false) (c : Cell) :
    Clock d base (putItem I p.ep (p.t + d) c) J (p.capture d c) := by
  have hnt : p.nt d = p.t + d := by rw [Party.nt, hc]; rfl
  refine ⟨h.base_le, h.t_le, h.wm_ge, ?_, h.rmt⟩
  change Function.update p.own ((p.t + d) % 256) c =
    ringAt 256 idleCell (putItem I p.ep (p.t + d) c p.ep) (p.t + d + 1)
  rw [ringAt_put (putItem_self I p.ep (p.t + d) c), h.own, hnt]
  congr 1
  refine ringAt_congr (fun u hu => ?_)
  rw [putItem_ne c (by omega)]

/-- A capture beyond the peer's watermark is not in the peer's ring. -/
theorem Clock.peerCapture {base : Nat → Nat} {I J : Nat → Nat → Option Cell} {p : Party}
    (h : Clock d base J I p) {e t : Nat} (c : Cell) (hle : e = p.ep → p.wm + 1 ≤ t) :
    Clock d base J (putItem I e t c) p := by
  refine ⟨h.base_le, h.t_le, h.wm_ge, h.own, h.rmt.trans ?_⟩
  refine ringAt_congr (fun u hu => ?_)
  rw [putItem_ne c (by rintro ⟨he, ht⟩; have := hle he.symm; omega)]

theorem Clock.run {base : Nat → Nat} {I J : Nat → Nat → Option Cell} {p : Party}
    (h : Clock d base I J p) (hc : p.cap = true) (hw : p.t ≤ p.wm) (v : Nat) :
    Clock d base I J (p.run v) := by
  have hnt : (p.run v).nt d = p.nt d := by
    rw [Party.nt, Party.nt, hc]
    change p.t + 1 + d = p.t + d + 1
    omega
  refine ⟨Nat.le_succ_of_le h.base_le, Nat.succ_le_succ hw, h.wm_ge, ?_, h.rmt⟩
  rw [hnt]
  exact h.own

theorem Core.captureH (h : Core d s) (hc : s.h.cap = false) (c : Cell) :
    Core d (s.captureH d c) := by
  have hnt : s.h.nt d = s.h.t + d := by rw [Party.nt, hc]; rfl
  have hbase := h.clockH.base_le
  have hlink := h.linkG
  rw [hnt] at hlink
  refine { h with linkG := hlink.sendData rfl (Nat.add_le_add_right hbase d),
                  clockH := h.clockH.capture hc c,
                  clockG := h.clockG.peerCapture c (fun he => hlink.sync he.symm),
                  script := h.script.append ⟨rfl, rfl, rfl, rfl⟩, last := ?_ }
  intro e t c' he hI
  have hne : ¬ (e = s.h.ep ∧ t = s.h.t + d) := fun hx => Nat.lt_irrefl _ (hx.1 ▸ he)
  exact h.last e t c' he ((putItem_ne c hne).symm.trans hI)

theorem Core.captureG (h : Core d s) (hc : s.g.cap = false) (c : Cell) :
    Core d (s.captureG d c) := by
  have hnt : s.g.nt d = s.g.t + d := by rw [Party.nt, hc]; rfl
  have hbase := h.clockG.base_le
  have hlink := h.linkH
  rw [hnt] at hlink
  refine { h with linkH := hlink.sendData rfl (Nat.add_le_add_right hbase d),
                  clockG := h.clockG.capture hc c,
                  clockH := h.clockH.peerCapture c (fun he => hlink.sync he.symm),
                  up := ?_, old := ?_ }
  · intro x hx
    rcases List.mem_append.mp hx with hx | hx
    · exact h.up x hx
    · rw [List.mem_singleton.mp hx]
      trivial
  · intro x hx he
    rcases List.mem_append.mp hx with hx | hx
    · exact h.old x hx he
    · rw [List.mem_singleton.mp hx] at he
      exact absurd he (Nat.lt_irrefl _)

/-- The report of a tick belongs to the last input captured. -/
theorem report_level {p : Party} {base : Nat → Nat} (hc : p.cap = true) (hb : base p.ep ≤ p.t)
    (v : Nat) : ∀ k, (coding d).level (.crc p.t v) = some k →
      k + 1 = p.nt d ∧ starts d base p.ep ≤ k := by
  intro k hk
  cases hk
  rw [Party.nt, hc]
  exact ⟨rfl, Nat.add_le_add_right hb d⟩

theorem Core.runH (h : Core d s) (hc : s.h.cap = true) (hw : s.h.t ≤ s.h.wm) (v : Nat) :
    Core d (s.runH v) := by
  have hnt : (s.h.run v).nt d = s.h.nt d := by
    rw [Party.nt, Party.nt, hc]
    change s.h.t + 1 + d = s.h.t + d + 1
    omega
  unfold Sys.runH Party.report
  by_cases hr : s.h.t % 64 = 0
  · rw [if_pos hr]
    refine { h with linkG := ?_, clockH := h.clockH.run hc hw v,
                    script := h.script.append ⟨rfl, rfl, rfl, rfl⟩ }
    change Link _ _ _ _ s.h.ep ((s.h.run v).nt d) _ _
    rw [hnt]
    exact h.linkG.sendLevel rfl (report_level hc h.clockH.base_le v)
  · rw [if_neg hr]
    refine { h with linkG := ?_, clockH := h.clockH.run hc hw v, script := ?_ }
    · change Link _ _ (s.toG ++ []) _ s.h.ep ((s.h.run v).nt d) _ _
      rw [hnt, List.append_nil]
      exact h.linkG
    · change Script _ _ _ _ (s.toG ++ [])
      rw [List.append_nil]
      exact h.script

theorem Core.runG (h : Core d s) (hc : s.g.cap = true) (hw : s.g.t ≤ s.g.wm) (v : Nat) :
    Core d (s.runG v) := by
  have hnt : (s.g.run v).nt d = s.g.nt d := by
    rw [Party.nt, Party.nt, hc]
    change s.g.t + 1 + d = s.g.t + d + 1
    omega
  unfold Sys.runG Party.report
  by_cases hr : s.g.t % 64 = 0
  · rw [if_pos hr]
    refine { h with linkH := ?_, clockG := h.clockG.run hc hw v, up := ?_, old := ?_ }
    · change Link _ _ _ _ s.g.ep ((s.g.run v).nt d) _ _
      rw [hnt]
      exact h.linkH.sendLevel rfl (report_level hc h.clockG.base_le v)
    · intro x hx
      rcases List.mem_append.mp hx with hx | hx
      · exact h.up x hx
      · rw [List.mem_singleton.mp hx]
        trivial
    · intro x hx he
      rcases List.mem_append.mp hx with hx | hx
      · exact h.old x hx he
      · rw [List.mem_singleton.mp hx] at he
        exact absurd he (Nat.lt_irrefl _)
  · rw [if_neg hr]
    have hnil : s.toH ++ tagged s.g.ep [] = s.toH := List.append_nil _
    refine { h with linkH := ?_, clockG := h.clockG.run hc hw v, up := ?_, old := ?_ }
    · change Link _ _ (s.toH ++ tagged s.g.ep []) _ s.g.ep ((s.g.run v).nt d) _ _
      rw [hnt, hnil]
      exact h.linkH
    · change ∀ x ∈ s.toH ++ tagged s.g.ep [], Up x.2
      rw [hnil]
      exact h.up
    · change ∀ x ∈ s.toH ++ tagged s.g.ep [], _
      rw [hnil]
      exact h.old

/-- The messages of a push carry no input and no tick. -/
theorem pushMsgs_plain (t : Nat) (fs : List (List Byte)) :
    ∀ m ∈ pushMsgs t fs, (coding d).data m = none ∧ (coding d).level m = none := by
  intro m hm
  rcases List.mem_cons.mp hm with rfl | hm
  · exact ⟨rfl, rfl⟩
  · rcases List.mem_append.mp hm with hm | hm
    · obtain ⟨f, -, rfl⟩ := List.mem_map.mp hm
      exact ⟨rfl, rfl⟩
    · rw [List.mem_singleton.mp hm]
      exact ⟨rfl, rfl⟩

theorem Core.pushH (h : Core d s) (hc : s.h.cap = false) (fs : List (List Byte)) :
    Core d (s.pushH d fs) := by
  have hnt : s.h.nt d = s.h.t + d := by rw [Party.nt, hc]; rfl
  have hle := h.ep_le
  have hbase := h.clockH.base_le
  have hnew : Function.update s.base (s.h.ep + 1) (s.h.t + 16) (s.h.ep + 1) = s.h.t + 16 :=
    Function.update_self _ _ _
  have hold : ∀ e ≤ s.h.ep, Function.update s.base (s.h.ep + 1) (s.h.t + 16) e = s.base e :=
    fun e he => Function.update_of_ne (by omega) _ _
  have hst : ∀ e ≤ s.h.ep, starts d (Function.update s.base (s.h.ep + 1) (s.h.t + 16)) e =
      starts d s.base e := fun e he => by rw [starts, hold e he, starts]
  have hnt' : (s.h.rebase d (s.h.t + 16)).nt d = s.h.t + 16 + d := by
    rw [Party.nt]
    change (if s.h.cap = true then _ else _) = _
    rw [hc]
    rfl
  have hwm' : (s.h.rebase d (s.h.t + 16)).wm + 1 = s.h.t + 16 + d := by
    change s.h.t + 16 + d - 1 + 1 = _
    omega
  refine { linkG := ?_, linkH := ?_, clockH := ⟨?_, ?_, ?_, ?_, ?_⟩, clockG := ?_, script := ?_,
           holdH := rfl, resume := ?_, apart := ?_, last := ?_, behind := ?_, up := h.up,
           fresh := ?_, old := ?_ }
  · exact ((h.linkG.sendPlain _ (pushMsgs_plain s.h.t fs)).congr_start hst).nextSender
      (fun he => by omega)
  · have h1 := (h.linkH.congr_start (fun e he => hst e (by omega))).nextReceiver
      (fun he => by omega)
    change Link _ _ _ _ _ _ (s.h.ep + 1) ((s.h.rebase d (s.h.t + 16)).wm + 1)
    rw [hwm']
    have hs : starts d (Function.update s.base (s.h.ep + 1) (s.h.t + 16)) (s.h.ep + 1) =
        s.h.t + 16 + d := by rw [starts, hnew]
    rwa [hs] at h1
  · exact Nat.le_of_eq hnew
  · change s.h.t + 16 ≤ s.h.t + 16 + d - 1 + 1
    omega
  · exact Nat.le_of_eq ((congrArg (· + d) hnew).trans hwm'.symm)
  · change _ = ringAt 256 idleCell (s.inH (s.h.ep + 1)) ((s.h.rebase d (s.h.t + 16)).nt d)
    rw [hnt']
    exact (ringAt_idle (fun u _ => h.linkG.later _ u (Nat.lt_succ_self _))).symm
  · exact (ringAt_idle (fun u _ => h.linkH.later _ u (by change s.g.ep < s.h.ep + 1; omega))).symm
  · refine ⟨?_, h.clockG.t_le, ?_, h.clockG.own, h.clockG.rmt⟩
    · change Function.update s.base _ _ s.g.ep ≤ _
      rw [hold _ hle]
      exact h.clockG.base_le
    · change Function.update s.base _ _ s.g.ep + d ≤ _
      rw [hold _ hle]
      exact h.clockG.wm_ge
  · exact (h.script.congr hold).append (Script.push fs hnew)
  · intro hh
    change s.g.r = Function.update s.base _ _ (s.g.ep + 1)
    rw [hold _ (h.script.le.2 hh)]
    exact h.resume hh
  · intro e he
    change e < s.h.ep + 1 at he
    change Function.update s.base _ _ e + 16 ≤ Function.update s.base _ _ (e + 1)
    by_cases hlt : e < s.h.ep
    · rw [hold e (by omega), hold (e + 1) hlt]
      exact h.apart e hlt
    · have heq : e = s.h.ep := by omega
      rw [heq, hnew, hold _ (Nat.le_refl _)]
      omega
  · intro e t c he hI
    change e < s.h.ep + 1 at he
    change t + 17 ≤ Function.update s.base _ _ (e + 1) + d
    by_cases hlt : e < s.h.ep
    · rw [hold (e + 1) hlt]
      exact h.last e t c hlt hI
    · have heq : e = s.h.ep := by omega
      subst heq
      have hlt' : t < s.h.nt d := by
        by_contra hge
        have hnone : s.inH s.h.ep t = none := h.linkG.unsent t (by omega)
        have hsome : s.inH s.h.ep t = some c := hI
        rw [hnone] at hsome
        cases hsome
      rw [hnew]
      omega
  · intro he
    change s.g.ep < s.h.ep + 1 at he
    change s.g.wm + 17 ≤ Function.update s.base _ _ (s.g.ep + 1) + d
    by_cases hlt : s.g.ep < s.h.ep
    · rw [hold _ hlt]
      exact h.behind hlt
    · have heq : s.g.ep = s.h.ep := by omega
      have hsync := h.linkG.sync heq
      rw [heq, hnew]
      omega
  · intro _
    change (s.h.rebase d (s.h.t + 16)).wm + 1 = Function.update s.base _ _ (s.h.ep + 1) + d
    rw [hwm', hnew]
  · intro x hx he k hk
    change k < Function.update s.base _ _ (x.1 + 1) + d
    change x.1 < s.g.ep at he
    rw [hold _ (by omega)]
    exact h.old x hx he k hk

theorem core_start (hd : 1 ≤ d) : Core d (Sys.start d) := by
  have hnt : (Party.start d).nt d = d := Nat.zero_add d
  have hwm : (Party.start d).wm + 1 = d := Nat.sub_add_cancel hd
  have hlink : Link (coding d) (starts d fun _ => 0) [] (fun _ _ => (none : Option Cell)) 0
      ((Party.start d).nt d) 0 ((Party.start d).wm + 1) := by
    rw [hnt, hwm]
    exact Link.init _ d (fun _ _ => rfl)
  have hclock : Clock d (fun _ => 0) (fun _ _ => none) (fun _ _ => none) (Party.start d) :=
    ⟨Nat.le_refl _, Nat.zero_le _, by rw [hwm]; exact Nat.le_of_eq (Nat.zero_add d),
      (ringAt_idle (fun _ _ => rfl)).symm, (ringAt_idle (fun _ _ => rfl)).symm⟩
  exact { linkG := hlink, linkH := hlink, clockH := hclock, clockG := hclock, script := ⟨rfl, rfl⟩,
          holdH := rfl
          resume := fun hh => absurd hh Bool.false_ne_true
          apart := fun e he => absurd he (Nat.not_lt_zero e)
          last := fun e t c he => absurd he (Nat.not_lt_zero e)
          behind := fun he => absurd he (Nat.lt_irrefl _)
          up := fun x hx => absurd hx List.not_mem_nil
          fresh := fun he => absurd he (Nat.lt_irrefl _)
          old := fun x hx => absurd hx List.not_mem_nil }

/-- One step of the pair. -/
theorem Core.step (h : Core d s) (hd : 1 ≤ d) (hd' : d ≤ 15) {s' : Sys} (hs : Step d s s') :
    Core d s' := by
  cases hs with
  | recvH hq => exact h.recvH hd' hq
  | recvG hq => exact h.recvG hd hd' hq
  | captureH c hc => exact h.captureH hc c
  | captureG c hc => exact h.captureG hc c
  | runH v hc hw => exact h.runH hc hw v
  | runG v hc hw => exact h.runG hc hw v
  | pushH fs hc hp => exact h.pushH hc fs

end

end IntvBasketball.Duel
