/-
  What the two consoles ran.

  In every epoch the ticks either console has run are an initial piece of one sequence:
  tick `t` on the inputs both seats captured for `t` and for the tick before it (`Logs`).
  An input is only ever captured for a tick that neither console has run, so nothing of
  that sequence is revised later. As long as checksums of the same tick are equal there
  is no push (`Reach.calm`).
-/
import IntvBasketball.Duel.Checks

namespace IntvBasketball.Duel

open Lib Console

/-! ## One tick -/

/-- The cells of tick `t` in an epoch, from the inputs `I` of the seat. -/
def heardCells (I : Nat → Option Cell) (t : Nat) : SeatCells where
  cur := (ringAt 256 idleCell I (t + 1) (t % 256)).dec
  prev := (ringAt 256 idleCell I t ((t + 255) % 256)).dec
  kp := (ringAt 256 idleCell I (t + 1) (t % 256)).kp
  kppre := (ringAt 256 idleCell I t ((t + 255) % 256)).kp

/-- A ring that has taken at most 254 ticks more still holds them. -/
theorem cellsOf_ringAt (I : Nat → Option Cell) {n t : Nat} (h : t < n) (h' : n ≤ t + 255) :
    cellsOf (ringAt 256 idleCell I n) t = heardCells I t := by
  have hnow : ringAt 256 idleCell I n (t % 256) = ringAt 256 idleCell I (t + 1) (t % 256) :=
    ringAt_window h (by omega)
  have hbefore : ringAt 256 idleCell I n ((t + 255) % 256) =
      ringAt 256 idleCell I t ((t + 255) % 256) := by
    cases t with
    | zero => exact ringAt_keep (Nat.zero_le _) (fun u _ hu hs => by omega)
    | succ t =>
      have hslot : (t + 1 + 255) % 256 = t % 256 := by omega
      rw [hslot]
      exact ringAt_window (by omega) (by omega)
  simp only [cellsOf, heardCells, hnow, hbefore]

theorem heardCells_congr {I J : Nat → Option Cell} {t : Nat} (h : ∀ u ≤ t, I u = J u) :
    heardCells I t = heardCells J t := by
  have hnow : ringAt 256 idleCell I (t + 1) = ringAt 256 idleCell J (t + 1) :=
    ringAt_congr (fun u hu => h u (by omega))
  have hbefore : ringAt 256 idleCell I t = ringAt 256 idleCell J t :=
    ringAt_congr (fun u hu => h u (by omega))
  simp only [heardCells, hnow, hbefore]

/-- A tick without its checksum. -/
def Beat.run (b : Beat) : Nat × SeatCells × SeatCells := (b.t, b.seat0, b.seat1)

/-- The first `n` ticks from `b` on, run on the inputs `I` of seat 0 and `J` of seat 1. -/
def Played (I J : Nat → Option Cell) (b n : Nat) (l : List Beat) : Prop :=
  l.map Beat.run = (List.range' b n).map (fun t => (t, heardCells I t, heardCells J t))

section
variable {I I' J J' : Nat → Option Cell} {b n : Nat} {l : List Beat}

theorem Played.nil (I J : Nat → Option Cell) (b : Nat) : Played I J b 0 [] := rfl

theorem Played.congr (h : Played I J b n l) (hI : ∀ t < b + n, I' t = I t)
    (hJ : ∀ t < b + n, J' t = J t) : Played I' J' b n l := by
  refine h.trans (List.map_congr_left (fun t ht => ?_))
  have hlt : t < b + n := (List.mem_range'_1.mp ht).2
  rw [heardCells_congr (fun u hu => hI u (by omega)),
    heardCells_congr (fun u hu => hJ u (by omega))]

theorem Played.snoc (h : Played I J b n l) {x : Beat}
    (hx : x.run = (b + n, heardCells I (b + n), heardCells J (b + n))) :
    Played I J b (n + 1) (l ++ [x]) := by
  unfold Played at h ⊢
  rw [List.map_append, h, List.range'_concat, List.map_append, Nat.one_mul]
  exact congrArg _ (congrArg (fun y => [y]) hx)

/-- Two initial pieces of one sequence. -/
theorem Played.prefixes (h : Played I J b n l) {n' : Nat} {l' : List Beat}
    (h' : Played I J b n' l') :
    l.map Beat.run <+: l'.map Beat.run ∨ l'.map Beat.run <+: l.map Beat.run := by
  have hpre : ∀ {k k' : Nat}, k ≤ k' → List.range' b k <+: List.range' b k' := by
    intro k k' hk
    obtain ⟨j, rfl⟩ := Nat.exists_eq_add_of_le hk
    rw [← List.range'_append_1]
    exact List.prefix_append _ _
  rw [h, h']
  rcases Nat.le_total n n' with hle | hle
  · exact Or.inl ((hpre hle).map _)
  · exact Or.inr ((hpre hle).map _)

end

/-! ## The logs -/

/-- Nobody runs more of an epoch than the guest has sent inputs for: `n` ticks of epoch
    `e` at the host. -/
def Reached (d : Nat) (s : Sys) (e n : Nat) : Prop :=
  (e = s.h.ep → s.base e + n = s.h.t) ∧
    (e < s.h.ep → (e = s.g.ep → s.base e + n ≤ s.g.nt d) ∧ (s.g.ep < e → n ≤ d))

structure Logs (d : Nat) (s : Sys) : Prop where
  host : ∀ e ≤ s.h.ep, ∃ n, Played (s.inH e) (s.inG e) (s.base e) n (s.logH e) ∧ Reached d s e n
  guest : ∀ e ≤ s.g.ep, ∃ n, Played (s.inH e) (s.inG e) (s.base e) n (s.logG e) ∧
    (e = s.g.ep → s.base e + n = s.g.t)
  hostNext : ∀ e, s.h.ep < e → s.logH e = []
  guestNext : ∀ e, s.g.ep < e → s.logG e = []
  sumH : ∀ e t v, s.ckH e t = some v → ∃ b ∈ s.logH e, b.t = t ∧ b.sum = v
  sumG : ∀ e t v, s.ckG e t = some v → ∃ b ∈ s.logG e, b.t = t ∧ b.sum = v
  sentH : s.h.cap = true → s.h.t ≤ s.h.wm ∨ s.inH s.h.ep (s.h.t + d) ≠ none
  sentG : s.g.cap = true → s.g.t ≤ s.g.wm ∨ s.inG s.g.ep (s.g.t + d) ≠ none

section
variable {d : Nat} {s s' : Sys}

/-- What the host has run of an epoch lies below the guest's next input for it. -/
theorem Reached.below {e n : Nat} (h : Reached d s e n) (hc : Core d s) (he : e ≤ s.h.ep)
    (hg : s.g.ep = e) : s.base e + n ≤ s.g.nt d := by
  by_cases heq : e = s.h.ep
  · have h1 := h.1 heq
    have h2 := hc.linkH.sync (heq.symm.trans hg.symm)
    have h3 := hc.clockH.t_le
    omega
  · exact (h.2 (by omega)).1 hg.symm

theorem putBeat_self (log : Nat → List Beat) (e : Nat) (b : Beat) :
    putBeat log e b e = log e ++ [b] := Function.update_self _ _ _

theorem putBeat_ne (log : Nat → List Beat) {e e' : Nat} (b : Beat) (h : e' ≠ e) :
    putBeat log e b e' = log e' := Function.update_of_ne h _ _

/-- Only the end of a push moves a console to another tick. -/
theorem recv_clock (host : Bool) (p : Party) {m : Msg} (hf : m ≠ .fin) :
    (p.recv d host m).ep = p.ep ∧ (p.recv d host m).t = p.t ∧ (p.recv d host m).cap = p.cap ∧
      p.wm ≤ (p.recv d host m).wm := by
  cases m with
  | input t c =>
    rw [Party.recv]
    split
    · next hlt => exact ⟨rfl, rfl, rfl, Nat.le_of_lt hlt⟩
    · exact ⟨rfl, rfl, rfl, Nat.le_refl _⟩
  | crc t v =>
    rw [Party.recv]
    split <;> exact ⟨rfl, rfl, rfl, Nat.le_refl _⟩
  | hold r => exact ⟨rfl, rfl, rfl, Nat.le_refl _⟩
  | chunk f => exact ⟨rfl, rfl, rfl, Nat.le_refl _⟩
  | fin => exact absurd rfl hf
  | ask t =>
    rw [Party.recv]
    split <;> exact ⟨rfl, rfl, rfl, Nat.le_refl _⟩

/-- A report goes with the tick. -/
theorem sums_run {ck : Nat → Nat → Option Nat} {log : Nat → List Beat} {e t v : Nat} {b : Beat}
    (h : ∀ e t v, ck e t = some v → ∃ b ∈ log e, b.t = t ∧ b.sum = v) (ht : b.t = t)
    (hv : b.sum = v) : ∀ e' t' v', putCheck ck e t v e' t' = some v' →
      ∃ b' ∈ putBeat log e b e', b'.t = t' ∧ b'.sum = v' := by
  have hold : ∀ e' t' v', ck e' t' = some v' →
      ∃ b' ∈ putBeat log e b e', b'.t = t' ∧ b'.sum = v' := by
    intro e' t' v' hck
    obtain ⟨b', hb', hbt⟩ := h e' t' v' hck
    refine ⟨b', ?_, hbt⟩
    by_cases he : e' = e
    · rw [he, putBeat_self]
      exact List.mem_append_left _ (he ▸ hb')
    · rwa [putBeat_ne _ _ he]
  intro e' t' v' hck
  unfold putCheck at hck
  split at hck
  · by_cases het : e' = e ∧ t' = t
    · obtain ⟨rfl, rfl⟩ := het
      rw [putItem_self, Option.some.injEq] at hck
      refine ⟨b, ?_, ht, hv.trans hck⟩
      rw [putBeat_self]
      exact List.mem_append_right _ (List.mem_singleton_self b)
    · rw [putItem_ne _ het] at hck
      exact hold e' t' v' hck
  · exact hold e' t' v' hck

namespace Logs

/-- Reading a message: the same tick, or a re-base. -/
theorem recvH (h : Logs d s) (hc : Core d s) {e : Nat} {m : Msg} {q : List (Nat × Msg)}
    (hq : s.toH = (e, m) :: q) : Logs d (s.recvH d m q) := by
  have hf : m ≠ .fin := by
    rintro rfl
    exact hc.up (e, .fin) (by rw [hq]; exact List.mem_cons_self)
  obtain ⟨hep, ht, hcap, hwm⟩ := recv_clock (d := d) true s.h hf
  refine ⟨fun e' he' => ?_, h.guest, fun e' he' => h.hostNext e' ?_, h.guestNext, h.sumH, h.sumG,
    fun hcap' => ?_, h.sentG⟩
  · change e' ≤ (s.h.recv d true m).ep at he'
    rw [hep] at he'
    obtain ⟨n, hn, hr⟩ := h.host e' he'
    refine ⟨n, hn, ?_⟩
    change (e' = (s.h.recv d true m).ep → s.base e' + n = (s.h.recv d true m).t) ∧
      (e' < (s.h.recv d true m).ep → _)
    rw [hep, ht]
    exact hr
  · change (s.h.recv d true m).ep < e' at he'
    rwa [hep] at he'
  · change (s.h.recv d true m).t ≤ (s.h.recv d true m).wm ∨
      s.inH (s.h.recv d true m).ep ((s.h.recv d true m).t + d) ≠ none
    rw [hep, ht]
    exact (h.sentH (hcap.symm.trans hcap')).imp_left (fun h1 => Nat.le_trans h1 hwm)

/-- The end of a push: the guest enters its next epoch. -/
theorem recvFin (h : Logs d s) (hc : Core d s) (hd : 1 ≤ d) {q : List (Nat × Msg)}
    (hq : s.toG = (s.g.ep, .fin) :: q) (hhold : s.g.hold = true) :
    Logs d { s with g := s.g.rebase d s.g.r, toG := q } := by
  have hscript := hc.script
  rw [hq] at hscript
  have hlt : s.g.ep < s.h.ep := hscript.2.2.le.1
  have hr : s.g.r = s.base (s.g.ep + 1) := hc.resume hhold
  refine ⟨fun e he => ?_, fun e he => ?_, h.hostNext, fun e he => h.guestNext e ?_, h.sumH, h.sumG,
    h.sentH, fun _ => Or.inl ?_⟩
  · obtain ⟨n, hn, h1, h2⟩ := h.host e he
    refine ⟨n, hn, h1, fun hlt' => ⟨fun heq => ?_, fun hlt'' => (h2 hlt').2 ?_⟩⟩
    · change e = s.g.ep + 1 at heq
      have := (h2 hlt').2 (by omega)
      have := Party.nt_ge d (s.g.rebase d s.g.r)
      change s.base e + n ≤ (s.g.rebase d s.g.r).nt d
      have ht : (s.g.rebase d s.g.r).t = s.base e := by rw [heq]; exact hr
      omega
    · change s.g.ep + 1 < e at hlt''
      omega
  · change e ≤ s.g.ep + 1 at he
    change ∃ n, Played (s.inH e) (s.inG e) (s.base e) n (s.logG e) ∧
      (e = s.g.ep + 1 → s.base e + n = s.g.r)
    by_cases heq : e = s.g.ep + 1
    · refine ⟨0, ?_, fun _ => ?_⟩
      · rw [h.guestNext e (by omega)]
        exact Played.nil _ _ _
      · rw [hr, heq, Nat.add_zero]
    · obtain ⟨n, hn, -⟩ := h.guest e (by omega)
      exact ⟨n, hn, fun heq' => absurd heq' heq⟩
  · change s.g.ep + 1 < e at he
    omega
  · change s.g.r ≤ s.g.r + d - 1
    omega

theorem recvG (h : Logs d s) (hc : Core d s) (hd : 1 ≤ d) {e : Nat} {m : Msg}
    {q : List (Nat × Msg)} (hq : s.toG = (e, m) :: q) : Logs d (s.recvG d m q) := by
  have hscript := hc.script
  rw [hq] at hscript
  obtain ⟨rfl, hm⟩ := hscript
  by_cases hf : m = .fin
  · subst hf
    have hg : s.g.recv d false .fin = s.g.rebase d s.g.r := if_pos hm.1
    unfold Sys.recvG
    rw [hg]
    simp only [Party.reply, tagged, List.map_nil, List.append_nil]
    exact h.recvFin hc hd hq hm.1
  · obtain ⟨hep, ht, hcap, hwm⟩ := recv_clock (d := d) false s.g hf
    have hnt : (s.g.recv d false m).nt d = s.g.nt d := by
      unfold Party.nt
      rw [ht, hcap]
    refine ⟨fun e he => ?_, fun e he => ?_, h.hostNext, fun e he => h.guestNext e ?_, h.sumH,
      h.sumG, h.sentH, fun hcap' => ?_⟩
    · obtain ⟨n, hn, hr⟩ := h.host e he
      refine ⟨n, hn, hr.1, ?_⟩
      change e < s.h.ep → (e = (s.g.recv d false m).ep → s.base e + n ≤
        (s.g.recv d false m).nt d) ∧ ((s.g.recv d false m).ep < e → n ≤ d)
      rw [hep, hnt]
      exact hr.2
    · change e ≤ (s.g.recv d false m).ep at he
      rw [hep] at he
      obtain ⟨n, hn, hr⟩ := h.guest e he
      refine ⟨n, hn, ?_⟩
      change e = (s.g.recv d false m).ep → s.base e + n = (s.g.recv d false m).t
      rw [hep, ht]
      exact hr
    · change (s.g.recv d false m).ep < e at he
      rwa [hep] at he
    · change (s.g.recv d false m).t ≤ (s.g.recv d false m).wm ∨
        s.inG (s.g.recv d false m).ep ((s.g.recv d false m).t + d) ≠ none
      rw [hep, ht]
      exact (h.sentG (hcap.symm.trans hcap')).imp_left (fun h1 => Nat.le_trans h1 hwm)

/-- The host captures: for a tick past all that anybody ran of its epoch. -/
theorem captureH (h : Logs d s) (hc : Core d s) (hcap : s.h.cap = false) (c : Cell) :
    Logs d (s.captureH d c) := by
  have hnt : s.h.nt d = s.h.t + d := by
    rw [Party.nt, hcap]
    rfl
  have hold : ∀ e b, (e = s.h.ep → b ≤ s.h.t + d) → ∀ t < b,
      putItem s.inH s.h.ep (s.h.t + d) c e t = s.inH e t := by
    intro e b hb t ht
    apply putItem_ne
    rintro ⟨he, rfl⟩
    have := hb he
    omega
  refine ⟨fun e he => ?_, fun e he => ?_, h.hostNext, h.guestNext, h.sumH, h.sumG,
    fun _ => Or.inr ?_, h.sentG⟩
  · obtain ⟨n, hn, hr⟩ := h.host e he
    refine ⟨n, hn.congr (hold e _ (fun heq => ?_)) (fun _ _ => rfl), hr⟩
    have := hr.1 heq
    omega
  · obtain ⟨n, hn, ht⟩ := h.guest e he
    refine ⟨n, hn.congr (hold e _ (fun heq => ?_)) (fun _ _ => rfl), ht⟩
    change e ≤ s.g.ep at he
    have hle := hc.ep_le
    have hsame : s.g.ep = s.h.ep := by omega
    have h1 := ht (by omega)
    have h2 := hc.linkG.sync hsame
    have h3 := hc.clockG.t_le
    omega
  · change putItem s.inH s.h.ep (s.h.t + d) c s.h.ep (s.h.t + d) ≠ none
    rw [putItem_self]
    exact Option.some_ne_none c

theorem captureG (h : Logs d s) (hc : Core d s) (hcap : s.g.cap = false) (c : Cell) :
    Logs d (s.captureG d c) := by
  have hnt : s.g.nt d = s.g.t + d := by
    rw [Party.nt, hcap]
    rfl
  have hold : ∀ e b, (e = s.g.ep → b ≤ s.g.t + d) → ∀ t < b,
      putItem s.inG s.g.ep (s.g.t + d) c e t = s.inG e t := by
    intro e b hb t ht
    apply putItem_ne
    rintro ⟨he, rfl⟩
    have := hb he
    omega
  refine ⟨fun e he => ?_, fun e he => ?_, h.hostNext, h.guestNext, h.sumH, h.sumG, h.sentH,
    fun _ => Or.inr ?_⟩
  · obtain ⟨n, hn, hr⟩ := h.host e he
    refine ⟨n, hn.congr (fun _ _ => rfl) (hold e _ (fun heq => ?_)), hr.1,
      fun hlt => ⟨fun heq => ?_, (hr.2 hlt).2⟩⟩
    · have := hr.below hc he heq.symm
      omega
    · have := (hr.2 hlt).1 heq
      change s.base e + n ≤ (s.g.capture d c).nt d
      change s.base e + n ≤ s.g.t + d + 1
      omega
  · obtain ⟨n, hn, ht⟩ := h.guest e he
    refine ⟨n, hn.congr (fun _ _ => rfl) (hold e _ (fun heq => ?_)), ht⟩
    have := ht heq
    omega
  · change putItem s.inG s.g.ep (s.g.t + d) c s.g.ep (s.g.t + d) ≠ none
    rw [putItem_self]
    exact Option.some_ne_none c

/-- The host runs a tick: both rings hold what the seats captured for it. -/
theorem runH (h : Logs d s) (hi : Inv d s) (hd : d ≤ 15) (hcap : s.h.cap = true)
    (hw : s.h.t ≤ s.h.wm) (v : Nat) : Logs d (s.runH v) := by
  have hslack := hi.slack hd
  have hnt := Party.nt_ge d s.h
  have hown : cellsOf s.h.own s.h.t = heardCells (s.inH s.h.ep) s.h.t := by
    rw [hi.core.clockH.own, Party.nt, if_pos hcap]
    exact cellsOf_ringAt _ (by omega) (by omega)
  have hrmt : cellsOf s.h.rmt s.h.t = heardCells (s.inG s.h.ep) s.h.t := by
    rw [hi.core.clockH.rmt]
    exact cellsOf_ringAt _ (by omega) (by omega)
  refine ⟨fun e he => ?_, h.guest, fun e he => ?_, h.guestNext, sums_run h.sumH rfl rfl, h.sumG,
    fun hcap' => absurd hcap' Bool.false_ne_true, h.sentG⟩
  · obtain ⟨n, hn, hr⟩ := h.host e he
    by_cases heq : e = s.h.ep
    · subst heq
      have ht := hr.1 rfl
      refine ⟨n + 1, ?_, fun _ => ?_, fun hlt => absurd hlt (Nat.lt_irrefl _)⟩
      · change Played _ _ _ _ (putBeat s.logH s.h.ep _ s.h.ep)
        rw [putBeat_self]
        refine hn.snoc ?_
        rw [Beat.run, ht, hown, hrmt]
      · change s.base s.h.ep + (n + 1) = s.h.t + 1
        omega
    · refine ⟨n, ?_, fun heq' => absurd heq' heq, hr.2⟩
      change Played _ _ _ _ (putBeat s.logH s.h.ep _ e)
      rw [putBeat_ne _ _ heq]
      exact hn
  · change s.h.ep < e at he
    change putBeat s.logH s.h.ep _ e = []
    rw [putBeat_ne _ _ (by omega)]
    exact h.hostNext e he

theorem runG (h : Logs d s) (hi : Inv d s) (hd : d ≤ 15) (hcap : s.g.cap = true)
    (hw : s.g.t ≤ s.g.wm) (v : Nat) : Logs d (s.runG v) := by
  have hslack := hi.slack hd
  have hnt := Party.nt_ge d s.g
  have hown : cellsOf s.g.own s.g.t = heardCells (s.inG s.g.ep) s.g.t := by
    rw [hi.core.clockG.own, Party.nt, if_pos hcap]
    exact cellsOf_ringAt _ (by omega) (by omega)
  have hrmt : cellsOf s.g.rmt s.g.t = heardCells (s.inH s.g.ep) s.g.t := by
    rw [hi.core.clockG.rmt]
    exact cellsOf_ringAt _ (by omega) (by omega)
  have hnt' : (s.g.run v).nt d = s.g.nt d := by
    rw [Party.nt, Party.nt, if_pos hcap]
    change s.g.t + 1 + d = s.g.t + d + 1
    omega
  refine ⟨fun e he => ?_, fun e he => ?_, h.hostNext, fun e he => ?_, h.sumH,
    sums_run h.sumG rfl rfl, h.sentH, fun hcap' => absurd hcap' Bool.false_ne_true⟩
  · obtain ⟨n, hn, hr⟩ := h.host e he
    refine ⟨n, hn, hr.1, fun hlt => ⟨fun heq => ?_, (hr.2 hlt).2⟩⟩
    change s.base e + n ≤ (s.g.run v).nt d
    rw [hnt']
    exact (hr.2 hlt).1 heq
  · obtain ⟨n, hn, ht⟩ := h.guest e he
    by_cases heq : e = s.g.ep
    · subst heq
      have htt := ht rfl
      refine ⟨n + 1, ?_, fun _ => ?_⟩
      · change Played _ _ _ _ (putBeat s.logG s.g.ep _ s.g.ep)
        rw [putBeat_self]
        refine hn.snoc ?_
        rw [Beat.run, htt, hown, hrmt]
      · change s.base s.g.ep + (n + 1) = s.g.t + 1
        omega
    · refine ⟨n, ?_, fun heq' => absurd heq' heq⟩
      change Played _ _ _ _ (putBeat s.logG s.g.ep _ e)
      rw [putBeat_ne _ _ heq]
      exact hn
  · change s.g.ep < e at he
    change putBeat s.logG s.g.ep _ e = []
    rw [putBeat_ne _ _ (by omega)]
    exact h.guestNext e he

/-- A push ends the host's epoch; the next one starts empty. -/
theorem pushH (h : Logs d s) (hc : Core d s) (hcap : s.h.cap = false) (fs : List (List Byte)) :
    Logs d (s.pushH d fs) := by
  have hold : ∀ e ≤ s.h.ep, Function.update s.base (s.h.ep + 1) (s.h.t + 16) e = s.base e :=
    fun e he => Function.update_of_ne (by omega) _ _
  refine ⟨fun e he => ?_, fun e he => ?_, fun e he => h.hostNext e ?_, h.guestNext, h.sumH, h.sumG,
    fun hcap' => ?_, h.sentG⟩
  · change e ≤ s.h.ep + 1 at he
    change ∃ n, Played (s.inH e) (s.inG e) (Function.update s.base (s.h.ep + 1) (s.h.t + 16) e) n
      (s.logH e) ∧ Reached d (s.pushH d fs) e n
    by_cases heq : e = s.h.ep + 1
    · subst heq
      refine ⟨0, ?_, fun _ => ?_, fun hlt => absurd hlt (Nat.lt_irrefl _)⟩
      · rw [h.hostNext _ (Nat.lt_succ_self _)]
        exact Played.nil _ _ _
      · exact Function.update_self _ _ _
    · have hle : e ≤ s.h.ep := by omega
      obtain ⟨n, hn, hr⟩ := h.host e hle
      refine ⟨n, ?_, fun heq' => absurd heq' heq, fun _ => ⟨fun hg => ?_, fun hg => ?_⟩⟩
      · rw [hold e hle]
        exact hn
      · change Function.update s.base (s.h.ep + 1) (s.h.t + 16) e + n ≤ s.g.nt d
        rw [hold e hle]
        exact hr.below hc hle hg.symm
      · change s.g.ep < e at hg
        by_cases hcur : e = s.h.ep
        · have h1 := hr.1 hcur
          have h2 := hc.fresh (by omega)
          have h3 := hc.clockH.t_le
          rw [hcur] at h1
          omega
        · exact (hr.2 (by omega)).2 hg
  · obtain ⟨n, hn, ht⟩ := h.guest e he
    have hle := hc.ep_le
    change e ≤ s.g.ep at he
    refine ⟨n, ?_, fun heq => ?_⟩
    · change Played _ _ (Function.update s.base (s.h.ep + 1) (s.h.t + 16) e) _ _
      rw [hold e (by omega)]
      exact hn
    · change Function.update s.base (s.h.ep + 1) (s.h.t + 16) e + n = s.g.t
      rw [hold e (by omega)]
      exact ht heq
  · change s.h.ep + 1 < e at he
    omega
  · change s.h.cap = true at hcap'
    rw [hcap] at hcap'
    cases hcap'

theorem step (h : Logs d s) (hi : Inv d s) (hd : 1 ≤ d) (hd' : d ≤ 15) (hs : Step d s s') :
    Logs d s' := by
  cases hs with
  | recvH hq => exact h.recvH hi.core hq
  | recvG hq => exact h.recvG hi.core hd hq
  | captureH c hc => exact h.captureH hi.core hc c
  | captureG c hc => exact h.captureG hi.core hc c
  | runH v hc hw => exact h.runH hi hd' hc hw v
  | runG v hc hw => exact h.runG hi hd' hc hw v
  | pushH fs hc hp => exact h.pushH hi.core hc fs

end Logs

theorem logs_start (d : Nat) : Logs d (Sys.start d) where
  host e he := by
    cases Nat.le_zero.mp he
    exact ⟨0, Played.nil _ _ _, fun _ => rfl, fun hlt => absurd hlt (Nat.lt_irrefl _)⟩
  guest e he := by
    cases Nat.le_zero.mp he
    exact ⟨0, Played.nil _ _ _, fun _ => rfl⟩
  hostNext _ _ := rfl
  guestNext _ _ := rfl
  sumH e t v hck := by cases hck
  sumG e t v hck := by cases hck
  sentH hcap := absurd hcap Bool.false_ne_true
  sentG hcap := absurd hcap Bool.false_ne_true

theorem Reach.logs (h : Reach d s) (hd : 1 ≤ d) (hd' : d ≤ 15) : Logs d s := by
  induction h with
  | start => exact logs_start d
  | step hr hs ih => exact ih.step (hr.inv hd hd') hd hd' hs

/-- In every epoch the consoles run the same ticks on the same cells, as far as each has
    come. -/
theorem Reach.agree (h : Reach d s) (hd : 1 ≤ d) (hd' : d ≤ 15) (e : Nat) :
    (s.logH e).map Beat.run <+: (s.logG e).map Beat.run ∨
      (s.logG e).map Beat.run <+: (s.logH e).map Beat.run := by
  have hl := h.logs hd hd'
  by_cases hg : s.g.ep < e
  · rw [hl.guestNext e hg]
    exact Or.inr List.nil_prefix
  · have hle := (h.inv hd hd').core.ep_le
    obtain ⟨n, hn, -⟩ := hl.host e (by omega)
    obtain ⟨n', hn', -⟩ := hl.guest e (by omega)
    exact hn.prefixes hn'

/-- A console waits only for something that is under way: with nothing under way, one of
    the two may run its tick. -/
theorem Reach.moves (h : Reach d s) (hd : 1 ≤ d) (hd' : d ≤ 15) (hG : s.toG = []) (hH : s.toH = [])
    (hcH : s.h.cap = true) (hcG : s.g.cap = true) :
    s.g.hold = false ∧ (s.h.t ≤ s.h.wm ∨ s.g.t ≤ s.g.wm) := by
  have hi := h.inv hd hd'
  have hl := h.logs hd hd'
  have hscript := hi.core.script
  rw [hG] at hscript
  obtain ⟨hhold, he⟩ := hscript
  refine ⟨hhold, ?_⟩
  -- with nothing under way, what was sent was taken
  have htaken : ∀ t, s.inH s.h.ep t ≠ none → t < s.g.wm + 1 := by
    intro t ht
    obtain ⟨c, hc⟩ := Option.ne_none_iff_exists'.mp ht
    rcases hi.core.linkG.todo _ t c hc with hlt | ⟨-, hlt⟩ | ⟨m, hm, -⟩
    · omega
    · exact hlt
    · rw [hG] at hm
      exact absurd hm List.not_mem_nil
  have htaken' : ∀ t, s.inG s.g.ep t ≠ none → t < s.h.wm + 1 := by
    intro t ht
    obtain ⟨c, hc⟩ := Option.ne_none_iff_exists'.mp ht
    rcases hi.core.linkH.todo _ t c hc with hlt | ⟨-, hlt⟩ | ⟨m, hm, -⟩
    · omega
    · exact hlt
    · rw [hH] at hm
      exact absurd hm List.not_mem_nil
  rcases hl.sentH hcH with h1 | h1
  · exact Or.inl h1
  · rcases hl.sentG hcG with h2 | h2
    · exact Or.inr h2
    · have h3 := htaken _ h1
      have h4 := htaken' _ h2
      omega

/-! ## Without a difference, no push -/

/-- Up to the first push, checksums of the same tick are equal. -/
def SameSums (s : Sys) : Prop :=
  ∀ b ∈ s.logH 0, ∀ b' ∈ s.logG 0, b.t = b'.t → b.t % 64 = 0 → b.sum = b'.sum

/-- Nothing is only ever added to a log. -/
theorem logs_grow (hs : Step d s s') (e : Nat) :
    s.logH e <+: s'.logH e ∧ s.logG e <+: s'.logG e := by
  have hput : ∀ (log : Nat → List Beat) (e' : Nat) (b : Beat), log e <+: putBeat log e' b e := by
    intro log e' b
    by_cases he : e = e'
    · rw [he, putBeat_self]
      exact List.prefix_append _ _
    · exact ⟨[], (List.append_nil _).trans (putBeat_ne _ _ he).symm⟩
  cases hs with
  | runH v hc hw => exact ⟨hput _ _ _, List.prefix_refl _⟩
  | runG v hc hw => exact ⟨List.prefix_refl _, hput _ _ _⟩
  | recvH hq => exact ⟨List.prefix_refl _, List.prefix_refl _⟩
  | recvG hq => exact ⟨List.prefix_refl _, List.prefix_refl _⟩
  | captureH c hc => exact ⟨List.prefix_refl _, List.prefix_refl _⟩
  | captureG c hc => exact ⟨List.prefix_refl _, List.prefix_refl _⟩
  | pushH fs hc hp => exact ⟨List.prefix_refl _, List.prefix_refl _⟩

/-- No push was made or is wanted. -/
structure Quiet (s : Sys) : Prop where
  host : s.h.ep = 0
  pendH : s.h.pend = false
  pendG : s.g.pend = false
  asks : asks s.toH = 0

/-- An alarm is a difference. -/
theorem no_alarm (h : SameSums s) (hl : Logs d s) {t v v' : Nat} (hz : t % 64 = 0)
    (hH : s.ckH 0 t = some v) (hG : s.ckG 0 t = some v') : v = v' := by
  obtain ⟨b, hb, hbt, hbv⟩ := hl.sumH 0 t v hH
  obtain ⟨b', hb', hbt', hbv'⟩ := hl.sumG 0 t v' hG
  rw [← hbv, ← hbv']
  apply h b hb b' hb' (hbt.trans hbt'.symm)
  rw [hbt]
  exact hz

namespace Quiet

/-- The host wants a push no more than before unless it is asked, or finds a difference. -/
theorem recvH (h : Quiet s) (hs : SameSums s) (hi : Inv d s) (hl : Logs d s) (hd : d ≤ 15)
    {e : Nat} {m : Msg} {q : List (Nat × Msg)} (hq : s.toH = (e, m) :: q) :
    Quiet (s.recvH d m q) := by
  have hasks := h.asks
  rw [hq, Duel.asks] at hasks
  have hpend : (s.h.recv d true m).pend = false := by
    have hold := h.pendH
    cases m with
    | input t c =>
      rw [Party.recv]
      split <;> exact hold
    | crc t v =>
      rw [Party.recv, if_neg ?_]
      · exact hold
      · intro hv
        obtain ⟨-, -, v', hr, hne⟩ := verdict_bad hv
        obtain ⟨-, -, hz, -⟩ := hi.checks.recH _ _ _ hr
        obtain ⟨he, w, hH, hG, hw⟩ := hi.checks.bad_host hi.core hd hq hv
        rw [he, h.host] at hH hG
        exact hw (no_alarm hs hl hz hH hG)
    | hold r => exact hold
    | chunk f => exact hold
    | fin => exact (hi.core.up (e, .fin) (by rw [hq]; exact List.mem_cons_self)).elim
    | ask t => exact absurd hasks (by dsimp only [Msg.asks]; omega)
  refine ⟨(hi.core.recv_host hq).1.trans h.host, hpend, h.pendG, ?_⟩
  change Duel.asks q = 0
  omega

theorem recvG (h : Quiet s) (hs : SameSums s) (hi : Inv d s) (hl : Logs d s)
    {e : Nat} {m : Msg} {q : List (Nat × Msg)} (hq : s.toG = (e, m) :: q) :
    Quiet (s.recvG d m q) := by
  have hold := h.pendG
  have hscript := hi.core.script
  rw [hq] at hscript
  obtain ⟨-, hm⟩ := hscript
  have hno : ∀ t v, m = .crc t v → s.g.verdict t v ≠ .bad := by
    rintro t v rfl hv
    obtain ⟨-, -, v', hr, hne⟩ := verdict_bad hv
    obtain ⟨-, -, hz, -⟩ := hi.checks.recG _ _ _ hr
    obtain ⟨he, w, hG, hH, hw⟩ := hi.checks.bad_guest hi.core hq hv
    have hle := hi.core.ep_le
    have hzero : e = 0 := by
      have := h.host
      omega
    rw [hzero] at hG hH
    exact hw (no_alarm hs hl hz hH hG).symm
  have hpend : (s.g.recv d false m).pend = false ∧ s.g.reply m = [] := by
    cases m with
    | input t c =>
      refine ⟨?_, rfl⟩
      rw [Party.recv]
      split <;> exact hold
    | crc t v =>
      rw [Party.recv, Party.reply, if_neg (hno t v rfl), if_neg (hno t v rfl)]
      exact ⟨hold, rfl⟩
    | hold r => exact ⟨hold, rfl⟩
    | chunk f => exact ⟨hold, rfl⟩
    | fin =>
      have := hm.2.le.1
      have := h.host
      omega
    | ask t => exact hm.elim
  refine ⟨h.host, h.pendH, hpend.1, ?_⟩
  change Duel.asks (s.toH ++ tagged s.g.ep (s.g.reply m)) = 0
  rw [hpend.2]
  exact (asks_append _ _).trans h.asks

theorem step (h : Quiet s) (hs : SameSums s) (hi : Inv d s) (hl : Logs d s) (hd : d ≤ 15)
    (hstep : Step d s s') : Quiet s' := by
  cases hstep with
  | recvH hq => exact h.recvH hs hi hl hd hq
  | recvG hq => exact h.recvG hs hi hl hq
  | captureH c hc => exact ⟨h.host, h.pendH, h.pendG, h.asks⟩
  | captureG c hc => exact ⟨h.host, h.pendH, h.pendG, (asks_append _ _).trans h.asks⟩
  | runH v hc hw => exact ⟨h.host, h.pendH, h.pendG, h.asks⟩
  | runG v hc hw =>
    refine ⟨h.host, h.pendH, h.pendG, ?_⟩
    change Duel.asks (s.toH ++ tagged s.g.ep (s.g.report v)) = 0
    rw [asks_append, h.asks]
    refine (Nat.zero_add _).trans (asks_tagged _ (fun m hm => ?_))
    unfold Party.report at hm
    split at hm
    · rw [List.mem_singleton.mp hm]
      rfl
    · exact absurd hm List.not_mem_nil
  | pushH fs hc hp =>
    rw [h.pendH] at hp
    cases hp

end Quiet

theorem SameSums.before (h : SameSums s') (hs : Step d s s') : SameSums s := fun b hb b' hb' =>
  h b ((logs_grow hs 0).1.subset hb) b' ((logs_grow hs 0).2.subset hb')

theorem Reach.calm (h : Reach d s) (hd : 1 ≤ d) (hd' : d ≤ 15) (hsame : SameSums s) : Quiet s := by
  induction h with
  | start => exact ⟨rfl, rfl, rfl, rfl⟩
  | step hr hs ih =>
    have hsame' := hsame.before hs
    exact (ih hsame').step hsame' (hr.inv hd hd') (hr.logs hd hd') hd' hs

end

end IntvBasketball.Duel
