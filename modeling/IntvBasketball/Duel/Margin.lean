/-
  What holds of the pair in every reachable state, second part: how far apart the two can
  be.

  The guest is slow to hear of a push, and the host may push again before it does; but
  what the guest sends from an old epoch is never far from where that epoch ended
  (`recent`), and a host that has heard nothing of its epoch runs d ticks of it at most
  (`alone`). With the number of epochs the host can be ahead bounded (`Debt`), any two
  ticks the consoles compare are close, and 16 bits of them tell them apart.
-/
import IntvBasketball.Duel.Invariant

namespace IntvBasketball.Duel

open Lib Console

/-- Epochs of messages that the host has not read. -/
def Unread (s : Sys) (f : Nat) : Prop := f = s.g.ep ∨ ∃ x ∈ s.toH, x.1 = f

structure Margin (d : Nat) (s : Sys) : Prop where
  fresh : ∀ f, Unread s f → f < s.h.ep → s.h.wm + 1 = s.base s.h.ep + d
  close : s.g.ep < s.h.ep → s.base (s.g.ep + 1) ≤ s.g.nt d + 16
  alone : ∀ f, Unread s f → ∀ e, f < e → e < s.h.ep → s.base (e + 1) ≤ s.base e + d + 16
  recent : ∀ x ∈ s.toH, x.1 < s.h.ep → ∀ k, (coding d).level x.2 = some k →
    s.base (x.1 + 1) ≤ k + 17

section
variable {d : Nat} {s s' : Sys}

/-- Every message the host has yet to read is of the first one's epoch or a later one. -/
theorem Core.unread_ge (h : Core d s) {e : Nat} {m : Msg} {q : List (Nat × Msg)}
    (hq : s.toH = (e, m) :: q) {f : Nat} (hf : f = s.g.ep ∨ ∃ x ∈ q, x.1 = f) : e ≤ f := by
  have hlink := h.linkH
  rw [hq] at hlink
  rcases hf with rfl | ⟨x, hx, rfl⟩
  · exact hlink.tag_le _ List.mem_cons_self
  · exact (List.rel_of_pairwise_cons hlink.order hx).1

/-- A message moves the watermark only if it is a newer input, or the end of a push. -/
theorem recv_wm (host : Bool) (p : Party) (m : Msg) (hi : ∀ t c, m = .input t c → t ≤ p.wm)
    (hf : m ≠ .fin) : (p.recv d host m).wm = p.wm := by
  cases m with
  | input t c =>
    have hle := hi t c rfl
    rw [Party.recv, if_neg (Nat.not_lt.mpr hle)]
  | crc t v =>
    rw [Party.recv]
    split <;> rfl
  | hold r => rfl
  | chunk f => rfl
  | fin => exact absurd rfl hf
  | ask t =>
    rw [Party.recv]
    split <;> rfl

/-- Reading never moves the host to another epoch. -/
theorem Core.recv_host (h : Core d s) {e : Nat} {m : Msg} {q : List (Nat × Msg)}
    (hq : s.toH = (e, m) :: q) : (s.h.recv d true m).ep = s.h.ep ∧
      (s.h.recv d true m).t = s.h.t ∧ (s.h.recv d true m).cap = s.h.cap := by
  have hup := h.up (e, m) (by rw [hq]; exact List.mem_cons_self)
  unfold Party.recv
  cases m with
  | input t c => dsimp only; split <;> exact ⟨rfl, rfl, rfl⟩
  | crc t v => dsimp only; split <;> exact ⟨rfl, rfl, rfl⟩
  | ask t => dsimp only; split <;> exact ⟨rfl, rfl, rfl⟩
  | hold r => exact hup.elim
  | chunk f => exact hup.elim
  | fin => exact hup.elim

namespace Margin

theorem recvH (h : Margin d s) (hc : Core d s) (hd : d ≤ 15) {e : Nat} {m : Msg}
    {q : List (Nat × Msg)} (hq : s.toH = (e, m) :: q) : Margin d (s.recvH d m q) := by
  have hsub : ∀ f, Unread (s.recvH d m q) f → Unread s f := by
    intro f hf
    refine hf.imp_right ?_
    rintro ⟨x, hx, rfl⟩
    exact ⟨x, by rw [hq]; exact List.mem_cons_of_mem _ hx, rfl⟩
  have hep := (hc.recv_host hq).1
  have hmem : (e, m) ∈ s.toH := by rw [hq]; exact List.mem_cons_self
  refine ⟨fun f hf hlt => ?_, fun hlt => ?_, fun f hf e' h1 h2 => ?_, fun x hx hlt => ?_⟩
  · change (s.h.recv d true m).wm + 1 = s.base (s.h.recv d true m).ep + d
    change f < (s.h.recv d true m).ep at hlt
    rw [hep] at hlt ⊢
    have hge := hc.unread_ge hq hf
    have hold : m ≠ .fin := fun hm => by
      have := hc.up _ hmem
      rw [hm] at this
      exact this
    rw [recv_wm true s.h m (fun t c hm => ?_) hold]
    · exact h.fresh f (hsub f hf) hlt
    · subst hm
      exact hc.stale_le_wm hd hmem (by dsimp only; omega) rfl
  · change s.g.ep < (s.h.recv d true m).ep at hlt
    rw [hep] at hlt
    exact h.close hlt
  · change e' < (s.h.recv d true m).ep at h2
    rw [hep] at h2
    exact h.alone f (hsub f hf) e' h1 h2
  · change x.1 < (s.h.recv d true m).ep at hlt
    rw [hep] at hlt
    exact h.recent x (by rw [hq]; exact List.mem_cons_of_mem _ hx) hlt

/-- Messages of the guest's epoch are no news. -/
theorem unread_append {ms : List Msg} {s : Sys} {f : Nat}
    (hf : f = s.g.ep ∨ ∃ x ∈ s.toH ++ tagged s.g.ep ms, x.1 = f) : Unread s f := by
  rcases hf with hf | ⟨x, hx, rfl⟩
  · exact Or.inl hf
  · rcases List.mem_append.mp hx with hx | hx
    · exact Or.inr ⟨x, hx, rfl⟩
    · obtain ⟨m, -, rfl⟩ := List.mem_map.mp hx
      exact Or.inl rfl

/-- The guest stays in its epoch, and what it sends is for the tick before its next input. -/
theorem send (h : Margin d s) {g : Party} {b : List Msg} {q : List (Nat × Msg)} {I K L}
    (hep : g.ep = s.g.ep) (hnt : s.g.nt d ≤ g.nt d)
    (hk : ∀ m ∈ b, ∀ k, (coding d).level m = some k → s.g.nt d ≤ k + 1) :
    Margin d { s with
      g := g, toG := q, toH := s.toH ++ tagged s.g.ep b, inG := I, ckG := K, logG := L } := by
  have hsub : ∀ f, (f = g.ep ∨ ∃ x ∈ s.toH ++ tagged s.g.ep b, x.1 = f) → Unread s f := by
    intro f hf
    rw [hep] at hf
    exact unread_append hf
  refine ⟨fun f hf => h.fresh f (hsub f hf), fun hlt => ?_,
    fun f hf => h.alone f (hsub f hf), fun x hx hlt k hlev => ?_⟩
  · change s.base (g.ep + 1) ≤ g.nt d + 16
    change g.ep < s.h.ep at hlt
    rw [hep] at hlt ⊢
    have := h.close hlt
    omega
  · rcases List.mem_append.mp hx with hx | hx
    · exact h.recent x hx hlt k hlev
    · obtain ⟨m, hm, rfl⟩ := List.mem_map.mp hx
      have h1 := h.close hlt
      have h2 := hk m hm k hlev
      change s.base (s.g.ep + 1) ≤ k + 17
      omega

theorem recvG (h : Margin d s) (hc : Core d s) {e : Nat} {m : Msg} {q : List (Nat × Msg)}
    (hq : s.toG = (e, m) :: q) : Margin d (s.recvG d m q) := by
  by_cases hfin : m = .fin
  · subst hfin
    have hscript := hc.script
    rw [hq] at hscript
    obtain ⟨rfl, hhold, hscript⟩ := hscript
    have hlt : s.g.ep < s.h.ep := hscript.le.1
    have hr := hc.resume hhold
    have hg : s.g.recv d false .fin = s.g.rebase d s.g.r := if_pos hhold
    unfold Sys.recvG
    rw [hg]
    simp only [Party.reply, tagged, List.map_nil, List.append_nil]
    have hnt := (Party.nt_ge d (s.g.rebase d s.g.r)).1
    refine ⟨fun f hf hlt' => ?_, fun hlt' => ?_, fun f hf e h1 h2 => ?_, h.recent⟩
    · exact h.fresh s.g.ep (Or.inl rfl) hlt
    · have h1 := h.alone s.g.ep (Or.inl rfl) (s.g.ep + 1) (Nat.lt_succ_self _) hlt'
      change s.base (s.g.ep + 1 + 1) ≤ _ at h1
      change s.g.r + d ≤ _ at hnt
      change s.base (s.g.ep + 1 + 1) ≤ (s.g.rebase d s.g.r).nt d + 16
      omega
    · rcases hf with rfl | hf
      · exact h.alone s.g.ep (Or.inl rfl) e (Nat.lt_of_succ_lt h1) h2
      · exact h.alone f (Or.inr hf) e h1 h2
  · have hp : (s.g.recv d false m).ep = s.g.ep ∧ (s.g.recv d false m).nt d = s.g.nt d := by
      unfold Party.recv Party.nt
      cases m with
      | input t c => dsimp only; split <;> exact ⟨rfl, rfl⟩
      | crc t v => dsimp only; split <;> exact ⟨rfl, rfl⟩
      | hold r => exact ⟨rfl, rfl⟩
      | chunk f => exact ⟨rfl, rfl⟩
      | fin => exact absurd rfl hfin
      | ask t => exact ⟨rfl, rfl⟩
    refine h.send (I := s.inG) (K := s.ckG) (L := s.logG) hp.1 (Nat.le_of_eq hp.2.symm)
      (fun m' hm' k hk => ?_)
    unfold Party.reply at hm'
    cases m with
    | crc t v =>
      dsimp only at hm'
      split at hm'
      · rw [List.mem_singleton] at hm'
        subst hm'
        cases hk
      · exact absurd hm' List.not_mem_nil
    | _ => exact absurd hm' List.not_mem_nil

theorem captureG (h : Margin d s) (hcap : s.g.cap = false) (c : Cell) :
    Margin d (s.captureG d c) := by
  have hnt : s.g.nt d = s.g.t + d := by rw [Party.nt, hcap]; rfl
  refine h.send (b := [.input (s.g.t + d) c]) (K := s.ckG) (L := s.logG) rfl ?_
    (fun m hm k hk => ?_)
  · rw [hnt]
    exact Nat.le_succ _
  · rw [List.mem_singleton.mp hm] at hk
    cases hk
    rw [hnt]
    exact Nat.le_succ _

theorem runG (h : Margin d s) (hcap : s.g.cap = true) (v : Nat) : Margin d (s.runG v) := by
  have hnt : s.g.nt d = s.g.t + d + 1 := by rw [Party.nt, hcap]; rfl
  have hnt' : (s.g.run v).nt d = s.g.nt d := by
    rw [hnt]
    change s.g.t + 1 + d = _
    omega
  refine h.send (I := s.inG) rfl (Nat.le_of_eq hnt'.symm) (fun m hm k hk => ?_)
  unfold Party.report at hm
  split at hm
  · rw [List.mem_singleton.mp hm] at hk
    cases hk
    exact Nat.le_of_eq hnt
  · exact absurd hm List.not_mem_nil

/-- The host's tick and its own stream are no part of it. -/
theorem host (h : Margin d s) {p : Party} {q : List (Nat × Msg)} {I K L} (hep : p.ep = s.h.ep)
    (hwm : p.wm = s.h.wm) :
    Margin d { s with h := p, toG := q, inH := I, ckH := K, logH := L } := by
  refine ⟨fun f hf hlt => ?_, fun hlt => h.close ?_, fun f hf e h1 h2 => h.alone f hf e h1 ?_,
    fun x hx hlt => h.recent x hx ?_⟩
  · change p.wm + 1 = s.base p.ep + d
    change f < p.ep at hlt
    rw [hep] at hlt ⊢
    rw [hwm]
    exact h.fresh f hf hlt
  · change s.g.ep < p.ep at hlt
    rwa [hep] at hlt
  · change e < p.ep at h2
    rwa [hep] at h2
  · change x.1 < p.ep at hlt
    rwa [hep] at hlt

/-- A push ends the epoch 16 ticks before the next: near everything the host has not read. -/
theorem pushH (h : Margin d s) (hc : Core d s) (fs : List (List Byte)) :
    Margin d (s.pushH d fs) := by
  have hle := hc.ep_le
  have ht := hc.clockH.t_le
  have hnew : Function.update s.base (s.h.ep + 1) (s.h.t + 16) (s.h.ep + 1) = s.h.t + 16 :=
    Function.update_self _ _ _
  have hold : ∀ e ≤ s.h.ep, Function.update s.base (s.h.ep + 1) (s.h.t + 16) e = s.base e :=
    fun e he => Function.update_of_ne (by omega) _ _
  refine ⟨fun f _ _ => ?_, fun hlt => ?_, fun f hf e h1 h2 => ?_, fun x hx hlt k hk => ?_⟩
  · change s.h.t + 16 + d - 1 + 1 = Function.update s.base _ _ (s.h.ep + 1) + d
    rw [hnew]
    omega
  · change s.g.ep < s.h.ep + 1 at hlt
    change Function.update s.base _ _ (s.g.ep + 1) ≤ s.g.nt d + 16
    by_cases hb : s.g.ep < s.h.ep
    · rw [hold _ hb]
      exact h.close hb
    · have heq : s.h.ep = s.g.ep := by omega
      have hsync := hc.linkH.sync heq
      rw [← heq, hnew]
      omega
  · change e < s.h.ep + 1 at h2
    change Function.update s.base _ _ (e + 1) ≤ Function.update s.base _ _ e + d + 16
    rw [hold e (by omega)]
    by_cases he : e < s.h.ep
    · rw [hold _ he]
      exact h.alone f hf e h1 he
    · have heq : e = s.h.ep := by omega
      subst heq
      have hfr := h.fresh f hf h1
      rw [hnew]
      omega
  · change x.1 < s.h.ep + 1 at hlt
    change Function.update s.base _ _ (x.1 + 1) ≤ k + 17
    by_cases hb : x.1 < s.h.ep
    · rw [hold _ hb]
      exact h.recent x hx hb k hk
    · have heq : x.1 = s.h.ep := by omega
      have hlive := hc.linkH.level_live x hx heq k hk
      rw [heq, hnew]
      omega

end Margin

end

end IntvBasketball.Duel
