/-
  What holds of the pair in every reachable state, third part: checksums and pushes.

  A record and a report are the console's own checksum of that tick and epoch (`Checks`),
  so a console that finds a mismatch compared two checksums of one tick of one epoch.
  The guest asks for a push at most once an epoch, and the host finds a mismatch itself
  only in an epoch the guest has reached; so the host is never more than two pushes ahead
  of what it has read (`Debt`).
-/
import IntvBasketball.Duel.Margin

namespace IntvBasketball.Duel

open Lib Console

/-! ## Checksums -/

/-- The records a console has: its checksums of this epoch's last 256 ticks. -/
def Records (base : Nat → Nat) (ck : Nat → Nat → Option Nat) (p : Party) : Prop :=
  ∀ i t v, p.recs i = some (t, v) → ck p.ep t = some v ∧ slot t = i ∧ t % 64 = 0 ∧
    base p.ep ≤ t ∧ t < p.t ∧ p.t ≤ t + 256

/-- Checksums exist of ticks that were run. -/
def Ran (ck : Nat → Nat → Option Nat) (p : Party) : Prop :=
  ∀ e t v, ck e t = some v → e < p.ep ∨ (e = p.ep ∧ t < p.t)

/-- The reports under way. -/
def Reports (ck : Nat → Nat → Option Nat) (q : List (Nat × Msg)) : Prop :=
  ∀ x ∈ q, ∀ t v, x.2 = .crc t v → ck x.1 t = some v

structure Checks (s : Sys) : Prop where
  recH : Records s.base s.ckH s.h
  recG : Records s.base s.ckG s.g
  ranH : Ran s.ckH s.h
  ranG : Ran s.ckG s.g
  wireG : Reports s.ckH s.toG
  wireH : Reports s.ckG s.toH
  past : ∀ e t v, s.ckH e t = some v → e < s.h.ep → t < s.base (e + 1)

section
variable {base : Nat → Nat} {ck : Nat → Nat → Option Nat} {p : Party} {q : List (Nat × Msg)}

theorem Records.none (h : ∀ i, p.recs i = none) : Records base ck p := by
  intro i t v hr
  rw [h] at hr
  cases hr

/-- The checksum of a tick not run before. -/
theorem putCheck_keep (hran : Ran ck p) {e t v w : Nat} (h : ck e t = some v) :
    putCheck ck p.ep p.t w e t = some v := by
  unfold putCheck
  split
  · rw [putItem_ne, h]
    rintro ⟨rfl, rfl⟩
    rcases hran _ _ _ h with hlt | ⟨-, hlt⟩
    · exact absurd hlt (Nat.lt_irrefl _)
    · exact absurd hlt (Nat.lt_irrefl _)
  · exact h

theorem Ran.run (h : Ran ck p) (v : Nat) : Ran (putCheck ck p.ep p.t v) (p.run v) := by
  intro e t w hw
  have hnew : (e = p.ep ∧ t = p.t) ∨ ck e t = some w := by
    unfold putCheck at hw
    split at hw
    · by_cases he : e = p.ep ∧ t = p.t
      · exact Or.inl he
      · rw [putItem_ne _ he] at hw
        exact Or.inr hw
    · exact Or.inr hw
  rcases hnew with ⟨rfl, rfl⟩ | hold
  · exact Or.inr ⟨rfl, Nat.lt_succ_self _⟩
  · exact (h e t w hold).imp_right (And.imp_right Nat.lt_succ_of_lt)

/-- Running a tick records it, and drops the record of 256 ticks before. -/
theorem Records.run (h : Records base ck p) (hran : Ran ck p) (hb : base p.ep ≤ p.t) (v : Nat) :
    Records base (putCheck ck p.ep p.t v) (p.run v) := by
  intro i t w hr
  change (if p.t % 64 = 0 then Function.update p.recs (slot p.t) (some (p.t, v)) else p.recs) i =
    some (t, w) at hr
  change putCheck ck p.ep p.t v p.ep t = some w ∧ slot t = i ∧ t % 64 = 0 ∧ base p.ep ≤ t ∧
    t < p.t + 1 ∧ p.t + 1 ≤ t + 256
  have hold : p.recs i = some (t, w) → ¬ (p.t % 64 = 0 ∧ i = slot p.t) →
      putCheck ck p.ep p.t v p.ep t = some w ∧ slot t = i ∧ t % 64 = 0 ∧ base p.ep ≤ t ∧
        t < p.t + 1 ∧ p.t + 1 ≤ t + 256 := by
    intro hrec hne
    obtain ⟨h1, h2, h3, h4, h5, h6⟩ := h i t w hrec
    refine ⟨putCheck_keep hran h1, h2, h3, h4, Nat.lt_succ_of_lt h5, ?_⟩
    by_contra hlt
    have heq : p.t = t + 256 := by omega
    refine hne ⟨by omega, ?_⟩
    rw [← h2, heq]
    unfold slot
    omega
  split at hr
  · next hz =>
    rw [Function.update_apply] at hr
    split at hr
    · next hi =>
      cases hr
      refine ⟨?_, hi.symm, hz, hb, Nat.lt_succ_self _, by omega⟩
      rw [putCheck, if_pos hz]
      exact putItem_self _ _ _ _
    · next hi => exact hold hr (fun hx => hi hx.2)
  · next hz => exact hold hr (fun hx => hz hx.1)

theorem Reports.run (h : Reports ck q) (hran : Ran ck p) (v : Nat) :
    Reports (putCheck ck p.ep p.t v) (q ++ tagged p.ep (p.report v)) := by
  intro x hx t w hw
  rcases List.mem_append.mp hx with hx | hx
  · exact putCheck_keep hran (h x hx t w hw)
  · obtain ⟨m, hm, rfl⟩ := List.mem_map.mp hx
    unfold Party.report at hm
    split at hm
    · next hz =>
      rw [List.mem_singleton.mp hm] at hw
      cases hw
      rw [putCheck, if_pos hz]
      exact putItem_self _ _ _ _
    · exact absurd hm List.not_mem_nil

theorem Reports.append (h : Reports ck q) {e : Nat} {b : List Msg}
    (hb : ∀ m ∈ b, ∀ t v, m ≠ .crc t v) : Reports ck (q ++ tagged e b) := by
  intro x hx t v hv
  rcases List.mem_append.mp hx with hx | hx
  · exact h x hx t v hv
  · obtain ⟨m, hm, rfl⟩ := List.mem_map.mp hx
    exact absurd hv (hb m hm t v)

theorem Reports.sub {q' : List (Nat × Msg)} (h : Reports ck q) (hsub : ∀ x ∈ q', x ∈ q) :
    Reports ck q' := fun x hx => h x (hsub x hx)

/-- Reading a message other than the end of a push adds no record. -/
theorem Records.recv {d : Nat} {host : Bool} {m : Msg} (h : Records base ck p) (hf : m ≠ .fin) :
    Records base ck (p.recv d host m) := by
  cases m with
  | input t c =>
    rw [Party.recv]
    split <;> exact h
  | crc t v =>
    rw [Party.recv]
    split <;> exact h
  | hold r => exact Records.none (fun _ => rfl)
  | chunk f => exact h
  | fin => exact absurd rfl hf
  | ask t =>
    rw [Party.recv]
    split <;> exact h

theorem Ran.recv {d : Nat} {host : Bool} {m : Msg} (h : Ran ck p) (hf : m ≠ .fin) :
    Ran ck (p.recv d host m) := by
  cases m with
  | input t c =>
    rw [Party.recv]
    split <;> exact h
  | crc t v =>
    rw [Party.recv]
    split <;> exact h
  | hold r => exact h
  | chunk f => exact h
  | fin => exact absurd rfl hf
  | ask t =>
    rw [Party.recv]
    split <;> exact h

theorem Ran.rebase {d r : Nat} (h : Ran ck p) : Ran ck (p.rebase d r) := by
  intro e t v hv
  rcases h e t v hv with hlt | ⟨rfl, -⟩
  · exact Or.inl (Nat.lt_succ_of_lt hlt)
  · exact Or.inl (Nat.lt_succ_self _)

/-- A verdict of bad: there is a record of that tick, and it differs. -/
theorem verdict_bad {t v : Nat} (hv : p.verdict t v = .bad) : p.hold = false ∧ p.pend = false ∧
    ∃ v', p.recs (slot t) = some (t, v') ∧ v' ≠ v := by
  unfold Party.verdict at hv
  split at hv
  · cases hv
  · next hh =>
    split at hv
    · cases hv
    · next hp =>
      refine ⟨by simpa using hh, by simpa using hp, ?_⟩
      cases hr : p.recs (slot t) with
      | none =>
        rw [hr] at hv
        cases hv
      | some x =>
        obtain ⟨t', v'⟩ := x
        rw [hr] at hv
        dsimp only at hv
        split at hv
        · cases hv
        · next ht =>
          rw [not_not] at ht
          split at hv
          · cases hv
          · next hne => exact ⟨v', by rw [ht], hne⟩

end

section
variable {d : Nat} {s : Sys}

/-- The messages of a push are no reports. -/
theorem pushMsgs_no_crc (t : Nat) (fs : List (List Byte)) :
    ∀ m ∈ pushMsgs t fs, ∀ t' v, m ≠ .crc t' v := by
  intro m hm t' v hc
  subst hc
  have := (pushMsgs_plain (d := 0) t fs _ hm).2
  cases this

namespace Checks

theorem recvH (h : Checks s) (hc : Core d s) {e : Nat} {m : Msg} {q : List (Nat × Msg)}
    (hq : s.toH = (e, m) :: q) : Checks (s.recvH d m q) := by
  have hf : m ≠ .fin := by
    rintro rfl
    exact hc.up (e, .fin) (by rw [hq]; exact List.mem_cons_self)
  refine ⟨h.recH.recv hf, h.recG, h.ranH.recv hf, h.ranG, h.wireG, h.wireH.sub (fun x hx => ?_),
    fun e' t v hv hlt => h.past e' t v hv ?_⟩
  · rw [hq]
    exact List.mem_cons_of_mem _ hx
  · exact (hc.recv_host hq).1 ▸ hlt

theorem recvG (h : Checks s) {e : Nat} {m : Msg} {q : List (Nat × Msg)}
    (hq : s.toG = (e, m) :: q) : Checks (s.recvG d m q) := by
  have hsub : ∀ x ∈ q, x ∈ s.toG := fun x hx => by rw [hq]; exact List.mem_cons_of_mem _ hx
  have hreply : ∀ m' ∈ s.g.reply m, ∀ t v, m' ≠ .crc t v := by
    intro m' hm' t v hcr
    subst hcr
    unfold Party.reply at hm'
    split at hm'
    · split at hm'
      · cases List.mem_singleton.mp hm'
      · exact absurd hm' List.not_mem_nil
    · exact absurd hm' List.not_mem_nil
  have hrec : Records s.base s.ckG (s.g.recv d false m) ∧ Ran s.ckG (s.g.recv d false m) := by
    by_cases hf : m = .fin
    · subst hf
      rw [Party.recv]
      split
      · exact ⟨Records.none (fun _ => rfl), h.ranG.rebase⟩
      · exact ⟨h.recG, h.ranG⟩
    · exact ⟨h.recG.recv hf, h.ranG.recv hf⟩
  exact ⟨h.recH, hrec.1, h.ranH, hrec.2, h.wireG.sub hsub, h.wireH.append hreply, h.past⟩

theorem captureH (h : Checks s) (c : Cell) : Checks (s.captureH d c) :=
  ⟨h.recH, h.recG, h.ranH, h.ranG,
    h.wireG.append (b := [.input (s.h.t + d) c]) (fun m hm t v hc => by
      rw [List.mem_singleton.mp hm] at hc
      cases hc), h.wireH, h.past⟩

theorem captureG (h : Checks s) (c : Cell) : Checks (s.captureG d c) :=
  ⟨h.recH, h.recG, h.ranH, h.ranG, h.wireG,
    h.wireH.append (b := [.input (s.g.t + d) c]) (fun m hm t v hc => by
      rw [List.mem_singleton.mp hm] at hc
      cases hc), h.past⟩

theorem runH (h : Checks s) (hc : Core d s) (v : Nat) : Checks (s.runH v) := by
  refine ⟨h.recH.run h.ranH hc.clockH.base_le v, h.recG, h.ranH.run v, h.ranG, h.wireG.run h.ranH v,
    h.wireH, fun e t w hw hlt => h.past e t w ?_ hlt⟩
  have hne : ¬ (e = s.h.ep ∧ t = s.h.t) := fun hx => Nat.lt_irrefl _ (hx.1 ▸ hlt)
  change putCheck s.ckH s.h.ep s.h.t v e t = some w at hw
  unfold putCheck at hw
  split at hw
  · rwa [putItem_ne _ hne] at hw
  · exact hw

theorem runG (h : Checks s) (hc : Core d s) (v : Nat) : Checks (s.runG v) :=
  ⟨h.recH, h.recG.run h.ranG hc.clockG.base_le v, h.ranH, h.ranG.run v, h.wireG,
    h.wireH.run h.ranG v, h.past⟩

theorem pushH (h : Checks s) (hc : Core d s) (fs : List (List Byte)) : Checks (s.pushH d fs) := by
  refine ⟨Records.none (fun _ => rfl), fun i t v hr => ?_, h.ranH.rebase, h.ranG,
    h.wireG.append (pushMsgs_no_crc _ fs), h.wireH, fun e t v hv hlt => ?_⟩
  · have hle := hc.ep_le
    change _ ∧ _ ∧ _ ∧ Function.update s.base (s.h.ep + 1) (s.h.t + 16) s.g.ep ≤ t ∧ _
    rw [Function.update_of_ne (by omega)]
    exact h.recG i t v hr
  · change e < s.h.ep + 1 at hlt
    change t < Function.update s.base (s.h.ep + 1) (s.h.t + 16) (e + 1)
    by_cases he : e = s.h.ep
    · subst he
      rw [Function.update_self]
      rcases h.ranH _ _ _ hv with h1 | ⟨-, h1⟩
      · exact absurd h1 (Nat.lt_irrefl _)
      · omega
    · rw [Function.update_of_ne (by omega)]
      exact h.past e t v hv (by omega)

/-- The host's alarm: both consoles ran that tick in the host's epoch, with other checksums. -/
theorem bad_host (h : Checks s) (hc : Core d s) (hd : d ≤ 15) {e t v : Nat}
    {q : List (Nat × Msg)} (hq : s.toH = (e, .crc t v) :: q) (hv : s.h.verdict t v = .bad) :
    e = s.h.ep ∧ ∃ v', s.ckH e t = some v' ∧ s.ckG e t = some v ∧ v' ≠ v := by
  obtain ⟨-, -, v', hr, hne⟩ := verdict_bad hv
  obtain ⟨hck, -, -, hb, -, -⟩ := h.recH _ _ _ hr
  have hmem : (e, Msg.crc t v) ∈ s.toH := by rw [hq]; exact List.mem_cons_self
  have htag := hc.tag_toH hmem
  have he : e = s.h.ep := by
    by_contra hlt
    have h1 := hc.stale_lt hd hmem (k := t + d) (by dsimp only at htag ⊢; omega) rfl
    have h2 := hc.base_mono (show e + 1 ≤ s.h.ep by dsimp only at htag; omega) (Nat.le_refl _)
    dsimp only at h1
    omega
  subst he
  exact ⟨rfl, v', hck, h.wireH _ hmem t v rfl, hne⟩

/-- The guest's alarm, in its own epoch. -/
theorem bad_guest (h : Checks s) (hc : Core d s) {e t v : Nat} {q : List (Nat × Msg)}
    (hq : s.toG = (e, .crc t v) :: q) (hv : s.g.verdict t v = .bad) :
    e = s.g.ep ∧ ∃ v', s.ckG e t = some v' ∧ s.ckH e t = some v ∧ v' ≠ v := by
  obtain ⟨-, -, v', hr, hne⟩ := verdict_bad hv
  have hck := (h.recG _ _ _ hr).1
  have hmem : (e, Msg.crc t v) ∈ s.toG := by rw [hq]; exact List.mem_cons_self
  have hscript := hc.script
  rw [hq] at hscript
  obtain ⟨rfl, -⟩ := hscript
  exact ⟨rfl, v', hck, h.wireG _ hmem t v rfl, hne⟩

end Checks
end

/-! ## Pushes -/

def Msg.asks : Msg → Nat
  | .ask _ => 1
  | _ => 0

/-- The requests among messages, and those of one epoch. -/
def asks : List (Nat × Msg) → Nat
  | [] => 0
  | x :: q => x.2.asks + asks q

def asksOf (e : Nat) : List (Nat × Msg) → Nat
  | [] => 0
  | x :: q => (if x.1 = e then x.2.asks else 0) + asksOf e q

/-- Epoch `n` and the pushes asked for on the way to a message are at most two past it. -/
def Ahead : Nat → List (Nat × Msg) → Prop
  | _, [] => True
  | n, x :: q => n ≤ x.1 + 2 ∧ Ahead (n + x.2.asks) q

structure Debt (s : Sys) : Prop where
  debt : s.h.ep + s.h.pend.toNat + asks s.toH ≤ s.g.ep + 1 + s.g.pend.toNat
  ahead : Ahead (s.h.ep + s.h.pend.toNat) s.toH
  once : ∀ e, asksOf e s.toH ≤ 1
  mine : asksOf s.g.ep s.toH ≤ s.g.pend.toNat

section
variable {q q' : List (Nat × Msg)} {n n' e : Nat}

theorem asks_append (q q' : List (Nat × Msg)) : asks (q ++ q') = asks q + asks q' := by
  induction q with
  | nil => exact (Nat.zero_add _).symm
  | cons x q ih =>
    rw [List.cons_append, asks, asks, ih]
    omega

theorem asksOf_append (e : Nat) (q q' : List (Nat × Msg)) :
    asksOf e (q ++ q') = asksOf e q + asksOf e q' := by
  induction q with
  | nil => exact (Nat.zero_add _).symm
  | cons x q ih =>
    rw [List.cons_append, asksOf, asksOf, ih]
    omega

theorem asks_tagged (e : Nat) {ms : List Msg} (h : ∀ m ∈ ms, m.asks = 0) :
    asks (tagged e ms) = 0 := by
  induction ms with
  | nil => rfl
  | cons m ms ih =>
    change m.asks + asks (tagged e ms) = 0
    rw [h m List.mem_cons_self, ih (fun m' hm' => h m' (List.mem_cons_of_mem _ hm'))]

theorem asksOf_tagged (e' : Nat) {ms : List Msg} (h : ∀ m ∈ ms, m.asks = 0) :
    asksOf e' (tagged e ms) = 0 := by
  induction ms with
  | nil => rfl
  | cons m ms ih =>
    change (if e = e' then m.asks else 0) + asksOf e' (tagged e ms) = 0
    rw [h m List.mem_cons_self, ih (fun m' hm' => h m' (List.mem_cons_of_mem _ hm')), ite_self]

/-- With one epoch only, its requests are all. -/
theorem asks_eq_of (h : ∀ x ∈ q, x.1 = e) : asks q = asksOf e q := by
  induction q with
  | nil => rfl
  | cons x q ih =>
    rw [asks, asksOf, if_pos (h x List.mem_cons_self),
      ih (fun x' hx' => h x' (List.mem_cons_of_mem _ hx'))]

theorem asksOf_none (h : ∀ x ∈ q, x.1 ≠ e) : asksOf e q = 0 := by
  induction q with
  | nil => rfl
  | cons x q ih =>
    rw [asksOf, if_neg (h x List.mem_cons_self),
      ih (fun x' hx' => h x' (List.mem_cons_of_mem _ hx'))]

theorem Ahead.mono (h : Ahead n' q) (hn : n ≤ n') : Ahead n q := by
  induction q generalizing n n' with
  | nil => trivial
  | cons x q ih => exact ⟨Nat.le_trans hn h.1, ih h.2 (Nat.add_le_add_right hn _)⟩

theorem Ahead.append (h : Ahead n q) (h' : Ahead (n + asks q) q') : Ahead n (q ++ q') := by
  induction q generalizing n with
  | nil => exact h'
  | cons x q ih =>
    refine ⟨h.1, ih h.2 ?_⟩
    rw [asks, ← Nat.add_assoc] at h'
    exact h'

/-- Messages of late epochs with few requests. -/
theorem Ahead.of_asks (h : ∀ x ∈ q, e ≤ x.1) (hn : n + asks q ≤ e + 2) : Ahead n q := by
  induction q generalizing n with
  | nil => trivial
  | cons x q ih =>
    have hx := h x List.mem_cons_self
    rw [asks] at hn
    refine ⟨by omega, ih (fun x' hx' => h x' (List.mem_cons_of_mem _ hx')) (by omega)⟩

end

section
variable {d : Nat} {s : Sys}

namespace Debt

/-- The guest sends no request. -/
theorem send (h : Debt s) {g : Party} {b : List Msg} {q : List (Nat × Msg)} {I K L}
    (hep : g.ep = s.g.ep) (hp : g.pend = s.g.pend) (hms : ∀ m ∈ b, m.asks = 0) :
    Debt { s with
      g := g, toG := q, toH := s.toH ++ tagged s.g.ep b, inG := I, ckG := K, logG := L } := by
  have hdebt := h.debt
  have hpend := Bool.toNat_le s.g.pend
  refine ⟨?_, h.ahead.append (Ahead.of_asks (e := s.g.ep) (fun x hx => ?_) ?_), fun e => ?_, ?_⟩
  · change _ + asks (s.toH ++ tagged s.g.ep b) ≤ g.ep + 1 + g.pend.toNat
    rw [asks_append, asks_tagged _ hms, hep, hp]
    exact hdebt
  · obtain ⟨m, -, rfl⟩ := List.mem_map.mp hx
    exact Nat.le_refl _
  · rw [asks_tagged _ hms]
    omega
  · change asksOf e (s.toH ++ tagged s.g.ep b) ≤ 1
    rw [asksOf_append, asksOf_tagged _ hms]
    exact h.once e
  · change asksOf g.ep (s.toH ++ tagged s.g.ep b) ≤ g.pend.toNat
    rw [asksOf_append, asksOf_tagged _ hms, hep, hp]
    exact h.mine

theorem recvG (h : Debt s) (hc : Core d s) {e : Nat} {m : Msg} {q : List (Nat × Msg)}
    (hq : s.toG = (e, m) :: q) : Debt (s.recvG d m q) := by
  have hdebt := h.debt
  unfold Sys.recvG
  cases m with
  | input t c =>
    have hp : (s.g.recv d false (.input t c)).ep = s.g.ep ∧
        (s.g.recv d false (.input t c)).pend = s.g.pend := by
      rw [Party.recv]
      split <;> exact ⟨rfl, rfl⟩
    exact h.send (I := s.inG) (K := s.ckG) (L := s.logG) hp.1 hp.2
      (fun m hm => absurd hm List.not_mem_nil)
  | crc t v =>
    by_cases hv : s.g.verdict t v = .bad
    · have hpend : s.g.pend = false := (verdict_bad hv).2.1
      have hmine := h.mine
      rw [hpend] at hdebt hmine
      simp only [Party.recv, Party.reply, if_pos hv, tagged, List.map_cons, List.map_nil]
      refine ⟨?_, h.ahead.append ⟨?_, trivial⟩, fun e => ?_, ?_⟩
      · change s.h.ep + s.h.pend.toNat + asks (s.toH ++ [(s.g.ep, .ask t)]) ≤ s.g.ep + 1 + 1
        rw [asks_append]
        change s.h.ep + s.h.pend.toNat + (asks s.toH + 1) ≤ _
        simp only [Bool.toNat_false] at hdebt
        omega
      · change _ ≤ s.g.ep + 2
        simp only [Bool.toNat_false] at hdebt
        omega
      · change asksOf e (s.toH ++ [(s.g.ep, .ask t)]) ≤ 1
        rw [asksOf_append]
        change asksOf e s.toH + ((if s.g.ep = e then 1 else 0) + 0) ≤ 1
        split
        · next he =>
          rw [← he]
          simp only [Bool.toNat_false] at hmine
          omega
        · exact h.once e
      · change asksOf s.g.ep (s.toH ++ [(s.g.ep, .ask t)]) ≤ 1
        rw [asksOf_append]
        change asksOf s.g.ep s.toH + ((if s.g.ep = s.g.ep then 1 else 0) + 0) ≤ 1
        simp only [Bool.toNat_false] at hmine
        rw [if_pos rfl]
        omega
    · simp only [Party.recv, Party.reply, if_neg hv]
      exact h.send (I := s.inG) (K := s.ckG) (L := s.logG) rfl rfl
        (fun m hm => absurd hm List.not_mem_nil)
  | hold r =>
    exact h.send (g := s.g.recv d false (.hold r)) (b := []) rfl rfl
      (fun m hm => absurd hm List.not_mem_nil)
  | chunk f =>
    exact h.send (g := s.g) (b := []) rfl rfl (fun m hm => absurd hm List.not_mem_nil)
  | fin =>
    have hscript := hc.script
    rw [hq] at hscript
    obtain ⟨-, hhold, -⟩ := hscript
    have hpend := Bool.toNat_le s.g.pend
    simp only [Party.recv, hhold, if_true, Party.reply, tagged, List.map_nil, List.append_nil]
    refine ⟨?_, h.ahead, h.once, ?_⟩
    · change s.h.ep + s.h.pend.toNat + asks s.toH ≤ s.g.ep + 1 + 1 + 0
      omega
    · change asksOf (s.g.ep + 1) s.toH ≤ 0
      refine Nat.le_of_eq (asksOf_none (fun x hx he => ?_))
      have := hc.linkH.tag_le x hx
      omega
  | ask t =>
    have hscript := hc.script
    rw [hq] at hscript
    exact hscript.2.elim

theorem recvH (h : Debt s) (hk : Checks s) (hc : Core d s) (hd : d ≤ 15) {e : Nat} {m : Msg}
    {q : List (Nat × Msg)} (hq : s.toH = (e, m) :: q) : Debt (s.recvH d m q) := by
  have hdebt := h.debt
  have hahead := h.ahead
  have hmine := h.mine
  have honce := h.once
  have hep := (hc.recv_host hq).1
  rw [hq] at hdebt hahead hmine honce
  have hq1 : ∀ e', asksOf e' q ≤ asksOf e' ((e, m) :: q) := fun e' => Nat.le_add_left _ _
  have hle : asksOf s.g.ep q ≤ s.g.pend.toNat := Nat.le_trans (hq1 _) hmine
  have hone : ∀ e', asksOf e' q ≤ 1 := fun e' => Nat.le_trans (hq1 e') (honce e')
  -- the rest of the queue, if the host's wish for a push grows by no more than the message asked
  have hrest : ∀ p : Party, p.ep = s.h.ep → p.pend.toNat ≤ s.h.pend.toNat + m.asks →
      Debt { s with h := p, toH := q } := by
    intro p hpe hpp
    refine ⟨?_, hahead.2.mono ?_, hone, hle⟩
    · change p.ep + p.pend.toNat + asks q ≤ s.g.ep + 1 + s.g.pend.toNat
      change s.h.ep + s.h.pend.toNat + (m.asks + asks q) ≤ _ at hdebt
      omega
    · change p.ep + p.pend.toNat ≤ _
      dsimp only
      omega
  unfold Sys.recvH
  by_cases hbad : ∃ t v, m = .crc t v ∧ s.h.verdict t v = .bad
  · obtain ⟨t, v, rfl, hv⟩ := hbad
    obtain ⟨rfl, -⟩ := hk.bad_host hc hd hq hv
    have hlink := hc.linkH
    rw [hq] at hlink
    have hge : s.g.ep = s.h.ep := Nat.le_antisymm hc.ep_le (hlink.tag_le _ List.mem_cons_self)
    have htag : ∀ x ∈ q, x.1 = s.g.ep := by
      intro x hx
      have h1 := (List.rel_of_pairwise_cons hlink.order hx).1
      have h2 := hlink.tag_le x (List.mem_cons_of_mem _ hx)
      dsimp only at h1
      omega
    have hasks : asks q ≤ s.g.pend.toNat := by
      rw [asks_eq_of htag]
      exact hle
    have hpend := Bool.toNat_le s.g.pend
    simp only [Party.recv, if_pos hv]
    refine ⟨?_, Ahead.of_asks (e := s.h.ep) (fun x hx => ?_) ?_, hone, hle⟩
    · change s.h.ep + 1 + asks q ≤ s.g.ep + 1 + s.g.pend.toNat
      omega
    · exact Nat.le_of_eq (hge.symm.trans (htag x hx).symm)
    · change s.h.ep + 1 + asks q ≤ s.h.ep + 2
      omega
  · refine hrest _ hep ?_
    cases m with
    | input t c =>
      rw [Party.recv]
      split <;> exact Nat.le_add_right _ _
    | crc t v =>
      rw [Party.recv, if_neg (fun hv => hbad ⟨t, v, rfl, hv⟩)]
      exact Nat.le_add_right _ _
    | hold r => exact Nat.le_add_right _ _
    | chunk f => exact Nat.le_add_right _ _
    | fin => exact (hc.up (e, .fin) (by rw [hq]; exact List.mem_cons_self)).elim
    | ask t => exact Nat.le_trans (Bool.toNat_le _) (Nat.le_add_left _ _)

theorem captureG (h : Debt s) (c : Cell) : Debt (s.captureG d c) :=
  h.send (b := [.input (s.g.t + d) c]) rfl rfl (fun m hm => by rw [List.mem_singleton.mp hm]; rfl)

theorem runG (h : Debt s) (v : Nat) : Debt (s.runG v) := by
  refine h.send (I := s.inG) rfl rfl (fun m hm => ?_)
  unfold Party.report at hm
  split at hm
  · rw [List.mem_singleton.mp hm]
    rfl
  · exact absurd hm List.not_mem_nil

/-- The host's tick and its own stream are no part of it. -/
theorem host (h : Debt s) {p : Party} {q : List (Nat × Msg)} {I K L} (hep : p.ep = s.h.ep)
    (hp : p.pend = s.h.pend) : Debt { s with h := p, toG := q, inH := I, ckH := K, logH := L } := by
  refine ⟨?_, ?_, h.once, h.mine⟩
  · change p.ep + p.pend.toNat + asks s.toH ≤ _
    rw [hep, hp]
    exact h.debt
  · change Ahead (p.ep + p.pend.toNat) s.toH
    rw [hep, hp]
    exact h.ahead

/-- A push pays for the request. -/
theorem pushH (h : Debt s) (hp : s.h.pend = true) (fs : List (List Byte)) :
    Debt (s.pushH d fs) := by
  have hdebt := h.debt
  have hahead := h.ahead
  rw [hp] at hdebt hahead
  exact ⟨hdebt, hahead, h.once, h.mine⟩

end Debt
end

/-! ## All of it -/

structure Inv (d : Nat) (s : Sys) : Prop where
  core : Core d s
  margin : Margin d s
  checks : Checks s
  debt : Debt s

section
variable {d : Nat} {s s' : Sys}

theorem inv_start (hd : 1 ≤ d) : Inv d (Sys.start d) where
  core := core_start hd
  margin := by
    refine ⟨fun f _ hlt => ?_, fun hlt => ?_, fun f _ e _ hlt => ?_, fun x hx => ?_⟩
    · exact absurd hlt (Nat.not_lt_zero _)
    · exact absurd hlt (Nat.not_lt_zero _)
    · exact absurd hlt (Nat.not_lt_zero _)
    · exact absurd hx List.not_mem_nil
  checks := by
    refine ⟨Records.none (fun _ => rfl), Records.none (fun _ => rfl), fun e t v hv => ?_,
      fun e t v hv => ?_, fun x hx => ?_, fun x hx => ?_, fun e t v hv => ?_⟩
    · cases hv
    · cases hv
    · exact absurd hx List.not_mem_nil
    · exact absurd hx List.not_mem_nil
    · cases hv
  debt := ⟨Nat.zero_le _, trivial, fun _ => Nat.zero_le _, Nat.le_refl _⟩

theorem Inv.step (h : Inv d s) (hd : 1 ≤ d) (hd' : d ≤ 15) (hs : Step d s s') : Inv d s' := by
  have hcore := h.core.step hd hd' hs
  cases hs with
  | recvH hq =>
    exact ⟨hcore, h.margin.recvH h.core hd' hq, h.checks.recvH h.core hq,
      h.debt.recvH h.checks h.core hd' hq⟩
  | recvG hq =>
    exact ⟨hcore, h.margin.recvG h.core hq, h.checks.recvG hq, h.debt.recvG h.core hq⟩
  | captureH c hc => exact ⟨hcore, h.margin.host rfl rfl, h.checks.captureH c, h.debt.host rfl rfl⟩
  | captureG c hc => exact ⟨hcore, h.margin.captureG hc c, h.checks.captureG c, h.debt.captureG c⟩
  | runH v hc hw =>
    exact ⟨hcore, h.margin.host rfl rfl, h.checks.runH h.core v, h.debt.host rfl rfl⟩
  | runG v hc hw =>
    exact ⟨hcore, h.margin.runG hc v, h.checks.runG h.core v, h.debt.runG v⟩
  | pushH fs hc hp =>
    exact ⟨hcore, h.margin.pushH h.core fs, h.checks.pushH h.core fs, h.debt.pushH hp fs⟩

theorem Reach.inv (h : Reach d s) (hd : 1 ≤ d) (hd' : d ≤ 15) : Inv d s := by
  induction h with
  | start => exact inv_start hd
  | step _ hs ih => exact ih.step hd hd' hs

end

/-! ## Ticks that are compared -/

section
variable {d : Nat} {s : Sys}

namespace Inv

/-- The two in one epoch: each has taken no more than the other sent. -/
theorem level (h : Inv d s) (he : s.g.ep = s.h.ep) :
    s.h.t ≤ s.g.t + d + 1 ∧ s.g.t ≤ s.h.t + d + 1 ∧ s.h.wm < s.g.t + d + 1 ∧
      s.g.wm < s.h.t + d + 1 := by
  have h1 := h.core.linkG.sync he
  have h2 := h.core.linkH.sync he.symm
  have h3 := Party.nt_ge d s.h
  have h4 := Party.nt_ge d s.g
  have h5 := h.core.clockH.t_le
  have h6 := h.core.clockG.t_le
  omega

/-- At the gate. -/
theorem slack (h : Inv d s) (hd : d ≤ 15) : s.h.t ≤ s.h.wm + 1 ∧ s.h.wm ≤ s.h.t + 32 ∧
    s.g.t ≤ s.g.wm + 1 ∧ s.g.wm ≤ s.g.t + 32 := by
  have h5 := h.core.clockH.t_le
  have h6 := h.core.clockG.t_le
  have h7 := h.core.clockH.base_le
  by_cases he : s.g.ep = s.h.ep
  · have := h.level he
    omega
  · have hlt : s.g.ep < s.h.ep := Nat.lt_of_le_of_ne h.core.ep_le he
    have h1 := h.core.fresh hlt
    have h2 := h.core.behind hlt
    have h3 := h.margin.close hlt
    have h4 := Party.nt_ge d s.g
    omega

/-- An input the guest reads is a new one, and near. -/
theorem input_guest (h : Inv d s) (hd : d ≤ 15) {e t : Nat} {c : Cell} {q : List (Nat × Msg)}
    (hq : s.toG = (e, .input t c) :: q) : s.g.wm < t ∧ t ≤ s.g.wm + 64 := by
  have hmem : (e, Msg.input t c) ∈ s.toG := by rw [hq]; exact List.mem_cons_self
  have hscript := h.core.script
  rw [hq] at hscript
  obtain ⟨rfl, -⟩ := hscript
  refine ⟨h.core.linkG.data_live _ hmem rfl t c rfl, ?_⟩
  have hslack := h.slack hd
  by_cases he : s.g.ep = s.h.ep
  · have h1 := h.core.linkG.newest _ hmem he t rfl
    have h2 := Party.nt_ge d s.h
    have h3 := h.level he
    omega
  · have hlt : s.g.ep < s.h.ep := Nat.lt_of_le_of_ne h.core.ep_le he
    have h1 := h.core.last _ t c hlt (h.core.linkG.sent _ hmem t c rfl)
    have h2 := h.margin.close hlt
    have h3 := Party.nt_ge d s.g
    omega

/-- A message of an epoch that is over: the host has run a few ticks since. -/
theorem stale (h : Inv d s) (hd : d ≤ 15) {e : Nat} {m : Msg} {q : List (Nat × Msg)}
    (hq : s.toH = (e, m) :: q) (he : e < s.h.ep) {k : Nat} (hk : (coding d).level m = some k) :
    k ≤ s.h.wm ∧ s.h.wm ≤ k + 64 := by
  have hmem : (e, m) ∈ s.toH := by rw [hq]; exact List.mem_cons_self
  have hun : Unread s e := Or.inr ⟨_, hmem, rfl⟩
  have h1 := h.margin.fresh e hun he
  have h2 := h.margin.recent _ hmem he k hk
  have hahead := h.debt.ahead
  rw [hq] at hahead
  have h3 := hahead.1
  refine ⟨h.core.stale_le_wm hd hmem he hk, ?_⟩
  dsimp only at h2 h3
  by_cases hone : s.h.ep = e + 1
  · rw [hone] at h1
    omega
  · have htwo : s.h.ep = e + 1 + 1 := by omega
    have h4 := h.margin.alone e hun (e + 1) (Nat.lt_succ_self _) (by omega)
    rw [htwo] at h1
    omega

theorem input_host (h : Inv d s) (hd : d ≤ 15) {e t : Nat} {c : Cell} {q : List (Nat × Msg)}
    (hq : s.toH = (e, .input t c) :: q) : t ≤ s.h.wm + 64 ∧ s.h.wm ≤ t + 64 := by
  have hmem : (e, Msg.input t c) ∈ s.toH := by rw [hq]; exact List.mem_cons_self
  by_cases he : e = s.h.ep
  · subst he
    have h1 := h.core.linkH.data_live _ hmem rfl t c rfl
    have hge : s.g.ep = s.h.ep := Nat.le_antisymm h.core.ep_le (h.core.linkH.tag_le _ hmem)
    have h2 := h.core.linkH.newest _ hmem hge.symm t rfl
    have h3 := Party.nt_ge d s.g
    have h4 := h.level hge
    have h5 := h.slack hd
    omega
  · have hlt := Nat.lt_of_le_of_ne (h.core.tag_toH hmem) he
    have h1 := h.stale hd hq hlt (k := t) rfl
    omega

/-- A record is near any report the console can be comparing it with. -/
theorem report_host (h : Inv d s) (hd : d ≤ 15) {e t v : Nat} {q : List (Nat × Msg)}
    (hq : s.toH = (e, .crc t v) :: q) {i t' v' : Nat} (hr : s.h.recs i = some (t', v')) :
    t ≤ t' + 512 ∧ t' ≤ t + 512 := by
  have hmem : (e, Msg.crc t v) ∈ s.toH := by rw [hq]; exact List.mem_cons_self
  obtain ⟨-, -, -, -, h1, h2⟩ := h.checks.recH i t' v' hr
  have hslack := h.slack hd
  by_cases he : e = s.h.ep
  · subst he
    have h3 := h.core.linkH.level_live _ hmem rfl (t + d) rfl
    have hge : s.g.ep = s.h.ep := Nat.le_antisymm h.core.ep_le (h.core.linkH.tag_le _ hmem)
    have h4 := h.core.linkH.newest _ hmem hge.symm (t + d) rfl
    have h5 := Party.nt_ge d s.g
    have h6 := h.level hge
    omega
  · have hlt := Nat.lt_of_le_of_ne (h.core.tag_toH hmem) he
    have h3 := h.stale hd hq hlt (k := t + d) rfl
    omega

theorem report_guest (h : Inv d s) (hd : d ≤ 15) {e t v : Nat} {q : List (Nat × Msg)}
    (hq : s.toG = (e, .crc t v) :: q) {i t' v' : Nat} (hr : s.g.recs i = some (t', v')) :
    t ≤ t' + 512 ∧ t' ≤ t + 512 := by
  have hmem : (e, Msg.crc t v) ∈ s.toG := by rw [hq]; exact List.mem_cons_self
  obtain ⟨-, -, -, -, h1, h2⟩ := h.checks.recG i t' v' hr
  have hslack := h.slack hd
  have hscript := h.core.script
  rw [hq] at hscript
  obtain ⟨rfl, -⟩ := hscript
  have h3 := h.core.linkG.level_live _ hmem rfl (t + d) rfl
  by_cases he : s.g.ep = s.h.ep
  · have h4 := h.core.linkG.newest _ hmem he (t + d) rfl
    have h5 := Party.nt_ge d s.h
    have h6 := h.level he
    omega
  · have hlt : s.g.ep < s.h.ep := Nat.lt_of_le_of_ne h.core.ep_le he
    have h4 := h.checks.past _ _ _ (h.checks.wireG _ hmem t v rfl) hlt
    have h5 := h.margin.close hlt
    have h6 := Party.nt_ge d s.g
    dsimp only at h4
    omega

end Inv
end

end IntvBasketball.Duel
