/-
  A FIFO stream of clocked data, in epochs.

  A sender writes at most one item for each time, in order; `I e t` is the item of time
  `t` in epoch `e`. Items travel with other messages, some of which (reports) belong to
  a time as well. Each epoch `e` starts afresh at time `start e`, and sender and receiver
  enter it at moments of their own. `Link` is what holds between them: the sender is in
  epoch `se` and sends time `nt` next, the receiver is in epoch `re` and has taken
  everything below `nx`.

  The rules say how each step keeps it: `sendData`, `skip`, `sendLevel`, `sendPlain` and
  `nextSender` for the sender, `recvData`, `recvStale`, `recvPlain` and `nextReceiver` for
  the receiver.
-/
import IntvBasketball.Lib.Slots

namespace IntvBasketball.Lib

/-- What a message carries: an item with its time, or only a time. -/
structure Coding (M α : Type) where
  data : M → Option (Nat × α)
  level : M → Option Nat
  level_data : ∀ {m t c}, data m = some (t, c) → level m = some t

/-- The sending order: epochs rise; in an epoch, times do not fall, and an item's time is
    a new one. -/
def Coding.Before {M α : Type} (C : Coding M α) (a b : Nat × M) : Prop :=
  a.1 ≤ b.1 ∧ (a.1 = b.1 → ∀ ka kb, C.level a.2 = some ka → C.level b.2 = some kb →
    ka ≤ kb ∧ (C.data b.2 ≠ none → ka < kb))

structure Link {M α : Type} (C : Coding M α) (start : Nat → Nat) (q : List (Nat × M))
    (I : Nat → Nat → Option α) (se nt re nx : Nat) : Prop where
  tag_le : ∀ x ∈ q, x.1 ≤ se
  order : q.Pairwise C.Before
  newest : ∀ x ∈ q, x.1 = se → ∀ k, C.level x.2 = some k → k < nt
  data_live : ∀ x ∈ q, x.1 = re → ∀ t c, C.data x.2 = some (t, c) → nx ≤ t
  level_live : ∀ x ∈ q, x.1 = re → ∀ k, C.level x.2 = some k → nx ≤ k + 1
  level_start : ∀ x ∈ q, ∀ k, C.level x.2 = some k → start x.1 ≤ k
  sent : ∀ x ∈ q, ∀ t c, C.data x.2 = some (t, c) → I x.1 t = some c
  todo : ∀ e t c, I e t = some c → e < re ∨ (e = re ∧ t < nx) ∨
    ∃ m, (e, m) ∈ q ∧ C.data m = some (t, c)
  first : ∀ e t c, I e t = some c → start e ≤ t
  later : ∀ e t, se < e → I e t = none
  unsent : ∀ t, nt ≤ t → I se t = none
  sync : re = se → nx ≤ nt

/-- Item `c` for time `t` of epoch `e`. -/
def putItem {α : Type} (I : Nat → Nat → Option α) (e t : Nat) (c : α) : Nat → Nat → Option α :=
  fun e' t' => if e' = e ∧ t' = t then some c else I e' t'

section
variable {M α : Type} {C : Coding M α} {start : Nat → Nat} {q : List (Nat × M)}
  {I : Nat → Nat → Option α} {se nt re nx : Nat}

theorem putItem_self (I : Nat → Nat → Option α) (e t : Nat) (c : α) :
    putItem I e t c e t = some c := if_pos ⟨rfl, rfl⟩

theorem putItem_ne {e t e' t' : Nat} (c : α) (h : ¬ (e' = e ∧ t' = t)) :
    putItem I e t c e' t' = I e' t' := if_neg h

/-- Nothing sent, nothing taken. -/
theorem Link.init (start : Nat → Nat) (nt : Nat) (hne : ∀ e t, I e t = none) :
    Link C start [] I 0 nt 0 nt where
  tag_le := by simp
  order := List.Pairwise.nil
  newest := by simp
  data_live := by simp
  level_live := by simp
  level_start := by simp
  sent := by simp
  todo e t c hc := by rw [hne] at hc; cases hc
  first e t c hc := by rw [hne] at hc; cases hc
  later e t _ := hne e t
  unsent t _ := hne 0 t
  sync _ := Nat.le_refl _

namespace Link

theorem pairwise_snoc (h : Link C start q I se nt re nx) (m : M)
    (hm : ∀ k, C.level m = some k → (∀ x ∈ q, x.1 = se → ∀ ka, C.level x.2 = some ka →
      ka ≤ k ∧ (C.data m ≠ none → ka < k))) : (q ++ [(se, m)]).Pairwise C.Before := by
  refine List.pairwise_append.mpr ⟨h.order, List.pairwise_singleton _ _, fun a ha b hb => ?_⟩
  rw [List.mem_singleton] at hb
  subst hb
  exact ⟨h.tag_le a ha, fun he ka kb hka hkb => hm kb hkb a ha he ka hka⟩

/-- The item of time `nt`. -/
theorem sendData (h : Link C start q I se nt re nx) {m : M} {c : α}
    (hm : C.data m = some (nt, c)) (hst : start se ≤ nt) :
    Link C start (q ++ [(se, m)]) (putItem I se nt c) se (nt + 1) re nx := by
  have hlev : ∀ k, C.level m = some k → k = nt := fun k hk =>
    Option.some.inj (hk.symm.trans (C.level_data hm))
  have hput : ∀ e t c', putItem I se nt c e t = some c' →
      (e = se ∧ t = nt ∧ c' = c) ∨ I e t = some c' := by
    intro e t c' h1
    by_cases het : e = se ∧ t = nt
    · rw [het.1, het.2, putItem_self, Option.some.injEq] at h1
      exact Or.inl ⟨het.1, het.2, h1.symm⟩
    · rw [putItem_ne c het] at h1
      exact Or.inr h1
  refine ⟨?_, h.pairwise_snoc m ?_, ?_, ?_, ?_, ?_, ?_, ?_, ?_, ?_, ?_, ?_⟩
  · simp only [List.mem_append, List.mem_singleton]
    rintro x (hx | rfl)
    · exact h.tag_le x hx
    · exact Nat.le_refl _
  · intro k hk x hx he ka hka
    have := h.newest x hx he ka hka
    rw [hlev k hk]
    exact ⟨by omega, fun _ => this⟩
  · simp only [List.mem_append, List.mem_singleton]
    rintro x (hx | rfl) he k hk
    · exact Nat.lt_succ_of_lt (h.newest x hx he k hk)
    · rw [hlev k hk]
      exact Nat.lt_succ_self _
  · simp only [List.mem_append, List.mem_singleton]
    rintro x (hx | rfl) he t c' hc
    · exact h.data_live x hx he t c' hc
    · rw [hm, Option.some.injEq, Prod.mk.injEq] at hc
      rw [← hc.1]
      exact h.sync he.symm
  · simp only [List.mem_append, List.mem_singleton]
    rintro x (hx | rfl) he k hk
    · exact h.level_live x hx he k hk
    · have := h.sync he.symm
      rw [hlev k hk]
      omega
  · simp only [List.mem_append, List.mem_singleton]
    rintro x (hx | rfl) k hk
    · exact h.level_start x hx k hk
    · rw [hlev k hk]
      exact hst
  · simp only [List.mem_append, List.mem_singleton]
    rintro x (hx | rfl) t c' hc
    · have hold := h.sent x hx t c' hc
      by_cases het : x.1 = se ∧ t = nt
      · rw [het.1, het.2, h.unsent nt (Nat.le_refl _)] at hold
        cases hold
      · rw [putItem_ne c het]
        exact hold
    · rw [hm, Option.some.injEq, Prod.mk.injEq] at hc
      rw [← hc.1, ← hc.2]
      exact putItem_self I se nt c
  · intro e t c' hc
    rcases hput e t c' hc with ⟨rfl, rfl, rfl⟩ | hold
    · exact Or.inr (Or.inr ⟨m, List.mem_append_right _ (List.mem_singleton_self _), hm⟩)
    · refine (h.todo e t c' hold).imp_right (Or.imp_right ?_)
      rintro ⟨m', hm', hd⟩
      exact ⟨m', List.mem_append_left _ hm', hd⟩
  · intro e t c' hc
    rcases hput e t c' hc with ⟨rfl, rfl, -⟩ | hold
    · exact hst
    · exact h.first e t c' hold
  · intro e t he
    rw [putItem_ne c (by omega)]
    exact h.later e t he
  · intro t ht
    rw [putItem_ne c (by omega)]
    exact h.unsent t (by omega)
  · intro he
    exact Nat.le_succ_of_le (h.sync he)

/-- A time without an item. -/
theorem skip (h : Link C start q I se nt re nx) : Link C start q I se (nt + 1) re nx :=
  { h with
    newest := fun x hx he k hk => Nat.lt_succ_of_lt (h.newest x hx he k hk)
    unsent := fun t ht => h.unsent t (by omega)
    sync := fun he => Nat.le_succ_of_le (h.sync he) }

/-- A message that belongs to the last time sent, or to none. -/
theorem sendLevel (h : Link C start q I se nt re nx) {m : M} (hm : C.data m = none)
    (hk : ∀ k, C.level m = some k → k + 1 = nt ∧ start se ≤ k) :
    Link C start (q ++ [(se, m)]) I se nt re nx := by
  refine { h with tag_le := ?_, order := h.pairwise_snoc m ?_, newest := ?_, data_live := ?_,
                  level_live := ?_, level_start := ?_, sent := ?_, todo := ?_ }
  · simp only [List.mem_append, List.mem_singleton]
    rintro x (hx | rfl)
    · exact h.tag_le x hx
    · exact Nat.le_refl _
  · intro k hlev x hx he ka hka
    have := h.newest x hx he ka hka
    have := (hk k hlev).1
    exact ⟨by omega, fun hne => absurd hm hne⟩
  · simp only [List.mem_append, List.mem_singleton]
    rintro x (hx | rfl) he k hlev
    · exact h.newest x hx he k hlev
    · have := (hk k hlev).1
      omega
  · simp only [List.mem_append, List.mem_singleton]
    rintro x (hx | rfl) he t c hc
    · exact h.data_live x hx he t c hc
    · rw [hm] at hc
      cases hc
  · simp only [List.mem_append, List.mem_singleton]
    rintro x (hx | rfl) he k hlev
    · exact h.level_live x hx he k hlev
    · have := (hk k hlev).1
      have := h.sync he.symm
      omega
  · simp only [List.mem_append, List.mem_singleton]
    rintro x (hx | rfl) k hlev
    · exact h.level_start x hx k hlev
    · exact (hk k hlev).2
  · simp only [List.mem_append, List.mem_singleton]
    rintro x (hx | rfl) t c hc
    · exact h.sent x hx t c hc
    · rw [hm] at hc
      cases hc
  · intro e t c hc
    refine (h.todo e t c hc).imp_right (Or.imp_right ?_)
    rintro ⟨m', hm', hd⟩
    exact ⟨m', List.mem_append_left _ hm', hd⟩

/-- Messages that belong to no time. -/
theorem sendPlain (h : Link C start q I se nt re nx) (ms : List M)
    (hm : ∀ m ∈ ms, C.data m = none ∧ C.level m = none) :
    Link C start (q ++ ms.map (fun m => (se, m))) I se nt re nx := by
  induction ms generalizing q with
  | nil => simpa using h
  | cons m ms ih =>
    obtain ⟨hd, hl⟩ := hm m List.mem_cons_self
    have h1 := h.sendLevel hd (fun k hk => by rw [hl] at hk; cases hk)
    have h2 := ih h1 (fun m' hm' => hm m' (List.mem_cons_of_mem _ hm'))
    rwa [List.append_assoc] at h2

/-- Only the starts of epochs the sender has reached matter. -/
theorem congr_start {start' : Nat → Nat} (h : Link C start q I se nt re nx)
    (hs : ∀ e ≤ se, start' e = start e) : Link C start' q I se nt re nx :=
  { h with
    level_start := fun x hx k hk => by
      rw [hs x.1 (h.tag_le x hx)]
      exact h.level_start x hx k hk
    first := fun e t c hc => by
      by_cases he : se < e
      · rw [h.later e t he] at hc
        cases hc
      · rw [hs e (by omega)]
        exact h.first e t c hc }

/-- The sender enters its next epoch. -/
theorem nextSender (h : Link C start q I se nt re nx) {nt' : Nat}
    (hs : re = se + 1 → nx ≤ nt') : Link C start q I (se + 1) nt' re nx :=
  { h with
    tag_le := fun x hx => Nat.le_succ_of_le (h.tag_le x hx)
    newest := fun x hx he => by
      have := h.tag_le x hx
      omega
    later := fun e t he => h.later e t (by omega)
    unsent := fun t _ => h.later (se + 1) t (Nat.lt_succ_self _)
    sync := hs }

/-- The first message is the next item of the receiver's epoch. -/
theorem recvData {m : M} {t : Nat} {c : α} (h : Link C start ((re, m) :: q) I se nt re nx)
    (hm : C.data m = some (t, c)) : Link C start q I se nt re (t + 1) := by
  have hhead : ∀ x ∈ q, C.Before (re, m) x := fun _ hx => List.rel_of_pairwise_cons h.order hx
  have hlev := C.level_data hm
  refine ⟨fun x hx => h.tag_le x (List.mem_cons_of_mem _ hx), h.order.of_cons,
    fun x hx => h.newest x (List.mem_cons_of_mem _ hx), ?_, ?_,
    fun x hx => h.level_start x (List.mem_cons_of_mem _ hx),
    fun x hx => h.sent x (List.mem_cons_of_mem _ hx), ?_, h.first, h.later, h.unsent, ?_⟩
  · intro x hx he t' c' hc
    exact ((hhead x hx).2 he.symm t t' hlev (C.level_data hc)).2 (by simp [hc])
  · intro x hx he k hk
    have := ((hhead x hx).2 he.symm t k hlev hk).1
    omega
  · intro e t' c' hc
    rcases h.todo e t' c' hc with hlt | ⟨rfl, hlt⟩ | ⟨m', hm', hd⟩
    · exact Or.inl hlt
    · have := h.data_live _ List.mem_cons_self rfl t c hm
      exact Or.inr (Or.inl ⟨rfl, by omega⟩)
    · rcases List.mem_cons.mp hm' with heq | hm'
      · cases heq
        rw [hm, Option.some.injEq, Prod.mk.injEq] at hd
        exact Or.inr (Or.inl ⟨rfl, by omega⟩)
      · exact Or.inr (Or.inr ⟨m', hm', hd⟩)
  · intro he
    exact h.newest _ List.mem_cons_self he t hlev

/-- Nothing was sent for the times between. -/
theorem gap {m : M} {t : Nat} {c : α} (h : Link C start ((re, m) :: q) I se nt re nx)
    (hm : C.data m = some (t, c)) {u : Nat} (hu : nx ≤ u) (hut : u < t) : I re u = none := by
  cases hI : I re u with
  | none => rfl
  | some c' =>
    rcases h.todo re u c' hI with hlt | ⟨-, hlt⟩ | ⟨m', hm', hd⟩
    · omega
    · omega
    · rcases List.mem_cons.mp hm' with heq | hm'
      · cases heq
        rw [hm, Option.some.injEq, Prod.mk.injEq] at hd
        omega
      · have := ((List.rel_of_pairwise_cons h.order hm').2 rfl t u (C.level_data hm)
          (C.level_data hd)).1
        omega

/-- Taking an item into a ring of `n` slots. -/
theorem ring_recv (n : Nat) (idle : α) {m : M} {t : Nat} {c : α}
    (h : Link C start ((re, m) :: q) I se nt re nx) (hm : C.data m = some (t, c)) :
    ringAt n idle (I re) (t + 1) =
      Function.update (ringAt n idle (I re) nx) (t % n) c := by
  rw [ringAt_put (h.sent _ List.mem_cons_self t c hm),
    ringAt_skip (h.data_live _ List.mem_cons_self rfl t c hm) (fun u h1 h2 => h.gap hm h1 h2)]

/-- The first message is an item of an epoch that is over. -/
theorem recvStale {e : Nat} {m : M} (h : Link C start ((e, m) :: q) I se nt re nx) (he : e < re) :
    Link C start q I se nt re nx := by
  refine ⟨fun x hx => h.tag_le x (List.mem_cons_of_mem _ hx), h.order.of_cons,
    fun x hx => h.newest x (List.mem_cons_of_mem _ hx),
    fun x hx => h.data_live x (List.mem_cons_of_mem _ hx),
    fun x hx => h.level_live x (List.mem_cons_of_mem _ hx),
    fun x hx => h.level_start x (List.mem_cons_of_mem _ hx),
    fun x hx => h.sent x (List.mem_cons_of_mem _ hx), ?_, h.first, h.later, h.unsent, h.sync⟩
  intro e' t c hc
  rcases h.todo e' t c hc with hlt | hlt | ⟨m', hm', hd⟩
  · exact Or.inl hlt
  · exact Or.inr (Or.inl hlt)
  · rcases List.mem_cons.mp hm' with heq | hm'
    · cases heq
      exact Or.inl he
    · exact Or.inr (Or.inr ⟨m', hm', hd⟩)

/-- The first message is no item. -/
theorem recvPlain {x : Nat × M} (h : Link C start (x :: q) I se nt re nx)
    (hm : C.data x.2 = none) : Link C start q I se nt re nx := by
  refine ⟨fun x hx => h.tag_le x (List.mem_cons_of_mem _ hx), h.order.of_cons,
    fun x hx => h.newest x (List.mem_cons_of_mem _ hx),
    fun x hx => h.data_live x (List.mem_cons_of_mem _ hx),
    fun x hx => h.level_live x (List.mem_cons_of_mem _ hx),
    fun x hx => h.level_start x (List.mem_cons_of_mem _ hx),
    fun x hx => h.sent x (List.mem_cons_of_mem _ hx), ?_, h.first, h.later, h.unsent, h.sync⟩
  intro e t c hc
  refine (h.todo e t c hc).imp_right (Or.imp_right ?_)
  rintro ⟨m', hm', hd⟩
  rcases List.mem_cons.mp hm' with heq | hm'
  · rw [← heq, hd] at hm
    cases hm
  · exact ⟨m', hm', hd⟩

/-- The receiver enters its next epoch. -/
theorem nextReceiver (h : Link C start q I se nt re nx) (hs : re + 1 = se → start se ≤ nt) :
    Link C start q I se nt (re + 1) (start (re + 1)) := by
  refine { h with data_live := ?_, level_live := ?_, todo := ?_, sync := ?_ }
  · intro x hx he t c hc
    rw [← he]
    exact h.first _ t c (h.sent x hx t c hc)
  · intro x hx he k hk
    rw [← he]
    exact Nat.le_succ_of_le (h.level_start x hx k hk)
  · intro e t c hc
    rcases h.todo e t c hc with hlt | ⟨rfl, -⟩ | hq
    · exact Or.inl (by omega)
    · exact Or.inl (Nat.lt_succ_self _)
    · exact Or.inr (Or.inr hq)
  · intro he
    rw [he]
    exact hs he

/-- At the start of its epoch the receiver's ring is idle. -/
theorem ring_start {n : Nat} {idle : α} (h : Link C start q I se nt re nx) (e : Nat) :
    ringAt n idle (I e) (start e) = fun _ => idle := by
  refine ringAt_idle (fun u hu => ?_)
  cases hI : I e u with
  | none => rfl
  | some c =>
    have := h.first e u c hI
    omega

end Link
end

end IntvBasketball.Lib
