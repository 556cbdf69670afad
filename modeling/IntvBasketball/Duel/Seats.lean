/-
  The protocol from one seat.

  Seat 0 is the host and seat 1 the guest. `Onward` is what a step does as that seat sees
  it: to its own party, to the messages it has not read and those it sent, and to the tale
  of its ticks and re-bases. Nothing changes at the other seat but its unread messages.
-/
import IntvBasketball.Duel.Tale

namespace IntvBasketball.Duel

open Lib Console

/-! ## Seats -/

namespace Sys

def party (y : Sys) (s : Nat) : Party := if s = 0 then y.h else y.g

/-- What the seat has not read. -/
def inbox (y : Sys) (s : Nat) : List (Nat × Msg) := if s = 0 then y.toH else y.toG

def log (y : Sys) (s : Nat) : Nat → List Beat := if s = 0 then y.logH else y.logG

def tale (y : Sys) (s : Nat) : List Ev := story y.base (y.log s) (y.party s).ep

end Sys

/-- Pushes, and what is on its way to be one. -/
def Sys.owed (y : Sys) : Nat := y.h.ep + y.h.pend.toNat + asks y.toH

/-- For tick `t` of epoch `e` seat `s` has another checksum than the `c` of its peer. -/
def Differ (y : Sys) (s e t c : Nat) : Prop :=
  ∃ b ∈ y.log s e, ∃ b' ∈ y.log (1 - s) e, b.t = b'.t ∧ b.t % 64 = 0 ∧ b.t % 65536 = t ∧
    b'.sum = c ∧ b.sum ≠ c

/-- What a step is at seat `s`: it reads down to `q`, sends `out` and shows `evs`. -/
structure Onward (s : Nat) (y y' : Sys) (p : Party) (q out : List (Nat × Msg)) (evs : List Ev) :
    Prop where
  me : y'.party s = p
  peer : y'.party (1 - s) = y.party (1 - s)
  inbox : y'.inbox s = q
  outbox : y'.inbox (1 - s) = y.inbox (1 - s) ++ out
  tale : y'.tale s = y.tale s ++ evs.filterMap Ev.told
  peerTale : y'.tale (1 - s) = y.tale (1 - s)
  grow : ∀ r e, y.log r e <+: y'.log r e
  owed : y'.owed ≤ y.owed + evs.countP Ev.alarm
  differ : ∀ j t c, .onCrc t c .bad ∈ epochOf j evs → Differ y' s ((y.party s).ep + j) t c

section
variable {d s : Nat} {y y' y'' : Sys} {p p' : Party} {q q' out out' : List (Nat × Msg)}
  {evs evs' : List Ev}

theorem Differ.grow {e t c : Nat} (h : Differ y s e t c) (hg : ∀ r e, y.log r e <+: y'.log r e) :
    Differ y' s e t c := by
  obtain ⟨b, hb, b', hb', hrest⟩ := h
  exact ⟨b, (hg s e).subset hb, b', (hg (1 - s) e).subset hb', hrest⟩

theorem Onward.refl (s : Nat) (y : Sys) : Onward s y y (y.party s) (y.inbox s) [] [] where
  me := rfl
  peer := rfl
  inbox := rfl
  outbox := (List.append_nil _).symm
  tale := (List.append_nil _).symm
  peerTale := rfl
  grow _ _ := List.prefix_refl _
  owed := Nat.le_refl _
  differ _ _ _ h := absurd h List.not_mem_nil

/-- The epoch a step leads to. -/
theorem Onward.epoch (h : Onward s y y' p q out evs) :
    (y'.party s).ep = (y.party s).ep + (resumes evs).length := by
  have hlen : ∀ y : Sys, (resumes (y.tale s)).length = (y.party s).ep := by
    intro y
    rw [Sys.tale, resumes_story, List.length_map, List.length_range]
  rw [← hlen y', h.tale, resumes_append, resumes_told, List.length_append, hlen]

theorem Onward.trans (h : Onward s y y' p q out evs) (h' : Onward s y' y'' p' q' out' evs') :
    Onward s y y'' p' q' (out ++ out') (evs ++ evs') where
  me := h'.me
  peer := h'.peer.trans h.peer
  inbox := h'.inbox
  outbox := by rw [h'.outbox, h.outbox, List.append_assoc]
  tale := by rw [h'.tale, h.tale, List.append_assoc, List.filterMap_append]
  peerTale := h'.peerTale.trans h.peerTale
  grow r e := (h.grow r e).trans (h'.grow r e)
  owed := by
    have h1 := h.owed
    have h2 := h'.owed
    rw [List.countP_append]
    omega
  differ j t c hx := by
    rcases mem_epochOf_append.mp hx with hx | ⟨i, hj, hx⟩
    · exact (h.differ j t c hx).grow h'.grow
    · rw [hj, ← Nat.add_assoc, ← h.epoch]
      exact h'.differ i t c hx

/-- A step that shows no alarm. -/
theorem no_differ (h : evs.countP Ev.alarm = 0) (e : Nat) (j t c : Nat)
    (hx : .onCrc t c .bad ∈ epochOf j evs) : Differ y' s (e + j) t c := by
  have hnone := List.countP_eq_zero.mp h _ ((epochOf_sublist j evs).subset hx)
  exact absurd rfl hnone

theorem seat_cases (hs : s < 2) : s = 0 ∨ s = 1 := by omega

theorem log_grow (hs : Step d y y') (r e : Nat) : y.log r e <+: y'.log r e := by
  unfold Sys.log
  split
  · exact (logs_grow hs e).1
  · exact (logs_grow hs e).2

/-! ## Reading -/

/-- What the host takes for a difference is one. -/
theorem differ_host (hi : Inv d y) (hl : Logs d y) (hd : d ≤ 15) {e t v : Nat}
    (hq : y.toH = (e, .crc t v) :: q) (hv : y.h.verdict t v = .bad) :
    Differ y 0 y.h.ep (t % 65536) v := by
  obtain ⟨-, -, v', hr, -⟩ := verdict_bad hv
  obtain ⟨-, -, hz, -⟩ := hi.checks.recH _ _ _ hr
  obtain ⟨he, w, hH, hG, hne⟩ := hi.checks.bad_host hi.core hd hq hv
  obtain ⟨b, hb, ht, hsum⟩ := hl.sumH e t w hH
  obtain ⟨b', hb', ht', hsum'⟩ := hl.sumG e t v hG
  rw [he] at hb hb'
  exact ⟨b, hb, b', hb', ht.trans ht'.symm, ht.symm ▸ hz, by rw [ht], hsum', hsum.symm ▸ hne⟩

theorem differ_guest (hi : Inv d y) (hl : Logs d y) {e t v : Nat}
    (hq : y.toG = (e, .crc t v) :: q) (hv : y.g.verdict t v = .bad) :
    Differ y 1 y.g.ep (t % 65536) v := by
  obtain ⟨-, -, v', hr, -⟩ := verdict_bad hv
  obtain ⟨-, -, hz, -⟩ := hi.checks.recG _ _ _ hr
  obtain ⟨he, w, hG, hH, hne⟩ := hi.checks.bad_guest hi.core hq hv
  obtain ⟨b, hb, ht, hsum⟩ := hl.sumG e t w hG
  obtain ⟨b', hb', ht', hsum'⟩ := hl.sumH e t v hH
  rw [he] at hb hb'
  exact ⟨b, hb, b', hb', ht.trans ht'.symm, ht.symm ▸ hz, by rw [ht], hsum', hsum.symm ▸ hne⟩

/-- An alarm is news of a difference. -/
theorem news_alarm {m : Msg} {j t c : Nat} (h : .onCrc t c .bad ∈ epochOf j (p.news m)) :
    ∃ t', m = .crc t' c ∧ p.verdict t' c = .bad ∧ t = t' % 65536 ∧ j = 0 := by
  cases m with
  | crc t' v =>
    rw [Party.news] at h
    split at h
    · next hv =>
      cases j with
      | zero =>
        have hx : Ev.onCrc t c .bad = .onCrc (t' % 65536) v .bad := List.mem_singleton.mp h
        injection hx with h1 h2
        subst h1 h2
        exact ⟨t', rfl, hv, rfl, rfl⟩
      | succ j => exact absurd h List.not_mem_nil
    · exact absurd h List.not_mem_nil
  | fin =>
    have hin := (epochOf_sublist _ _).subset h
    rw [Party.news] at hin
    split at hin
    · exact absurd (List.mem_singleton.mp hin) (fun hx => by cases hx)
    · exact absurd hin List.not_mem_nil
  | _ => exact absurd h List.not_mem_nil

/-- What is told of a message: a re-base, or nothing. -/
theorem told_news (p : Party) {m : Msg} (hf : m ≠ .fin) : (p.news m).filterMap Ev.told = [] := by
  cases m with
  | crc t v =>
    rw [Party.news]
    split <;> rfl
  | fin => exact absurd rfl hf
  | _ => rfl

/-- A message to the host adds at most its own alarm to what is owed. -/
theorem owed_recvH (hc : Core d y) {e : Nat} {m : Msg} (hq : y.toH = (e, m) :: q) :
    (y.recvH d m q).owed ≤ y.owed + (y.h.news m).countP Ev.alarm := by
  obtain ⟨hep, -⟩ := hc.recv_host hq
  have hasks : y.owed = y.h.ep + y.h.pend.toNat + (m.asks + asks q) := by
    rw [Sys.owed, hq, asks]
  have hpend : (y.h.recv d true m).pend.toNat ≤
      y.h.pend.toNat + m.asks + (y.h.news m).countP Ev.alarm := by
    cases m with
    | crc t v =>
      rw [Party.recv, Party.news]
      split
      · exact Nat.le_trans (Bool.toNat_le _) (Nat.le_add_left _ _)
      · exact Nat.le_add_right _ _
    | ask t => exact Nat.le_trans (Bool.toNat_le _) (Nat.le_trans (Nat.le_add_left 1 _)
        (Nat.le_add_right _ _))
    | input t c =>
      rw [Party.recv]
      split <;> exact Nat.le_add_right _ _
    | hold r => exact Nat.le_add_right _ _
    | chunk f => exact Nat.le_add_right _ _
    | fin => exact (hc.up (e, .fin) (by rw [hq]; exact List.mem_cons_self)).elim
  change (y.h.recv d true m).ep + (y.h.recv d true m).pend.toNat + asks q ≤ _
  rw [hep, hasks]
  omega

theorem owed_recvG (m : Msg) : (y.recvG d m q).owed ≤ y.owed + (y.g.news m).countP Ev.alarm := by
  have hreply : asks (tagged y.g.ep (y.g.reply m)) ≤ (y.g.news m).countP Ev.alarm := by
    cases m with
    | crc t v =>
      rw [Party.reply, Party.news]
      split
      · exact Nat.le_refl 1
      · exact Nat.le_refl 0
    | _ => exact Nat.zero_le _
  change y.h.ep + y.h.pend.toNat + asks (y.toH ++ tagged y.g.ep (y.g.reply m)) ≤
    y.h.ep + y.h.pend.toNat + asks y.toH + _
  rw [asks_append]
  omega

/-- The host reads its next message. -/
theorem onward_recvH (hd : 1 ≤ d) (hd' : d ≤ 15) (hr : Reach d y) {e : Nat} {m : Msg}
    (hq : y.toH = (e, m) :: q) :
    Onward 0 y (y.recvH d m q) (y.h.recv d true m) q [] (y.h.news m) := by
  have hi := hr.inv hd hd'
  have hl := hr.logs hd hd'
  have hf : m ≠ .fin := by
    rintro rfl
    exact hi.core.up (e, .fin) (by rw [hq]; exact List.mem_cons_self)
  refine ⟨rfl, rfl, rfl, (List.append_nil _).symm, ?_, rfl, log_grow (.recvH hq),
    owed_recvH hi.core hq, fun j t c hx => ?_⟩
  · change story y.base y.logH (y.h.recv d true m).ep = story y.base y.logH y.h.ep ++ _
    rw [(recv_clock (d := d) true y.h hf).1, told_news _ hf, List.append_nil]
  · obtain ⟨t', rfl, hv, rfl, rfl⟩ := news_alarm hx
    exact (differ_host hi hl hd' hq hv).grow (log_grow (.recvH hq))

/-- The guest reads its next message. -/
theorem onward_recvG (hd : 1 ≤ d) (hd' : d ≤ 15) (hr : Reach d y) {e : Nat} {m : Msg}
    (hq : y.toG = (e, m) :: q) : Onward 1 y (y.recvG d m q) (y.g.recv d false m) q
      (tagged y.g.ep (y.g.reply m)) (y.g.news m) := by
  have hi := hr.inv hd hd'
  have hl := hr.logs hd hd'
  refine ⟨rfl, rfl, rfl, rfl, ?_, rfl, log_grow (.recvG hq), owed_recvG m, fun j t c hx => ?_⟩
  · change story y.base y.logG (y.g.recv d false m).ep = story y.base y.logG y.g.ep ++ _
    by_cases hf : m = .fin
    · subst hf
      have hscript := hi.core.script
      rw [hq] at hscript
      obtain ⟨-, hhold, -⟩ := hscript
      have hnext := hl.guestNext (y.g.ep + 1) (Nat.lt_succ_self _)
      rw [Party.recv, if_pos hhold, Party.news, if_pos hhold, hi.core.resume hhold]
      exact story_next hnext
    · rw [(recv_clock (d := d) false y.g hf).1, told_news _ hf, List.append_nil]
  · obtain ⟨t', rfl, hv, rfl, rfl⟩ := news_alarm hx
    exact (differ_guest hi hl hq hv).grow (log_grow (.recvG hq))

/-- A seat reads its next message. -/
theorem onward_recv (hd : 1 ≤ d) (hd' : d ≤ 15) (hr : Reach d y) (hs : s < 2) {e : Nat} {m : Msg}
    (hq : y.inbox s = (e, m) :: q) : ∃ y', Step d y y' ∧
      Onward s y y' ((y.party s).recv d (s == 0) m) q
        (tagged (y.party s).ep ((y.party s).answer s m)) ((y.party s).news m) := by
  rcases seat_cases hs with rfl | rfl
  · exact ⟨_, .recvH hq, onward_recvH hd hd' hr hq⟩
  · exact ⟨_, .recvG hq, onward_recvG hd hd' hr hq⟩

/-! ## The other steps -/

theorem owed_send {e : Nat} {ms : List Msg} (h : ∀ m ∈ ms, m.asks = 0) :
    asks (y.toH ++ tagged e ms) = asks y.toH := by
  rw [asks_append, asks_tagged e h, Nat.add_zero]

theorem report_asks (p : Party) (v : Nat) : ∀ m ∈ p.report v, m.asks = 0 := by
  intro m hm
  unfold Party.report at hm
  split at hm
  · rw [List.mem_singleton.mp hm]
    rfl
  · exact absurd hm List.not_mem_nil

/-- A seat captures. -/
theorem onward_capture (hs : s < 2) (c : Cell) (hc : (y.party s).cap = false) :
    ∃ y', Step d y y' ∧ Onward s y y' ((y.party s).capture d c) (y.inbox s)
      (tagged (y.party s).ep [.input ((y.party s).t + d) c]) [] := by
  rcases seat_cases hs with rfl | rfl
  · exact ⟨_, .captureH c hc, rfl, rfl, rfl, rfl, (List.append_nil _).symm, rfl,
      log_grow (.captureH (d := d) c hc), Nat.le_refl _, no_differ rfl _⟩
  · refine ⟨_, .captureG c hc, rfl, rfl, rfl, rfl, (List.append_nil _).symm, rfl,
      log_grow (.captureG (d := d) c hc), ?_, no_differ rfl _⟩
    have hsent : asks (y.toH ++ tagged y.g.ep [.input (y.g.t + d) c]) = asks y.toH := by
      apply owed_send
      intro m hm
      rw [List.mem_singleton.mp hm]
      rfl
    exact Nat.le_of_eq (congrArg (y.h.ep + y.h.pend.toNat + ·) hsent)

/-- A seat runs its tick. -/
theorem onward_run (hs : s < 2) (v : Nat) (hc : (y.party s).cap = true)
    (hw : (y.party s).t ≤ (y.party s).wm) : ∃ y', Step d y y' ∧
      Onward s y y' ((y.party s).run v) (y.inbox s)
        (tagged (y.party s).ep ((y.party s).report v)) (beatEvs ((y.party s).beat s v)) := by
  rcases seat_cases hs with rfl | rfl
  · refine ⟨_, .runH v hc hw, rfl, rfl, rfl, rfl, ?_, rfl, log_grow (.runH (d := d) v hc hw),
      Nat.le_add_right _ _, no_differ (alarm_beatEvs _) _⟩
    rw [told_beatEvs]
    exact story_putBeat _ _ _ _
  · refine ⟨_, .runG v hc hw, rfl, rfl, rfl, rfl, ?_, rfl, log_grow (.runG (d := d) v hc hw), ?_,
      no_differ (alarm_beatEvs _) _⟩
    · rw [told_beatEvs]
      exact story_putBeat _ _ _ _
    · have hsent := owed_send (y := y) (e := y.g.ep) (report_asks y.g v)
      exact Nat.le_trans (Nat.le_of_eq (congrArg (y.h.ep + y.h.pend.toNat + ·) hsent))
        (Nat.le_add_right _ _)

/-- The host pushes. -/
theorem onward_push (hd : 1 ≤ d) (hd' : d ≤ 15) (hr : Reach d y) (fs : List (List Byte))
    (hc : (y.party 0).cap = false) (hp : (y.party 0).pend = true) : ∃ y', Step d y y' ∧
      Onward 0 y y' ((y.party 0).rebase d ((y.party 0).t + 16)) (y.inbox 0)
        (tagged (y.party 0).ep (pushMsgs (y.party 0).t fs))
        [.rebase (((y.party 0).t + 16) % 65536)] := by
  have hle := (hr.inv hd hd').core.ep_le
  have hnext := (hr.logs hd hd').hostNext (y.h.ep + 1) (Nat.lt_succ_self _)
  have hold : ∀ e ≤ y.h.ep, Function.update y.base (y.h.ep + 1) (y.h.t + 16) e = y.base e :=
    fun e he => Function.update_of_ne (by omega) _ _
  refine ⟨_, .pushH fs hc hp, rfl, rfl, rfl, rfl, ?_, ?_, log_grow (.pushH (d := d) fs hc hp), ?_,
    no_differ rfl _⟩
  · change story (Function.update y.base (y.h.ep + 1) (y.h.t + 16)) y.logH (y.h.ep + 1) =
      story y.base y.logH y.h.ep ++ [.rebase ((y.h.t + 16) % 65536)]
    rw [story_next hnext, story_congr hold (fun _ _ => rfl), Function.update_self]
  · exact story_congr (fun e he => hold e (Nat.le_trans he hle)) (fun _ _ => rfl)
  · change y.h.pend = true at hp
    change y.h.ep + 1 + false.toNat + asks y.toH ≤ y.h.ep + y.h.pend.toNat + asks y.toH + 0
    rw [hp]
    exact Nat.le_refl _

/-- The next message is in order. -/
theorem Reach.inOrder (hr : Reach d y) (hd : 1 ≤ d) (hd' : d ≤ 15) (hs : s < 2) {e : Nat}
    {m : Msg} (hq : y.inbox s = (e, m) :: q) : InOrder (y.party s) m := by
  have hi := hr.inv hd hd'
  rcases seat_cases hs with rfl | rfl
  · change y.toH = (e, m) :: q at hq
    refine ⟨?_, fun f hf => ?_⟩
    · cases m with
      | input t c => exact hi.input_host hd' hq
      | crc t v => exact fun i t' v' hrec => hi.report_host hd' hq hrec
      | _ => trivial
    · subst hf
      exact (hi.core.up (e, .chunk f) (by rw [hq]; exact List.mem_cons_self)).elim
  · change y.toG = (e, m) :: q at hq
    refine ⟨?_, fun f hf => ?_⟩
    · cases m with
      | input t c =>
        obtain ⟨h1, h2⟩ := hi.input_guest hd' hq
        exact ⟨h2, Nat.le_trans (Nat.le_of_lt h1) (Nat.le_add_right _ _)⟩
      | crc t v => exact fun i t' v' hrec => hi.report_guest hd' hq hrec
      | _ => trivial
    · subst hf
      have hscript := hi.core.script
      rw [hq] at hscript
      exact hscript.2.1

/-- The watermark is at most one tick short of the tick, and not far ahead. -/
theorem Reach.mark_near (hr : Reach d y) (hd : 1 ≤ d) (hd' : d ≤ 15) (hs : s < 2) :
    (y.party s).t ≤ (y.party s).wm + 1 ∧ (y.party s).wm ≤ (y.party s).t + 32 := by
  obtain ⟨h1, h2, h3, h4⟩ := (hr.inv hd hd').slack hd'
  rcases seat_cases hs with rfl | rfl
  · exact ⟨h1, h2⟩
  · exact ⟨h3, h4⟩

end

end IntvBasketball.Duel
