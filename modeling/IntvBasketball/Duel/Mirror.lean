/-
  A console whose memory shows a party of the protocol.

  `Mirrors d s p m`: at seat `s` of two with delay `d`, the cells of `m` are those of the
  party `p`, with ticks in 16 bits. `Did` is what a piece of code does to such a console:
  the party it leaves, the messages it sends, and the events that show it.
-/
import IntvBasketball.Duel.Wire
import IntvBasketball.Console.CrcRing

namespace IntvBasketball.Duel

open Lib Console
open Mach (Within Does Only)

/-! ## The cells -/

/-- Seat `s` of two, and the match goes on. -/
structure Setup (d s : Nat) (m : Mach) : Prop where
  two : s < 2
  seat : m.rd netSeat = s
  count : m.rd netCount = 2
  delay : m.rd netDelay = d
  scr : m.rd peerScr = 0

/-- The pages of seat `r` hold `f`. -/
def Pages (r : Nat) (f : Nat → Cell) (m : Mach) : Prop :=
  ∀ u < 256, m.rd (decCell r u) = (f u).dec ∧ m.rd (kpCell r u) = (f u).kp

structure Flags (p : Party) (m : Mach) : Prop where
  hold : m.rd resyncHold = p.hold.toNat
  pend : m.rd rsPend = p.pend.toNat
  resume : p.hold = true → word (m.rd rsRLo) (m.rd rsRHi) = p.r % 65536

/-- A record as it is stored. -/
def stored (x : Nat × Nat) : CrcRec := ⟨x.1 % 65536, x.2⟩

def Recs (recs : Nat → Option (Nat × Nat)) (m : Mach) : Prop :=
  ∀ i < 4, slotCells m i = recCells ((recs i).map stored)

structure Mirrors (d s : Nat) (p : Party) (m : Mach) : Prop where
  setup : Setup d s m
  tick : lsTick m = p.t % 65536
  mark : seatMark m (1 - s) = p.wm % 65536
  own : Pages s p.own m
  rmt : Pages (1 - s) p.rmt m
  flags : Flags p m
  recs : Recs p.recs m

def setupCells : List Nat := [netSeat, netCount, netDelay, peerScr]

/-- The cells that show a party. -/
def mirrorCell (a : Nat) : Prop :=
  a ∈ setupCells ∨ a ∈ [tickLo, tickHi, resyncHold, rsPend, rsRLo, rsRHi] ∨ area seatWm 8 a ∨
    area seatRing 2048 a ∨ area ownCrc 32 a

instance (a : Nat) : Decidable (mirrorCell a) := by unfold mirrorCell setupCells; infer_instance

section
variable {d s r : Nat} {p : Party} {m m' : Mach} {f : Nat → Cell}
  {recs : Nat → Option (Nat × Nat)}

theorem Setup.congr (h : Setup d s m) (hk : ∀ a ∈ setupCells, m'.rd a = m.rd a) : Setup d s m' where
  two := h.two
  seat := (hk _ (by decide)).trans h.seat
  count := (hk _ (by decide)).trans h.count
  delay := (hk _ (by decide)).trans h.delay
  scr := (hk _ (by decide)).trans h.scr

theorem area_dec (hr : r < 4) (u : Nat) : area seatRing 2048 (decCell r u) := by
  unfold area decCell
  omega

theorem area_kp (hr : r < 4) (u : Nat) : area seatRing 2048 (kpCell r u) := by
  simp only [area, kpCell, seatRing, seatKp]
  omega

theorem Pages.congr (h : Pages r f m) (hr : r < 4)
    (hk : ∀ a, area seatRing 2048 a → m'.rd a = m.rd a) : Pages r f m' := by
  intro u hu
  rw [hk _ (area_dec hr u), hk _ (area_kp hr u)]
  exact h u hu

theorem Pages.of_idle (h : AllIdle m) (hr : r < 4) : Pages r (fun _ => idleCell) m := by
  intro u hu
  refine ⟨(h _).1 ?_, (h _).2 ?_⟩
  · simp only [area, decCell]
    omega
  · simp only [area, kpCell]
    omega

theorem Flags.congr (h : Flags p m) (hk : ∀ a ∈ [resyncHold, rsPend, rsRLo, rsRHi],
    m'.rd a = m.rd a) : Flags p m' where
  hold := (hk _ (by decide)).trans h.hold
  pend := (hk _ (by decide)).trans h.pend
  resume hh := by
    rw [hk _ (by decide), hk _ (by decide)]
    exact h.resume hh

theorem Recs.congr (h : Recs recs m) (hk : ∀ a, area ownCrc 32 a → m'.rd a = m.rd a) :
    Recs recs m' := by
  intro i hi
  rw [slotCells_congr hk (by omega)]
  exact h i hi

theorem Recs.of_cleared (h : ∀ a, area ownCrc 32 a → m.rd a = 0xFF) : Recs (fun _ => none) m := by
  intro i hi
  have hin : ∀ j < 4, area ownCrc 32 (ownCrc + 4 * i + j) := by
    intro j hj
    unfold area
    omega
  simp only [slotCells, Option.map_none, recCells]
  rw [h (ownCrc + 4 * i) (hin 0 (by decide)), h _ (hin 1 (by decide)), h _ (hin 2 (by decide)),
    h _ (hin 3 (by decide))]

theorem lsTick_congr (hk : ∀ a ∈ [tickLo, tickHi], m'.rd a = m.rd a) : lsTick m' = lsTick m := by
  rw [lsTick, hk _ (by decide), hk _ (by decide)]
  rfl

theorem seatMark_congr (hr : r < 4) (hk : ∀ a, area seatWm 8 a → m'.rd a = m.rd a) :
    seatMark m' r = seatMark m r := by
  rw [seatMark, hk _ ⟨by omega, by omega⟩, hk _ ⟨by omega, by omega⟩]
  rfl

namespace Mirrors

theorem congr (h : Mirrors d s p m) (hk : ∀ a, mirrorCell a → m'.rd a = m.rd a) :
    Mirrors d s p m' := by
  have hs := h.setup.two
  have hring : ∀ a, area seatRing 2048 a → m'.rd a = m.rd a :=
    fun a ha => hk a (Or.inr (Or.inr (Or.inr (Or.inl ha))))
  refine ⟨h.setup.congr (fun a ha => hk a (Or.inl ha)), ?_, ?_, h.own.congr (by omega) hring,
    h.rmt.congr (by omega) hring, h.flags.congr (fun a ha => hk a ?_),
    h.recs.congr (fun a ha => hk a (Or.inr (Or.inr (Or.inr (Or.inr ha)))))⟩
  · exact (lsTick_congr (fun a ha => hk a (Or.inr (Or.inl (List.mem_append_left
      [resyncHold, rsPend, rsRLo, rsRHi] ha))))).trans h.tick
  · exact (seatMark_congr (by omega)
      (fun a ha => hk a (Or.inr (Or.inr (Or.inl ha))))).trans h.mark
  · exact Or.inr (Or.inl (List.mem_append_right [tickLo, tickHi] ha))

theorem log (h : Mirrors d s p m) (e : Ev) : Mirrors d s p (m.log e) := h.congr (fun _ _ => rfl)

theorem within {S : Nat → Prop} {tx : List Byte} {ev : List Ev} (h : Mirrors d s p m)
    (hd : Does S tx ev m m') (hS : ∀ a, mirrorCell a → ¬ S a) : Mirrors d s p m' :=
  h.congr (fun a ha => hd.keep a (hS a ha))

end Mirrors

end

/-! ## What a console did -/

/-- The events by which a console can be compared with its party: ticks, handler calls,
    checksums, re-bases, and checksums of the peer that differ. A discarded byte would be
    seen as well. -/
def Ev.seen : Ev → Option Ev
  | .tick t c0 c1 => some (.tick t c0 c1)
  | .vcall side sl r0 => some (.vcall side sl r0)
  | .record t c _ _ => some (.record t c 0 0)
  | .rebase r => some (.rebase r)
  | .slip => some .slip
  | .onCrc t c .bad => some (.onCrc t c .bad)
  | _ => none

/-- The counters of what the parser discards and RS_ON_STATE refuses. -/
def lossCell (a : Nat) : Prop := a = diagSlip ∨ a = diagRej

instance (a : Nat) : Decidable (lossCell a) := by unfold lossCell; infer_instance

/-- From `m` to `m'`: the party is `p'` now, nothing was lost, the messages `out` were sent
    and `evs` is what there is to see. -/
structure Did (d s : Nat) (p' : Party) (out : List Msg) (evs : List Ev) (m m' : Mach) : Prop where
  mirrors : Mirrors d s p' m'
  loss : ∀ a, lossCell a → m'.rd a = m.rd a
  sent : m'.tx = m.tx ++ out.flatMap (Msg.bytes s)
  seen : m'.ev.filterMap Ev.seen = m.ev.filterMap Ev.seen ++ evs
  log : m.ev <+: m'.ev

section
variable {d s : Nat} {p p' p'' : Party} {m m' m'' : Mach} {out out' : List Msg} {evs evs' : List Ev}

theorem Did.refl (h : Mirrors d s p m) : Did d s p [] [] m m :=
  ⟨h, fun _ _ => rfl, (List.append_nil _).symm, (List.append_nil _).symm, List.prefix_refl _⟩

theorem Did.trans (h : Did d s p' out evs m m') (h' : Did d s p'' out' evs' m' m'') :
    Did d s p'' (out ++ out') (evs ++ evs') m m'' where
  mirrors := h'.mirrors
  loss a ha := (h'.loss a ha).trans (h.loss a ha)
  sent := by rw [h'.sent, h.sent, List.append_assoc, List.flatMap_append]
  seen := by rw [h'.seen, h.seen, List.append_assoc]
  log := h.log.trans h'.log

/-- From what the code stored, sent and logged. -/
theorem Did.of_does {S : Nat → Prop} {tx : List Byte} {ev : List Ev} (hm : Mirrors d s p' m')
    (hd : Does S tx ev m m') (hS : ∀ a, lossCell a → ¬ S a) (htx : tx = out.flatMap (Msg.bytes s))
    (hev : ev.filterMap Ev.seen = evs) : Did d s p' out evs m m' where
  mirrors := hm
  loss a ha := hd.keep a (hS a ha)
  sent := by rw [hd.tx_eq, htx]
  seen := by rw [hd.ev_eq, List.filterMap_append, hev]
  log := ⟨ev, hd.ev_eq.symm⟩

/-- Stores that the party does not show, and nothing sent or seen. -/
theorem Did.still {S : Nat → Prop} {ev : List Ev} (h : Mirrors d s p m) (hd : Does S [] ev m m')
    (hS : ∀ a, mirrorCell a ∨ lossCell a → ¬ S a) (hev : ev.filterMap Ev.seen = []) :
    Did d s p [] [] m m' :=
  Did.of_does (h.within hd (fun a ha => hS a (Or.inl ha))) hd (fun a ha => hS a (Or.inr ha)) rfl hev

theorem loss_cases {P : Nat → Prop} (h : P diagSlip ∧ P diagRej) : ∀ a, lossCell a → P a := by
  rintro a (rfl | rfl)
  · exact h.1
  · exact h.2

end

end IntvBasketball.Duel
