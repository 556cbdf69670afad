/-
  Incremental parsing of a stream that arrives in pieces.

  A `Scanner` looks at the head of its buffer (`peek`) and either asks for more
  input, reports an item and says how much of the buffer it used, or stops for
  good. `drain` repeats `peek` until it asks for more or stops. The two laws of a
  scanner are that an item uses at least one element, and that a verdict does not
  change when more input is appended.

  Proved, for every scanner:
  * `drain_eq`: the unfolding equation of `drain`.
  * `drain_append`: draining a prefix first and the rest later reports the same
    items and leaves the same remainder as draining everything at once, so the cut of
    a stream into pieces does not matter.
  * `drain_flatten`: a concatenation of units that are each reported whole is
    reported unit by unit, with nothing left over.
-/
import Mathlib.Data.List.Basic
import Mathlib.Tactic.Common

namespace IntvBasketball.Lib

/-- What a scanner sees at the head of its buffer. -/
inductive Peek (ε : Type) where
  | more
  | emit (e : ε) (n : Nat)
  | halt (e : ε)
deriving DecidableEq, Repr

/-- A parser of stream heads. `emit e n` reports `e` and uses `n` elements. -/
structure Scanner (α ε : Type) where
  peek : List α → Peek ε
  emit_pos : ∀ {xs e n}, peek xs = .emit e n → 0 < n
  emit_le : ∀ {xs e n}, peek xs = .emit e n → n ≤ xs.length
  emit_append : ∀ {xs e n}, peek xs = .emit e n → ∀ ys, peek (xs ++ ys) = .emit e n
  halt_append : ∀ {xs e}, peek xs = .halt e → ∀ ys, peek (xs ++ ys) = .halt e

/-- What `drain` returns: the items reported, the elements left, and whether the
    scanner stopped for good (then nothing is kept). -/
@[ext] structure Drained (α ε : Type) where
  out : List ε
  rest : List α
  halted : Bool
deriving DecidableEq, Repr

namespace Drained
variable {α ε : Type}

/-- Nothing reported, `xs` still in the buffer. -/
def start (xs : List α) : Drained α ε := ⟨[], xs, false⟩

/-- Put earlier items in front. -/
def before (es : List ε) (d : Drained α ε) : Drained α ε := ⟨es ++ d.out, d.rest, d.halted⟩

@[simp] theorem before_out (es : List ε) (d : Drained α ε) : (before es d).out = es ++ d.out := rfl
@[simp] theorem before_rest (es : List ε) (d : Drained α ε) : (before es d).rest = d.rest := rfl
@[simp] theorem before_halted (es : List ε) (d : Drained α ε) :
    (before es d).halted = d.halted := rfl

@[simp] theorem before_nil (d : Drained α ε) : before [] d = d := rfl

theorem before_before (es fs : List ε) (d : Drained α ε) :
    before es (before fs d) = before (es ++ fs) d := by
  simp [before]

end Drained

namespace Scanner
variable {α ε : Type} (s : Scanner α ε)

/-- `drain` with an explicit bound on the number of items. -/
def drainN : Nat → List α → Drained α ε
  | 0, xs => .start xs
  | n + 1, xs =>
    match s.peek xs with
    | .more => .start xs
    | .halt e => ⟨[e], [], true⟩
    | .emit e k => (drainN n (xs.drop k)).before [e]

/-- Parse as long as the buffer holds a whole item. An item uses at least one
    element, so one round per element and one more are enough. -/
def drain (xs : List α) : Drained α ε := s.drainN (xs.length + 1) xs

/-- More rounds than elements change nothing. -/
theorem drainN_eq_drain (n : Nat) (xs : List α) (h : xs.length < n) :
    s.drainN n xs = s.drain xs := by
  unfold drain
  induction n using Nat.strongRecOn generalizing xs with
  | ind n ih =>
    cases n with
    | zero => omega
    | succ n =>
      simp only [drainN]
      cases hp : s.peek xs with
      | more => rfl
      | halt e => rfl
      | emit e k =>
        have hk := s.emit_pos hp
        have hl := s.emit_le hp
        have hd : (xs.drop k).length < xs.length := by simp only [List.length_drop]; omega
        dsimp only
        rw [ih n (by omega) (xs.drop k) (by omega)]
        by_cases hx : xs.length = n
        · rw [hx, ih n (by omega) (xs.drop k) (by omega)]
        · rw [ih xs.length (by omega) (xs.drop k) hd]

theorem drain_eq (xs : List α) :
    s.drain xs =
      match s.peek xs with
      | .more => .start xs
      | .halt e => ⟨[e], [], true⟩
      | .emit e k => (s.drain (xs.drop k)).before [e] := by
  conv_lhs => unfold drain drainN
  cases hp : s.peek xs with
  | more => rfl
  | halt e => rfl
  | emit e k =>
    have hk := s.emit_pos hp
    have hl := s.emit_le hp
    dsimp only
    rw [s.drainN_eq_drain _ (xs.drop k) (by simp only [List.length_drop]; omega)]

theorem drain_of_more {xs : List α} (h : s.peek xs = .more) : s.drain xs = .start xs := by
  rw [drain_eq, h]

theorem drain_of_halt {xs : List α} {e : ε} (h : s.peek xs = .halt e) :
    s.drain xs = ⟨[e], [], true⟩ := by
  rw [drain_eq, h]

theorem drain_of_emit {xs : List α} {e : ε} {k : Nat} (h : s.peek xs = .emit e k) :
    s.drain xs = (s.drain (xs.drop k)).before [e] := by
  rw [drain_eq, h]

/-- Induction along the run of `drain`. -/
theorem drain_induction {P : List α → Prop}
    (more : ∀ xs, s.peek xs = .more → P xs)
    (halt : ∀ xs e, s.peek xs = .halt e → P xs)
    (emit : ∀ xs e k, s.peek xs = .emit e k → P (xs.drop k) → P xs) (xs : List α) : P xs := by
  induction hn : xs.length using Nat.strongRecOn generalizing xs with
  | ind n ih =>
    cases hp : s.peek xs with
    | more => exact more xs hp
    | halt e => exact halt xs e hp
    | emit e k =>
      have hk := s.emit_pos hp
      have hl := s.emit_le hp
      exact emit xs e k hp
        (ih (xs.drop k).length (by simp only [List.length_drop]; omega) _ rfl)

/-- What is left over is a head the scanner wants more of. -/
theorem peek_drain_rest (xs : List α) (h : (s.drain xs).halted = false) :
    s.peek (s.drain xs).rest = .more := by
  induction xs using s.drain_induction with
  | more xs hp => simpa [s.drain_of_more hp, Drained.start] using hp
  | halt xs e hp => simp [s.drain_of_halt hp] at h
  | emit xs e k hp ih =>
    rw [s.drain_of_emit hp] at h ⊢
    exact ih h

/-- Draining a prefix first and continuing later is draining everything at once. -/
theorem drain_append (xs ys : List α) :
    s.drain (xs ++ ys) =
      if (s.drain xs).halted then s.drain xs
      else (s.drain ((s.drain xs).rest ++ ys)).before (s.drain xs).out := by
  induction xs using s.drain_induction with
  | more xs hp => simp [s.drain_of_more hp, Drained.start]
  | halt xs e hp => simp [s.drain_of_halt hp, s.drain_of_halt (s.halt_append hp ys)]
  | emit xs e k hp ih =>
    have hl := s.emit_le hp
    rw [s.drain_of_emit hp, s.drain_of_emit (s.emit_append hp ys),
      List.drop_append_of_le_length hl, ih]
    by_cases hh : (s.drain (xs.drop k)).halted = true
    · simp [hh]
    · simp [hh, Drained.before_before]

/-- `u` is reported whole, as `e`, whatever follows it. -/
def Unit (u : List α) (e : ε) : Prop := s.peek u = .emit e u.length

theorem drain_unit {u : List α} {e : ε} (h : s.Unit u e) (ys : List α) :
    s.drain (u ++ ys) = (s.drain ys).before [e] := by
  rw [s.drain_of_emit (s.emit_append h ys), List.drop_append_of_le_length (Nat.le_refl _)]
  simp

/-- A concatenation of units is reported unit by unit. -/
theorem drain_flatten (us : List (List α)) (f : List α → ε) (h : ∀ u ∈ us, s.Unit u (f u))
    (ys : List α) : s.drain (us.flatten ++ ys) = (s.drain ys).before (us.map f) := by
  induction us with
  | nil => simp
  | cons u us ih =>
    rw [List.flatten_cons, List.append_assoc, s.drain_unit (h u (List.mem_cons_self)),
      ih (fun v hv => h v (List.mem_cons_of_mem _ hv)), Drained.before_before]
    rfl

end Scanner

end IntvBasketball.Lib
