/-
  src/ui/text.asm: BACKTAB text output of the netplay screens.

  A card word is `(ascii - 32) & $3F` in bits 3-8 and the colour in bits 0-2. The
  routines write BACKTAB ($0200-$02EF) at an offset the caller gives; nothing here
  checks that the text ends inside it (`within_uiPrint`, `within_uiPrintN` say where
  each one stores).
-/
import IntvBasketball.Console.Ram

namespace IntvBasketball.Console

def cBlack : Nat := 0
def cYellow : Nat := 6
def cWhite : Nat := 7

/-- The characters of a STRING directive (its NUL is the end of the list). -/
def chars (s : String) : List Nat := s.toList.map Char.toNat

/-- The card field of a character: `((c - 32) & $3F) << 3`. -/
def uiCard (c : Nat) : Nat := sub16 c 32 % 64 * 8

/-- UI_CLS: blank BACKTAB, text colour back to white. -/
def uiCls (m : Mach) : Mach := (m.st uiColor cWhite).fill backtab 240 0

/-- The loop of UI_PRINT: one card per character at `r4`, `r4 + 1`, .. -/
def uiPrintGo (r1 : Nat) (m : Mach) (r4 : Nat) : List Nat → Mach
  | [] => m
  | c :: cs => uiPrintGo r1 (m.st r4 (uiCard c ^^^ r1)) (r4 + 1) cs

/-- UI_PRINT of a ROM string at BACKTAB offset `off`. -/
def uiPrint (m : Mach) (off : Nat) (str : List Nat) : Mach :=
  uiPrintGo (m.rd uiColor % 8) m (off + backtab) str

/-- The loop of UI_PRINTN: at most `n` characters from RAM at `r5`, up to a NUL. -/
def uiPrintNGo (r1 : Nat) (m : Mach) (r4 r5 : Nat) : Nat → Mach
  | 0 => m
  | n + 1 =>
    if m.rd r5 = 0 then m
    else uiPrintNGo r1 (m.st r4 (uiCard (m.rd r5) ^^^ r1)) (r4 + 1) (r5 + 1) n

/-- UI_PRINTN: a fixed-width RAM field at BACKTAB offset `off`. -/
def uiPrintN (m : Mach) (off src n : Nat) : Mach :=
  uiPrintNGo (m.rd uiColor % 8) m (off + backtab) src n

/-- One hex digit of UI_HEX2 as a card word. -/
def uiHexCard (d : Nat) : Nat := ((if d < 10 then d else d + 7) + 16) * 8 ^^^ cYellow

/-- UI_HEX2: a byte as two hex digits at BACKTAB offset `off`. -/
def uiHex2 (m : Mach) (v off : Nat) : Mach :=
  (m.st (off + backtab) (uiHexCard (v % 256 / 16))).st (off + backtab + 1) (uiHexCard (v % 16))

/-! ## Where they store -/

open Mach (Within Does)

theorem within_uiCls (m : Mach) : Within (fun b => b = uiColor ∨ area backtab 240 b) m (uiCls m) :=
  ((Does.refl _ m).st _ (Or.inl rfl)).fill _ (fun _ h1 h2 => Or.inr ⟨h1, h2⟩)

theorem within_uiPrintGo (r1 : Nat) (m : Mach) (r4 : Nat) (str : List Nat) :
    Within (area r4 str.length) m (uiPrintGo r1 m r4 str) := by
  induction str generalizing m r4 with
  | nil => exact Does.refl _ m
  | cons c cs ih =>
    rw [uiPrintGo, List.length_cons]
    refine Does.within ((Does.refl _ m).st _ ⟨by omega, by omega⟩) ((ih _ (r4 + 1)).mono ?_)
    intro b hb
    exact ⟨by have := hb.1; omega, by have := hb.2; omega⟩

/-- UI_PRINT stores one cell per character, from the offset on. -/
theorem within_uiPrint (m : Mach) (off : Nat) (str : List Nat) :
    Within (area (off + backtab) str.length) m (uiPrint m off str) :=
  within_uiPrintGo _ _ _ _

theorem within_uiPrintNGo (r1 : Nat) (m : Mach) (r4 r5 n : Nat) :
    Within (area r4 n) m (uiPrintNGo r1 m r4 r5 n) := by
  induction n generalizing m r4 r5 with
  | zero => exact Does.refl _ m
  | succ n ih =>
    rw [uiPrintNGo]
    split
    · exact Does.refl _ m
    · refine Does.within ((Does.refl _ m).st _ ⟨by omega, by omega⟩)
        ((ih _ (r4 + 1) (r5 + 1)).mono ?_)
      intro b hb
      exact ⟨by have := hb.1; omega, by have := hb.2; omega⟩

/-- UI_PRINTN stores at most `n` cells, from the offset on. -/
theorem within_uiPrintN (m : Mach) (off src n : Nat) :
    Within (area (off + backtab) n) m (uiPrintN m off src n) :=
  within_uiPrintNGo _ _ _ _ _

theorem within_uiHex2 (m : Mach) (v off : Nat) :
    Within (area (off + backtab) 2) m (uiHex2 m v off) :=
  ((Does.refl _ m).st _ ⟨by omega, by omega⟩).st _ ⟨by omega, by omega⟩

end IntvBasketball.Console
