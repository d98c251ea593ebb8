import Helios.Lib.Radix

/-!
# Decimal numbers below a bound

* `Spells` — a number written in decimal digits, perhaps behind a plus sign.
* `parse` — the parser of the base ten, which reads one with checked arithmetic, like the parser of
  an unsigned machine word.
* `parse_eq_some_iff` — **what is read is what is spelled, below the bound**.
-/

set_option autoImplicit false

namespace Decimal

def value (c : Char) : Option (Fin 10) :=
  let n := c.toNat
  if h : 48 ≤ n ∧ n < 58 then some ⟨n - 48, by omega⟩ else none

/-- A number in decimal digits, perhaps behind a plus sign. -/
def Spells (chars : List Char) (n : Nat) : Prop := Radix.Spells value chars n

def parse (bound : Nat) (chars : List Char) : Option Nat := Radix.parse value bound chars

theorem reads : Radix.Reads value where
  digitChar := by decide
  plus := by decide
  minus := by decide

/-- **What is read is what is spelled, below the bound.** -/
theorem parse_eq_some_iff {bound n : Nat} {chars : List Char} (hbound : 0 < bound) :
    parse bound chars = some n ↔ n < bound ∧ Spells chars n :=
  Radix.parse_eq_some_iff reads hbound

end Decimal
