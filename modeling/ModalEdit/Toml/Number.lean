/-!
The sizes of the numbers in a configuration file. Any number may be written there, but not every number can
be held.
-/

set_option autoImplicit false

namespace ModalEdit.Toml

/-- Integers are held in 128 bits, with a sign or without. -/
def isHeldInteger (n : Int) : Bool := -(Nat.pow 2 127 : Int) ≤ n && n < (Nat.pow 2 128 : Int)

/-- Digits times a power of ten. -/
structure Decimal where
  digits : Nat
  exponent : Int
  deriving DecidableEq, Repr

/-- Whether a number is below half a unit above the greatest of double precision. -/
def Decimal.isFinite (d : Decimal) : Bool :=
  let size := (Nat.toDigits 10 d.digits).length + d.exponent
  let bound := Nat.pow 2 1024 - Nat.pow 2 970
  d.digits == 0 || size < 309 ||
    size == 309 && d.digits * Nat.pow 10 d.exponent.toNat < bound * Nat.pow 10 (-d.exponent).toNat

end ModalEdit.Toml
