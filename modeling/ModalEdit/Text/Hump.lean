import ModalEdit.Text.Basic
import ModalEdit.Text.CharClass

/-!
Humps: the parts of an identifier in mixed case. A hump starts at a capital that follows no capital or
leads into small letters, at a small letter that follows no letter, and at a digit that follows no
digit. The rule for where a hump ends looks at what comes after instead, two characters far for capitals.
-/

set_option autoImplicit false

namespace ModalEdit.Text

open Unicode

/-- The start of a hump, from a character and its neighbours on both sides. -/
def startsHump (previous : Option Char) (c : Char) (next : Option Char) : Bool :=
  if isUppercase c then previous.all (fun p ↦ !isUppercase p) || next.any isLowercase
  else if isLowercase c then previous.all (fun p ↦ !isAlphabetic p)
  else if isNumeric c then previous.all (fun p ↦ !isNumeric p)
  else false

/-- The end of a hump, from a character and the two that follow. -/
def endsHump (c : Char) (next afterNext : Option Char) : Bool :=
  if isUppercase c then
    next.all fun n ↦ !isAlphabetic n || (isUppercase n && afterNext.any isLowercase)
  else if isLowercase c then next.all (fun n ↦ !isLowercase n)
  else if isNumeric c then next.all (fun n ↦ !isNumeric n)
  else false

def charBefore (t : Text) (offset : Nat) : Option Char :=
  match offset with
  | 0 => none
  | previous + 1 => t.charAt previous

def isHumpStart (t : Text) (offset : Nat) : Bool :=
  (t.charAt offset).any fun c ↦ startsHump (t.charBefore offset) c (t.charAt (offset + 1))

def isHumpEnd (t : Text) (offset : Nat) : Bool :=
  (t.charAt offset).any fun c ↦ endsHump c (t.charAt (offset + 1)) (t.charAt (offset + 2))

/-- The hit that a count asks for among the given offsets, or the last hit if there are fewer. -/
def nthHit? (isHit : Nat → Bool) : Nat → List Nat → Option Nat
  | 0, _ => none
  | _, [] => none
  | count + 1, offset :: rest =>
    if isHit offset then (nthHit? isHit count rest).or (some offset)
    else nthHit? isHit (count + 1) rest

/-- The offsets passed on the way from an offset, away from it: forward to the end of the document for
a positive count, back to its start for a negative one. -/
def offsetsFrom (t : Text) (offset : Nat) (count : Int) : List Nat :=
  if 0 ≤ count then List.range' (offset + 1) (t.length - (offset + 1))
  else (List.range (min offset t.length)).reverse

/-- The start of a hump that a signed count asks for. -/
def humpStartFrom? (t : Text) (offset : Nat) (count : Int) : Option Nat :=
  nthHit? t.isHumpStart count.natAbs (t.offsetsFrom offset count)

/-- The end of a hump that a signed count asks for. -/
def humpEndFrom? (t : Text) (offset : Nat) (count : Int) : Option Nat :=
  nthHit? t.isHumpEnd count.natAbs (t.offsetsFrom offset count)

end ModalEdit.Text
