import ModalEdit.Text.Hump
import ModalEdit.TextObject.Word

/-!
Humps as motions and as an object. The object asks less of a boundary than the motions: a hump begins at
a capital behind a small letter and behind whatever is no letter, and ends the other way round. Where the
caret is at such a boundary it is an end of the object, and elsewhere the boundary of the motions is.
-/

set_option autoImplicit false

namespace ModalEdit

open Unicode

namespace TextObject

def humpBegins (previous : Option Char) (c : Char) : Bool :=
  previous.all fun p ↦ (isUppercase c && isLowercase p) || !isAlphabetic p

def humpEnds (c : Char) (next : Option Char) : Bool :=
  next.all fun n ↦ (isLowercase c && isUppercase n) || !isAlphabetic n

/-- A count as a signed number of 64 bits, which is how the scans take it. -/
def signedCount? (count : Nat) : Option Int :=
  if count < 0x8000000000000000 then some count else none

/-- The inner object leaves out the last character of the hump. Away from words it is empty. -/
def humpRange (t : Text) (offset count : Nat) (around : Bool) : Option TextRange := do
  let c ← t.charAt offset
  if !CharClass.isWordChar c then return .between offset offset .characterwise
  let count ← signedCount? (max count 1)
  let start ←
    if humpBegins (t.charBefore offset) c then some offset else t.humpStartFrom? offset (-count)
  let stop ←
    if humpEnds c (t.charAt (offset + 1)) then some offset else t.humpEndFrom? offset count
  let start := t.normalize start false
  let stop := t.normalize stop false
  return .between start (if around then stop + 1 else stop) .characterwise

def hump (around : Bool) : TextObject := fun ctx ↦ humpRange ctx.text ctx.offset ctx.count around

end TextObject

namespace Motion

def humpRight : Motion := fun ctx ↦ ctx.text.humpStartFrom? ctx.offset ctx.count

def humpLeft : Motion := fun ctx ↦ ctx.text.humpStartFrom? ctx.offset (-ctx.count)

def humpEndRight : Motion := fun ctx ↦ ctx.text.humpEndFrom? ctx.offset ctx.count

def humpEndLeft : Motion := fun ctx ↦ ctx.text.humpEndFrom? ctx.offset (-ctx.count)

end Motion

end ModalEdit
