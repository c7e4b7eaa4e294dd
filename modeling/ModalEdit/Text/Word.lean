import ModalEdit.Text.CharClass
import ModalEdit.Text.Basic

/-!
Word motions. Each looks at what lies ahead of an offset, or at what lies before it with the nearest
character first, and steps over runs of one class. The motions that stop at empty lines know one by two
line feeds in a row, or by a line feed at the start of the document. A count repeats the step.
-/

set_option autoImplicit false

namespace ModalEdit.Text

/-- The step taken `count` times, or fewer if it stops moving. -/
def iterate (step : Nat → Nat) : Nat → Nat → Nat
  | 0, offset => offset
  | count + 1, offset =>
    let next := step offset
    if next = offset then offset else iterate step count next

/-- What lies before an offset, nearest first. -/
def before (t : Text) (offset : Nat) : List Char := (t.take offset).reverse

/-- How many characters of blank lie ahead, up to the first empty line behind a line feed. -/
def blankRun : List Char → Nat
  | '\n' :: '\n' :: _ => 1
  | c :: rest => if Unicode.isWhiteSpace c then blankRun rest + 1 else 0
  | [] => 0

def sameClass (big : Bool) (c d : Char) : Bool := CharClass.ofChar big d == CharClass.ofChar big c

/-- How far the next word or empty line is ahead. -/
def nextWordDistance (big : Bool) : List Char → Nat
  | [] => 0
  | c :: rest =>
    if CharClass.ofChar big c = .blank then blankRun (c :: rest)
    else
      let run := (c :: rest).takeWhile (sameClass big c)
      run.length + blankRun ((c :: rest).drop run.length)

/-- The start of the next word, or the end of the document behind the last. -/
def nextWord (t : Text) (big : Bool) (offset : Nat) : Nat :=
  min offset t.length + nextWordDistance big (t.drop offset)

def wordForward (t : Text) (offset count : Nat) (big : Bool) : Nat :=
  iterate (t.nextWord big) (max count 1) offset

/-- The start of the last word or empty line of what lies before. -/
def lastWordStart (big : Bool) : List Char → Nat
  | [] => 0
  | c :: rest =>
    if CharClass.ofChar big c = .blank then
      if c = '\n' ∧ rest.head? = some '\n' then rest.length else lastWordStart big rest
    else (rest.dropWhile (sameClass big c)).length

def previousWord (t : Text) (big : Bool) (offset : Nat) : Nat := lastWordStart big (t.before offset)

def wordBackward (t : Text) (offset count : Nat) (big : Bool) : Nat :=
  iterate (t.previousWord big) (max count 1) offset

/-- The last character of a word. -/
def isWordEnd (t : Text) (offset : Nat) (big : Bool) : Bool :=
  let here := CharClass.ofChar? big (t.charAt offset)
  here != .blank && CharClass.ofChar? big (t.charAt (offset + 1)) != here

/-- How far the end of the next word lies ahead: one more than the characters between, none if no word
follows. -/
def nextWordEndDistance (big : Bool) : List Char → Nat
  | [] => 0
  | c :: rest =>
    if CharClass.ofChar big c = .blank then
      match nextWordEndDistance big rest with
      | 0 => 0
      | distance + 1 => distance + 2
    else (rest.takeWhile (sameClass big c)).length + 1

def nextWordEnd (t : Text) (big : Bool) (offset : Nat) : Nat :=
  offset + nextWordEndDistance big (t.drop (offset + 1))

/-- With `stopOnCurrent` an offset that is a word end already takes up the first of the count. -/
def wordEnd (t : Text) (offset count : Nat) (big stopOnCurrent : Bool) : Nat :=
  let start := min offset (t.length - 1)
  let steps := max count 1
  iterate (t.nextWordEnd big) (if stopOnCurrent && t.isWordEnd start big then steps - 1 else steps) start

/-- The end of the last word, or the last empty line, of what lies before. -/
def lastWordEnd (big : Bool) : List Char → Nat
  | [] => 0
  | c :: rest =>
    if CharClass.ofChar big c = .blank ∧ ¬(c = '\n' ∧ rest.head? = some '\n') then
      lastWordEnd big rest
    else rest.length

/-- The end of the word before the one that an offset is in. -/
def previousWordEnd (t : Text) (big : Bool) (offset : Nat) : Nat :=
  match t.charAt offset with
  | none => lastWordEnd big (t.before offset)
  | some c =>
    if CharClass.ofChar big c = .blank then lastWordEnd big (t.before offset)
    else lastWordEnd big ((t.before offset).dropWhile (sameClass big c))

def wordEndBackward (t : Text) (offset count : Nat) (big : Bool) : Nat :=
  iterate (t.previousWordEnd big) (max count 1) offset

end ModalEdit.Text
