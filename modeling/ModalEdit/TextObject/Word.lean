import ModalEdit.Motion.Basic
import ModalEdit.Range

/-!
Word objects: runs of one class on the line of the caret. The inner object counts runs, blank ones too.
The outer one takes each word with the blanks behind it; where none follow the last word it takes those
before the first, and from a blank it takes the blanks before each word instead.
-/

set_option autoImplicit false

namespace ModalEdit

abbrev TextObject := MotionContext → Option TextRange

namespace TextObject

open Text (sameClass)

/-- Whether a run of blanks comes next. -/
def blankNext (big : Bool) : List Char → Bool
  | [] => false
  | c :: _ => CharClass.ofChar big c = .blank

/-- What follows the run that comes next. -/
def skipRun (big : Bool) : List Char → List Char
  | [] => []
  | c :: rest => rest.dropWhile (sameClass big c)

def skipBlanks (big : Bool) (ahead : List Char) : List Char :=
  if blankNext big ahead then skipRun big ahead else ahead

/-- Takes a step a number of times, or until nothing is left. -/
def repeatSkip (skip : List Char → List Char) : Nat → List Char → List Char
  | 0, ahead => ahead
  | _, [] => []
  | count + 1, ahead => repeatSkip skip count (skip ahead)

/-- Skips words with the blanks behind them, and tells whether the last had any. -/
def skipWords (big : Bool) : Nat → Bool → List Char → List Char × Bool
  | 0, trailing, ahead => (ahead, trailing)
  | _, trailing, [] => ([], trailing)
  | count + 1, _, ahead =>
    let behindWord := skipRun big ahead
    skipWords big count (blankNext big behindWord) (skipBlanks big behindWord)

/-- The extent of a word object: how many characters it takes before the caret, and what it leaves of
those from the caret on. -/
def wordExtent (behind ahead : List Char) (count : Nat) (big around : Bool) : Nat × List Char :=
  let run :=
    match ahead with
    | [] => []
    | c :: _ => behind.takeWhile (sameClass big c)
  if !around then (run.length, repeatSkip (skipRun big) count ahead)
  else if blankNext big ahead then
    (run.length, repeatSkip (fun rest ↦ skipRun big (skipBlanks big rest)) count ahead)
  else
    match skipWords big count false ahead with
    | (left, true) => (run.length, left)
    | (left, false) =>
      let blanks := (behind.drop run.length).takeWhile fun c ↦ CharClass.ofChar big c = .blank
      (run.length + blanks.length, left)

def wordRange (t : Text) (offset count : Nat) (big around : Bool) : Option TextRange :=
  if t.isEmpty then none
  else
    let line := t.lineOf offset
    let (start, stop) := (t.lineStart line, t.lineEnd line)
    if start = stop then some (.between start start .characterwise)
    else
      let here := min offset (stop - 1)
      let (before, left) :=
        wordExtent (t.slice start here).reverse (t.slice here stop) (max count 1) big around
      some (.between (here - before) (stop - left.length) .characterwise)

def word (big around : Bool) : TextObject := fun ctx ↦
  wordRange ctx.text ctx.offset ctx.count big around

end TextObject

end ModalEdit
