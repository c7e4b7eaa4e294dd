import ModalEdit.Unicode.Alphabetic
import ModalEdit.Unicode.LetterCase
import ModalEdit.Unicode.Numeric
import ModalEdit.Unicode.WhiteSpace

/-!
The classes that word motions tell apart. A word is a maximal run of one class other than blank; for the
big motions every character that is not blank is of the class of words.
-/

set_option autoImplicit false

namespace ModalEdit

inductive CharClass where
  | blank
  | punctuation
  | word
  deriving DecidableEq, Repr

namespace CharClass

def isWordChar (c : Char) : Bool :=
  Unicode.isAlphabetic c || Unicode.isNumeric c || c == '_'

def ofChar (big : Bool) (c : Char) : CharClass :=
  if Unicode.isWhiteSpace c then blank
  else if big || isWordChar c then word
  else punctuation

/-- Past the ends of the document lies blank. -/
def ofChar? (big : Bool) : Option Char → CharClass
  | some c => ofChar big c
  | none => blank

end CharClass

end ModalEdit
