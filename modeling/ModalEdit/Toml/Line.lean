/-!
What the lines of a configuration file are made of. A line ends at a line feed, which a carriage return may
precede; anywhere else a carriage return is out of place.
-/

set_option autoImplicit false

namespace ModalEdit.Toml

/-- The characters that a line may hold as they stand: all but the control characters other than tab. -/
def isPlain (c : Char) : Bool := c == '\t' || (' ' ≤ c && c.toNat != 0x7f)

def isBlank (c : Char) : Bool := c == ' ' || c == '\t'

/-- Past a line break. -/
def afterBreak? : List Char → Option (List Char)
  | '\n' :: rest | '\r' :: '\n' :: rest => some rest
  | _ => none

/-- Whether a line ends here. Behind the carriage return of a break it ends as well. -/
def startsBreak (s : List Char) : Bool := (afterBreak? s).isSome

end ModalEdit.Toml
