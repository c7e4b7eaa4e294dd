import ModalEdit.Toml.Quoted
import ModalEdit.Toml.Table

/-!
Values of a single word: truth values, numbers, dates and times. Digits may be grouped by underscores with
a digit on either side, and no number begins with a zero that other digits follow.
-/

set_option autoImplicit false

namespace ModalEdit.Toml.Scalar

/-- The digits of a group without its underscores. -/
def ungroup? (isDigit : Char → Bool) : List Char → Option (List Char)
  | [] => none
  | [c] => if isDigit c then some [c] else none
  | c :: '_' :: rest => if isDigit c then (ungroup? isDigit rest).map (c :: ·) else none
  | c :: rest => if isDigit c then (ungroup? isDigit rest).map (c :: ·) else none

def ofDigits (base : Nat) (digits : List Char) : Nat :=
  digits.foldl (fun n c ↦ n * base + (hexDigit? c).getD 0) 0

def whole? : List Char → Option (List Char)
  | '0' :: _ :: _ => none
  | s => ungroup? Char.isDigit s

def withoutSign : List Char → List Char
  | '+' :: s | '-' :: s => s
  | s => s

/-! ### Integers -/

def inBase? (base : Nat) (digits : List Char) : Option Int :=
  (ungroup? (fun c ↦ (hexDigit? c).any (· < base)) digits).map fun digits ↦ (ofDigits base digits : Int)

def integer? : List Char → Option Int
  | '0' :: 'x' :: digits => inBase? 16 digits
  | '0' :: 'o' :: digits => inBase? 8 digits
  | '0' :: 'b' :: digits => inBase? 2 digits
  | '-' :: digits => (whole? digits).map fun digits ↦ -(ofDigits 10 digits : Int)
  | '+' :: digits | digits => (whole? digits).map fun digits ↦ (ofDigits 10 digits : Int)

/-! ### Numbers with a point or an exponent -/

def isExponentMark (c : Char) : Bool := c == 'e' || c == 'E'

/-- An exponent with its mark; without one it is zero. -/
def exponent? : List Char → Option Int
  | [] => some 0
  | _ :: '-' :: digits => (ungroup? Char.isDigit digits).map fun digits ↦ -(ofDigits 10 digits : Int)
  | _ :: '+' :: digits | _ :: digits =>
    (ungroup? Char.isDigit digits).map fun digits ↦ (ofDigits 10 digits : Int)

def decimal? (s : List Char) : Option Decimal := do
  let whole ← whole? (s.takeWhile fun c ↦ c != '.' && !isExponentMark c)
  match s.dropWhile fun c ↦ c != '.' && !isExponentMark c with
  | [] => none
  | '.' :: rest =>
    let fraction ← ungroup? Char.isDigit (rest.takeWhile (!isExponentMark ·))
    let exponent ← exponent? (rest.dropWhile (!isExponentMark ·))
    return ⟨ofDigits 10 (whole ++ fraction), exponent - fraction.length⟩
  | rest => return ⟨ofDigits 10 whole, ← exponent? rest⟩

/-- A number with a point or an exponent, or one of the words that have no digits. -/
def float? (s : List Char) : Option (Option Decimal) :=
  let s := withoutSign s
  if s = "inf".toList ∨ s = "nan".toList then some none else (decimal? s).map some

/-! ### Dates and times -/

/-- A number of so many digits, and what follows it. -/
def digits? (count : Nat) (s : List Char) : Option (Nat × List Char) :=
  let digits := s.take count
  if digits.length = count ∧ digits.all Char.isDigit then some (ofDigits 10 digits, s.drop count) else none

def expect? (c : Char) : List Char → Option (List Char)
  | d :: rest => if d = c then some rest else none
  | [] => none

def daysIn (year month : Nat) : Nat :=
  match month with
  | 2 => if year % 4 = 0 ∧ (year % 100 ≠ 0 ∨ year % 400 = 0) then 29 else 28
  | 4 | 6 | 9 | 11 => 30
  | _ => 31

def afterDate? (s : List Char) : Option (List Char) := do
  let (year, s) ← digits? 4 s
  let (month, s) ← digits? 2 (← expect? '-' s)
  let (day, s) ← digits? 2 (← expect? '-' s)
  if 1 ≤ month ∧ month ≤ 12 ∧ 1 ≤ day ∧ day ≤ daysIn year month then some s else none

/-- Past a fraction of a second. -/
def afterFraction? (s : List Char) : Option (List Char) :=
  match s with
  | '.' :: rest => if (rest.head?).any Char.isDigit then some (rest.dropWhile Char.isDigit) else none
  | _ => some s

/-- Past hours and minutes. -/
def afterMinute? (s : List Char) : Option (List Char) := do
  let (hour, s) ← digits? 2 s
  let (minute, s) ← digits? 2 (← expect? ':' s)
  if hour ≤ 23 ∧ minute ≤ 59 then some s else none

/-- Past a time of day. The seconds may be left out, and there may be a leap second. -/
def afterTime? (s : List Char) : Option (List Char) := do
  match ← afterMinute? s with
  | ':' :: s =>
    let (second, s) ← digits? 2 s
    if second ≤ 60 then afterFraction? s else none
  | s => some s

def isOffset : List Char → Bool
  | ['Z'] | ['z'] | [] => true
  | sign :: s => (sign == '+' || sign == '-') && afterMinute? s matches some []

def isMoment (s : List Char) : Bool :=
  match afterDate? s with
  | some [] => true
  | some (separator :: rest) =>
    ['T', 't', ' '].contains separator && (afterTime? rest).any isOffset
  | none => afterTime? s matches some []

/-- The value that a word stands for. -/
def read? (word : List Char) : Option Value :=
  if word = "true".toList then some (.boolean true)
  else if word = "false".toList then some (.boolean false)
  else
    match integer? word, float? word with
    | some n, _ => some (.integer n)
    | none, some d => some (.float d)
    | none, none => if isMoment word then some (.moment word) else none

end ModalEdit.Toml.Scalar
