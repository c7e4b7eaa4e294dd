import ModalEdit.TextObject.Word

/-!
The argument object: what lies between two delimiters of the argument list around the caret, a delimiter
being a bracket of the list or a comma in it. Quoted text is skipped as a whole, and so is a bracketed
expression. Brackets are ranked; a closing bracket of a lower rank ends those of higher rank that are
still open, so in `f(a < b, c)` the comma counts. Inside brackets that are not those of a call the search
goes on outwards.

Positions are integers, so that one may step off either end of the document, where there is nothing.
-/

set_option autoImplicit false

namespace ModalEdit

inductive Bracket where
  | square
  | curly
  | round
  | angle
  deriving DecidableEq, Repr

namespace Bracket

def rank : Bracket → Nat
  | square => 0
  | curly => 1
  | round => 2
  | angle => 3

def ofOpening? (c : Char) : Option Bracket :=
  if c = '[' then some square
  else if c = '\x7b' then some curly
  else if c = '(' then some round
  else if c = '<' then some angle
  else none

def ofClosing? (c : Char) : Option Bracket :=
  if c = ']' then some square
  else if c = '\x7d' then some curly
  else if c = ')' then some round
  else if c = '>' then some angle
  else none

end Bracket

namespace TextObject

open Text (Direction)

/-- The character at a position, NUL off the document. -/
def charAtInt (t : Text) (i : Int) : Char := if i < 0 then '\x00' else (t.charAt i.toNat).getD '\x00'

def isQuote (c : Char) : Bool := c == '"' || c == '\x27'

/-- The first position from `i` on, below the limit, whose character fails the test. -/
def scanAhead (t : Text) (test : Char → Bool) (i limit : Int) : Int :=
  if i < limit ∧ test (charAtInt t i) = true then scanAhead t test (i + 1) limit else i
termination_by (limit - i).toNat
decreasing_by omega

/-- The first position from `i` down, above the floor, whose character fails the test. -/
def scanBack (t : Text) (test : Char → Bool) (i floor : Int) : Int :=
  if floor < i ∧ test (charAtInt t i) = true then scanBack t test (i - 1) floor else i
termination_by (i - floor).toNat
decreasing_by omega

/-! ### Quoted text -/

/-- The next such quote that no backslash escapes, or the limit. -/
def closingQuote (t : Text) (quote : Char) (escaped : Bool) (i limit : Int) : Int :=
  if i < limit ∧ ¬(charAtInt t i = quote ∧ escaped = false) then
    closingQuote t quote (charAtInt t i == '\\' && !escaped) (i + 1) limit
  else i
termination_by (limit - i).toNat
decreasing_by omega

theorem le_closingQuote (t : Text) (quote : Char) (escaped : Bool) (i limit : Int) :
    i ≤ closingQuote t quote escaped i limit := by
  fun_induction closingQuote t quote escaped i limit <;> omega

/-- The nearest such quote before which no backslash stands, or the floor. -/
def openingQuote (t : Text) (quote : Char) (i floor : Int) : Int :=
  if floor < i ∧ ¬(charAtInt t i = quote ∧ charAtInt t (i - 1) ≠ '\\') then
    openingQuote t quote (i - 1) floor
  else i
termination_by (i - floor).toNat
decreasing_by omega

theorem openingQuote_le (t : Text) (quote : Char) (i floor : Int) :
    openingQuote t quote i floor ≤ i := by
  fun_induction openingQuote t quote i floor <;> omega

/-- Where the quoted text that begins at a position ends, below the limit. -/
def skipQuotedAhead (t : Text) (start limit : Int) : Int :=
  closingQuote t (charAtInt t start) false (start + 1) limit

/-- Where the quoted text that ends at a position begins, above the floor. -/
def skipQuotedBack (t : Text) (start floor : Int) : Int :=
  openingQuote t (charAtInt t start) (start - 1) floor

theorem lt_skipQuotedAhead (t : Text) (start limit : Int) : start < skipQuotedAhead t start limit := by
  have := le_closingQuote t (charAtInt t start) false (start + 1) limit
  unfold skipQuotedAhead
  omega

theorem skipQuotedBack_lt (t : Text) (start floor : Int) : skipQuotedBack t start floor < start := by
  have := openingQuote_le t (charAtInt t start) (start - 1) floor
  unfold skipQuotedBack
  omega

/-! ### Bracketed expressions -/

/-- The position past the bracket that closes the last of the open ones, if it comes before the limit.
-/
def closeAhead? (t : Text) (limit i : Int) (opened : List Bracket) : Option Int :=
  match opened with
  | [] => some i
  | top :: others =>
    if i < limit then
      match Bracket.ofOpening? (charAtInt t i), Bracket.ofClosing? (charAtInt t i) with
      | some b, _ => closeAhead? t limit (i + 1) (b :: top :: others)
      | none, some b =>
        if b = top then closeAhead? t limit (i + 1) others
        else if b.rank < top.rank then closeAhead? t limit i others
        else closeAhead? t limit (i + 1) (top :: others)
      | none, none =>
        if isQuote (charAtInt t i) then
          closeAhead? t limit (skipQuotedAhead t i limit + 1) (top :: others)
        else closeAhead? t limit (i + 1) (top :: others)
    else none
termination_by ((limit - i).toNat, opened.length)
decreasing_by
  all_goals try (apply Prod.Lex.left; omega)
  · exact Prod.Lex.right _ (by simp)
  · have := lt_skipQuotedAhead t i limit
    apply Prod.Lex.left
    omega

theorem le_of_closeAhead? {t : Text} {limit i j : Int} {opened : List Bracket}
    (h : closeAhead? t limit i opened = some j) : i ≤ j := by
  fun_induction closeAhead? t limit i opened with
  | case1 => simp_all
  | case6 i top others _ _ _ _ ih =>
    have := lt_skipQuotedAhead t i limit
    have := ih h
    omega
  | case8 => simp at h
  | _ => rename_i ih; have := ih h; omega

/-- The same towards the start of the document. -/
def closeBack? (t : Text) (floor i : Int) (opened : List Bracket) : Option Int :=
  match opened with
  | [] => some i
  | top :: others =>
    if floor < i then
      match Bracket.ofClosing? (charAtInt t i), Bracket.ofOpening? (charAtInt t i) with
      | some b, _ => closeBack? t floor (i - 1) (b :: top :: others)
      | none, some b =>
        if b = top then closeBack? t floor (i - 1) others
        else if b.rank < top.rank then closeBack? t floor i others
        else closeBack? t floor (i - 1) (top :: others)
      | none, none =>
        if isQuote (charAtInt t i) then
          closeBack? t floor (skipQuotedBack t i floor - 1) (top :: others)
        else closeBack? t floor (i - 1) (top :: others)
    else none
termination_by ((i - floor).toNat, opened.length)
decreasing_by
  all_goals try (apply Prod.Lex.left; omega)
  · exact Prod.Lex.right _ (by simp)
  · have := skipQuotedBack_lt t i floor
    apply Prod.Lex.left
    omega

theorem le_of_closeBack? {t : Text} {floor i j : Int} {opened : List Bracket}
    (h : closeBack? t floor i opened = some j) : j ≤ i := by
  fun_induction closeBack? t floor i opened with
  | case1 => simp_all
  | case6 i top others _ _ _ _ ih =>
    have := skipQuotedBack_lt t i floor
    have := ih h
    omega
  | case8 => simp at h
  | _ => rename_i ih; have := ih h; omega

/-- Past the bracketed expression that begins at a position, or past its bracket alone if that is not
closed before the limit. -/
def skipBracketedAhead (t : Text) (b : Bracket) (start limit : Int) : Int :=
  (closeAhead? t limit (start + 1) [b]).getD (start + 1)

def skipBracketedBack (t : Text) (b : Bracket) (start floor : Int) : Int :=
  (closeBack? t floor (start - 1) [b]).getD (start - 1)

theorem lt_skipBracketedAhead (t : Text) (b : Bracket) (start limit : Int) :
    start < skipBracketedAhead t b start limit := by
  unfold skipBracketedAhead
  cases h : closeAhead? t limit (start + 1) [b] with
  | none => simp only [Option.getD_none]; omega
  | some j => have := le_of_closeAhead? h; simp only [Option.getD_some]; omega

theorem skipBracketedBack_lt (t : Text) (b : Bracket) (start floor : Int) :
    skipBracketedBack t b start floor < start := by
  unfold skipBracketedBack
  cases h : closeBack? t floor (start - 1) [b] with
  | none => simp only [Option.getD_none]; omega
  | some j => have := le_of_closeBack? h; simp only [Option.getD_some]; omega

/-! ### The brackets of the list -/

/-- The nearest open bracket from a position down to the floor. -/
def openBefore? (t : Text) (floor i : Int) : Option (Bracket × Int) :=
  if i < floor then none
  else
    match Bracket.ofOpening? (charAtInt t i), Bracket.ofClosing? (charAtInt t i) with
    | some b, _ => some (b, i)
    | none, some b => openBefore? t floor (skipBracketedBack t b i floor)
    | none, none =>
      if isQuote (charAtInt t i) then openBefore? t floor (skipQuotedBack t i floor - 1)
      else if i = floor then none
      else openBefore? t floor (i - 1)
termination_by (i + 1 - floor).toNat
decreasing_by
  · have := skipBracketedBack_lt t b i floor
    omega
  · have := skipQuotedBack_lt t i floor
    omega
  · omega

theorem openBefore?_le {t : Text} {floor i j : Int} {b : Bracket} (h : openBefore? t floor i = some (b, j)) :
    floor ≤ j ∧ j ≤ i := by
  fun_induction openBefore? t floor i with
  | case1 => simp at h
  | case2 => simp_all
  | case3 i _ b _ _ ih =>
    have := skipBracketedBack_lt t b i floor
    have := ih h
    omega
  | case4 i _ _ _ _ ih =>
    have := skipQuotedBack_lt t i floor
    have := ih h
    omega
  | case5 => simp at h
  | case6 i _ _ _ _ _ ih =>
    have := ih h
    omega

/-- The nearest closing bracket from a position up to the limit. -/
def closeAfter? (t : Text) (limit i : Int) : Option (Bracket × Int) :=
  if limit < i then none
  else
    match Bracket.ofClosing? (charAtInt t i), Bracket.ofOpening? (charAtInt t i) with
    | some b, _ => some (b, i)
    | none, some b => closeAfter? t limit (skipBracketedAhead t b i limit)
    | none, none =>
      if isQuote (charAtInt t i) then closeAfter? t limit (skipQuotedAhead t i limit + 1)
      else if i + 1 = limit then none
      else closeAfter? t limit (i + 1)
termination_by (limit + 1 - i).toNat
decreasing_by
  · have := lt_skipBracketedAhead t b i limit
    omega
  · have := lt_skipQuotedAhead t i limit
    omega
  · omega

theorem le_closeAfter? {t : Text} {limit i j : Int} {b : Bracket}
    (h : closeAfter? t limit i = some (b, j)) : i ≤ j ∧ j ≤ limit := by
  fun_induction closeAfter? t limit i with
  | case1 => simp at h
  | case2 => simp_all
  | case3 i _ b _ _ ih =>
    have := lt_skipBracketedAhead t b i limit
    have := ih h
    omega
  | case4 i _ _ _ _ ih =>
    have := lt_skipQuotedAhead t i limit
    have := ih h
    omega
  | case5 => simp at h
  | case6 i _ _ _ _ _ ih =>
    have := ih h
    omega

/-- Widens two brackets until they are of one kind: the one of the higher rank is given up for the next
one outwards. -/
def matchBrackets? (t : Text) (floor limit : Int) (opening closing : Bracket × Int) : Option (Int × Int) :=
  if opening.1.rank = closing.1.rank then some (opening.2, closing.2)
  else if opening.1.rank < closing.1.rank then
    if limit ≤ closing.2 + 1 then none
    else
      match h : closeAfter? t limit (closing.2 + 1) with
      | some next =>
        have := le_closeAfter? h
        matchBrackets? t floor limit opening next
      | none => none
  else if opening.2 ≤ 1 then none
  else
    match h : openBefore? t floor (opening.2 - 1) with
    | some next =>
      have := openBefore?_le h
      matchBrackets? t floor limit next closing
    | none => none
termination_by (limit - closing.2).toNat + (opening.2 - floor).toNat

/-- The nearest pair of brackets of one kind that holds two positions. -/
def outerBrackets? (t : Text) (left right : Int) : Option (Int × Int) := do
  let limit : Int := t.length - 1
  matchBrackets? t 0 limit (← openBefore? t 0 left) (← closeAfter? t limit right)

/-! ### The delimiters of an argument -/

/-- The comma, or else the bracket, that ends the argument. -/
def rightDelimiter (t : Text) (bracket i : Int) : Int :=
  if i < bracket ∧ charAtInt t i ≠ ',' then
    match Bracket.ofOpening? (charAtInt t i) with
    | some b => rightDelimiter t bracket (skipBracketedAhead t b i bracket)
    | none =>
      if isQuote (charAtInt t i) then rightDelimiter t bracket (skipQuotedAhead t i bracket + 1)
      else rightDelimiter t bracket (i + 1)
  else i
termination_by (bracket - i).toNat
decreasing_by
  · have := lt_skipBracketedAhead t b i bracket
    omega
  · have := lt_skipQuotedAhead t i bracket
    omega
  · omega

/-- The comma, or else the bracket, that the argument begins behind. -/
def leftDelimiter (t : Text) (bracket i : Int) : Int :=
  if bracket < i ∧ charAtInt t i ≠ ',' then
    match Bracket.ofClosing? (charAtInt t i) with
    | some b => leftDelimiter t bracket (skipBracketedBack t b i bracket)
    | none =>
      if isQuote (charAtInt t i) then leftDelimiter t bracket (skipQuotedBack t i bracket - 1)
      else leftDelimiter t bracket (i - 1)
  else i
termination_by (i - bracket).toNat
decreasing_by
  · have := skipBracketedBack_lt t b i bracket
    omega
  · have := skipQuotedBack_lt t i bracket
    omega
  · omega

theorem leftDelimiter_le (t : Text) (bracket i : Int) : leftDelimiter t bracket i ≤ i := by
  fun_induction leftDelimiter t bracket i with
  | case1 i _ b _ ih =>
    have := skipBracketedBack_lt t b i bracket
    omega
  | case2 i _ _ _ ih =>
    have := skipQuotedBack_lt t i bracket
    omega
  | case3 i _ _ _ ih => omega
  | case4 => omega

def isNameStart (c : Char) : Bool := Unicode.isAlphabetic c || c == '_' || c == '$'

def isNamePart (c : Char) : Bool := isNameStart c || Unicode.isNumeric c

/-- Whether a name stands before a position, blanks apart: the mark of a call. -/
def nameBefore (t : Text) (position : Int) : Bool :=
  let last := scanBack t Unicode.isWhiteSpace (position - 1) 0
  let before := scanBack t isNamePart last 0
  before < last && isNameStart (charAtInt t (before + 1))

/-- The delimiters of an argument, and the closing bracket of its list. -/
structure ArgumentBounds where
  left : Int
  right : Int
  rightBracket : Int
  deriving DecidableEq, Repr

/-- Looks for an argument around two positions, further and further out. -/
def boundsAround? (t : Text) (left right : Int) : Option ArgumentBounds :=
  match outerBrackets? t left right with
  | none => none
  | some (leftBracket, rightBracket) =>
    let leftEnd := leftDelimiter t leftBracket left
    let rightEnd := rightDelimiter t rightBracket right
    if leftEnd < 1 ∨ (t.length : Int) < rightEnd + 1 ∨ rightEnd - leftEnd = 1 then none
    else
      let bracketed := charAtInt t leftEnd != ',' && charAtInt t rightEnd != ','
      if bracketed && !nameBefore t leftEnd then
        boundsAround? t (leftEnd - 1) (rightEnd + 1)
      else some ⟨leftEnd, rightEnd, rightBracket⟩
termination_by left.toNat
decreasing_by
  have := leftDelimiter_le t leftBracket left
  omega

/-- The quoted text on a line, from a position on, that a position is in. -/
def quotedAround? (t : Text) (lineEnd position i : Int) : Option (Int × Int) :=
  if position < i then none
  else if isQuote (charAtInt t i) then
    let stop := skipQuotedAhead t i lineEnd
    if position ≤ stop then some (i, stop) else quotedAround? t lineEnd position (stop + 1)
  else quotedAround? t lineEnd position (i + 1)
termination_by (position + 1 - i).toNat
decreasing_by
  · have := lt_skipQuotedAhead t i lineEnd
    omega
  · omega

/-- The argument at a position. The search begins outside the quoted text that the position is in, and
otherwise at the position and the one next to it. -/
def boundsAt? (t : Text) (position : Int) : Option ArgumentBounds :=
  let line := t.lineOf position.toNat
  match quotedAround? t (t.lineEnd line) position (t.lineStart line) with
  | some (first, last) => boundsAround? t (first - 1) (last + 1)
  | none =>
    match Bracket.ofClosing? (charAtInt t position) with
    | some _ => boundsAround? t (position - 1) position
    | none => boundsAround? t position (position + 1)

/-- Without the left delimiter and the blanks behind it. -/
def ArgumentBounds.inner (t : Text) (b : ArgumentBounds) : Int × Int :=
  (scanAhead t Unicode.isWhiteSpace (b.left + 1) b.right, b.right)

/-- With one delimiter: the first argument of a list takes the comma behind it with the blanks that
follow, a later one the comma before it. -/
def ArgumentBounds.outer (t : Text) (b : ArgumentBounds) : Int × Int :=
  if charAtInt t b.left = ',' then (b.left, b.right)
  else if b.right + 1 < b.rightBracket ∧ charAtInt t b.right = ',' then
    (b.left + 1, scanAhead t Unicode.isWhiteSpace (b.right + 1) (b.rightBracket - 1))
  else (b.left + 1, b.right)

/-- The end of the last of a number of arguments that follow each other, from a position on. -/
def lastArgumentEnd? (t : Text) (inner : Bool) : Nat → Int → Option Int
  | 0, position => some position
  | count + 1, position => do
    let bounds ← boundsAt? t position
    lastArgumentEnd? t inner count (if inner && count == 0 then bounds.inner t else bounds.outer t).2

/-- A counted inner object drops the left delimiter of the first argument and keeps no comma behind the
last. -/
def argumentRange (t : Text) (offset count : Nat) (inner : Bool) : Option TextRange := do
  let bounds ← boundsAt? t offset
  let (start, stop) := if inner then bounds.inner t else bounds.outer t
  let stop ← lastArgumentEnd? t inner (max count 1 - 1) stop
  if start < 0 ∨ stop < 0 then none
  else return .between start.toNat (max stop.toNat start.toNat) .characterwise

def argument (inner : Bool) : TextObject := fun ctx ↦ argumentRange ctx.text ctx.offset ctx.count inner

end TextObject

end ModalEdit
