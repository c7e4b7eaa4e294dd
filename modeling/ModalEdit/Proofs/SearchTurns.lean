import ModalEdit.Proofs.ScanPaths

/-!
The search for an argument, turn by turn. A loop is given by what one turn of it makes of its state
(`Turn`), and it ends after so many turns if a turn leaves it then (`Turn.Ends`), which a measure that falls
from turn to turn brings about (`Turn.endsWithin_of_lowers`). Most turns of the search come closer to the
limit of their loop; the one that only gives up an open bracket looks at the same character again, so that
brackets are counted along with the characters that are left (`TextObject.closeAheadTurn_lowers`). Hence
every loop of the search ends, whatever the text and the state, and within the text
(`TextObject.argument_search_ends_inside`).
-/

set_option autoImplicit false
set_option relaxedAutoImplicit false

namespace ModalEdit

/-! ### Loops -/

/-- What a turn of a loop comes to: the state of the next turn, or the result that the loop is left with. -/
inductive Turn (σ α : Type) where
  | again (s : σ)
  | leave (a : α)

namespace Turn

variable {σ α : Type}

/-- From a state the loop is left with a result, after a number of turns that do not leave it. -/
inductive Ends (turn : σ → Turn σ α) : σ → Nat → α → Prop where
  | leave {s : σ} {a : α} (h : turn s = .leave a) : Ends turn s 0 a
  | again {s s' : σ} {n : Nat} {a : α} (h : turn s = .again s') (rest : Ends turn s' n a) :
    Ends turn s (n + 1) a

/-- The number of turns is bounded. -/
def EndsWithin (turn : σ → Turn σ α) (s : σ) (bound : Nat) (a : α) : Prop :=
  ∃ n ≤ bound, Ends turn s n a

/-- A turn that goes on does so with the same result ahead and with a lower measure; one that leaves the
loop has that result. -/
inductive Lowers (result : σ → α) (measure : σ → Nat) (s : σ) : Turn σ α → Prop where
  | again {s' : σ} (measure_lt : measure s' < measure s) (result_eq : result s = result s') :
    Lowers result measure s (.again s')
  | leave {a : α} (result_eq : result s = a) : Lowers result measure s (.leave a)

/-- If every turn lowers the measure, it bounds the number of turns. -/
theorem endsWithin_of_lowers {turn : σ → Turn σ α} {result : σ → α} {measure : σ → Nat}
    (h : ∀ s, (turn s).Lowers result measure s) (s : σ) : EndsWithin turn s (measure s) (result s) := by
  induction hm : measure s using Nat.strongRecOn generalizing s with
  | ind m ih =>
    subst hm
    have hturn := h s
    cases hs : turn s with
    | leave a =>
      rw [hs] at hturn
      cases hturn with
      | leave result_eq => exact ⟨0, Nat.zero_le _, result_eq ▸ .leave hs⟩
    | again s' =>
      rw [hs] at hturn
      cases hturn with
      | again measure_lt result_eq =>
        obtain ⟨n, hn, hends⟩ := ih _ measure_lt s' rfl
        exact ⟨n + 1, Nat.lt_of_le_of_lt hn measure_lt, result_eq ▸ .again hs hends⟩

end Turn

namespace TextObject

variable (t : Text)

/-! ### Turns over characters of one kind -/

section Scans

variable (test : Char → Bool) (floor limit i : Int)

def scanAheadTurn : Turn Int Int :=
  if i < limit ∧ test (charAtInt t i) = true then .again (i + 1) else .leave i

def scanBackTurn : Turn Int Int :=
  if floor < i ∧ test (charAtInt t i) = true then .again (i - 1) else .leave i

theorem scanAheadTurn_lowers : (scanAheadTurn t test limit i).Lowers
    (fun i ↦ scanAhead t test i limit) (fun i ↦ (limit - i).toNat) i := by
  unfold scanAheadTurn
  split
  case isTrue hgo => exact .again (by omega) (by rw [scanAhead.eq_def t test i limit, if_pos hgo])
  case isFalse hstop => exact .leave (by rw [scanAhead, if_neg hstop])

theorem scanBackTurn_lowers : (scanBackTurn t test floor i).Lowers
    (fun i ↦ scanBack t test i floor) (fun i ↦ (i - floor).toNat) i := by
  unfold scanBackTurn
  split
  case isTrue hgo => exact .again (by omega) (by rw [scanBack.eq_def t test i floor, if_pos hgo])
  case isFalse hstop => exact .leave (by rw [scanBack, if_neg hstop])

end Scans

/-! ### Turns over quoted text -/

section Quotes

variable (quote : Char) (floor limit lineEnd position i : Int)

/-- The state holds whether the character is escaped. -/
def closingQuoteTurn : Bool × Int → Turn (Bool × Int) Int
  | (escaped, i) =>
    if i < limit ∧ ¬(charAtInt t i = quote ∧ escaped = false) then
      .again (charAtInt t i == '\\' && !escaped, i + 1)
    else .leave i

def openingQuoteTurn : Turn Int Int :=
  if floor < i ∧ ¬(charAtInt t i = quote ∧ charAtInt t (i - 1) ≠ '\\') then .again (i - 1) else .leave i

/-- The quotes of a line are left one after the other until one reaches over the position. -/
def quotedAroundTurn : Turn Int (Option (Int × Int)) :=
  if position < i then .leave none
  else if isQuote (charAtInt t i) then
    if position ≤ skipQuotedAhead t i lineEnd then .leave (some (i, skipQuotedAhead t i lineEnd))
    else .again (skipQuotedAhead t i lineEnd + 1)
  else .again (i + 1)

theorem closingQuoteTurn_lowers (s : Bool × Int) : (closingQuoteTurn t quote limit s).Lowers
    (fun s ↦ closingQuote t quote s.1 s.2 limit) (fun s ↦ (limit - s.2).toNat) s := by
  obtain ⟨escaped, i⟩ := s
  unfold closingQuoteTurn
  dsimp only
  split
  case isTrue hgo =>
    exact .again (by dsimp only; omega) (by rw [closingQuote.eq_def t quote escaped i limit, if_pos hgo])
  case isFalse hstop => exact .leave (by rw [closingQuote, if_neg hstop])

theorem openingQuoteTurn_lowers : (openingQuoteTurn t quote floor i).Lowers
    (fun i ↦ openingQuote t quote i floor) (fun i ↦ (i - floor).toNat) i := by
  unfold openingQuoteTurn
  split
  case isTrue hgo => exact .again (by omega) (by rw [openingQuote.eq_def t quote i floor, if_pos hgo])
  case isFalse hstop => exact .leave (by rw [openingQuote, if_neg hstop])

theorem quotedAroundTurn_lowers : (quotedAroundTurn t lineEnd position i).Lowers
    (quotedAround? t lineEnd position) (fun i ↦ (position + 1 - i).toNat) i := by
  have hahead := lt_skipQuotedAhead t i lineEnd
  unfold quotedAroundTurn
  split_ifs with hpast hquote hreaches
  · exact .leave (by rw [quotedAround?, if_pos hpast])
  · exact .leave (by rw [quotedAround?, if_neg hpast, if_pos hquote, if_pos hreaches])
  · refine .again (by omega) ?_
    rw [quotedAround?.eq_def t lineEnd position i, if_neg hpast, if_pos hquote, if_neg hreaches]
  · refine .again (by omega) ?_
    rw [quotedAround?.eq_def t lineEnd position i, if_neg hpast, if_neg hquote]

end Quotes

/-! ### Turns out of open brackets -/

section Close

variable {top : Bracket} {opened others : List Bracket} {n : Int}

/-- A turn opens one bracket at most. -/
theorem length_le_of_move? {opens closes : Option Bracket} {quote : Bool}
    (h : move? opens closes quote top others = some (n, opened)) : opened.length ≤ others.length + 2 := by
  unfold move? at h
  split at h
  · cases h
    exact Nat.le_refl _
  · split at h
    · cases h
      exact Nat.le_add_right _ 2
    · split at h <;> cases h
      · exact Nat.le_add_right _ 2
      · exact Nat.le_succ _
  · split at h <;> cases h
    exact Nat.le_succ _

variable (floor limit : Int) (s : Int × List Bracket)

def closeAheadTurn : Int × List Bracket → Turn (Int × List Bracket) (Option Int)
  | (i, []) => .leave (some i)
  | (i, top :: others) =>
    if i < limit then
      match moveAhead? t i top others with
      | some (n, opened) => .again (i + n, opened)
      | none => .again (skipQuotedAhead t i limit + 1, top :: others)
    else .leave none

def closeBackTurn : Int × List Bracket → Turn (Int × List Bracket) (Option Int)
  | (i, []) => .leave (some i)
  | (i, top :: others) =>
    if floor < i then
      match moveBack? t i top others with
      | some (n, opened) => .again (i - n, opened)
      | none => .again (skipQuotedBack t i floor - 1, top :: others)
    else .leave none

/-- Twice the way that is left, and the open brackets: a turn that goes on opens one more at most, and one
that stays at its character gives one up. -/
theorem closeAheadTurn_lowers : (closeAheadTurn t limit s).Lowers
    (fun s ↦ closeAhead? t limit s.1 s.2) (fun s ↦ 2 * (limit - s.1).toNat + s.2.length) s := by
  obtain ⟨i, _ | ⟨top, others⟩⟩ := s
  · exact .leave (closeAhead?_nil t limit i)
  · unfold closeAheadTurn
    dsimp only
    split
    case isFalse hge => exact .leave (closeAhead?_of_le (Int.not_lt.mp hge))
    case isTrue hlt =>
      cases hmove : moveAhead? t i top others with
      | none =>
        have hahead := lt_skipQuotedAhead t i limit
        exact .again (by dsimp only; omega) (closeAhead?_quote hlt hmove)
      | some next =>
        obtain ⟨n, opened⟩ := next
        refine .again ?_ (closeAhead?_move hlt hmove)
        have hlength := length_le_of_move? hmove
        dsimp only
        rw [List.length_cons]
        rcases move?_step hmove with rfl | ⟨rfl, rfl⟩ <;> omega

theorem closeBackTurn_lowers : (closeBackTurn t floor s).Lowers
    (fun s ↦ closeBack? t floor s.1 s.2) (fun s ↦ 2 * (s.1 - floor).toNat + s.2.length) s := by
  obtain ⟨i, _ | ⟨top, others⟩⟩ := s
  · exact .leave (closeBack?_nil t floor i)
  · unfold closeBackTurn
    dsimp only
    split
    case isFalse hle => exact .leave (closeBack?_of_le (Int.not_lt.mp hle))
    case isTrue hlt =>
      cases hmove : moveBack? t i top others with
      | none =>
        have hback := skipQuotedBack_lt t i floor
        exact .again (by dsimp only; omega) (closeBack?_quote hlt hmove)
      | some next =>
        obtain ⟨n, opened⟩ := next
        refine .again ?_ (closeBack?_move hlt hmove)
        have hlength := length_le_of_move? hmove
        dsimp only
        rw [List.length_cons]
        rcases move?_step hmove with rfl | ⟨rfl, rfl⟩ <;> omega

end Close

/-! ### Turns to the brackets around -/

section Brackets

variable (floor limit i : Int) (s : (Bracket × Int) × (Bracket × Int))

def openBeforeTurn : Turn Int (Option (Bracket × Int)) :=
  if i < floor then .leave none
  else
    match Bracket.ofOpening? (charAtInt t i), Bracket.ofClosing? (charAtInt t i) with
    | some b, _ => .leave (some (b, i))
    | none, some b => .again (skipBracketedBack t b i floor)
    | none, none =>
      if isQuote (charAtInt t i) then .again (skipQuotedBack t i floor - 1)
      else if i = floor then .leave none
      else .again (i - 1)

def closeAfterTurn : Turn Int (Option (Bracket × Int)) :=
  if limit < i then .leave none
  else
    match Bracket.ofClosing? (charAtInt t i), Bracket.ofOpening? (charAtInt t i) with
    | some b, _ => .leave (some (b, i))
    | none, some b => .again (skipBracketedAhead t b i limit)
    | none, none =>
      if isQuote (charAtInt t i) then .again (skipQuotedAhead t i limit + 1)
      else if i + 1 = limit then .leave none
      else .again (i + 1)

/-- The bracket of the higher rank is given up for the next one outwards. -/
def matchBracketsTurn : (Bracket × Int) × (Bracket × Int) →
    Turn ((Bracket × Int) × (Bracket × Int)) (Option (Int × Int))
  | (opening, closing) =>
    if opening.1.rank = closing.1.rank then .leave (some (opening.2, closing.2))
    else if opening.1.rank < closing.1.rank then
      if limit ≤ closing.2 + 1 then .leave none
      else
        match closeAfter? t limit (closing.2 + 1) with
        | some next => .again (opening, next)
        | none => .leave none
    else if opening.2 ≤ 1 then .leave none
    else
      match openBefore? t floor (opening.2 - 1) with
      | some next => .again (next, closing)
      | none => .leave none

theorem openBeforeTurn_lowers : (openBeforeTurn t floor i).Lowers
    (openBefore? t floor) (fun i ↦ (i + 1 - floor).toNat) i := by
  have hdef := openBefore?.eq_def t floor i
  unfold openBeforeTurn
  by_cases hlt : i < floor
  · rw [if_pos hlt] at hdef ⊢
    exact .leave hdef
  rw [if_neg hlt] at hdef ⊢
  cases hopening : Bracket.ofOpening? (charAtInt t i) with
  | some b =>
    rw [hopening] at hdef
    exact .leave hdef
  | none =>
    cases hclosing : Bracket.ofClosing? (charAtInt t i) with
    | some b =>
      rw [hopening, hclosing] at hdef
      have hback := skipBracketedBack_lt t b i floor
      exact .again (by omega) hdef
    | none =>
      rw [hopening, hclosing] at hdef
      dsimp only at hdef ⊢
      split_ifs at hdef ⊢
      · have hback := skipQuotedBack_lt t i floor
        exact .again (by omega) hdef
      · exact .leave hdef
      · exact .again (by omega) hdef

theorem closeAfterTurn_lowers : (closeAfterTurn t limit i).Lowers
    (closeAfter? t limit) (fun i ↦ (limit + 1 - i).toNat) i := by
  have hdef := closeAfter?.eq_def t limit i
  unfold closeAfterTurn
  by_cases hlt : limit < i
  · rw [if_pos hlt] at hdef ⊢
    exact .leave hdef
  rw [if_neg hlt] at hdef ⊢
  cases hclosing : Bracket.ofClosing? (charAtInt t i) with
  | some b =>
    rw [hclosing] at hdef
    exact .leave hdef
  | none =>
    cases hopening : Bracket.ofOpening? (charAtInt t i) with
    | some b =>
      rw [hclosing, hopening] at hdef
      have hahead := lt_skipBracketedAhead t b i limit
      exact .again (by omega) hdef
    | none =>
      rw [hclosing, hopening] at hdef
      dsimp only at hdef ⊢
      split_ifs at hdef ⊢
      · have hahead := lt_skipQuotedAhead t i limit
        exact .again (by omega) hdef
      · exact .leave hdef
      · exact .again (by omega) hdef

theorem matchBracketsTurn_lowers : (matchBracketsTurn t floor limit s).Lowers
    (fun s ↦ matchBrackets? t floor limit s.1 s.2)
    (fun s ↦ (limit - s.2.2).toNat + (s.1.2 - floor).toNat) s := by
  obtain ⟨opening, closing⟩ := s
  have hdef := matchBrackets?.eq_def t floor limit opening closing
  unfold matchBracketsTurn
  dsimp only
  split_ifs at hdef ⊢ with hsame hlower hlast hfirst
  · exact .leave hdef
  · exact .leave hdef
  · cases hnext : closeAfter? t limit (closing.2 + 1) with
    | none =>
      refine .leave (hdef.trans ?_)
      split
      · next hsome => cases hnext.symm.trans hsome
      · rfl
    | some next =>
      have hle := le_closeAfter? hnext
      refine .again (by dsimp only; omega) (hdef.trans ?_)
      split
      · next hsome => cases hnext.symm.trans hsome; rfl
      · next hnone => cases hnext.symm.trans hnone
  · exact .leave hdef
  · cases hnext : openBefore? t floor (opening.2 - 1) with
    | none =>
      refine .leave (hdef.trans ?_)
      split
      · next hsome => cases hnext.symm.trans hsome
      · rfl
    | some next =>
      have hle := openBefore?_le hnext
      refine .again (by dsimp only; omega) (hdef.trans ?_)
      split
      · next hsome => cases hnext.symm.trans hsome; rfl
      · next hnone => cases hnext.symm.trans hnone

end Brackets

/-! ### Turns to the delimiters of an argument, and outwards -/

section Delimiters

variable (bracket i : Int) (inner : Bool)

def rightDelimiterTurn : Turn Int Int :=
  if i < bracket ∧ charAtInt t i ≠ ',' then
    match Bracket.ofOpening? (charAtInt t i) with
    | some b => .again (skipBracketedAhead t b i bracket)
    | none =>
      if isQuote (charAtInt t i) then .again (skipQuotedAhead t i bracket + 1) else .again (i + 1)
  else .leave i

def leftDelimiterTurn : Turn Int Int :=
  if bracket < i ∧ charAtInt t i ≠ ',' then
    match Bracket.ofClosing? (charAtInt t i) with
    | some b => .again (skipBracketedBack t b i bracket)
    | none =>
      if isQuote (charAtInt t i) then .again (skipQuotedBack t i bracket - 1) else .again (i - 1)
  else .leave i

/-- Out of brackets that are not those of a call. -/
def boundsAroundTurn : Int × Int → Turn (Int × Int) (Option ArgumentBounds)
  | (left, right) =>
    match outerBrackets? t left right with
    | none => .leave none
    | some (leftBracket, rightBracket) =>
      let leftEnd := leftDelimiter t leftBracket left
      let rightEnd := rightDelimiter t rightBracket right
      if leftEnd < 1 ∨ (t.length : Int) < rightEnd + 1 ∨ rightEnd - leftEnd = 1 then .leave none
      else if (charAtInt t leftEnd != ',' && charAtInt t rightEnd != ',') && !nameBefore t leftEnd then
        .again (leftEnd - 1, rightEnd + 1)
      else .leave (some ⟨leftEnd, rightEnd, rightBracket⟩)

/-- From the end of one argument on to the next, as many as are left. -/
def lastArgumentTurn : Nat × Int → Turn (Nat × Int) (Option Int)
  | (0, position) => .leave (some position)
  | (count + 1, position) =>
    match boundsAt? t position with
    | none => .leave none
    | some bounds => .again (count, (if inner && count == 0 then bounds.inner t else bounds.outer t).2)

theorem rightDelimiterTurn_lowers : (rightDelimiterTurn t bracket i).Lowers
    (rightDelimiter t bracket) (fun i ↦ (bracket - i).toNat) i := by
  have hdef := rightDelimiter.eq_def t bracket i
  unfold rightDelimiterTurn
  by_cases hgo : i < bracket ∧ charAtInt t i ≠ ','
  · rw [if_pos hgo] at hdef ⊢
    cases hopening : Bracket.ofOpening? (charAtInt t i) with
    | some b =>
      rw [hopening] at hdef
      have hahead := lt_skipBracketedAhead t b i bracket
      exact .again (by omega) hdef
    | none =>
      rw [hopening] at hdef
      dsimp only at hdef ⊢
      split_ifs at hdef ⊢
      · have hahead := lt_skipQuotedAhead t i bracket
        exact .again (by omega) hdef
      · exact .again (by omega) hdef
  · rw [if_neg hgo] at hdef ⊢
    exact .leave hdef

theorem leftDelimiterTurn_lowers : (leftDelimiterTurn t bracket i).Lowers
    (leftDelimiter t bracket) (fun i ↦ (i - bracket).toNat) i := by
  have hdef := leftDelimiter.eq_def t bracket i
  unfold leftDelimiterTurn
  by_cases hgo : bracket < i ∧ charAtInt t i ≠ ','
  · rw [if_pos hgo] at hdef ⊢
    cases hclosing : Bracket.ofClosing? (charAtInt t i) with
    | some b =>
      rw [hclosing] at hdef
      have hback := skipBracketedBack_lt t b i bracket
      exact .again (by omega) hdef
    | none =>
      rw [hclosing] at hdef
      dsimp only at hdef ⊢
      split_ifs at hdef ⊢
      · have hback := skipQuotedBack_lt t i bracket
        exact .again (by omega) hdef
      · exact .again (by omega) hdef
  · rw [if_neg hgo] at hdef ⊢
    exact .leave hdef

theorem boundsAroundTurn_lowers (s : Int × Int) : (boundsAroundTurn t s).Lowers
    (fun s ↦ boundsAround? t s.1 s.2) (fun s ↦ s.1.toNat) s := by
  obtain ⟨left, right⟩ := s
  have hdef := boundsAround?.eq_def t left right
  unfold boundsAroundTurn
  dsimp only
  cases hbrackets : outerBrackets? t left right with
  | none =>
    rw [hbrackets] at hdef
    exact .leave hdef
  | some brackets =>
    obtain ⟨leftBracket, rightBracket⟩ := brackets
    rw [hbrackets] at hdef
    dsimp only at hdef ⊢
    have hleft := leftDelimiter_le t leftBracket left
    split_ifs at hdef ⊢
    · exact .leave hdef
    · exact .again (by dsimp only; omega) hdef
    · exact .leave hdef

theorem lastArgumentTurn_lowers (s : Nat × Int) : (lastArgumentTurn t inner s).Lowers
    (fun s ↦ lastArgumentEnd? t inner s.1 s.2) Prod.fst s := by
  obtain ⟨_ | count, position⟩ := s
  · exact .leave rfl
  · unfold lastArgumentTurn
    dsimp only
    cases hbounds : boundsAt? t position with
    | none => exact .leave (by rw [lastArgumentEnd?, hbounds]; rfl)
    | some bounds => exact .again (Nat.lt_succ_self count) (by rw [lastArgumentEnd?, hbounds]; rfl)

end Delimiters

/-! ### The delimiters are apart, and the argument in the text -/

section Inside

variable {t} {b : ArgumentBounds} {position left right : Int} {inner : Bool}

/-- Between two positions, or further out, an argument is found between delimiters that are not next to
each other. -/
theorem apart_of_boundsAround? (hlt : left < right) (h : boundsAround? t left right = some b) :
    b.left + 2 ≤ b.right := by
  fun_induction boundsAround? t left right with
  | case1 => cases h
  | case2 => cases h
  | case3 left right leftBracket rightBracket hbrackets leftEnd rightEnd hends bracketed hwiden ih =>
    have hleft : leftEnd ≤ left := leftDelimiter_le t leftBracket left
    have hright : right ≤ rightEnd := (encloses_of_outerBrackets? hbrackets).rightDelimiter.1
    exact ih (by omega) h
  | case4 left right leftBracket rightBracket hbrackets leftEnd rightEnd hends bracketed hwiden =>
    have hleft : leftEnd ≤ left := leftDelimiter_le t leftBracket left
    have hright : right ≤ rightEnd := (encloses_of_outerBrackets? hbrackets).rightDelimiter.1
    cases h
    dsimp only
    omega

/-- Quoted text around a position does not begin behind it. -/
theorem quotedAround?_le {lineEnd i first last : Int}
    (h : quotedAround? t lineEnd position i = some (first, last)) : first ≤ position := by
  fun_induction quotedAround? t lineEnd position i with
  | case1 => cases h
  | case2 i hpast _ stop _ => exact (Prod.mk.inj (Option.some.inj h)).1 ▸ Int.not_lt.mp hpast
  | case3 i _ _ stop _ ih => exact ih h
  | case4 i _ _ ih => exact ih h

theorem apart_of_boundsAt? (h : boundsAt? t position = some b) : b.left + 2 ≤ b.right := by
  unfold boundsAt? at h
  dsimp only at h
  split at h
  · next first last hquoted =>
    have hfirst := quotedAround?_le hquoted
    have hlast := le_of_quotedAround? hquoted
    exact apart_of_boundsAround? (by omega) h
  · split at h
    · exact apart_of_boundsAround? (by omega) h
    · exact apart_of_boundsAround? (by omega) h

theorem inner_lt_length (h : boundsAt? t position = some b) :
    (b.inner t).1 < t.length ∧ (b.inner t).2 < t.length := by
  have hapart := apart_of_boundsAt? h
  have hright := (within_of_boundsAt? h).right
  have hle : scanAhead t Unicode.isWhiteSpace (b.left + 1) b.right ≤ b.right := scanAhead_le _ _ (by omega)
  exact ⟨Int.lt_of_le_of_lt hle hright, hright⟩

theorem outer_lt_length (h : boundsAt? t position = some b) :
    (b.outer t).1 < t.length ∧ (b.outer t).2 < t.length := by
  have hapart := apart_of_boundsAt? h
  have hright := (within_of_boundsAt? h).right
  have hbracket := (within_of_boundsAt? h).rightBracket
  unfold ArgumentBounds.outer
  split_ifs with hcomma hbehind
  · exact ⟨by dsimp only; omega, hright⟩
  · have hle : scanAhead t Unicode.isWhiteSpace (b.right + 1) (b.rightBracket - 1) ≤ b.rightBracket - 1 :=
      scanAhead_le _ _ (by omega)
    exact ⟨by dsimp only; omega, by dsimp only; omega⟩
  · exact ⟨by dsimp only; omega, hright⟩

theorem lastArgumentEnd?_lt {count : Nat} {stop : Int} (hposition : position < t.length)
    (h : lastArgumentEnd? t inner count position = some stop) : stop < t.length := by
  induction count generalizing position with
  | zero =>
    cases h
    exact hposition
  | succ count ih =>
    obtain ⟨bounds, hbounds, h⟩ := Option.bind_eq_some_iff.mp h
    refine ih ?_ h
    split
    · exact (inner_lt_length hbounds).2
    · exact (outer_lt_length hbounds).2

/-- The last character of a text is in no argument. -/
theorem argumentRange_stop_lt {offset count : Nat} {r : TextRange}
    (h : argumentRange t offset count inner = some r) : r.stop < t.length := by
  obtain ⟨bounds, hbounds, h⟩ := Option.bind_eq_some_iff.mp h
  have hfirst : (if inner then bounds.inner t else bounds.outer t).1 < t.length ∧
      (if inner then bounds.inner t else bounds.outer t).2 < t.length := by
    split
    · exact inner_lt_length hbounds
    · exact outer_lt_length hbounds
  generalize (if inner then bounds.inner t else bounds.outer t) = cut at h hfirst
  obtain ⟨start, firstStop⟩ := cut
  obtain ⟨stop, hstop, h⟩ := Option.bind_eq_some_iff.mp h
  have hlast : stop < t.length := lastArgumentEnd?_lt hfirst.2 hstop
  split at h
  · cases h
  · cases h
    show max start.toNat (max stop.toNat start.toNat) < t.length
    omega

end Inside

/-! ### The search -/

/-- From every state each loop of the search ends, with what the search takes from it: where a run of
characters, quoted text or what is open in brackets ends, the quoted text around, the brackets around, the
delimiters, and the end of the last of several arguments. -/
structure SearchEnds (t : Text) : Prop where
  charactersAhead : ∀ test limit i,
    Turn.EndsWithin (scanAheadTurn t test limit) i (limit - i).toNat (scanAhead t test i limit)
  charactersBack : ∀ test floor i,
    Turn.EndsWithin (scanBackTurn t test floor) i (i - floor).toNat (scanBack t test i floor)
  quoteAhead : ∀ quote limit escaped i, Turn.EndsWithin (closingQuoteTurn t quote limit) (escaped, i)
    (limit - i).toNat (closingQuote t quote escaped i limit)
  quoteBack : ∀ quote floor i,
    Turn.EndsWithin (openingQuoteTurn t quote floor) i (i - floor).toNat (openingQuote t quote i floor)
  quotesOfLine : ∀ lineEnd position i, Turn.EndsWithin (quotedAroundTurn t lineEnd position) i
    (position + 1 - i).toNat (quotedAround? t lineEnd position i)
  bracketsAhead : ∀ limit i opened, Turn.EndsWithin (closeAheadTurn t limit) (i, opened)
    (2 * (limit - i).toNat + opened.length) (closeAhead? t limit i opened)
  bracketsBack : ∀ floor i opened, Turn.EndsWithin (closeBackTurn t floor) (i, opened)
    (2 * (i - floor).toNat + opened.length) (closeBack? t floor i opened)
  openingBracket : ∀ floor i,
    Turn.EndsWithin (openBeforeTurn t floor) i (i + 1 - floor).toNat (openBefore? t floor i)
  closingBracket : ∀ limit i,
    Turn.EndsWithin (closeAfterTurn t limit) i (limit + 1 - i).toNat (closeAfter? t limit i)
  ranks : ∀ floor limit opening closing, Turn.EndsWithin (matchBracketsTurn t floor limit) (opening, closing)
    ((limit - closing.2).toNat + (opening.2 - floor).toNat) (matchBrackets? t floor limit opening closing)
  delimiterAhead : ∀ bracket i,
    Turn.EndsWithin (rightDelimiterTurn t bracket) i (bracket - i).toNat (rightDelimiter t bracket i)
  delimiterBack : ∀ bracket i,
    Turn.EndsWithin (leftDelimiterTurn t bracket) i (i - bracket).toNat (leftDelimiter t bracket i)
  outwards : ∀ left right,
    Turn.EndsWithin (boundsAroundTurn t) (left, right) left.toNat (boundsAround? t left right)
  arguments : ∀ inner count position, Turn.EndsWithin (lastArgumentTurn t inner) (count, position) count
    (lastArgumentEnd? t inner count position)

theorem searchEnds : SearchEnds t where
  charactersAhead test limit := Turn.endsWithin_of_lowers (scanAheadTurn_lowers t test limit)
  charactersBack test floor := Turn.endsWithin_of_lowers (scanBackTurn_lowers t test floor)
  quoteAhead quote limit escaped i :=
    Turn.endsWithin_of_lowers (closingQuoteTurn_lowers t quote limit) (escaped, i)
  quoteBack quote floor := Turn.endsWithin_of_lowers (openingQuoteTurn_lowers t quote floor)
  quotesOfLine lineEnd position := Turn.endsWithin_of_lowers (quotedAroundTurn_lowers t lineEnd position)
  bracketsAhead limit i opened := Turn.endsWithin_of_lowers (closeAheadTurn_lowers t limit) (i, opened)
  bracketsBack floor i opened := Turn.endsWithin_of_lowers (closeBackTurn_lowers t floor) (i, opened)
  openingBracket floor := Turn.endsWithin_of_lowers (openBeforeTurn_lowers t floor)
  closingBracket limit := Turn.endsWithin_of_lowers (closeAfterTurn_lowers t limit)
  ranks floor limit opening closing :=
    Turn.endsWithin_of_lowers (matchBracketsTurn_lowers t floor limit) (opening, closing)
  delimiterAhead bracket := Turn.endsWithin_of_lowers (rightDelimiterTurn_lowers t bracket)
  delimiterBack bracket := Turn.endsWithin_of_lowers (leftDelimiterTurn_lowers t bracket)
  outwards left right := Turn.endsWithin_of_lowers (boundsAroundTurn_lowers t) (left, right)
  arguments inner count position :=
    Turn.endsWithin_of_lowers (lastArgumentTurn_lowers t inner) (count, position)

/-- All loops of the search end. The delimiters that are found are in the text and not next to each other,
and the range leaves out the last character at least. -/
theorem argument_search_ends_inside : SearchEnds t ∧
    (∀ position b, boundsAt? t position = some b →
      1 ≤ b.left ∧ b.left + 2 ≤ b.right ∧ b.right ≤ (t.length : Int) - 1) ∧
    ∀ offset count inner r, argumentRange t offset count inner = some r →
      r.start ≤ r.stop ∧ r.stop < t.length := by
  refine ⟨searchEnds t, fun position b h ↦ ?_, fun offset count inner r h ↦ ?_⟩
  · have hwithin := within_of_boundsAt? h
    exact ⟨hwithin.left, apart_of_boundsAt? h, Int.le_sub_one_of_lt hwithin.right⟩
  · exact ⟨r.start_le_stop, argumentRange_stop_lt h⟩

/-- A bracket in quotes opens no list, and the comma behind it delimits the next argument. -/
example : boundsAt? "f(\"(\", b)".toList 7 = some ⟨5, 8, 8⟩ ∧
    (argumentRange "f(\"(\", b)".toList 7 1 true).map TextRange.stop = some 8 := by decide +kernel

end TextObject

end ModalEdit
