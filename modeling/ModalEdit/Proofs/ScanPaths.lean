import Mathlib.Logic.Relation
import ModalEdit.Proofs.ScanLimits

/-!
What the scans look at. A scan towards the start goes over quoted text in one step (`TextObject.stepBack`),
and so all such scans that pass through one place go the same way from there (`TextObject.Visits.between`).
The open bracket that is found is on that way (`TextObject.openBefore?_visits`), hence no quoted text that
is skipped reaches over it, and the delimiter before an argument is the bracket of the list or a comma in
it (`TextObject.Encloses.leftDelimiter`). Towards the end quoted text may reach to the closing bracket, but
not over it (`TextObject.rightDelimiter_bounds`). So what is found of an argument is in the text
(`TextObject.within_of_boundsAt?`).
-/

set_option autoImplicit false
set_option relaxedAutoImplicit false

namespace ModalEdit.TextObject

/-! ### The way of the scans towards the start -/

section Characters

variable {c : Char} {b : Bracket}

theorem isQuote_of_opening (h : Bracket.ofOpening? c = some b) : isQuote c = false := by
  unfold Bracket.ofOpening? at h
  split_ifs at h with h₁ h₂ h₃ h₄
  · exact h₁ ▸ rfl
  · exact h₂ ▸ rfl
  · exact h₃ ▸ rfl
  · exact h₄ ▸ rfl

theorem isQuote_of_closing (h : Bracket.ofClosing? c = some b) : isQuote c = false := by
  unfold Bracket.ofClosing? at h
  split_ifs at h with h₁ h₂ h₃ h₄
  · exact h₁ ▸ rfl
  · exact h₂ ▸ rfl
  · exact h₃ ▸ rfl
  · exact h₄ ▸ rfl

end Characters

/-- The next place that a scan towards the start looks at: quoted text is one step. -/
def stepBack (t : Text) (i : Int) : Int :=
  if isQuote (charAtInt t i) then skipQuotedBack t i 0 - 1 else i - 1

/-- A scan towards the start from one place looks at another. -/
def Visits (t : Text) : Int → Int → Prop := Relation.ReflTransGen fun i j ↦ j = stepBack t i

section Visits

variable {t : Text} {floor i j k : Int} {b top : Bracket} {opened others : List Bracket} {n : Int}

theorem stepBack_lt (t : Text) (i : Int) : stepBack t i < i := by
  have := skipQuotedBack_lt t i 0
  unfold stepBack
  split <;> omega

theorem stepBack_of_not_quote (h : isQuote (charAtInt t i) = false) : stepBack t i = i - 1 :=
  if_neg (Bool.eq_false_iff.mp h)

theorem stepBack_of_quote (h : isQuote (charAtInt t i) = true) : stepBack t i = skipQuotedBack t i 0 - 1 :=
  if_pos h

theorem Visits.refl (t : Text) (i : Int) : Visits t i i := Relation.ReflTransGen.refl

theorem Visits.trans (h : Visits t i j) (h' : Visits t j k) : Visits t i k := Relation.ReflTransGen.trans h h'

theorem Visits.of_step (h : Visits t (stepBack t i) j) : Visits t i j := Relation.ReflTransGen.head rfl h

theorem Visits.le (h : Visits t i j) : j ≤ i := by
  induction h with
  | refl => exact Int.le_refl _
  | @tail j k _ hstep ih =>
    have := stepBack_lt t j
    omega

theorem Visits.step (h : Visits t i j) (hlt : j < i) : Visits t (stepBack t i) j := by
  rcases Relation.ReflTransGen.cases_head h with rfl | ⟨next, rfl, hrest⟩
  · omega
  · exact hrest

/-- There is one way only. -/
theorem Visits.between (h : Visits t i j) (h' : Visits t i k) (hle : k ≤ j) : Visits t j k := by
  have hunique : Relator.RightUnique fun i j ↦ j = stepBack t i := fun i j k hj hk ↦ hj.trans hk.symm
  rcases Relation.ReflTransGen.total_of_right_unique hunique h h' with hbelow | habove
  · exact hbelow
  · obtain rfl : j = k := Int.le_antisymm (Visits.le habove) hle
    exact .refl t j

/-- A place that is looked at is not in the quoted text that a scan skips. -/
theorem Visits.skipQuotedBack (h : Visits t i floor) (hfloor : 0 ≤ floor) (hlt : floor < i)
    (hquote : isQuote (charAtInt t i) = true) :
    TextObject.skipQuotedBack t i floor = TextObject.skipQuotedBack t i 0 ∧
      Visits t (TextObject.skipQuotedBack t i 0 - 1) floor := by
  have hstep := h.step hlt
  rw [stepBack_of_quote hquote] at hstep
  have hle := hstep.le
  rw [skipQuotedBack_raise hfloor hlt]
  exact ⟨Int.max_eq_right (by omega), hstep⟩

theorem isQuote_of_moveBack? (h : moveBack? t i top others = some (n, opened)) :
    isQuote (charAtInt t i) = false := by
  unfold moveBack? move? at h
  split at h
  · next hclosing => exact isQuote_of_closing hclosing
  · next hopening => exact isQuote_of_opening hopening
  · split at h
    · cases h
    · next hquote => exact Bool.eq_false_iff.mpr hquote

/-- The brackets are closed at a place that is looked at. -/
theorem closeBack?_visits (hfloor : 0 ≤ floor) (i : Int) (opened : List Bracket) :
    ∀ j, closeBack? t floor i opened = some j → Visits t i j ∧ (floor ≤ i → floor ≤ j) := by
  refine closeBack?_induction t floor (motive := fun i opened ↦
    ∀ j, closeBack? t floor i opened = some j → Visits t i j ∧ (floor ≤ i → floor ≤ j))
    ?nil ?stop ?move ?quote i opened
  case nil =>
    intro i j h
    rw [closeBack?_nil] at h
    cases h
    exact ⟨.refl t _, id⟩
  case stop =>
    intro i top others hle j h
    rw [closeBack?_of_le hle] at h
    cases h
  case move =>
    intro i top others n opened hlt hmove ih j h
    rw [closeBack?_move hlt hmove] at h
    obtain ⟨hvisits, hle⟩ := ih j h
    rcases move?_step hmove with rfl | ⟨rfl, rfl⟩
    · rw [← stepBack_of_not_quote (isQuote_of_moveBack? hmove)] at hvisits
      exact ⟨hvisits.of_step, fun _ ↦ hle (by omega)⟩
    · rw [Int.sub_zero] at hvisits hle
      exact ⟨hvisits, hle⟩
  case quote =>
    intro i top others hlt hmove ih j h
    rw [closeBack?_quote hlt hmove] at h
    obtain ⟨hvisits, hle⟩ := ih j h
    have habove : floor < skipQuotedBack t i floor - 1 := by
      by_contra hbelow
      rw [closeBack?_of_le (by omega)] at h
      cases h
    have hraise := skipQuotedBack_raise (t := t) hfloor hlt
    have hsame : stepBack t i = skipQuotedBack t i floor - 1 := by
      rw [stepBack_of_quote (quote_of_move?_eq_none hmove).2.2]
      omega
    rw [← hsame] at hvisits
    exact ⟨hvisits.of_step, fun _ ↦ hle (by omega)⟩

theorem skipBracketedBack_visits (hfloor : 0 ≤ floor) (hlt : floor < i)
    (hquote : isQuote (charAtInt t i) = false) (b : Bracket) :
    Visits t i (skipBracketedBack t b i floor) ∧ floor ≤ skipBracketedBack t b i floor := by
  have hnext : Visits t i (i - 1) := by
    rw [← stepBack_of_not_quote hquote]
    exact (Visits.refl t _).of_step
  unfold skipBracketedBack
  cases hclose : closeBack? t floor (i - 1) [b] with
  | none => exact ⟨hnext, by rw [Option.getD_none]; omega⟩
  | some j =>
    obtain ⟨hvisits, hle⟩ := closeBack?_visits hfloor _ _ j hclose
    exact ⟨hnext.trans hvisits, hle (by omega)⟩

/-- The comma before an argument, or else the bracket, is at a place that is looked at. -/
theorem Visits.leftDelimiter (h : Visits t i floor) (hfloor : 0 ≤ floor) :
    floor ≤ TextObject.leftDelimiter t floor i ∧ (TextObject.leftDelimiter t floor i = floor ∨
      charAtInt t (TextObject.leftDelimiter t floor i) = ',') := by
  fun_induction TextObject.leftDelimiter t floor i with
  | case1 i hgo b hclosing ih =>
    obtain ⟨hskip, hle⟩ := skipBracketedBack_visits hfloor hgo.1 (isQuote_of_closing hclosing) b
    exact ih (hskip.between h hle)
  | case2 i hgo _ hquote ih =>
    obtain ⟨hsame, hrest⟩ := h.skipQuotedBack hfloor hgo.1 hquote
    exact ih (hsame ▸ hrest)
  | case3 i hgo _ hquote ih =>
    refine ih ?_
    rw [← stepBack_of_not_quote (Bool.eq_false_iff.mpr hquote)]
    exact h.step hgo.1
  | case4 i hstop =>
    have hle := h.le
    refine ⟨hle, ?_⟩
    by_cases hlt : floor < i
    · exact .inr (Decidable.not_not.mp fun hne ↦ hstop ⟨hlt, hne⟩)
    · exact .inl (by omega)

/-- The open bracket that is found is at a place that is looked at. -/
theorem openBefore?_visits (h : openBefore? t 0 i = some (b, j)) :
    Visits t i j ∧ Bracket.ofOpening? (charAtInt t j) = some b := by
  fun_induction openBefore? t 0 i with
  | case1 => cases h
  | case2 i _ b hopening =>
    cases h
    exact ⟨.refl t _, hopening⟩
  | case3 i _ b hclosing _ ih =>
    have hle := openBefore?_le h
    have hlt := skipBracketedBack_lt t b i 0
    obtain ⟨hskip, -⟩ := skipBracketedBack_visits (Int.le_refl 0) (by omega) (isQuote_of_closing hclosing) b
    exact ⟨hskip.trans (ih h).1, (ih h).2⟩
  | case4 i _ _ _ hquote ih =>
    rw [← stepBack_of_quote hquote] at ih h
    exact ⟨(ih h).1.of_step, (ih h).2⟩
  | case5 => cases h
  | case6 i _ _ _ hquote _ ih =>
    rw [← stepBack_of_not_quote (Bool.eq_false_iff.mpr hquote)] at ih h
    exact ⟨(ih h).1.of_step, (ih h).2⟩

end Visits

/-! ### Towards the end -/

section Ahead

variable {t : Text} {limit i j : Int} {b : Bracket}

/-- Brackets are closed up to the limit. -/
theorem closeAhead?_le (i : Int) (opened : List Bracket) :
    i ≤ limit → ∀ j, closeAhead? t limit i opened = some j → j ≤ limit := by
  refine closeAhead?_induction t limit (motive := fun i opened ↦
    i ≤ limit → ∀ j, closeAhead? t limit i opened = some j → j ≤ limit) ?nil ?stop ?move ?quote i opened
  case nil =>
    intro i hle j h
    rw [closeAhead?_nil] at h
    cases h
    exact hle
  case stop =>
    intro i top others hge _ j h
    rw [closeAhead?_of_le hge] at h
    cases h
  case move =>
    intro i top others n opened hlt hmove ih _ j h
    rw [closeAhead?_move hlt hmove] at h
    refine ih ?_ j h
    rcases move?_step hmove with rfl | ⟨rfl, -⟩ <;> omega
  case quote =>
    intro i top others hlt hmove ih _ j h
    rw [closeAhead?_quote hlt hmove] at h
    rcases Int.lt_or_le limit (skipQuotedAhead t i limit + 1) with hbeyond | hwithin
    · rw [closeAhead?_of_le (Int.le_of_lt hbeyond)] at h
      cases h
    · exact ih hwithin j h

theorem skipBracketedAhead_le (hlt : i < limit) : skipBracketedAhead t b i limit ≤ limit := by
  unfold skipBracketedAhead
  cases hclose : closeAhead? t limit (i + 1) [b] with
  | none => exact hlt
  | some j => exact closeAhead?_le _ _ hlt j hclose

theorem closingQuote_le {quote : Char} {escaped : Bool} (hle : i ≤ limit) :
    closingQuote t quote escaped i limit ≤ limit := by
  fun_induction closingQuote t quote escaped i limit with
  | case1 escaped i hgo ih => exact ih (by omega)
  | case2 => exact hle

theorem skipQuotedAhead_le (hlt : i < limit) : skipQuotedAhead t i limit ≤ limit := closingQuote_le hlt

/-- The comma behind an argument, or else the bracket, is not before the argument, and the closing bracket
is left behind by its quoted text at most. -/
theorem rightDelimiter_bounds (t : Text) (hle : i ≤ limit + 1) :
    i ≤ rightDelimiter t limit i ∧ rightDelimiter t limit i ≤ limit + 1 := by
  fun_induction rightDelimiter t limit i with
  | case1 i hgo b _ ih =>
    have hlt := lt_skipBracketedAhead t b i limit
    have hskip : skipBracketedAhead t b i limit ≤ limit := skipBracketedAhead_le hgo.1
    have hrest := ih (by omega)
    omega
  | case2 i hgo _ _ ih =>
    have hlt := lt_skipQuotedAhead t i limit
    have hskip := skipQuotedAhead_le (t := t) hgo.1
    have hrest := ih (by omega)
    omega
  | case3 i hgo _ _ ih =>
    have hrest := ih (by omega)
    omega
  | case4 i _ => exact ⟨Int.le_refl i, hle⟩

theorem closeAfter?_isClosing (h : closeAfter? t limit i = some (b, j)) :
    Bracket.ofClosing? (charAtInt t j) = some b := by
  fun_induction closeAfter? t limit i with
  | case1 | case5 => cases h
  | case2 i _ b hclosing =>
    cases h
    exact hclosing
  | case3 i _ b _ _ ih => exact ih h
  | case4 i _ _ _ _ ih => exact ih h
  | case6 i _ _ _ _ _ ih => exact ih h

end Ahead

/-! ### The brackets around, and the delimiters -/

/-- Two brackets around two positions: the opening one is looked at from the left position, and the
closing one is not before the right position. -/
structure Encloses (t : Text) (left right leftBracket rightBracket : Int) : Prop where
  nonneg : 0 ≤ leftBracket
  visits : Visits t left leftBracket
  opening : ∃ b, Bracket.ofOpening? (charAtInt t leftBracket) = some b
  le : right ≤ rightBracket
  closing : ∃ b, Bracket.ofClosing? (charAtInt t rightBracket) = some b

section Around

variable {t : Text} {left right leftBracket rightBracket i : Int}

theorem charAtInt_of_length_le (h : (t.length : Int) ≤ i) : charAtInt t i = '\x00' := by
  rw [charAtInt, if_neg (by omega), Text.charAt, List.getElem?_eq_none (by omega), Option.getD_none]

theorem Encloses.lt_length (h : Encloses t left right leftBracket rightBracket) :
    leftBracket < t.length ∧ rightBracket < t.length := by
  obtain ⟨b, hopening⟩ := h.opening
  obtain ⟨b', hclosing⟩ := h.closing
  constructor
  · by_contra hge
    rw [charAtInt_of_length_le (Int.not_lt.mp hge)] at hopening
    cases hopening
  · by_contra hge
    rw [charAtInt_of_length_le (Int.not_lt.mp hge)] at hclosing
    cases hclosing

/-- Brackets further out enclose the two positions as well. -/
theorem Encloses.matchBrackets? {limit : Int} {opening closing : Bracket × Int}
    (henclosed : Encloses t left right opening.2 closing.2)
    (h : TextObject.matchBrackets? t 0 limit opening closing = some (leftBracket, rightBracket)) :
    Encloses t left right leftBracket rightBracket := by
  fun_induction TextObject.matchBrackets? t 0 limit opening closing with
  | case1 =>
    cases h
    exact henclosed
  | case2 | case4 | case5 | case7 => cases h
  | case3 opening closing _ _ _ next hnext hbounds ih =>
    have hle := henclosed.le
    exact ih ⟨henclosed.nonneg, henclosed.visits, henclosed.opening, by omega, _,
      closeAfter?_isClosing hnext⟩ h
  | case6 opening closing _ _ _ next hnext hbounds ih =>
    obtain ⟨b, hopening⟩ := henclosed.opening
    obtain ⟨hvisits, hnextOpening⟩ := openBefore?_visits hnext
    rw [← stepBack_of_not_quote (isQuote_of_opening hopening)] at hvisits
    exact ih ⟨hbounds.1, henclosed.visits.trans hvisits.of_step, ⟨_, hnextOpening⟩, henclosed.le,
      henclosed.closing⟩ h

theorem encloses_of_outerBrackets? (h : outerBrackets? t left right = some (leftBracket, rightBracket)) :
    Encloses t left right leftBracket rightBracket := by
  obtain ⟨opening, hopening, h⟩ := Option.bind_eq_some_iff.mp h
  obtain ⟨closing, hclosing, h⟩ := Option.bind_eq_some_iff.mp h
  obtain ⟨hvisits, hisOpening⟩ := openBefore?_visits hopening
  exact Encloses.matchBrackets? ⟨(openBefore?_le hopening).1, hvisits, ⟨_, hisOpening⟩,
    (le_closeAfter? hclosing).1, _, closeAfter?_isClosing hclosing⟩ h

variable (h : Encloses t left right leftBracket rightBracket)
include h

/-- The delimiter before is the opening bracket, or a comma behind it. -/
theorem Encloses.leftDelimiter : leftBracket ≤ TextObject.leftDelimiter t leftBracket left ∧
    (TextObject.leftDelimiter t leftBracket left = leftBracket ∨
      charAtInt t (TextObject.leftDelimiter t leftBracket left) = ',') :=
  h.visits.leftDelimiter h.nonneg

theorem Encloses.rightDelimiter : right ≤ TextObject.rightDelimiter t rightBracket right ∧
    TextObject.rightDelimiter t rightBracket right ≤ rightBracket + 1 := by
  have hle := h.le
  exact rightDelimiter_bounds t (by omega)

end Around

/-! ### The bounds of an argument -/

/-- The bounds are in the text, and the argument does not end before a position. -/
structure ArgumentBounds.Within (b : ArgumentBounds) (t : Text) (position : Int) : Prop where
  left : 1 ≤ b.left
  position_le : position ≤ b.right
  right : b.right < t.length
  rightBracket : b.rightBracket < t.length

section Bounds

variable {t : Text} {b : ArgumentBounds} {position position' left right : Int}

theorem ArgumentBounds.Within.mono (h : b.Within t position) (hle : position' ≤ position) :
    b.Within t position' :=
  ⟨h.left, Int.le_trans hle h.position_le, h.right, h.rightBracket⟩

/-- The bounds that are found between two positions, or further out, are in the text. -/
theorem within_of_boundsAround? (h : boundsAround? t left right = some b) : b.Within t right := by
  fun_induction boundsAround? t left right with
  | case1 => cases h
  | case2 => cases h
  | case3 left right leftBracket rightBracket hbrackets leftEnd rightEnd hends bracketed hwiden ih =>
    have hright : right ≤ rightEnd := (encloses_of_outerBrackets? hbrackets).rightDelimiter.1
    exact (ih h).mono (by omega)
  | case4 left right leftBracket rightBracket hbrackets leftEnd rightEnd hends bracketed hwiden =>
    have hencloses := encloses_of_outerBrackets? hbrackets
    have hright : right ≤ rightEnd := hencloses.rightDelimiter.1
    have hleft : 1 ≤ leftEnd := by omega
    have hwithin : rightEnd < t.length := by omega
    cases h
    exact ⟨hleft, hright, hwithin, hencloses.lt_length.2⟩

/-- Quoted text around a position does not end before it. -/
theorem le_of_quotedAround? {lineEnd i first last : Int}
    (h : quotedAround? t lineEnd position i = some (first, last)) : position ≤ last := by
  fun_induction quotedAround? t lineEnd position i with
  | case1 => cases h
  | case2 i _ _ stop hle => exact (Prod.mk.inj (Option.some.inj h)).2 ▸ hle
  | case3 i _ _ stop _ ih => exact ih h
  | case4 i _ _ ih => exact ih h

theorem within_of_boundsAt? (h : boundsAt? t position = some b) : b.Within t position := by
  unfold boundsAt? at h
  dsimp only at h
  split at h
  · next first last hquoted =>
    have hle := le_of_quotedAround? hquoted
    exact (within_of_boundsAround? h).mono (by omega)
  · split at h
    · exact within_of_boundsAround? h
    · exact (within_of_boundsAround? h).mono (by omega)

end Bounds

end ModalEdit.TextObject
