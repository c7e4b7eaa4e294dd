import Mathlib.Data.List.Basic
import ModalEdit.TextObject.Argument

/-!
Scans over balanced text. Where the brackets of a text match, a scan that keeps the open brackets leaves
the text with the brackets that it came with (`TextObject.Balanced.closeAhead?`,
`TextObject.Balanced.closeBack?`), so a bracketed part is skipped as a whole. With that the search for the
brackets around a position goes over such a text on both sides (`TextObject.Balanced.openBefore?`,
`TextObject.Balanced.closeAfter?`), and the search for a comma does if the text has none but in brackets
(`TextObject.Segment.leftDelimiter`, `TextObject.Segment.rightDelimiter`).
-/

set_option autoImplicit false
set_option relaxedAutoImplicit false

namespace ModalEdit.TextObject

/-- Neither a bracket nor a quote. -/
structure IsOrdinary (c : Char) : Prop where
  opening : Bracket.ofOpening? c = none
  closing : Bracket.ofClosing? c = none
  quote : isQuote c = false

/-- Text in which the round brackets match, without other brackets and without quotes. -/
inductive Balanced : Text → Prop
  | nil : Balanced []
  | char {c : Char} {s : Text} (h : IsOrdinary c) (hs : Balanced s) : Balanced (c :: s)
  | group {inner s : Text} (hinner : Balanced inner) (hs : Balanced s) :
      Balanced ('(' :: (inner ++ ')' :: s))

/-- Such text that has commas in brackets only. -/
inductive Segment : Text → Prop
  | nil : Segment []
  | char {c : Char} {s : Text} (h : IsOrdinary c) (hcomma : c ≠ ',') (hs : Segment s) : Segment (c :: s)
  | group {inner s : Text} (hinner : Balanced inner) (hs : Segment s) :
      Segment ('(' :: (inner ++ ')' :: s))

section Texts

variable {s s' : Text}

theorem Segment.balanced (h : Segment s) : Balanced s := by
  induction h with
  | nil => exact .nil
  | char h _ _ ih => exact .char h ih
  | group hinner _ ih => exact .group hinner ih

theorem Balanced.append (h : Balanced s) (h' : Balanced s') : Balanced (s ++ s') := by
  induction h with
  | nil => exact h'
  | char h _ ih => exact .char h ih
  | group hinner _ _ ih =>
    rw [List.cons_append, List.append_assoc, List.cons_append]
    exact .group hinner ih

theorem Segment.append (h : Segment s) (h' : Segment s') : Segment (s ++ s') := by
  induction h with
  | nil => exact h'
  | char h hcomma _ ih => exact .char h hcomma ih
  | group hinner _ ih =>
    rw [List.cons_append, List.append_assoc, List.cons_append]
    exact .group hinner ih

theorem Segment.of_chars (h : ∀ c ∈ s, IsOrdinary c ∧ c ≠ ',') : Segment s := by
  induction s with
  | nil => exact .nil
  | cons c s ih =>
    obtain ⟨hc, hs⟩ := List.forall_mem_cons.mp h
    exact .char hc.1 hc.2 (ih hs)

end Texts

/-- A text stands at a position of another. -/
def Reads (t : Text) (i : Int) (s : Text) : Prop :=
  ∀ (j : Nat) (h : j < s.length), charAtInt t (i + j) = s[j]

section Reads

variable {t s s' : Text} {i : Int} {c : Char}

theorem charAtInt_eq {n : Nat} (h : t.charAt n = some c) : charAtInt t n = c := by
  rw [charAtInt, if_neg (Int.not_lt.mpr (Int.natCast_nonneg n)), Int.toNat_natCast, h]
  rfl

theorem reads_middle (front s back : Text) : Reads (front ++ (s ++ back)) front.length s := by
  intro j hj
  rw [← Int.natCast_add]
  refine charAtInt_eq ?_
  rw [Text.charAt, List.getElem?_append_right (Nat.le_add_right _ _), Nat.add_sub_cancel_left,
    List.getElem?_append_left hj, List.getElem?_eq_getElem hj]

theorem Reads.head (h : Reads t i (c :: s)) : charAtInt t i = c := by
  have hzero := h 0 (Nat.succ_pos _)
  rwa [Int.natCast_zero, Int.add_zero] at hzero

theorem Reads.tail (h : Reads t i (c :: s)) : Reads t (i + 1) s := by
  intro j hj
  have hsucc := h (j + 1) (Nat.succ_lt_succ hj)
  rwa [Int.natCast_succ, Int.add_comm (j : Int) 1, ← Int.add_assoc, List.getElem_cons_succ] at hsucc

theorem Reads.left (h : Reads t i (s ++ s')) : Reads t i s := by
  intro j hj
  rw [h j (by rw [List.length_append]; omega), List.getElem_append_left hj]

theorem Reads.right (h : Reads t i (s ++ s')) : Reads t (i + s.length) s' := by
  intro j hj
  have hat := h (s.length + j) (by rw [List.length_append]; omega)
  rw [Int.natCast_add, ← Int.add_assoc, List.getElem_append_right (Nat.le_add_right _ _)] at hat
  simpa only [Nat.add_sub_cancel_left] using hat

/-- Where a text ends of which the last part begins behind a character. -/
theorem behind_cons (i : Int) (c : Char) (s : Text) : i + (c :: s).length = i + 1 + s.length := by
  rw [List.length_cons]
  omega

/-- Where one ends of which it begins behind a bracketed part. -/
theorem behind_group (i : Int) (inner s : Text) :
    i + ('(' :: (inner ++ ')' :: s)).length = i + 1 + inner.length + 1 + s.length := by
  simp only [List.length_cons, List.length_append]
  omega

end Reads

/-! ### Out of open brackets -/

section Close

variable {t s inner : Text} {limit floor i : Int} {top : Bracket} {others : List Bracket}

theorem closeAhead?_nil (t : Text) (limit i : Int) : closeAhead? t limit i [] = some i := by
  rw [closeAhead?]

theorem closeAhead?_char (h : IsOrdinary (charAtInt t i)) (hlt : i < limit) :
    closeAhead? t limit i (top :: others) = closeAhead? t limit (i + 1) (top :: others) := by
  rw [closeAhead?, if_pos hlt, h.opening, h.closing, h.quote]
  rfl

theorem closeAhead?_opening (h : charAtInt t i = '(') (hlt : i < limit) :
    closeAhead? t limit i (top :: others) =
      closeAhead? t limit (i + 1) (.round :: top :: others) := by
  rw [closeAhead?, if_pos hlt, h]
  rfl

theorem closeAhead?_closing (h : charAtInt t i = ')') (hlt : i < limit) :
    closeAhead? t limit i (.round :: others) = closeAhead? t limit (i + 1) others := by
  rw [closeAhead?, if_pos hlt, h]
  rfl

theorem Balanced.closeAhead? (hs : Balanced s) (h : Reads t i s) (hlimit : i + s.length ≤ limit) :
    TextObject.closeAhead? t limit i (top :: others) =
      TextObject.closeAhead? t limit (i + s.length) (top :: others) := by
  induction hs generalizing i top others with
  | nil => rw [List.length_nil, Int.natCast_zero, Int.add_zero]
  | @char c s hc _ ih =>
    rw [behind_cons] at hlimit ⊢
    rw [closeAhead?_char (h.head ▸ hc) (by omega), ih h.tail hlimit]
  | @group inner s _ _ ihinner ih =>
    -- Inside there is one bracket more to close, so the open ones are general.
    rw [behind_group] at hlimit ⊢
    have hinner : Reads t (i + 1) inner := h.tail.left
    have hbehind : Reads t (i + 1 + inner.length) (')' :: s) := h.tail.right
    rw [closeAhead?_opening h.head (by omega), ihinner hinner (by omega),
      closeAhead?_closing hbehind.head (by omega), ih hbehind.tail hlimit]

theorem closeBack?_nil (t : Text) (floor i : Int) : closeBack? t floor i [] = some i := by
  rw [closeBack?]

theorem closeBack?_char (h : IsOrdinary (charAtInt t i)) (hlt : floor < i) :
    closeBack? t floor i (top :: others) = closeBack? t floor (i - 1) (top :: others) := by
  rw [closeBack?, if_pos hlt, h.opening, h.closing, h.quote]
  rfl

theorem closeBack?_closing (h : charAtInt t i = ')') (hlt : floor < i) :
    closeBack? t floor i (top :: others) =
      closeBack? t floor (i - 1) (.round :: top :: others) := by
  rw [closeBack?, if_pos hlt, h]
  rfl

theorem closeBack?_opening (h : charAtInt t i = '(') (hlt : floor < i) :
    closeBack? t floor i (.round :: others) = closeBack? t floor (i - 1) others := by
  rw [closeBack?, if_pos hlt, h]
  rfl

/-- The scan towards the start begins at the last character. -/
theorem Balanced.closeBack? (hs : Balanced s) (h : Reads t i s) (hfloor : floor < i) :
    TextObject.closeBack? t floor (i + s.length - 1) (top :: others) =
      TextObject.closeBack? t floor (i - 1) (top :: others) := by
  induction hs generalizing i top others with
  | nil => rw [List.length_nil, Int.natCast_zero, Int.add_zero]
  | @char c s hc _ ih =>
    rw [behind_cons, ih h.tail (by omega), Int.add_sub_cancel, closeBack?_char (h.head ▸ hc) hfloor]
  | @group inner s _ _ ihinner ih =>
    have hinner : Reads t (i + 1) inner := h.tail.left
    have hbehind : Reads t (i + 1 + inner.length) (')' :: s) := h.tail.right
    rw [behind_group, ih hbehind.tail (by omega), Int.add_sub_cancel,
      closeBack?_closing hbehind.head (by omega), ihinner hinner (by omega), Int.add_sub_cancel, closeBack?_opening h.head hfloor]

/-- A bracketed part is skipped as a whole. -/
theorem Balanced.skipBracketedAhead (hinner : Balanced inner) (h : Reads t i ('(' :: (inner ++ ')' :: s)))
    (hlimit : i + 1 + inner.length < limit) :
    TextObject.skipBracketedAhead t .round i limit = i + 1 + inner.length + 1 := by
  have hbehind : Reads t (i + 1 + inner.length) (')' :: s) := h.tail.right
  rw [TextObject.skipBracketedAhead, hinner.closeAhead? h.tail.left (by omega),
    closeAhead?_closing hbehind.head hlimit, closeAhead?_nil, Option.getD_some]

theorem Balanced.skipBracketedBack (hinner : Balanced inner) (h : Reads t i ('(' :: (inner ++ ')' :: s)))
    (hfloor : floor < i) :
    TextObject.skipBracketedBack t .round (i + 1 + inner.length) floor = i - 1 := by
  rw [TextObject.skipBracketedBack, hinner.closeBack? h.tail.left (by omega), Int.add_sub_cancel,
    closeBack?_opening h.head hfloor, closeBack?_nil, Option.getD_some]

end Close

/-! ### To the brackets around -/

section Around

variable {t s : Text} {limit floor i : Int}

theorem closeAfter?_char (h : IsOrdinary (charAtInt t i)) (hlt : i + 1 < limit) :
    closeAfter? t limit i = closeAfter? t limit (i + 1) := by
  rw [closeAfter?, if_neg (by omega), h.opening, h.closing, h.quote]
  dsimp only
  rw [if_neg Bool.false_ne_true, if_neg (by omega)]

theorem closeAfter?_opening (h : charAtInt t i = '(') (hle : i ≤ limit) :
    closeAfter? t limit i = closeAfter? t limit (skipBracketedAhead t .round i limit) := by
  rw [closeAfter?, if_neg (by omega), h]
  rfl

theorem closeAfter?_closing (h : charAtInt t i = ')') (hle : i ≤ limit) :
    closeAfter? t limit i = some (.round, i) := by
  rw [closeAfter?, if_neg (by omega), h]
  rfl

theorem Balanced.closeAfter? (hs : Balanced s) (h : Reads t i s) (hlimit : i + s.length < limit) :
    TextObject.closeAfter? t limit i = TextObject.closeAfter? t limit (i + s.length) := by
  induction hs generalizing i with
  | nil => rw [List.length_nil, Int.natCast_zero, Int.add_zero]
  | @char c s hc _ ih =>
    rw [behind_cons] at hlimit ⊢
    rw [closeAfter?_char (h.head ▸ hc) (by omega), ih h.tail hlimit]
  | @group inner s hinner _ _ ih =>
    rw [behind_group] at hlimit ⊢
    have hbehind : Reads t (i + 1 + inner.length) (')' :: s) := h.tail.right
    rw [closeAfter?_opening h.head (by omega), hinner.skipBracketedAhead h (by omega),
      ih hbehind.tail hlimit]

theorem openBefore?_char (h : IsOrdinary (charAtInt t i)) (hlt : floor < i) :
    openBefore? t floor i = openBefore? t floor (i - 1) := by
  rw [openBefore?, if_neg (by omega), h.opening, h.closing, h.quote]
  dsimp only
  rw [if_neg Bool.false_ne_true, if_neg (by omega)]

theorem openBefore?_closing (h : charAtInt t i = ')') (hle : floor ≤ i) :
    openBefore? t floor i = openBefore? t floor (skipBracketedBack t .round i floor) := by
  rw [openBefore?, if_neg (by omega), h]
  rfl

theorem openBefore?_opening (h : charAtInt t i = '(') (hle : floor ≤ i) :
    openBefore? t floor i = some (.round, i) := by
  rw [openBefore?, if_neg (by omega), h]
  rfl

theorem Balanced.openBefore? (hs : Balanced s) (h : Reads t i s) (hfloor : floor < i) :
    TextObject.openBefore? t floor (i + s.length - 1) = TextObject.openBefore? t floor (i - 1) := by
  induction hs generalizing i with
  | nil => rw [List.length_nil, Int.natCast_zero, Int.add_zero]
  | @char c s hc _ ih =>
    rw [behind_cons, ih h.tail (by omega), Int.add_sub_cancel, openBefore?_char (h.head ▸ hc) hfloor]
  | @group inner s hinner _ _ ih =>
    have hbehind : Reads t (i + 1 + inner.length) (')' :: s) := h.tail.right
    rw [behind_group, ih hbehind.tail (by omega), Int.add_sub_cancel,
      openBefore?_closing hbehind.head (by omega), hinner.skipBracketedBack h hfloor]

end Around

/-! ### To the delimiters -/

section Delimiters

variable {t s : Text} {bracket i : Int}

theorem rightDelimiter_char (h : IsOrdinary (charAtInt t i)) (hcomma : charAtInt t i ≠ ',')
    (hlt : i < bracket) : rightDelimiter t bracket i = rightDelimiter t bracket (i + 1) := by
  rw [rightDelimiter, if_pos ⟨hlt, hcomma⟩, h.opening, h.quote]
  rfl

theorem rightDelimiter_opening (h : charAtInt t i = '(') (hlt : i < bracket) :
    rightDelimiter t bracket i =
      rightDelimiter t bracket (skipBracketedAhead t .round i bracket) := by
  rw [rightDelimiter, if_pos ⟨hlt, by rw [h]; decide⟩, h]
  rfl

theorem rightDelimiter_of_stop (h : i < bracket → charAtInt t i = ',') :
    rightDelimiter t bracket i = i := by
  rw [rightDelimiter, if_neg fun hgo ↦ hgo.2 (h hgo.1)]

theorem Segment.rightDelimiter (hs : Segment s) (h : Reads t i s) (hbracket : i + s.length ≤ bracket) :
    TextObject.rightDelimiter t bracket i = TextObject.rightDelimiter t bracket (i + s.length) := by
  induction hs generalizing i with
  | nil => rw [List.length_nil, Int.natCast_zero, Int.add_zero]
  | @char c s hc hcomma _ ih =>
    rw [behind_cons] at hbracket ⊢
    rw [rightDelimiter_char (h.head ▸ hc) (h.head ▸ hcomma) (by omega), ih h.tail hbracket]
  | @group inner s hinner _ ih =>
    rw [behind_group] at hbracket ⊢
    have hbehind : Reads t (i + 1 + inner.length) (')' :: s) := h.tail.right
    rw [rightDelimiter_opening h.head (by omega), hinner.skipBracketedAhead h (by omega),
      ih hbehind.tail hbracket]

theorem leftDelimiter_char (h : IsOrdinary (charAtInt t i)) (hcomma : charAtInt t i ≠ ',')
    (hlt : bracket < i) : leftDelimiter t bracket i = leftDelimiter t bracket (i - 1) := by
  rw [leftDelimiter, if_pos ⟨hlt, hcomma⟩, h.closing, h.quote]
  rfl

theorem leftDelimiter_closing (h : charAtInt t i = ')') (hlt : bracket < i) :
    leftDelimiter t bracket i = leftDelimiter t bracket (skipBracketedBack t .round i bracket) := by
  rw [leftDelimiter, if_pos ⟨hlt, by rw [h]; decide⟩, h]
  rfl

theorem leftDelimiter_of_stop (h : bracket < i → charAtInt t i = ',') :
    leftDelimiter t bracket i = i := by
  rw [leftDelimiter, if_neg fun hgo ↦ hgo.2 (h hgo.1)]

theorem Segment.leftDelimiter (hs : Segment s) (h : Reads t i s) (hbracket : bracket < i) :
    TextObject.leftDelimiter t bracket (i + s.length - 1) =
      TextObject.leftDelimiter t bracket (i - 1) := by
  induction hs generalizing i with
  | nil => rw [List.length_nil, Int.natCast_zero, Int.add_zero]
  | @char c s hc hcomma _ ih =>
    rw [behind_cons, ih h.tail (by omega), Int.add_sub_cancel,
      leftDelimiter_char (h.head ▸ hc) (h.head ▸ hcomma) hbracket]
  | @group inner s hinner _ ih =>
    have hbehind : Reads t (i + 1 + inner.length) (')' :: s) := h.tail.right
    rw [behind_group, ih hbehind.tail (by omega), Int.add_sub_cancel,
      leftDelimiter_closing hbehind.head (by omega), hinner.skipBracketedBack h hbracket]

end Delimiters

end ModalEdit.TextObject
