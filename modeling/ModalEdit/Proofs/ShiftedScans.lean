import ModalEdit.Proofs.ScanLimits

/-!
Scans over a text that stands one character further on in another (`TextObject.Shifted`). Off the first text
it is the NUL that is read, and in its place there may be a line feed in the second one: only a scan over
blanks tells the two apart (`TextObject.Alike`). So every other scan gets one character further on, with its
floor or limit, wherever it begins: out of quotes and brackets (`TextObject.Shifted.closeAhead?`,
`TextObject.Shifted.closeBack?`), to the brackets around (`TextObject.Shifted.openBefore?`,
`TextObject.Shifted.closeAfter?`) and to the delimiters (`TextObject.Shifted.leftDelimiter`,
`TextObject.Shifted.rightDelimiter`).
-/

set_option autoImplicit false
set_option relaxedAutoImplicit false

namespace ModalEdit.TextObject

/-- No scan but one over blanks tells two characters apart: they are equal, or one is a line feed and the
other is the NUL that is read off a text. -/
def Alike (c d : Char) : Prop := c = d ∨ c = '\n' ∧ d = '\x00'

/-- What one text reads at a position the other reads at the next one. -/
def Shifted (t p : Text) : Prop := ∀ i, Alike (charAtInt p (i + 1)) (charAtInt t i)

section Characters

variable {c d e : Char}

theorem Alike.congr {α : Type} (h : Alike c d) (f : Char → α) (hf : f '\n' = f '\x00') : f c = f d := by
  rcases h with rfl | ⟨rfl, rfl⟩
  · rfl
  · exact hf

theorem Alike.eq_iff (h : Alike c d) (hfeed : e ≠ '\n') (hnul : e ≠ '\x00') : c = e ↔ d = e := by
  rcases h with rfl | ⟨rfl, rfl⟩
  · exact Iff.rfl
  · exact iff_of_false hfeed.symm hnul.symm

theorem ne_of_isQuote (h : isQuote c = true) : c ≠ '\n' ∧ c ≠ '\x00' := by
  constructor <;> rintro rfl <;> exact absurd h (by decide)

end Characters

section Shifted

variable {t p : Text} {quote : Char} {escaped : Bool} {test : Char → Bool} {floor limit i n : Int}
  {top b : Bracket} {opened others : List Bracket}

/-! ### Scans over characters of one kind -/

theorem scanAhead_shift (h : ∀ j, i ≤ j → j < limit → test (charAtInt p (j + 1)) = test (charAtInt t j)) :
    scanAhead p test (i + 1) (limit + 1) = scanAhead t test i limit + 1 := by
  fun_induction scanAhead t test i limit with
  | case1 i hgo ih =>
    rw [scanAhead, if_pos ⟨by omega, by rw [h i (Int.le_refl i) hgo.1, hgo.2]⟩, ih fun j hj ↦ h j (by omega)]
  | case2 i hstop =>
    rw [scanAhead, if_neg]
    rintro ⟨hlt, htest⟩
    have hlt : i < limit := by omega
    exact hstop ⟨hlt, h i (Int.le_refl i) hlt ▸ htest⟩

theorem scanBack_shift (h : ∀ j, floor < j → j ≤ i → test (charAtInt p (j + 1)) = test (charAtInt t j)) :
    scanBack p test (i + 1) (floor + 1) = scanBack t test i floor + 1 := by
  fun_induction scanBack t test i floor with
  | case1 i hgo ih =>
    rw [scanBack, if_pos ⟨by omega, by rw [h i hgo.1 (Int.le_refl i), hgo.2]⟩,
      show i + 1 - 1 = i - 1 + 1 by omega, ih fun j hj hle ↦ h j hj (by omega)]
  | case2 i hstop =>
    rw [scanBack, if_neg]
    rintro ⟨hlt, htest⟩
    have hlt : floor < i := by omega
    exact hstop ⟨hlt, h i hlt (Int.le_refl i) ▸ htest⟩

namespace Shifted

variable (h : Shifted t p)
include h

theorem opening (i : Int) :
    Bracket.ofOpening? (charAtInt p (i + 1)) = Bracket.ofOpening? (charAtInt t i) :=
  (h i).congr Bracket.ofOpening? rfl

theorem closing (i : Int) :
    Bracket.ofClosing? (charAtInt p (i + 1)) = Bracket.ofClosing? (charAtInt t i) :=
  (h i).congr Bracket.ofClosing? rfl

theorem isQuote (i : Int) : TextObject.isQuote (charAtInt p (i + 1)) = TextObject.isQuote (charAtInt t i) :=
  (h i).congr TextObject.isQuote rfl

theorem comma_iff (i : Int) : charAtInt p (i + 1) = ',' ↔ charAtInt t i = ',' :=
  (h i).eq_iff (by decide) (by decide)

theorem backslash_iff (i : Int) : charAtInt p (i + 1) = '\\' ↔ charAtInt t i = '\\' :=
  (h i).eq_iff (by decide) (by decide)

theorem charAtInt_eq (hquote : TextObject.isQuote (charAtInt t i) = true) :
    charAtInt p (i + 1) = charAtInt t i := by
  obtain ⟨hfeed, hnul⟩ := ne_of_isQuote hquote
  exact ((h i).eq_iff hfeed hnul).mpr rfl

/-! ### Quoted text -/

theorem closingQuote (hquote : TextObject.isQuote quote = true) :
    TextObject.closingQuote p quote escaped (i + 1) (limit + 1) =
      TextObject.closingQuote t quote escaped i limit + 1 := by
  have hsame (i : Int) (escaped : Bool) : (charAtInt p (i + 1) = quote ∧ escaped = false) ↔
      (charAtInt t i = quote ∧ escaped = false) :=
    and_congr_left' ((h i).eq_iff (ne_of_isQuote hquote).1 (ne_of_isQuote hquote).2)
  fun_induction TextObject.closingQuote t quote escaped i limit with
  | case1 escaped i hgo ih =>
    have hescape : (charAtInt p (i + 1) == '\\') = (charAtInt t i == '\\') :=
      decide_eq_decide.mpr (h.backslash_iff i)
    rw [TextObject.closingQuote, if_pos ⟨by omega, mt (hsame i escaped).mp hgo.2⟩, hescape, ih]
  | case2 escaped i hstop =>
    rw [TextObject.closingQuote, if_neg fun hgo ↦ hstop ⟨by omega, mt (hsame i escaped).mpr hgo.2⟩]

theorem openingQuote (hquote : TextObject.isQuote quote = true) :
    TextObject.openingQuote p quote (i + 1) (floor + 1) = TextObject.openingQuote t quote i floor + 1 := by
  have hsame (i : Int) : (charAtInt p (i + 1) = quote ∧ charAtInt p (i - 1 + 1) ≠ '\\') ↔
      (charAtInt t i = quote ∧ charAtInt t (i - 1) ≠ '\\') :=
    and_congr ((h i).eq_iff (ne_of_isQuote hquote).1 (ne_of_isQuote hquote).2) (h.backslash_iff _).not
  fun_induction TextObject.openingQuote t quote i floor with
  | case1 i hgo ih =>
    rw [TextObject.openingQuote, show i + 1 - 1 = i - 1 + 1 by omega,
      if_pos ⟨by omega, mt (hsame i).mp hgo.2⟩, ih]
  | case2 i hstop =>
    rw [TextObject.openingQuote, show i + 1 - 1 = i - 1 + 1 by omega,
      if_neg fun hgo ↦ hstop ⟨by omega, mt (hsame i).mpr hgo.2⟩]

theorem skipQuotedAhead (hquote : TextObject.isQuote (charAtInt t i) = true) :
    TextObject.skipQuotedAhead p (i + 1) (limit + 1) = TextObject.skipQuotedAhead t i limit + 1 := by
  rw [TextObject.skipQuotedAhead, h.charAtInt_eq hquote, h.closingQuote hquote, TextObject.skipQuotedAhead]

theorem skipQuotedBack (hquote : TextObject.isQuote (charAtInt t i) = true) :
    TextObject.skipQuotedBack p (i + 1) (floor + 1) = TextObject.skipQuotedBack t i floor + 1 := by
  rw [TextObject.skipQuotedBack, h.charAtInt_eq hquote, show i + 1 - 1 = i - 1 + 1 by omega,
    h.openingQuote hquote, TextObject.skipQuotedBack]

/-! ### Bracketed expressions -/

theorem moveAhead? (i : Int) : TextObject.moveAhead? p (i + 1) = TextObject.moveAhead? t i := by
  unfold TextObject.moveAhead?
  rw [h.opening, h.closing, h.isQuote]

theorem moveBack? (i : Int) : TextObject.moveBack? p (i + 1) = TextObject.moveBack? t i := by
  unfold TextObject.moveBack?
  rw [h.opening, h.closing, h.isQuote]

theorem closeAhead? (limit i : Int) (opened : List Bracket) :
    TextObject.closeAhead? p (limit + 1) (i + 1) opened =
      (TextObject.closeAhead? t limit i opened).map (· + 1) := by
  refine closeAhead?_induction t limit (motive := fun i opened ↦
    TextObject.closeAhead? p (limit + 1) (i + 1) opened =
      (TextObject.closeAhead? t limit i opened).map (· + 1)) ?nil ?stop ?move ?quote i opened
  case nil =>
    intro i
    rw [closeAhead?_nil, closeAhead?_nil]
    rfl
  case stop =>
    intro i top others hle
    rw [closeAhead?_of_le hle, closeAhead?_of_le (by omega)]
    rfl
  case move =>
    intro i top others n opened hlt hmove ih
    rw [closeAhead?_move hlt hmove, ← ih, closeAhead?_move (by omega) (h.moveAhead? i ▸ hmove),
      show i + 1 + n = i + n + 1 by omega]
  case quote =>
    intro i top others hlt hmove ih
    rw [closeAhead?_quote hlt hmove, ← ih, closeAhead?_quote (by omega) (h.moveAhead? i ▸ hmove),
      h.skipQuotedAhead (quote_of_move?_eq_none hmove).2.2]

theorem closeBack? (floor i : Int) (opened : List Bracket) :
    TextObject.closeBack? p (floor + 1) (i + 1) opened =
      (TextObject.closeBack? t floor i opened).map (· + 1) := by
  refine closeBack?_induction t floor (motive := fun i opened ↦
    TextObject.closeBack? p (floor + 1) (i + 1) opened =
      (TextObject.closeBack? t floor i opened).map (· + 1)) ?nil ?stop ?move ?quote i opened
  case nil =>
    intro i
    rw [closeBack?_nil, closeBack?_nil]
    rfl
  case stop =>
    intro i top others hle
    rw [closeBack?_of_le hle, closeBack?_of_le (by omega)]
    rfl
  case move =>
    intro i top others n opened hlt hmove ih
    rw [closeBack?_move hlt hmove, ← ih, closeBack?_move (by omega) (h.moveBack? i ▸ hmove),
      show i + 1 - n = i - n + 1 by omega]
  case quote =>
    intro i top others hlt hmove ih
    rw [closeBack?_quote hlt hmove, ← ih, closeBack?_quote (by omega) (h.moveBack? i ▸ hmove),
      h.skipQuotedBack (quote_of_move?_eq_none hmove).2.2, Int.add_sub_cancel, Int.sub_add_cancel]

theorem skipBracketedAhead (b : Bracket) (i limit : Int) :
    TextObject.skipBracketedAhead p b (i + 1) (limit + 1) =
      TextObject.skipBracketedAhead t b i limit + 1 := by
  rw [TextObject.skipBracketedAhead, h.closeAhead?, Option.getD_map, TextObject.skipBracketedAhead]

theorem skipBracketedBack (b : Bracket) (i floor : Int) :
    TextObject.skipBracketedBack p b (i + 1) (floor + 1) =
      TextObject.skipBracketedBack t b i floor + 1 := by
  rw [TextObject.skipBracketedBack, show i + 1 - 1 = i - 1 + 1 by omega, h.closeBack?, Option.getD_map,
    TextObject.skipBracketedBack]

/-! ### To the brackets around -/

theorem openBefore? (floor i : Int) : TextObject.openBefore? p (floor + 1) (i + 1) =
    (TextObject.openBefore? t floor i).map fun found ↦ (found.1, found.2 + 1) := by
  fun_induction TextObject.openBefore? t floor i with
  | case1 i hlt =>
    rw [openBefore?_of_lt (by omega)]
    rfl
  | case2 i hge b hopening =>
    rw [TextObject.openBefore?, if_neg (by omega), h.opening, hopening]
    rfl
  | case3 i hge b hclosing hopening ih =>
    rw [TextObject.openBefore?, if_neg (by omega), h.opening, h.closing, hopening, hclosing, ← ih,
      ← h.skipBracketedBack]
  | case4 i hge hopening hclosing hquote ih =>
    rw [TextObject.openBefore?, if_neg (by omega), h.opening, h.closing, h.isQuote, hopening, hclosing, ← ih,
      Int.sub_add_cancel, h.skipQuotedBack hquote, Int.add_sub_cancel]
    exact if_pos hquote
  | case5 hge hopening hclosing hquote =>
    rw [TextObject.openBefore?, if_neg (by omega), h.opening, h.closing, h.isQuote, hopening, hclosing]
    dsimp only
    rw [if_neg hquote, if_pos rfl]
    rfl
  | case6 i hge hopening hclosing hquote hne ih =>
    rw [TextObject.openBefore?, if_neg (by omega), h.opening, h.closing, h.isQuote, hopening, hclosing, ← ih]
    dsimp only
    rw [if_neg hquote, if_neg (by omega), show i + 1 - 1 = i - 1 + 1 by omega]

theorem closeAfter? (limit i : Int) : TextObject.closeAfter? p (limit + 1) (i + 1) =
    (TextObject.closeAfter? t limit i).map fun found ↦ (found.1, found.2 + 1) := by
  fun_induction TextObject.closeAfter? t limit i with
  | case1 i hlt =>
    rw [closeAfter?_of_lt (by omega)]
    rfl
  | case2 i hge b hclosing =>
    rw [TextObject.closeAfter?, if_neg (by omega), h.closing, hclosing]
    rfl
  | case3 i hge b hopening hclosing ih =>
    rw [TextObject.closeAfter?, if_neg (by omega), h.opening, h.closing, hopening, hclosing, ← ih,
      ← h.skipBracketedAhead]
  | case4 i hge hclosing hopening hquote ih =>
    rw [TextObject.closeAfter?, if_neg (by omega), h.opening, h.closing, h.isQuote, hopening, hclosing, ← ih,
      ← h.skipQuotedAhead hquote]
    exact if_pos hquote
  | case5 i hge hclosing hopening hquote heq =>
    rw [TextObject.closeAfter?, if_neg (by omega), h.opening, h.closing, h.isQuote, hopening, hclosing]
    dsimp only
    rw [if_neg hquote, if_pos (by omega)]
    rfl
  | case6 i hge hclosing hopening hquote hne ih =>
    rw [TextObject.closeAfter?, if_neg (by omega), h.opening, h.closing, h.isQuote, hopening, hclosing, ← ih]
    dsimp only
    rw [if_neg hquote, if_neg (by omega)]

/-! ### To the delimiters -/

theorem rightDelimiter (bracket i : Int) : TextObject.rightDelimiter p (bracket + 1) (i + 1) =
    TextObject.rightDelimiter t bracket i + 1 := by
  fun_induction TextObject.rightDelimiter t bracket i with
  | case1 i hgo b hopening ih =>
    rw [TextObject.rightDelimiter, if_pos ⟨by omega, mt (h.comma_iff i).mp hgo.2⟩, h.opening, hopening, ← ih,
      ← h.skipBracketedAhead]
  | case2 i hgo hopening hquote ih =>
    rw [TextObject.rightDelimiter, if_pos ⟨by omega, mt (h.comma_iff i).mp hgo.2⟩, h.opening, hopening,
      h.isQuote, ← ih, ← h.skipQuotedAhead hquote]
    exact if_pos hquote
  | case3 i hgo hopening hquote ih =>
    rw [TextObject.rightDelimiter, if_pos ⟨by omega, mt (h.comma_iff i).mp hgo.2⟩, h.opening, hopening,
      h.isQuote, ← ih]
    exact if_neg hquote
  | case4 i hstop =>
    rw [TextObject.rightDelimiter, if_neg fun hgo ↦ hstop ⟨by omega, mt (h.comma_iff i).mpr hgo.2⟩]

theorem leftDelimiter (bracket i : Int) : TextObject.leftDelimiter p (bracket + 1) (i + 1) =
    TextObject.leftDelimiter t bracket i + 1 := by
  fun_induction TextObject.leftDelimiter t bracket i with
  | case1 i hgo b hclosing ih =>
    rw [TextObject.leftDelimiter, if_pos ⟨by omega, mt (h.comma_iff i).mp hgo.2⟩, h.closing, hclosing, ← ih,
      ← h.skipBracketedBack]
  | case2 i hgo hclosing hquote ih =>
    rw [TextObject.leftDelimiter, if_pos ⟨by omega, mt (h.comma_iff i).mp hgo.2⟩, h.closing, hclosing,
      h.isQuote, ← ih, Int.sub_add_cancel, h.skipQuotedBack hquote, Int.add_sub_cancel]
    exact if_pos hquote
  | case3 i hgo hclosing hquote ih =>
    rw [TextObject.leftDelimiter, if_pos ⟨by omega, mt (h.comma_iff i).mp hgo.2⟩, h.closing, hclosing,
      h.isQuote, ← ih, show i + 1 - 1 = i - 1 + 1 by omega]
    exact if_neg hquote
  | case4 i hstop =>
    rw [TextObject.leftDelimiter, if_neg fun hgo ↦ hstop ⟨by omega, mt (h.comma_iff i).mpr hgo.2⟩]

/-! ### To the quoted text on a line -/

theorem quotedAround? (lineEnd position i : Int) :
    TextObject.quotedAround? p (lineEnd + 1) (position + 1) (i + 1) =
      (TextObject.quotedAround? t lineEnd position i).map fun found ↦ (found.1 + 1, found.2 + 1) := by
  fun_induction TextObject.quotedAround? t lineEnd position i with
  | case1 i hlt =>
    rw [TextObject.quotedAround?, if_pos (by omega)]
    rfl
  | case2 i hge hquote stop hle =>
    rw [TextObject.quotedAround?, if_neg (by omega), h.isQuote, if_pos hquote, h.skipQuotedAhead hquote]
    exact if_pos (by omega)
  | case3 i hge hquote stop hlt ih =>
    rw [TextObject.quotedAround?, if_neg (by omega), h.isQuote, if_pos hquote, h.skipQuotedAhead hquote, ← ih]
    exact if_neg (by omega)
  | case4 i hge hquote ih =>
    rw [TextObject.quotedAround?, if_neg (by omega), h.isQuote, if_neg hquote, ← ih]

end Shifted

end Shifted

end ModalEdit.TextObject
