import ModalEdit.Proofs.CallArguments
import ModalEdit.Proofs.FramedLines
import ModalEdit.Proofs.ScanPaths
import ModalEdit.Proofs.ShiftedScans

/-!
The argument object and the ends of the text. The searches stop at the first and at the last character in
ways of their own, so a list whose closing bracket is the last character is not found from before
(`TextObject.argumentRange_eq_none_of_last`). Where no bracket of a list and no name of one letter is at an
end (`TextObject.FreeEnds`) all of that does not matter: between two line feeds the searches go the same
way, one character further on, and so does the object with its count
(`TextObject.argument_independent_of_ends`).
-/

set_option autoImplicit false
set_option relaxedAutoImplicit false

namespace ModalEdit

/-- The span one character further on. -/
def TextRange.next (r : TextRange) : TextRange where
  start := r.start + 1
  stop := r.stop + 1
  kind := r.kind
  start_le_stop := Nat.succ_le_succ r.start_le_stop

theorem TextRange.next_between (a b : Nat) (kind : RangeKind) :
    (between a b kind).next = between (a + 1) (b + 1) kind := by
  have hstart : min a b + 1 = min (a + 1) (b + 1) := by omega
  have hstop : max a b + 1 = max (a + 1) (b + 1) := by omega
  simp only [next, between, hstart, hstop]

namespace TextObject

/-- Nothing at the ends of the text is decided by where the text ends: no bracket opens at its start and
none closes at its end, and the first character of a name at its start may begin a name just if the second
one may. -/
structure FreeEnds (t : Text) : Prop where
  first : Bracket.ofOpening? (charAtInt t 0) = none
  last : Bracket.ofClosing? (charAtInt t (t.length - 1)) = none
  name : isNamePart (charAtInt t 0) = true → isNameStart (charAtInt t 0) = isNameStart (charAtInt t 1)

/-! ### The characters of a framed text -/

section Characters

variable {t : Text} {i : Int} {c : Char}

theorem charAtInt_of_neg (h : i < 0) : charAtInt t i = '\x00' := if_pos h

theorem charAtInt_framed (h : 0 ≤ i) (hlt : i < t.length) :
    charAtInt t.framed (i + 1) = charAtInt t i := by
  obtain ⟨n, rfl⟩ := Int.eq_ofNat_of_zero_le h
  have hn : n < t.length := Int.ofNat_lt.mp hlt
  rw [charAtInt, charAtInt, if_neg (by omega), if_neg (by omega), show ((n : Int) + 1).toNat = n + 1 by omega,
    Int.toNat_natCast, Text.charAt, Text.framed, List.getElem?_cons_succ, List.getElem?_append_left hn]
  rfl

theorem charAtInt_framed_length (t : Text) : charAtInt t.framed (t.length + 1) = '\n' := by
  refine charAtInt_eq (n := t.length + 1) ?_
  rw [Text.charAt, Text.framed, List.getElem?_cons_succ, List.getElem?_concat_length]

theorem shifted_framed (t : Text) : Shifted t t.framed := by
  intro i
  have hlength := t.length_framed
  rcases Int.lt_or_le i 0 with hneg | hnonneg
  · rw [charAtInt_of_neg hneg]
    obtain rfl | hlt : i = -1 ∨ i + 1 < 0 := by omega
    · exact .inr ⟨rfl, rfl⟩
    · exact .inl (charAtInt_of_neg hlt)
  · rcases Int.lt_or_le i t.length with hlt | hge
    · exact .inl (charAtInt_framed hnonneg hlt)
    · rw [charAtInt_of_length_le hge]
      obtain rfl | hlt : i = t.length ∨ (t.framed.length : Int) ≤ i + 1 := by omega
      · exact .inr ⟨charAtInt_framed_length t, rfl⟩
      · exact .inl (charAtInt_of_length_le hlt)

/-- The codes of white space. -/
def blankCodes : List Nat :=
  [0x20, 0x85, 0xA0, 0x1680, 0x2028, 0x2029, 0x202F, 0x205F, 0x3000] ++
    (List.range' 0x9 5 ++ List.range' 0x2000 11)

theorem isNameStart_of_isWhiteSpace (h : Unicode.isWhiteSpace c = true) : isNameStart c = false := by
  have hcode : c.toNat ∈ blankCodes := by
    simp only [Unicode.isWhiteSpace, Bool.or_eq_true, Bool.and_eq_true, beq_iff_eq, decide_eq_true_eq] at h
    simp only [blankCodes, List.mem_append, List.mem_range'_1, List.mem_cons, List.not_mem_nil, or_false]
    omega
  have hall : ∀ n ∈ blankCodes, isNameStart (Char.ofNat n) = false := by decide +kernel
  rw [← Char.ofNat_toNat c]
  exact hall _ hcode

theorem isNameStart_of_opening {b : Bracket} (h : Bracket.ofOpening? c = some b) : isNameStart c = false := by
  unfold Bracket.ofOpening? at h
  split_ifs at h with h₁ h₂ h₃ h₄
  · exact h₁ ▸ by decide +kernel
  · exact h₂ ▸ by decide +kernel
  · exact h₃ ▸ by decide +kernel
  · exact h₄ ▸ by decide +kernel

end Characters

/-! ### The searches in a framed text -/

section Searches

variable {t : Text} {left right i : Int}

theorem openBefore?_framed (hfirst : Bracket.ofOpening? (charAtInt t 0) = none) (i : Int) :
    openBefore? t.framed 0 (i + 1) = (openBefore? t 0 i).map fun found ↦ (found.1, found.2 + 1) := by
  have hraise : openBefore? t (-1) i = openBefore? t 0 i := openBefore?_raise rfl hfirst i
  rw [← hraise, ← (shifted_framed t).openBefore?]
  rfl

theorem closeAfter?_framed (hlast : Bracket.ofClosing? (charAtInt t (t.length - 1)) = none) (i : Int) :
    closeAfter? t.framed (t.length + 1) (i + 1) =
      (closeAfter? t (t.length - 1) i).map fun found ↦ (found.1, found.2 + 1) := by
  have hoff : Bracket.ofClosing? (charAtInt t (t.length - 1 + 1)) = none := by
    rw [Int.sub_add_cancel, charAtInt_of_length_le (Int.le_refl _)]
    rfl
  rw [← closeAfter?_lower hoff hlast, ← (shifted_framed t).closeAfter?, Int.sub_add_cancel]

/-- Widening two brackets, as one step. -/
theorem matchBrackets?_eq (t : Text) (floor limit : Int) (opening closing : Bracket × Int) :
    matchBrackets? t floor limit opening closing =
      if opening.1.rank = closing.1.rank then some (opening.2, closing.2)
      else if opening.1.rank < closing.1.rank then
        if limit ≤ closing.2 + 1 then none
        else
          (closeAfter? t limit (closing.2 + 1)).bind fun next ↦ matchBrackets? t floor limit opening next
      else if opening.2 ≤ 1 then none
      else
        (openBefore? t floor (opening.2 - 1)).bind fun next ↦ matchBrackets? t floor limit next closing := by
  rw [matchBrackets?]
  split
  · rfl
  · split
    · split
      · rfl
      · split
        · next heq => dsimp only; rw [heq]; rfl
        · next heq => rw [heq]; rfl
    · split
      · rfl
      · split
        · next heq => dsimp only; rw [heq]; rfl
        · next heq => rw [heq]; rfl

variable (h : FreeEnds t)
include h

theorem matchBrackets?_framed (opening closing : Bracket × Int) :
    matchBrackets? t.framed 0 (t.length + 1) (opening.1, opening.2 + 1) (closing.1, closing.2 + 1) =
      (matchBrackets? t 0 (t.length - 1) opening closing).map fun found ↦ (found.1 + 1, found.2 + 1) := by
  have hclose := closeAfter?_framed h.last
  have hback (i : Int) : openBefore? t.framed 0 (i + 1 - 1) =
      (openBefore? t 0 (i - 1)).map fun found ↦ (found.1, found.2 + 1) := by
    rw [show i + 1 - 1 = i - 1 + 1 by omega, openBefore?_framed h.first]
  fun_induction matchBrackets? t 0 (t.length - 1) opening closing with
  | case1 opening closing hsame => rw [matchBrackets?_eq, if_pos hsame]; rfl
  | case2 opening closing hdiffer hless hend =>
    -- in the framed text the search goes on, and finds nothing
    have hnone : closeAfter? t (t.length - 1) (closing.2 + 1) = none := by
      obtain heq | hlt : closing.2 + 1 = t.length - 1 ∨ t.length - 1 < closing.2 + 1 := by omega
      · rw [heq, closeAfter?_self h.last]
      · exact closeAfter?_of_lt hlt
    rw [matchBrackets?_eq, if_neg hdiffer, if_pos hless, hclose, hnone]
    exact ite_self none
  | case3 opening closing hdiffer hless hend next hnext _ ih =>
    rw [matchBrackets?_eq, if_neg hdiffer, if_pos hless, if_neg (by dsimp only; omega), hclose, hnext, ← ih]
    rfl
  | case4 opening closing hdiffer hless hend hnext =>
    rw [matchBrackets?_eq, if_neg hdiffer, if_pos hless, if_neg (by dsimp only; omega), hclose, hnext]
    rfl
  | case5 opening closing hdiffer hmore hend =>
    have hnone : openBefore? t 0 (opening.2 - 1) = none := by
      obtain heq | hlt : opening.2 - 1 = 0 ∨ opening.2 - 1 < 0 := by omega
      · rw [heq, openBefore?_self h.first]
      · exact openBefore?_of_lt hlt
    rw [matchBrackets?_eq, if_neg hdiffer, if_neg hmore, hback, hnone]
    exact ite_self none
  | case6 opening closing hdiffer hmore hend next hnext _ ih =>
    rw [matchBrackets?_eq, if_neg hdiffer, if_neg hmore, if_neg (by dsimp only; omega), hback, hnext, ← ih]
    rfl
  | case7 opening closing hdiffer hmore hend hnext =>
    rw [matchBrackets?_eq, if_neg hdiffer, if_neg hmore, if_neg (by dsimp only; omega), hback, hnext]
    rfl

theorem outerBrackets?_framed (left right : Int) : outerBrackets? t.framed (left + 1) (right + 1) =
    (outerBrackets? t left right).map fun found ↦ (found.1 + 1, found.2 + 1) := by
  have hlimit : (t.framed.length : Int) - 1 = t.length + 1 := by
    rw [t.length_framed]
    omega
  unfold outerBrackets?
  dsimp only
  rw [hlimit, openBefore?_framed h.first, closeAfter?_framed h.last]
  cases openBefore? t 0 left with
  | none => rfl
  | some opening =>
    cases closeAfter? t (t.length - 1) right with
    | none => rfl
    | some closing => exact matchBrackets?_framed h opening closing

/-- The name before the bracket of a list may begin with the text. -/
theorem nameBefore_eq {position : Int} (hpos : 1 ≤ position)
    (hbracket : isNameStart (charAtInt t position) = false) {last before : Int}
    (hlast : scanBack t Unicode.isWhiteSpace (position - 1) (-1) = last)
    (hbefore : scanBack t isNamePart last (-1) = before) :
    nameBefore t position = (decide (before < last) && isNameStart (charAtInt t (before + 1))) := by
  have hlastFloor := le_scanBack t Unicode.isWhiteSpace (show -1 ≤ position - 1 by omega)
  have hlastRaise := scanBack_raise (t := t) Unicode.isWhiteSpace (show (-1 : Int) ≤ 0 by decide)
    (show 0 ≤ position - 1 by omega)
  have hblank := test_of_scanBack_lt t Unicode.isWhiteSpace (position - 1) (-1)
  rw [hlast] at hlastFloor hlastRaise hblank
  unfold nameBefore
  dsimp only
  rw [hlastRaise]
  obtain rfl | hnonneg : last = -1 ∨ 0 ≤ last := by omega
  · -- only blanks are before the bracket
    have hstop (i : Int) : scanBack t isNamePart i i = i :=
      scanBack_of_stop fun hlt ↦ absurd hlt (Int.lt_irrefl i)
    rw [hstop] at hbefore
    subst hbefore
    rw [show max (0 : Int) (-1) = 0 from rfl, hstop]
    rfl
  · have hbeforeFloor := le_scanBack t isNamePart (show -1 ≤ last by omega)
    have hbeforeRaise := scanBack_raise (t := t) isNamePart (show (-1 : Int) ≤ 0 by decide) hnonneg
    have hpart := test_of_scanBack_lt t isNamePart last (-1)
    rw [hbefore] at hbeforeFloor hbeforeRaise hpart
    rw [Int.max_eq_right hnonneg, hbeforeRaise]
    obtain rfl | hbeforeNonneg : before = -1 ∨ 0 ≤ before := by omega
    · -- the name begins with the text
      have hname := h.name (hpart 0 (by decide) hnonneg)
      show (decide (0 < last) && isNameStart (charAtInt t 1)) =
        (decide (-1 < last) && isNameStart (charAtInt t 0))
      rw [← hname]
      obtain rfl | hlong : last = 0 ∨ 0 < last := by omega
      · have hstart : isNameStart (charAtInt t 0) = false := by
          rw [hname]
          obtain rfl | hbeyond : position = 1 ∨ 1 < position := by omega
          · exact hbracket
          · exact isNameStart_of_isWhiteSpace (hblank 1 (by decide) (by omega))
        rw [hstart, Bool.and_false, Bool.and_false]
      · rw [decide_eq_true hlong, decide_eq_true (show -1 < last by omega)]
    · rw [Int.max_eq_right hbeforeNonneg]

theorem nameBefore_framed {position : Int} (hpos : 1 ≤ position) (hlt : position < t.length)
    (hbracket : isNameStart (charAtInt t position) = false) :
    nameBefore t.framed (position + 1) = nameBefore t position := by
  have hblank : scanBack t.framed Unicode.isWhiteSpace (position - 1 + 1) (-1 + 1) =
      scanBack t Unicode.isWhiteSpace (position - 1) (-1) + 1 :=
    scanBack_shift fun j hj hle ↦ by rw [charAtInt_framed (by omega) (by omega)]
  have hpart (last : Int) : scanBack t.framed isNamePart (last + 1) (-1 + 1) =
      scanBack t isNamePart last (-1) + 1 :=
    scanBack_shift fun j _ _ ↦ (shifted_framed t j).congr isNamePart (by decide +kernel)
  rw [show (-1 : Int) + 1 = 0 from rfl] at hblank hpart
  rw [nameBefore_eq h hpos hbracket rfl rfl]
  unfold nameBefore
  dsimp only
  rw [show position + 1 - 1 = position - 1 + 1 by omega, hblank, hpart,
    (shifted_framed t _).congr isNameStart (by decide +kernel)]
  congr 1
  exact decide_eq_decide.mpr (by omega)

end Searches

/-! ### The argument in a framed text -/

/-- The bounds one character further on. -/
def ArgumentBounds.next (b : ArgumentBounds) : ArgumentBounds := ⟨b.left + 1, b.right + 1, b.rightBracket + 1⟩

/-- The inner or the outer ends of the bounds. -/
def ArgumentBounds.ends (b : ArgumentBounds) (t : Text) (inner : Bool) : Int × Int :=
  if inner then b.inner t else b.outer t

section Arguments

variable {t : Text} {left right : Int} (h : FreeEnds t)
include h

/-- Neither bracket of a list is at an end of the text. -/
theorem Encloses.within {leftBracket rightBracket : Int}
    (hencloses : Encloses t left right leftBracket rightBracket) :
    1 ≤ leftBracket ∧ rightBracket + 1 < t.length := by
  have hnonneg := hencloses.nonneg
  have hlt := hencloses.lt_length.2
  obtain ⟨b, hopening⟩ := hencloses.opening
  obtain ⟨b', hclosing⟩ := hencloses.closing
  have hfirst : leftBracket ≠ 0 := fun heq ↦ Option.some_ne_none b (hopening.symm.trans (heq ▸ h.first))
  have hlast : rightBracket ≠ t.length - 1 := fun heq ↦
    Option.some_ne_none b' (hclosing.symm.trans (heq ▸ h.last))
  omega

/-- Whether the brackets that are found are those of a call does not depend on the ends of the text. -/
theorem bracketed_framed {leftBracket rightBracket : Int}
    (hencloses : Encloses t left right leftBracket rightBracket) {leftEnd : Int}
    (hleftEnd : leftDelimiter t leftBracket left = leftEnd) (rightEnd : Int) :
    (charAtInt t.framed (leftEnd + 1) != ',' && charAtInt t.framed (rightEnd + 1) != ',' &&
      !nameBefore t.framed (leftEnd + 1)) =
    (charAtInt t leftEnd != ',' && charAtInt t rightEnd != ',' && !nameBefore t leftEnd) := by
  have hcomma (i : Int) : (charAtInt t.framed (i + 1) != ',') = (charAtInt t i != ',') :=
    congrArg not (decide_eq_decide.mpr ((shifted_framed t).comma_iff i))
  rw [hcomma, hcomma]
  have hdelimiter := hencloses.leftDelimiter.2
  rw [hleftEnd] at hdelimiter
  rcases hdelimiter with rfl | hat
  · obtain ⟨b, hopening⟩ := hencloses.opening
    rw [nameBefore_framed h (hencloses.within h).1 hencloses.lt_length.1 (isNameStart_of_opening hopening)]
  · rw [hat, bne_self_eq_false, Bool.false_and, Bool.false_and, Bool.false_and]

theorem boundsAround?_framed (left right : Int) : boundsAround? t.framed (left + 1) (right + 1) =
    (boundsAround? t left right).map ArgumentBounds.next := by
  have hshift := shifted_framed t
  have hlength := t.length_framed
  have hopen {left right leftBracket rightBracket : Int}
      (hbrackets : outerBrackets? t left right = some (leftBracket, rightBracket)) :
      outerBrackets? t.framed (left + 1) (right + 1) = some (leftBracket + 1, rightBracket + 1) := by
    rw [outerBrackets?_framed h, hbrackets]
    rfl
  fun_induction boundsAround? t left right with
  | case1 left right hnone =>
    rw [boundsAround?, outerBrackets?_framed h, hnone]
    rfl
  | case2 left right leftBracket rightBracket hbrackets leftEnd rightEnd hends =>
    have hencloses := encloses_of_outerBrackets? hbrackets
    have hwithin := hencloses.within h
    have hleft : leftBracket ≤ leftEnd := hencloses.leftDelimiter.1
    have hright : rightEnd ≤ rightBracket + 1 := hencloses.rightDelimiter.2
    rw [boundsAround?, hopen hbrackets]
    dsimp only
    rw [hshift.leftDelimiter, hshift.rightDelimiter, if_pos (by omega)]
    rfl
  | case3 left right leftBracket rightBracket hbrackets leftEnd rightEnd hends bracketed hwiden ih =>
    have hencloses := encloses_of_outerBrackets? hbrackets
    have hleft : leftDelimiter t leftBracket left = leftEnd := rfl
    have hcall := bracketed_framed h hencloses hleft rightEnd
    rw [boundsAround?, hopen hbrackets]
    dsimp only
    rw [hshift.leftDelimiter, hshift.rightDelimiter, if_neg (by omega), hcall, if_pos hwiden, ← ih,
      show leftEnd + 1 - 1 = leftEnd - 1 + 1 by omega]
  | case4 left right leftBracket rightBracket hbrackets leftEnd rightEnd hends bracketed hfound =>
    have hencloses := encloses_of_outerBrackets? hbrackets
    have hleft : leftDelimiter t leftBracket left = leftEnd := rfl
    have hcall := bracketed_framed h hencloses hleft rightEnd
    rw [boundsAround?, hopen hbrackets]
    dsimp only
    rw [hshift.leftDelimiter, hshift.rightDelimiter, if_neg (by omega), hcall, if_neg hfound]
    rfl

theorem boundsAt?_framed {position : Int} (hpos : 0 ≤ position) (hlt : position < t.length) :
    boundsAt? t.framed (position + 1) = (boundsAt? t position).map ArgumentBounds.next := by
  obtain ⟨offset, rfl⟩ := Int.eq_ofNat_of_zero_le hpos
  have hoffset : offset < t.length := Int.ofNat_lt.mp hlt
  have hne : t ≠ [] := List.ne_nil_of_length_pos (Nat.zero_lt_of_lt hoffset)
  have hquoted : quotedAround? t.framed (t.framed.lineEnd (t.framed.lineOf (offset + 1))) (offset + 1)
      (t.framed.lineStart (t.framed.lineOf (offset + 1))) =
      (quotedAround? t (t.lineEnd (t.lineOf offset)) offset (t.lineStart (t.lineOf offset))).map
        fun found ↦ (found.1 + 1, found.2 + 1) := by
    rw [Text.lineOf_framed hoffset, Text.lineEnd_framed hne (t.lineOf_lt offset),
      Text.lineStart_framed hne (t.lineOf_lt offset), Int.natCast_succ, Int.natCast_succ]
    exact (shifted_framed t).quotedAround? _ _ _
  unfold boundsAt?
  dsimp only
  rw [show ((offset : Int) + 1).toNat = offset + 1 by omega, Int.toNat_natCast, hquoted,
    (shifted_framed t).closing]
  cases quotedAround? t (t.lineEnd (t.lineOf offset)) offset (t.lineStart (t.lineOf offset)) with
  | some found =>
    dsimp only [Option.map_some]
    rw [← boundsAround?_framed h, show found.1 + 1 - 1 = found.1 - 1 + 1 by omega]
  | none =>
    dsimp only [Option.map_none]
    cases Bracket.ofClosing? (charAtInt t offset) with
    | some =>
      dsimp only
      rw [← boundsAround?_framed h, show (offset : Int) + 1 - 1 = offset - 1 + 1 by omega]
    | none => exact boundsAround?_framed h offset (offset + 1)

end Arguments

section Ends

variable {t : Text} {b : ArgumentBounds} {position : Int}

theorem scanAhead_framed {i limit : Int} (hi : 0 ≤ i) (hlimit : limit ≤ t.length) (test : Char → Bool) :
    scanAhead t.framed test (i + 1) (limit + 1) = scanAhead t test i limit + 1 :=
  scanAhead_shift fun j hj hlt ↦ by rw [charAtInt_framed (by omega) (by omega)]

variable (hb : b.Within t position) (hpos : 0 ≤ position)
include hb

theorem ArgumentBounds.Within.inner_framed :
    b.next.inner t.framed = ((b.inner t).1 + 1, (b.inner t).2 + 1) := by
  have hleft := hb.left
  have hright := hb.right
  unfold ArgumentBounds.inner ArgumentBounds.next
  dsimp only
  rw [scanAhead_framed (by omega) (by omega)]

include hpos

theorem ArgumentBounds.Within.outer_framed :
    b.next.outer t.framed = ((b.outer t).1 + 1, (b.outer t).2 + 1) := by
  have hle := hb.position_le
  have hbracket := hb.rightBracket
  have hcomma := (shifted_framed t).comma_iff
  unfold ArgumentBounds.outer ArgumentBounds.next
  dsimp only
  by_cases hleft : charAtInt t b.left = ','
  · rw [if_pos ((hcomma _).mpr hleft), if_pos hleft]
  · rw [if_neg (mt (hcomma _).mp hleft), if_neg hleft]
    by_cases hright : b.right + 1 < b.rightBracket ∧ charAtInt t b.right = ','
    · rw [if_pos ⟨by omega, (hcomma _).mpr hright.2⟩, if_pos hright,
        show b.rightBracket + 1 - 1 = b.rightBracket - 1 + 1 by omega,
        scanAhead_framed (by omega) (by omega)]
    · rw [if_neg fun h ↦ hright ⟨by omega, (hcomma _).mp h.2⟩, if_neg hright]

theorem ArgumentBounds.Within.ends_framed (inner : Bool) :
    b.next.ends t.framed inner = ((b.ends t inner).1 + 1, (b.ends t inner).2 + 1) := by
  cases inner
  · exact hb.outer_framed hpos
  · exact hb.inner_framed

/-- The ends are in the text. -/
theorem ArgumentBounds.Within.ends_within (inner : Bool) :
    0 ≤ (b.ends t inner).1 ∧ 0 ≤ (b.ends t inner).2 ∧ (b.ends t inner).2 < t.length := by
  have hleft := hb.left
  have hle := hb.position_le
  have hright := hb.right
  have hbracket := hb.rightBracket
  cases inner with
  | true =>
    have hblanks := le_scanAhead t Unicode.isWhiteSpace (b.left + 1) b.right
    rw [ArgumentBounds.ends, if_pos rfl, ArgumentBounds.inner]
    exact ⟨by omega, by omega, hright⟩
  | false =>
    rw [ArgumentBounds.ends, if_neg Bool.false_ne_true, ArgumentBounds.outer]
    split
    · exact ⟨by omega, by omega, hright⟩
    · split
      · next hcomma =>
        have hblanks := le_scanAhead t Unicode.isWhiteSpace (b.right + 1) (b.rightBracket - 1)
        have hlast := scanAhead_le t Unicode.isWhiteSpace (show b.right + 1 ≤ b.rightBracket - 1 by omega)
        exact ⟨by omega, by omega, by omega⟩
      · exact ⟨by omega, by omega, hright⟩

end Ends

/-! ### A list at the end of the text -/

section Last

variable {t s : Text} {c : Char} {i limit : Int}

/-- A bracket right at the limit is not found behind another character. -/
theorem closeAfter?_before_last (hs : Balanced s) (hc : IsOrdinary c) (h : Reads t i (s ++ [c]))
    (hlimit : i + s.length + 1 = limit) : closeAfter? t limit i = none := by
  have hat : charAtInt t (i + s.length) = c := h.right.head
  rw [hs.closeAfter? h.left (by omega), closeAfter?, if_neg (by omega), hat, hc.closing, hc.opening, hc.quote]
  dsimp only
  rw [if_neg Bool.false_ne_true, if_pos hlimit]

/-- An argument whose list ends with the text is not found from before its last character: the search for
the closing bracket stops right before the last place that it may take. -/
theorem argumentRange_eq_none_of_last {offset : Nat} (hs : Balanced s) (hc : IsOrdinary c)
    (h : Reads t (offset + 1) (s ++ [c])) (hlast : offset + 1 + s.length + 2 = t.length)
    (hunquoted : ∀ d ∈ t, isQuote d = false) (hat : Bracket.ofClosing? (charAtInt t offset) = none)
    (count : Nat) (inner : Bool) : argumentRange t offset count inner = none := by
  have hquote (j : Int) : isQuote (charAtInt t j) = false := by
    unfold charAtInt
    split
    · decide
    · cases hchar : t.charAt j.toNat with
      | none => decide
      | some d => exact hunquoted d (List.mem_of_getElem? hchar)
  have hclose : closeAfter? t (t.length - 1) (offset + 1) = none := closeAfter?_before_last hs hc h (by omega)
  have hbrackets : outerBrackets? t offset (offset + 1) = none := by
    unfold outerBrackets?
    dsimp only
    rw [hclose]
    cases openBefore? t 0 offset <;> rfl
  have hbounds : boundsAt? t offset = none := by
    unfold boundsAt?
    dsimp only
    rw [quotedAround?_eq_none fun j _ _ ↦ hquote j, hat]
    dsimp only
    rw [boundsAround?, hbrackets]
  rw [argumentRange, hbounds]
  rfl

end Last

/-- An argument by its name, in the list of a call. -/
theorem Call.IsWritten.inner_argument {c : Call} (hc : c.IsWritten) {front back : List CallArgument}
    {a : CallArgument} (hargs : c.args = front ++ a :: back) {j : Nat} (hj : j < a.head.length) :
    argumentRange c.text (c.argumentStart front.length + j) 1 true =
      some (.between (c.argumentStart front.length) (c.argumentStop front.length) .characterwise) := by
  have hle := c.argumentStart_le_argumentStop front.length
  exact argumentRange_of_bounds (hc.boundsAt?_head hargs hj)
    (Prod.ext (hc.scanAhead_blanks hargs (Int.ofNat_le.mpr hle)) rfl) rfl hle

/-- The first argument of a call between two line feeds. -/
theorem first_argument_found :
    argumentRange "\nf(a, b)\n".toList 3 1 true = some (.between 3 4 .characterwise) := by
  let first : CallArgument := ⟨0, "a".toList, none⟩
  let c : Call := ⟨"\n".toList, "f".toList, [first, ⟨1, "b".toList, none⟩], "\n".toList⟩
  have hplain {a : CallArgument} (hhead : IsName a.head) (hcalled : a.called = none) : a.IsWritten :=
    ⟨hhead, fun inner h ↦ by cases hcalled ▸ h⟩
  have hwritten : c.IsWritten := by
    refine ⟨rfl, List.all_iff_forall_prop.mp (by decide), by decide, fun a ha ↦ ?_, List.cons_ne_nil _ _⟩
    simp only [c, List.mem_cons, List.not_mem_nil, or_false] at ha
    rcases ha with rfl | rfl
    · exact hplain (by decide) rfl
    · exact hplain (by decide) rfl
  have hargs : c.args = [] ++ first :: [⟨1, "b".toList, none⟩] := rfl
  have hfound := hwritten.inner_argument hargs (j := 0) (by decide)
  have hstart : c.argumentStart 0 = 3 := by decide +kernel
  have hstop : c.argumentStop 0 = 4 := by decide +kernel
  rwa [List.length_nil, hstart, hstop] at hfound

/-! ### The ends of the text -/

section Counted

variable {t : Text} (h : FreeEnds t)
include h

theorem lastArgumentEnd?_framed (inner : Bool) (count : Nat) {position : Int} (hpos : 0 ≤ position)
    (hlt : position < t.length) : lastArgumentEnd? t.framed inner count (position + 1) =
      (lastArgumentEnd? t inner count position).map (· + 1) ∧
    ∀ stop ∈ lastArgumentEnd? t inner count position, 0 ≤ stop := by
  induction count generalizing position with
  | zero => exact ⟨rfl, fun stop hstop ↦ Option.some.inj hstop ▸ hpos⟩
  | succ count ih =>
    rw [lastArgumentEnd?, lastArgumentEnd?, boundsAt?_framed h hpos hlt]
    cases hbounds : boundsAt? t position with
    | none => exact ⟨rfl, fun stop hstop ↦ absurd hstop (Option.not_mem_none stop)⟩
    | some b =>
      have hwithin := within_of_boundsAt? hbounds
      obtain ⟨-, hnonneg, hin⟩ := hwithin.ends_within hpos (inner && count == 0)
      show lastArgumentEnd? t.framed inner count (b.next.ends t.framed (inner && count == 0)).2 = _ ∧ _
      rw [hwithin.ends_framed hpos]
      exact ih hnonneg hin

omit h in
theorem argumentRange_eq {offset : Nat} {b : ArgumentBounds} (hbounds : boundsAt? t offset = some b)
    (count : Nat) (inner : Bool) : argumentRange t offset count inner =
      (lastArgumentEnd? t inner (max count 1 - 1) (b.ends t inner).2).bind fun stop ↦
        if (b.ends t inner).1 < 0 ∨ stop < 0 then none
        else some (.between (b.ends t inner).1.toNat (max stop.toNat (b.ends t inner).1.toNat)
          .characterwise) := by
  rw [argumentRange, hbounds]
  rfl

/-- Between two line feeds the argument object is the same, one character further on, if nothing is decided
by where the text ends. -/
theorem argument_independent_of_ends {offset : Nat} (hoffset : offset < t.length) (count : Nat)
    (inner : Bool) : argumentRange t.framed (offset + 1) count inner =
      (argumentRange t offset count inner).map TextRange.next := by
  have hpos : 0 ≤ (offset : Int) := Int.natCast_nonneg offset
  have hframed := boundsAt?_framed h hpos (Int.ofNat_lt.mpr hoffset)
  cases hbounds : boundsAt? t offset with
  | none =>
    rw [hbounds] at hframed
    rw [argumentRange, argumentRange, Int.natCast_succ, hframed, hbounds]
    rfl
  | some b =>
    have hwithin := within_of_boundsAt? hbounds
    rw [hbounds] at hframed
    rw [argumentRange_eq hbounds, argumentRange_eq hframed, hwithin.ends_framed hpos]
    obtain ⟨hstart, hfirst, hin⟩ := hwithin.ends_within hpos inner
    generalize b.ends t inner = ends at hstart hfirst hin ⊢
    obtain ⟨hlast, hnonneg⟩ := lastArgumentEnd?_framed h inner (max count 1 - 1) hfirst hin
    dsimp only
    rw [hlast]
    cases hend : lastArgumentEnd? t inner (max count 1 - 1) ends.2 with
    | none => rfl
    | some stop =>
      have hstop := hnonneg stop hend
      dsimp only [Option.map_some, Option.bind_some]
      rw [if_neg (by omega), if_neg (by omega), Option.map_some, TextRange.next_between]
      congr 2
      · omega
      · omega

end Counted

/-- The argument of a call on a line of its own, found with or without two line feeds more around it. -/
theorem argument_found_between_feeds :
    FreeEnds "\nf(a, b)\n".toList ∧ 3 < "\nf(a, b)\n".toList.length ∧
      argumentRange "\nf(a, b)\n".toList 3 1 true = some (.between 3 4 .characterwise) ∧
      argumentRange "\n\nf(a, b)\n\n".toList 4 1 true = some (.between 4 5 .characterwise) := by
  have hfree : FreeEnds "\nf(a, b)\n".toList := ⟨by decide, by decide, by decide +kernel⟩
  have hframed := argument_independent_of_ends hfree (show 3 < _ by decide) 1 true
  rw [first_argument_found] at hframed
  exact ⟨hfree, by decide, first_argument_found, hframed⟩

/-- Without the line feeds the closing bracket is the last character, and no argument is found. -/
theorem argument_lost_at_end : ¬∀ (t : Text) (offset count : Nat) (inner : Bool), offset < t.length →
    1 ≤ count → argumentRange t.framed (offset + 1) count inner =
      (argumentRange t offset count inner).map TextRange.next := by
  intro hall
  have hframed := hall "f(a, b)".toList 2 1 true (by decide) (by decide)
  have hnone : argumentRange "f(a, b)".toList 2 1 true = none := by
    refine argumentRange_eq_none_of_last (s := ", ".toList) (c := 'b') ?balanced (by decide) ?reads
      (by decide) (List.all_iff_forall_prop.mp (by decide)) (by decide) 1 true
    case balanced => exact .char (by decide) (.char (by decide) .nil)
    case reads => exact reads_middle "f(a".toList ", b".toList ")".toList
  rw [hnone] at hframed
  cases first_argument_found.symm.trans hframed

end TextObject

end ModalEdit
