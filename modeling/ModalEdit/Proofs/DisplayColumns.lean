import ModalEdit.Proofs.LineEnds

/-!
The columns of a line. Along the characters of a line the columns where they begin, and those where they
end, never fall (`Text.le_nextColumn`), so the search for a column is decided by either: it stops at or
before a character exactly if that one ends past the column (`Text.offsetAtColumn_le_iff`), and at it or
behind exactly if it does not begin past the column (`Text.le_offsetAtColumn_iff`). A character that
takes a cell is therefore found again from the column where it begins (`Text.offsetAtColumn_visualColumn`).
-/

set_option autoImplicit false
set_option relaxedAutoImplicit false

namespace ModalEdit.Text

variable {t : Text} {offset line : Nat}

/-- The column at which the character at an offset ends; where there is none, the column of the offset. -/
def endColumn (t : Text) (offset : Nat) : Nat :=
  ((t.charAt offset).map (nextColumn (t.visualColumn offset))).getD (t.visualColumn offset)

theorem le_nextColumn (column : Nat) (c : Char) : column ≤ nextColumn column c := by
  unfold nextColumn tabStop
  split <;> omega

theorem le_foldl_nextColumn (column : Nat) (cs : List Char) : column ≤ cs.foldl nextColumn column := by
  induction cs generalizing column with
  | nil => exact Nat.le_refl column
  | cons c rest ih => exact Nat.le_trans (le_nextColumn column c) (ih _)

/-- The search among some characters ends with one of the first `k + 1` exactly if the last of these ends
past the column. -/
theorem lt_foldl_nextColumn_iff {target column k : Nat} {cs : List Char} (hk : k < cs.length) :
    target < (cs.take (k + 1)).foldl nextColumn column ↔
      ∃ n ≤ k, charsBefore? target column cs = some n := by
  induction cs generalizing column k with
  | nil => exact absurd hk (Nat.not_lt_zero k)
  | cons c rest ih =>
    rw [List.take_succ_cons, List.foldl_cons, charsBefore?]
    by_cases hpast : target < nextColumn column c
    · rw [if_pos hpast]
      exact iff_of_true (Nat.lt_of_lt_of_le hpast (le_foldl_nextColumn _ _)) ⟨0, Nat.zero_le k, rfl⟩
    · rw [if_neg hpast]
      cases k with
      | zero =>
        refine iff_of_false hpast ?_
        rintro ⟨n, hn, hfound⟩
        obtain ⟨m, -, rfl⟩ := Option.map_eq_some_iff.mp hfound
        exact absurd hn (Nat.not_succ_le_zero m)
      | succ k =>
        rw [ih (Nat.lt_of_succ_lt_succ hk)]
        constructor
        · rintro ⟨n, hn, hfound⟩
          exact ⟨n + 1, Nat.succ_le_succ hn, by rw [hfound]; rfl⟩
        · rintro ⟨n, hn, hfound⟩
          obtain ⟨m, hm, rfl⟩ := Option.map_eq_some_iff.mp hfound
          exact ⟨m, Nat.le_of_succ_le_succ hn, hm⟩

theorem charsBefore?_lt {target column n : Nat} {cs : List Char}
    (h : charsBefore? target column cs = some n) : n < cs.length := by
  induction cs generalizing column n with
  | nil => cases h
  | cons c rest ih =>
    rw [charsBefore?] at h
    split at h
    · cases h
      exact Nat.succ_pos _
    · obtain ⟨m, hm, rfl⟩ := Option.map_eq_some_iff.mp h
      exact Nat.succ_lt_succ (ih hm)

/-! ### The characters of a line -/

theorem lineOf_eq_of_content (h : line < t.lineCount) (hle : t.lineStart line ≤ offset)
    (hlt : offset < t.lineEnd line) : t.lineOf offset = line :=
  (lineOf_eq_iff h).mpr ⟨lineStart_eq_lineOffset h ▸ hle,
    fun _ ↦ Nat.lt_of_lt_of_le hlt (lineEnd_le_lineOffset_succ h)⟩

theorem length_lineText (h : line < t.lineCount) :
    (t.lineText line).length = t.lineEnd line - t.lineStart line := by
  have hend := lineEnd_le_length h
  have hle := t.lineStart_le_lineEnd line
  rw [lineText, slice, List.length_take, List.length_drop]
  omega

theorem lineText_getElem? {n : Nat} (h : n < t.lineEnd line - t.lineStart line) :
    (t.lineText line)[n]? = t.charAt (t.lineStart line + n) := by
  have hle := t.lineStart_le_lineEnd line
  rw [lineText, slice, Nat.min_eq_left hle, Nat.max_eq_right hle, List.getElem?_take_of_lt h,
    List.getElem?_drop, charAt]

/-- The column of an offset is that behind the characters before it on its line. -/
theorem visualColumn_eq (t : Text) (offset : Nat) : t.visualColumn offset =
    ((t.lineText (t.lineOf offset)).take (offset - t.lineStart (t.lineOf offset))).foldl
      nextColumn 0 := by
  have hstart := t.lineStart_lineOf_le offset
  have hle := t.lineStart_le_lineEnd (t.lineOf offset)
  rw [visualColumn, lineText, slice, slice, List.take_take]
  congr 2
  · omega
  · rw [Nat.min_eq_left hle, Nat.min_eq_left (by omega)]

theorem endColumn_eq (h : offset < t.lineEnd (t.lineOf offset)) : t.endColumn offset =
    ((t.lineText (t.lineOf offset)).take (offset - t.lineStart (t.lineOf offset) + 1)).foldl
      nextColumn 0 := by
  have hstart := t.lineStart_lineOf_le offset
  obtain ⟨c, hc, -⟩ := lt_lineEnd_iff.mp h
  have hget : (t.lineText (t.lineOf offset))[offset - t.lineStart (t.lineOf offset)]? = some c := by
    rw [lineText_getElem? (by omega), Nat.add_sub_cancel' hstart, hc]
  rw [endColumn, hc, visualColumn_eq, List.take_add_one, hget, List.foldl_append]
  rfl

/-- A character begins where the one before it on its line ends. -/
theorem visualColumn_eq_endColumn (hpast : t.lineStart (t.lineOf offset) < offset)
    (h : offset < t.lineEnd (t.lineOf offset)) :
    t.visualColumn offset = t.endColumn (offset - 1) := by
  have hline : t.lineOf (offset - 1) = t.lineOf offset :=
    lineOf_eq_of_le (Nat.le_sub_one_of_lt hpast) (Nat.sub_le _ _)
  have hbefore : offset - 1 < t.lineEnd (t.lineOf (offset - 1)) := by
    rw [hline]
    omega
  rw [endColumn_eq hbefore, visualColumn_eq, hline]
  congr 2
  omega

theorem visualColumn_lineStart (h : t.lineStart (t.lineOf offset) = offset) :
    t.visualColumn offset = 0 := by
  rw [visualColumn_eq, h, Nat.sub_self]
  rfl

/-! ### The search for a column -/

theorem offsetAtColumn_eq_of_some {column n : Nat} {allowEnd : Bool}
    (h : charsBefore? column 0 (t.lineText line) = some n) :
    t.offsetAtColumn line column allowEnd = t.lineStart line + n := by
  rw [offsetAtColumn, h]

theorem offsetAtColumn_eq_of_none {column : Nat} {allowEnd : Bool}
    (h : charsBefore? column 0 (t.lineText line) = none) :
    t.offsetAtColumn line column allowEnd = t.lastCaretOffset line allowEnd := by
  rw [offsetAtColumn, h]

theorem lineStart_le_offsetAtColumn (t : Text) (line column : Nat) (allowEnd : Bool) :
    t.lineStart line ≤ t.offsetAtColumn line column allowEnd := by
  have hend := t.lineStart_le_lineEnd line
  unfold offsetAtColumn lastCaretOffset
  split
  · exact Nat.le_add_right _ _
  · split
    · exact hend
    · exact Nat.le_max_left _ _

theorem offsetAtColumn_le_lineEnd (h : line < t.lineCount) (column : Nat) (allowEnd : Bool) :
    t.offsetAtColumn line column allowEnd ≤ t.lineEnd line := by
  have hend := t.lineStart_le_lineEnd line
  cases hfound : charsBefore? column 0 (t.lineText line) with
  | some n =>
    have hn := charsBefore?_lt hfound
    rw [length_lineText h] at hn
    rw [offsetAtColumn_eq_of_some hfound]
    omega
  | none =>
    rw [offsetAtColumn_eq_of_none hfound, lastCaretOffset]
    split <;> omega

section Search

variable {column : Nat} (h : offset < t.lineEnd (t.lineOf offset))
include h

/-- The search stops at a character or before it exactly if it ends past the column. -/
theorem offsetAtColumn_le_iff :
    t.offsetAtColumn (t.lineOf offset) column true ≤ offset ↔ column < t.endColumn offset := by
  have hstart := t.lineStart_lineOf_le offset
  have hline := t.lineOf_lt offset
  have hlength : offset - t.lineStart (t.lineOf offset) < (t.lineText (t.lineOf offset)).length := by
    rw [length_lineText hline]
    omega
  rw [endColumn_eq h, lt_foldl_nextColumn_iff hlength]
  cases hfound : charsBefore? column 0 (t.lineText (t.lineOf offset)) with
  | some n =>
    rw [offsetAtColumn_eq_of_some hfound]
    constructor
    · exact fun hle ↦ ⟨n, by omega, rfl⟩
    · rintro ⟨m, hm, heq⟩
      cases heq
      omega
  | none =>
    rw [offsetAtColumn_eq_of_none hfound]
    refine iff_of_false (Nat.not_le.mpr h) ?_
    rintro ⟨m, -, hm⟩
    cases hm

/-- It stops at a character or behind it exactly if it does not begin past the column. -/
theorem le_offsetAtColumn_iff :
    offset ≤ t.offsetAtColumn (t.lineOf offset) column true ↔ t.visualColumn offset ≤ column := by
  rcases Nat.eq_or_lt_of_le (t.lineStart_lineOf_le offset) with hfirst | hpast
  · rw [visualColumn_lineStart hfirst]
    refine iff_of_true ?_ (Nat.zero_le column)
    exact Nat.le_trans (Nat.le_of_eq hfirst.symm) (t.lineStart_le_offsetAtColumn _ _ _)
  · have hline : t.lineOf (offset - 1) = t.lineOf offset :=
      lineOf_eq_of_le (Nat.le_sub_one_of_lt hpast) (Nat.sub_le _ _)
    have hbefore : offset - 1 < t.lineEnd (t.lineOf (offset - 1)) := by
      rw [hline]
      omega
    have hstop : t.offsetAtColumn (t.lineOf (offset - 1)) column true ≤ offset - 1 ↔
        column < t.endColumn (offset - 1) := offsetAtColumn_le_iff hbefore
    rw [hline] at hstop
    rw [visualColumn_eq_endColumn hpast h]
    omega

/-- From the column where a character that takes a cell begins, it is found again. -/
theorem offsetAtColumn_visualColumn (hwide : t.visualColumn offset < t.endColumn offset)
    (allowEnd : Bool) :
    t.offsetAtColumn (t.lineOf offset) (t.visualColumn offset) allowEnd = offset := by
  have hat : t.offsetAtColumn (t.lineOf offset) (t.visualColumn offset) true = offset :=
    Nat.le_antisymm ((offsetAtColumn_le_iff h).mpr hwide) ((le_offsetAtColumn_iff h).mpr (Nat.le_refl _))
  cases hfound : charsBefore? (t.visualColumn offset) 0 (t.lineText (t.lineOf offset)) with
  | some n => rw [offsetAtColumn_eq_of_some hfound, ← offsetAtColumn_eq_of_some hfound, hat]
  | none =>
    rw [offsetAtColumn_eq_of_none hfound] at hat
    exact absurd hat (Nat.ne_of_gt h)

end Search

end ModalEdit.Text
