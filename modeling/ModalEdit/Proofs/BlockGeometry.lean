import ModalEdit.Proofs.DisplayColumns
import ModalEdit.Proofs.SpanUnion

/-!
Blocks of columns. The part of a line that belongs to a block is made up of the characters that begin at
or before its last column and end past its first (`Span.lineSegment_contains_iff`), so the parts of all
lines together are the characters that the block covers (`Span.any_blockSegments_iff`). They are taken
out one after the other from below, each at the place it had in the text as it was
(`Operator.eraseSegments_eq`), and so a deleted block leaves the text without the characters it covers.
-/

set_option autoImplicit false
set_option relaxedAutoImplicit false

namespace ModalEdit

namespace Span

/-- The corner of a block across from its start: the last of its characters. -/
def corner (r : TextRange) : Nat := max r.start (r.stop - 1)

def leftColumn (t : Text) (r : TextRange) : Nat :=
  min (t.visualColumn r.start) (t.visualColumn (corner r))

def rightColumn (t : Text) (r : TextRange) : Nat :=
  max (t.visualColumn r.start) (t.visualColumn (corner r))

/-- A character reaches into some columns: it begins at or before the last and ends past the first. -/
def Reaches (t : Text) (left right offset : Nat) : Prop :=
  t.visualColumn offset ≤ right ∧ left < t.endColumn offset

/-- A character on one of the lines of a block that reaches into its columns. -/
structure BlockCovers (t : Text) (r : TextRange) (offset : Nat) : Prop where
  top : t.lineOf r.start ≤ t.lineOf offset
  bottom : t.lineOf offset ≤ t.lineOf (corner r)
  content : offset < t.lineEnd (t.lineOf offset)
  reaches : Reaches t (leftColumn t r) (rightColumn t r) offset

instance (t : Text) (left right offset : Nat) : Decidable (Reaches t left right offset) :=
  inferInstanceAs (Decidable (_ ∧ _))

instance (t : Text) (r : TextRange) (offset : Nat) : Decidable (BlockCovers t r offset) :=
  decidable_of_iff (t.lineOf r.start ≤ t.lineOf offset ∧ t.lineOf offset ≤ t.lineOf (corner r) ∧
      offset < t.lineEnd (t.lineOf offset) ∧ Reaches t (leftColumn t r) (rightColumn t r) offset)
    ⟨fun h ↦ ⟨h.1, h.2.1, h.2.2.1, h.2.2.2⟩, fun h ↦ ⟨h.top, h.bottom, h.content, h.reaches⟩⟩

/-- The part of a line between two columns. -/
def lineSegment (t : Text) (left right line : Nat) : Nat × Nat :=
  let start := t.offsetAtColumn line left true
  let last := t.offsetAtColumn line right true
  (start, max start (if last < t.lineEnd line then last + 1 else last))

def inSegment (segment : Nat × Nat) (offset : Nat) : Bool := segment.1 ≤ offset && offset < segment.2

theorem inSegment_iff {segment : Nat × Nat} {offset : Nat} :
    inSegment segment offset = true ↔ segment.1 ≤ offset ∧ offset < segment.2 := by
  simp only [inSegment, Bool.and_eq_true, decide_eq_true_eq]

variable {t : Text} {left right line offset : Nat}

theorem blockSegments_eq (t : Text) (r : TextRange) : blockSegments t r false =
    (List.range' (t.lineOf r.start) (t.lineOf (corner r) + 1 - t.lineOf r.start)).map
      (lineSegment t (leftColumn t r) (rightColumn t r)) := rfl

/-- The part of a line lies on its content. -/
theorem lineSegment_bounds (h : line < t.lineCount) (left right : Nat) :
    t.lineStart line ≤ (lineSegment t left right line).1 ∧
      (lineSegment t left right line).1 ≤ (lineSegment t left right line).2 ∧
      (lineSegment t left right line).2 ≤ t.lineEnd line := by
  have hstart := t.offsetAtColumn_le_lineEnd h left true
  have hlast := t.offsetAtColumn_le_lineEnd h right true
  refine ⟨t.lineStart_le_offsetAtColumn line left true, Nat.le_max_left _ _, Nat.max_le.mpr ⟨hstart, ?_⟩⟩
  split <;> omega

/-- It is made up of the characters that reach into the columns. -/
theorem lineSegment_contains_iff (h : offset < t.lineEnd (t.lineOf offset)) :
    inSegment (lineSegment t left right (t.lineOf offset)) offset = true ↔
      Reaches t left right offset := by
  have hstart : t.offsetAtColumn (t.lineOf offset) left true ≤ offset ↔ left < t.endColumn offset :=
    Text.offsetAtColumn_le_iff h
  have hlast : offset ≤ t.offsetAtColumn (t.lineOf offset) right true ↔
      t.visualColumn offset ≤ right := Text.le_offsetAtColumn_iff h
  rw [inSegment_iff, Reaches, ← hstart, ← hlast, lineSegment]
  dsimp only
  split <;> omega

section Segments

variable {r : TextRange}

theorem lineOf_start_le_corner (t : Text) (r : TextRange) : t.lineOf r.start ≤ t.lineOf (corner r) :=
  t.lineOf_mono (Nat.le_max_left _ _)

/-- The lines of a block are lines of the text. -/
theorem mem_lines_iff : line ∈ List.range' (t.lineOf r.start)
      (t.lineOf (corner r) + 1 - t.lineOf r.start) ↔
    t.lineOf r.start ≤ line ∧ line ≤ t.lineOf (corner r) := by
  have hle := lineOf_start_le_corner t r
  rw [List.mem_range'_1]
  omega

theorem lt_lineCount_of_mem (h : line ≤ t.lineOf (corner r)) : line < t.lineCount :=
  Nat.lt_of_le_of_lt h (t.lineOf_lt _)

/-- The parts are those of the lines, from the top. -/
theorem blockSegments_getElem? (htop : t.lineOf r.start ≤ line) (hbottom : line ≤ t.lineOf (corner r)) :
    (blockSegments t r false)[line - t.lineOf r.start]? =
      some (lineSegment t (leftColumn t r) (rightColumn t r) line) := by
  have hindex : line - t.lineOf r.start < t.lineOf (corner r) + 1 - t.lineOf r.start := by omega
  rw [blockSegments_eq, List.getElem?_map, List.getElem?_range' hindex, Nat.one_mul,
    Nat.add_sub_cancel' htop]
  rfl

/-- The parts of the lines together are what the block covers. -/
theorem any_blockSegments_iff :
    (blockSegments t r false).any (inSegment · offset) = true ↔ BlockCovers t r offset := by
  rw [blockSegments_eq, List.any_map, List.any_eq_true]
  constructor
  · rintro ⟨line, hmem, hin⟩
    obtain ⟨htop, hbottom⟩ := mem_lines_iff.mp hmem
    have hline := lt_lineCount_of_mem hbottom
    obtain ⟨hfirst, -, hend⟩ := lineSegment_bounds hline (leftColumn t r) (rightColumn t r)
    obtain ⟨hle, hlt⟩ := inSegment_iff.mp hin
    have hcontent : offset < t.lineEnd line := Nat.lt_of_lt_of_le hlt hend
    obtain rfl := Text.lineOf_eq_of_content hline (Nat.le_trans hfirst hle) hcontent
    exact ⟨htop, hbottom, hcontent, (lineSegment_contains_iff hcontent).mp hin⟩
  · intro h
    exact ⟨t.lineOf offset, mem_lines_iff.mpr ⟨h.top, h.bottom⟩,
      (lineSegment_contains_iff h.content).mpr h.reaches⟩

/-- The parts of the lines come one behind the other. -/
theorem blockSegments_apart (t : Text) (r : TextRange) :
    (blockSegments t r false).Pairwise fun above below ↦ above.2 ≤ below.1 := by
  rw [blockSegments_eq, List.pairwise_map]
  refine List.Pairwise.imp_of_mem ?_ List.pairwise_lt_range'
  intro above below habove hbelow hlt
  have hline := lt_lineCount_of_mem (mem_lines_iff.mp hbelow).2
  have hupper : above < t.lineCount := Nat.lt_trans hlt hline
  obtain ⟨-, -, hend⟩ := lineSegment_bounds hupper (leftColumn t r) (rightColumn t r)
  obtain ⟨hstart, -, -⟩ := lineSegment_bounds hline (leftColumn t r) (rightColumn t r)
  calc (lineSegment t (leftColumn t r) (rightColumn t r) above).2
    _ ≤ t.lineEnd above := hend
    _ ≤ t.lineOffset (above + 1) := Text.lineEnd_le_lineOffset_succ hupper
    _ ≤ t.lineOffset below := t.lineOffset_mono hlt
    _ = t.lineStart below := (Text.lineStart_eq_lineOffset hline).symm
    _ ≤ (lineSegment t (leftColumn t r) (rightColumn t r) below).1 := hstart

theorem blockSegments_bounds (t : Text) (r : TextRange) :
    ∀ segment ∈ blockSegments t r false, segment.1 ≤ segment.2 ∧ segment.2 ≤ t.length := by
  rw [blockSegments_eq, List.forall_mem_map]
  intro line hmem
  have hline := lt_lineCount_of_mem (mem_lines_iff.mp hmem).2
  obtain ⟨-, hle, hend⟩ := lineSegment_bounds hline (leftColumn t r) (rightColumn t r)
  exact ⟨hle, Nat.le_trans hend (Text.lineEnd_le_length hline)⟩

end Segments

end Span

namespace Operator

open ModalEdit.Span

/-- What stands before all that is gone stays as it is and where it is. -/
theorem slice_without {t : Text} {gone : Nat → Bool} {a b : Nat} (hab : a ≤ b) (hb : b ≤ t.length)
    (hgone : ∀ offset, offset < b → gone offset = false) :
    (t.without gone).slice a b = t.slice a b ∧
      t.placeAt (Text.leaveOut gone) a = a ∧ t.placeAt (Text.leaveOut gone) b = b := by
  have hself (offset : Nat) (hlt : offset < b) : Text.leaveOut (fun _ ↦ false) offset =
      Text.leaveOut gone offset := by
    unfold Text.leaveOut
    rw [hgone offset hlt]
  have hplace (offset : Nat) (hle : offset ≤ b) : t.placeAt (Text.leaveOut gone) offset = offset := by
    rw [Text.placeAt_of_le hself hle, Text.placeAt_eq_min (g := Text.leaveOut fun _ ↦ false) (fun _ _ ↦ rfl),
      Nat.min_eq_left (Nat.le_trans hle hb)]
  refine ⟨?_, hplace a hab, hplace b (Nat.le_refl b)⟩
  calc (t.without gone).slice a b
    _ = (t.replaceEach (Text.leaveOut gone)).slice (t.placeAt (Text.leaveOut gone) a)
        (t.placeAt (Text.leaveOut gone) b) := by
      rw [Text.without_eq_replaceEach, hplace a hab, hplace b (Nat.le_refl b)]
    _ = t.replaceEachIn (Text.leaveOut gone) a b := Text.slice_placeAt hab
    _ = (t.drop a).take (b - a) := by
      refine Text.replaceEachFrom_eq_self fun offset c _ hlt ↦ ?_
      rw [List.length_take] at hlt
      rw [← hself offset (by omega)]
      rfl
    _ = t.slice a b := by rw [Text.slice, Nat.min_eq_left hab, Nat.max_eq_right hab]

/-- Segments one behind the other are read in the text as it was, and in the end it lacks all of them. -/
theorem eraseSegments_eq (e : Editor) {segments : List (Nat × Nat)}
    (hbounds : ∀ segment ∈ segments, segment.1 ≤ segment.2 ∧ segment.2 ≤ e.text.length)
    (hapart : segments.Pairwise fun above below ↦ above.2 ≤ below.1) :
    (eraseSegments e segments).1 = segments.map (fun segment ↦ e.text.slice segment.1 segment.2) ∧
      (eraseSegments e segments).2.text =
        e.text.without (fun offset ↦ segments.any (inSegment · offset)) ∧
      (eraseSegments e segments).2.registers = e.registers := by
  induction segments with
  | nil =>
    refine ⟨rfl, ?_, rfl⟩
    exact (Revision.start_lacks e.text).text
  | cons segment rest ih =>
    obtain ⟨start, stop⟩ := segment
    obtain ⟨⟨hle, hstop⟩, hbounds⟩ := List.forall_mem_cons.mp hbounds
    obtain ⟨hbehind, hapart⟩ := List.pairwise_cons.mp hapart
    obtain ⟨hpieces, htext, hregisters⟩ := ih hbounds hapart
    -- The segments further on are gone already, and none of them reaches before the end of this one.
    have hgone (offset : Nat) (hlt : offset < stop) : rest.any (inSegment · offset) = false := by
      refine Bool.eq_false_iff.mpr fun hany ↦ ?_
      obtain ⟨other, hmem, hin⟩ := List.any_eq_true.mp hany
      have hbelow : stop ≤ other.1 := hbehind other hmem
      exact absurd (inSegment_iff.mp hin).1 (by omega)
    obtain ⟨hslice, hfirst, hlast⟩ := slice_without hle hstop hgone
    have hlacks : Revision.Lacks ⟨e.text.without fun offset ↦ rest.any (inSegment · offset),
        e.text.placeAt (Text.leaveOut fun offset ↦ rest.any (inSegment · offset))⟩ e.text
        (fun offset ↦ rest.any (inSegment · offset)) := ⟨rfl, fun _ ↦ rfl⟩
    have herased := (hlacks.erasedBetween hle (fun offset ↦ Bool.or_comm _ _) rfl).text
    rw [hfirst, hlast] at herased
    refine ⟨?_, ?_, hregisters⟩
    · show (eraseSegments e rest).2.text.slice start stop :: (eraseSegments e rest).1 = _
      rw [htext, hslice, hpieces]
      rfl
    · show (eraseSegments e rest).2.text.erase start stop = _
      rw [htext]
      exact herased

/-- A block has one part on each of its lines, from the top, made up of the characters of the line that
reach into the columns between its corners. Deleting it takes out these characters and no others, and
records the parts as they were, one below the other. -/
theorem delete_block_geometry (e : Editor) (args : OperatorArgs)
    (hkind : args.range.kind = .blockwise) :
    let t := e.text
    let p := args.range.start
    let q := max args.range.start (args.range.stop - 1)
    let lowest := min (t.visualColumn p) (t.visualColumn q)
    let highest := max (t.visualColumn p) (t.visualColumn q)
    let segments := blockSegments t args.range false
    segments.length = t.lineOf q - t.lineOf p + 1 ∧
      (∀ line, t.lineOf p ≤ line → line ≤ t.lineOf q →
        ∃ start stop, segments[line - t.lineOf p]? = some (start, stop) ∧
          t.lineStart line ≤ start ∧ start ≤ stop ∧ stop ≤ t.lineEnd line ∧
          ∀ offset, t.lineStart line ≤ offset → offset < t.lineEnd line →
            (start ≤ offset ∧ offset < stop ↔
              t.visualColumn offset ≤ highest ∧ lowest < t.endColumn offset)) ∧
      (delete e args).2.text = t.without (fun offset ↦ decide (BlockCovers t args.range offset)) ∧
      (delete e args).2.registers = e.registers.recordDelete args.register
        ⟨joinLines (segments.map fun segment ↦ t.slice segment.1 segment.2), .blockwise⟩ := by
  intro t p q lowest highest segments
  have hle : t.lineOf p ≤ t.lineOf q := lineOf_start_le_corner t args.range
  obtain ⟨hpieces, htext, hregisters⟩ := eraseSegments_eq e (blockSegments_bounds t args.range)
    (blockSegments_apart t args.range)
  have hdelete : (delete e args).2 = (eraseSegments e segments).2.recordDelete args.register
      ⟨joinLines (eraseSegments e segments).1, .blockwise⟩ := by
    obtain ⟨caret, ⟨start, stop, kind, hle⟩, register, count⟩ := args
    cases hkind
    rfl
  refine ⟨?_, fun line htop hbottom ↦ ?_, ?_, ?_⟩
  · rw [show segments = _ from blockSegments_eq t args.range, List.length_map, List.length_range']
    exact Nat.succ_sub hle
  · have hline : line < t.lineCount := lt_lineCount_of_mem (r := args.range) hbottom
    obtain ⟨hstart, hsegment, hend⟩ := lineSegment_bounds hline lowest highest
    refine ⟨(lineSegment t lowest highest line).1, (lineSegment t lowest highest line).2,
      blockSegments_getElem? htop hbottom, hstart, hsegment, hend, fun offset hfirst hlast ↦ ?_⟩
    obtain rfl := Text.lineOf_eq_of_content hline hfirst hlast
    exact inSegment_iff.symm.trans (lineSegment_contains_iff hlast)
  · rw [hdelete]
    refine htext.trans (congrArg e.text.without (funext fun offset ↦ ?_))
    exact Bool.eq_iff_iff.mpr (any_blockSegments_iff.trans decide_eq_true_iff.symm)
  · rw [hdelete, ← hpieces, ← hregisters]
    rfl

/-- A tab and a wide character that only just reach into the block go with it, and a line that is too
short for it keeps what it has. -/
theorem ragged_block_deleted :
    let e : Editor := .ofText "ab\tc\n漢字x\nq\nabcd\n".toList
    let args : OperatorArgs := { caret := ⟨0⟩, range := .between 1 14 .blockwise }
    args.range.kind = .blockwise ∧
      (delete e args).2.text = "ac\nx\nq\nad\n".toList ∧
      (delete e args).2.registers.unnamed = some ⟨"b\t\n漢字\n\nbc".toList, .blockwise⟩ := by
  intro e args
  obtain ⟨-, -, htext, hregisters⟩ := delete_block_geometry e args rfl
  rw [htext, hregisters]
  exact ⟨rfl, by decide +kernel, by decide +kernel⟩

end Operator

end ModalEdit
