import ModalEdit.Proofs.LineWords
import ModalEdit.Proofs.ObjectCommands

/-!
Deleting around WORDs. The object stays on the line of the caret, so what is left is the text with another
line in the place of that one (`Text.exists_aroundWords`), and the lines are otherwise the same
(`Text.splitOn_set_line`). Typed behind `d` it takes whole WORDs from the line, as many as are counted
(`Session.around_words_deleted`).
-/

set_option autoImplicit false
set_option relaxedAutoImplicit false

namespace ModalEdit

open Unicode (isWhiteSpace)

namespace Text

open TextObject

variable {a b : Nat}

/-! ### A line in its text -/

section Lines

variable {t rest : Text} {row : Text} {line offset : Nat} {c : Char}

theorem slice_append_drop (t : Text) (hle : a ≤ b) : t.slice a b ++ t.drop b = t.drop a := by
  rw [slice, Nat.min_eq_left hle, Nat.max_eq_right hle]
  calc (t.drop a).take (b - a) ++ t.drop b
      = (t.drop a).take (b - a) ++ (t.drop a).drop (b - a) := by
        rw [List.drop_drop, Nat.add_sub_cancel' hle]
    _ = t.drop a := List.take_append_drop _ _

/-- Behind the content of a line comes its line feed, or the end of the text. -/
theorem head?_drop_lineEnd (hbreaks : t.FeedsOnly) (h : line < t.lineCount) :
    ∀ c ∈ (t.drop (t.lineEnd line)).head?, c = '\n' := by
  intro c hc
  by_contra hne
  have hat : t.charAt (t.lineEnd line) = some c := by rwa [List.head?_drop] at hc
  have hpast : t.lineEnd line = t.lineOffset (line + 1) := by
    rw [← Span.pastLineFeed_lineEnd hbreaks h, Span.pastLineFeed, hat,
      if_neg fun hfeed ↦ hne (Option.some.inj hfeed)]
  have hlast : line + 1 = t.lineCount := by
    by_contra hnext
    have hcontent := contentLength_of_feed (getLast?_lineAt hbreaks (by omega : line + 1 < t.lineCount))
    rw [lineEnd_eq h, lineOffset_succ h] at hpast
    omega
  rw [hlast, lineOffset_lineCount] at hpast
  exact Nat.ne_of_lt (lt_length_of_charAt hat) hpast

theorem feed_notMem_lineText (hbreaks : t.FeedsOnly) (h : line < t.lineCount) :
    '\n' ∉ t.lineText line := by
  refine t.feed_notMem_feedLines _ ?_
  rw [← lines_map_content hbreaks]
  exact List.mem_map.mpr ⟨_, lineAt_mem_lines h, (lineText_eq h).symm⟩

/-- A line without line feeds and what comes behind it. -/
theorem splitOn_append_of_feed (hrow : '\n' ∉ row) (hrest : ∀ c ∈ rest.head?, c = '\n') :
    (row ++ rest).splitOn '\n' = row :: (rest.splitOn '\n').tail := by
  cases rest with
  | nil =>
    rw [List.append_nil, List.splitOn_eq_singleton hrow]
    rfl
  | cons c rest =>
    obtain rfl : c = '\n' := hrest c rfl
    have hrest : ('\n' :: rest).splitOn '\n' = [] :: rest.splitOn '\n' :=
      List.splitOn_append_cons_self_of_not_mem List.not_mem_nil rest
    rw [List.splitOn_append_cons_self_of_not_mem hrow, hrest]
    rfl

/-- The lines of a text that has another line in the place of one. -/
theorem splitOn_replaced_line (hbreaks : t.FeedsOnly) (h : line < t.lineCount) (hrow : '\n' ∉ row) :
    (t.take (t.lineStart line) ++ (row ++ t.drop (t.lineEnd line))).splitOn '\n' =
      t.feedLines.take line ++ row :: ((t.drop (t.lineEnd line)).splitOn '\n').tail := by
  rw [lineStart_eq_lineOffset h, take_lineOffset hbreaks (.inl h),
    splitOn_terminated_append (t.feed_notMem_take line),
    splitOn_append_of_feed hrow (head?_drop_lineEnd hbreaks h)]

/-- Of the lines of the text only that one is another. -/
theorem splitOn_set_line (hbreaks : t.FeedsOnly) (h : line < t.lineCount) (hrow : '\n' ∉ row) :
    (t.splitOn '\n')[line]? = some (t.lineText line) ∧
      (t.take (t.lineStart line) ++ (row ++ t.drop (t.lineEnd line))).splitOn '\n' =
        (t.splitOn '\n').set line row := by
  have hle := t.lineStart_le_lineEnd line
  have hline := feed_notMem_lineText hbreaks h
  have hlength : (t.feedLines.take line).length = line := by
    rw [List.length_take, length_feedLines hbreaks, Nat.min_eq_left (Nat.le_of_lt h)]
  have hsplit : t.splitOn '\n' =
      t.feedLines.take line ++ t.lineText line :: ((t.drop (t.lineEnd line)).splitOn '\n').tail := by
    rw [← splitOn_replaced_line hbreaks h hline, lineText, slice_append_drop t hle,
      List.take_append_drop]
  constructor
  · rw [hsplit, List.getElem?_append_right (Nat.le_of_eq hlength), hlength, Nat.sub_self]
    rfl
  · rw [splitOn_replaced_line hbreaks h hrow, hsplit, List.set_append_right _ _ (Nat.le_of_eq hlength),
      hlength, Nat.sub_self]
    rfl

end Lines

/-! ### The object in its text -/

section Object

variable {t : Text} {offset : Nat} {c : Char}

/-- How many WORDs of its line end before an offset. -/
def wordsBefore (t : Text) (offset : Nat) : Nat :=
  Nat.count (EndsWord (t.lineText (t.lineOf offset)) true) (offset - t.lineStart (t.lineOf offset))

theorem slice_cons (hlt : a < b) (hc : t.charAt a = some c) :
    t.slice a b = c :: t.slice (a + 1) b := by
  rw [slice, slice, Nat.min_eq_left (Nat.le_of_lt hlt), Nat.max_eq_right (Nat.le_of_lt hlt),
    Nat.min_eq_left hlt, Nat.max_eq_right hlt, drop_of_charAt hc, show b - a = b - (a + 1) + 1 by omega,
    List.take_succ_cons]

theorem slice_append_slice {d : Nat} (t : Text) (hab : a ≤ b) (hbd : b ≤ d) :
    t.slice a b ++ t.slice b d = t.slice a d := by
  have hcut : (t.slice a d).take (b - a) ++ (t.slice a d).drop (b - a) = t.slice a d :=
    List.take_append_drop _ _
  rw [slice, Nat.min_eq_left (hab.trans hbd), Nat.max_eq_right (hab.trans hbd), List.take_take,
    Nat.min_eq_left (Nat.sub_le_sub_right hbd a), List.drop_take, List.drop_drop, Nat.add_sub_cancel' hab,
    show d - a - (b - a) = d - b by omega] at hcut
  rw [slice, slice, slice, Nat.min_eq_left hab, Nat.max_eq_right hab, Nat.min_eq_left hbd,
    Nat.max_eq_right hbd, Nat.min_eq_left (hab.trans hbd), Nat.max_eq_right (hab.trans hbd), hcut]

theorem wordRange_eq (hc : t.charAt offset = some c) (hfeed : c ≠ '\n') (n : Nat) {before : Nat}
    {left : List Char}
    (hextent : wordExtent (t.slice (t.lineStart (t.lineOf offset)) offset).reverse
      (c :: t.slice (offset + 1) (t.lineEnd (t.lineOf offset))) (n + 1) true true = (before, left)) :
    wordRange t offset (n + 1) true true =
      some (.between (offset - before) (t.lineEnd (t.lineOf offset) - left.length) .characterwise) := by
  have hlt : offset < t.lineEnd (t.lineOf offset) := lt_lineEnd_iff.mpr ⟨c, hc, hfeed⟩
  have hstart := t.lineStart_lineOf_le offset
  have hne : t.isEmpty = false := by
    cases t with
    | nil => cases hc
    | cons _ _ => rfl
  have hhere : min offset (t.lineEnd (t.lineOf offset) - 1) = offset := by omega
  unfold wordRange
  rw [hne, if_neg Bool.false_ne_true]
  dsimp only
  rw [if_neg (by omega), hhere, slice_cons hlt hc, show max (n + 1) 1 = n + 1 by omega, hextent]

/-- A span around an offset, by how much it takes before it and what it leaves of a part behind. -/
theorem erase_around (ha : a ≤ offset) (hb : offset ≤ b) (hbt : b ≤ t.length) {before : Nat}
    {left : List Char} (hbefore : before ≤ offset - a) (hleft : left <:+ t.slice offset b) :
    offset - before ≤ b - left.length ∧
      t.erase (offset - before) (b - left.length) =
        t.take a ++ (((t.slice a offset).reverse.drop before).reverse ++ left ++ t.drop b) := by
  obtain ⟨taken, htaken⟩ := hleft
  have hlength := congrArg List.length htaken
  rw [List.length_append, length_slice hb hbt] at hlength
  have hle : offset - before ≤ b - left.length := by omega
  have hfront : t.take a ++ ((t.slice a offset).reverse.drop before).reverse =
      t.take (offset - before) := by
    rw [List.drop_reverse, List.reverse_reverse, length_slice ha (hb.trans hbt), slice,
      Nat.min_eq_left ha, Nat.max_eq_right ha, List.take_take, ← List.take_add,
      show a + min (offset - a - before) (offset - a) = offset - before by omega]
  have hback : t.drop (b - left.length) = left ++ t.drop b := by
    rw [show b - left.length = offset + taken.length by omega, ← List.drop_drop, ← slice_append_drop t hb,
      ← htaken, List.append_assoc, List.drop_left]
  refine ⟨hle, ?_⟩
  rw [erase, Nat.min_eq_left hle, Nat.max_eq_right hle, hback, ← hfront, List.append_assoc,
    List.append_assoc]

/-- On a character of a line the object takes as many WORDs as are counted from that line. -/
theorem exists_aroundWords (hc : t.charAt offset = some c) (hfeed : c ≠ '\n') (n : Nat) :
    ∃ (r : TextRange) (row : Text), wordRange t offset (n + 1) true true = some r ∧
      r.kind = .characterwise ∧ r.stop ≤ t.length ∧ (∀ d ∈ row, d ∈ t.lineText (t.lineOf offset)) ∧
      t.erase r.start r.stop =
        t.take (t.lineStart (t.lineOf offset)) ++ (row ++ t.drop (t.lineEnd (t.lineOf offset))) ∧
      words row = (words (t.lineText (t.lineOf offset))).take (t.wordsBefore offset) ++
        (words (t.lineText (t.lineOf offset))).drop (t.wordsBefore offset + (n + 1)) := by
  have hlt : offset < t.lineEnd (t.lineOf offset) := lt_lineEnd_iff.mpr ⟨c, hc, hfeed⟩
  have hstart := t.lineStart_lineOf_le offset
  have hend := lineEnd_le_length (t.lineOf_lt offset)
  have hlength : (t.slice (t.lineStart (t.lineOf offset)) offset).reverse.length =
      offset - t.lineStart (t.lineOf offset) := by
    rw [List.length_reverse, length_slice hstart (Nat.le_of_lt (lt_length_of_charAt hc))]
  have hline : t.lineText (t.lineOf offset) =
      (t.slice (t.lineStart (t.lineOf offset)) offset).reverse.reverse ++
        c :: t.slice (offset + 1) (t.lineEnd (t.lineOf offset)) := by
    rw [List.reverse_reverse, ← slice_cons hlt hc, slice_append_slice t hstart (Nat.le_of_lt hlt), lineText]
  obtain ⟨before, left, hextent, hbefore, hsuffix, ws, hwords, hleft⟩ :=
    takesWords (t.slice (t.lineStart (t.lineOf offset)) offset).reverse
      (t.slice (offset + 1) (t.lineEnd (t.lineOf offset))) c n
  have hcount := count_endsWord_behind (t.slice (t.lineStart (t.lineOf offset)) offset).reverse
    (t.slice (offset + 1) (t.lineEnd (t.lineOf offset))) c
  have hrange := wordRange_eq hc hfeed n hextent
  rw [← hline, hlength] at hcount
  rw [hlength] at hbefore
  obtain ⟨hle, herase⟩ := erase_around hstart (Nat.le_of_lt hlt) hend hbefore
    (slice_cons hlt hc ▸ hsuffix)
  rw [TextRange.between_eq hle] at hrange
  refine ⟨_, ((t.slice (t.lineStart (t.lineOf offset)) offset).reverse.drop before).reverse ++ left,
    hrange, rfl, (Nat.sub_le _ _).trans hend, fun d hd ↦ ?_, herase, ?_⟩
  · rw [hline]
    exact ((List.drop_sublist _ _).reverse.append hsuffix.sublist).subset hd
  · rw [wordsBefore, hcount, hleft, hline, hwords, List.take_left, List.drop_length_add_append]

end Object

end Text

namespace Session

open Keymap.Default (typed)

variable {s : Session} {caret : CaretId} {offset : Nat}

theorem StandardBindings.aroundWords (h : s.StandardBindings) :
    (TextObject.word true true).Bound (typed "aW") ActionId.aroundBigWord s.keymap s.registry := by
  have hdefault : Keymap.default.get? .operatorPending (typed "aW") =
      some (.action ActionId.aroundBigWord) ∧
      (Keymap.default.trie .operatorPending).goesBeyond (typed "aW") = false := by
    decide +kernel
  have hstandard : Keymap.standard.get? .operatorPending (typed "aW") =
      some (.action ActionId.aroundBigWord) ∧
      (Keymap.standard.trie .operatorPending).goesBeyond (typed "aW") = false := by
    decide +kernel
  have hescape : KeyStroke.escape ∉ typed "aW" := by decide +kernel
  have hfirst : ∀ first ∈ (typed "aW").head?, first.digit? = none ∧ first.typedChar? ≠ some '"' := by
    decide +kernel
  have hmem : Builtin.textObject ActionId.aroundBigWord (TextObject.word true true) ∈
      Builtin.actions := by
    simp [Builtin.actions, Builtin.textObjects]
  have hall : Registry.standard.get? ActionId.aroundBigWord =
      some (Builtin.textObject ActionId.aroundBigWord (TextObject.word true true)) :=
    Registry.standard_get?_of_mem
      (a := Builtin.textObject ActionId.aroundBigWord (TextObject.word true true)) hmem
  have hbuiltin : Builtin.registry.get? ActionId.aroundBigWord =
      some (Builtin.textObject ActionId.aroundBigWord (TextObject.word true true)) :=
    Registry.ofList_get?_of_mem
      (a := Builtin.textObject ActionId.aroundBigWord (TextObject.word true true))
      (by decide +kernel) hmem
  rcases h with ⟨hkeymap, hregistry⟩ | ⟨hkeymap, hregistry⟩
  · rw [hkeymap, hregistry]
    exact ⟨hstandard, hescape, hfirst, hall⟩
  · rw [hkeymap, hregistry]
    exact ⟨hdefault, hescape, hfirst, hbuiltin⟩

/-- With one caret on a character of a line, deleting around WORDs takes from the line as many WORDs as
are counted, from that of the caret on or else from the one behind it, and leaves the others whole and
in order. The other lines stay as they are. -/
theorem around_words_deleted (h : s.ReadsCommands) (hlone : s.edit.Lone caret offset)
    (hbreaks : s.editor.text.FeedsOnly) {c : Char} (hc : s.editor.text.charAt offset = some c)
    (hfeed : c ≠ '\n') (count : TypedCount) :
    let t := s.editor.text
    let row := t.lineOf offset
    let first := t.wordsBefore offset
    ∃ (after : Session) (line : Text),
      s.handleAll (count.strokes ++ typed "daW") = (.executed, after) ∧
      (t.splitOn '\n')[row]? = some (t.lineText row) ∧
      after.editor.text.splitOn '\n' = (t.splitOn '\n').set row line ∧
      line.words = (t.lineText row).words.take first ++
        (t.lineText row).words.drop (first + count.limited) := by
  intro t row first
  obtain ⟨n, hn⟩ : ∃ n, count.limited = n + 1 := Nat.exists_eq_add_one.mpr count.limited_pos
  have hline : row < t.lineCount := t.lineOf_lt offset
  obtain ⟨r, line, hrange, hkind, hwithin, hmem, herase, hwords⟩ := Text.exists_aroundWords hc hfeed n
  have hcovers (ctx : MotionContext) (htext : ctx.text = t) (hoffset : ctx.offset = offset)
      (hcount : ctx.count = count.limited) : TextObject.word true true ctx = some r := by
    rw [TextObject.word, htext, hoffset, hcount, hn, hrange]
  obtain ⟨after, hrun, hafter⟩ :=
    h.deletes_object hlone h.bindings.aroundWords count hcovers hkind hwithin
  have hrow : '\n' ∉ line := fun hnew ↦ Text.feed_notMem_lineText hbreaks hline (hmem _ hnew)
  obtain ⟨hold, hnew⟩ := Text.splitOn_set_line hbreaks hline hrow
  refine ⟨{ s with resolver := {}, edit := after }, line, ?_, hold, ?_, hn ▸ hwords⟩
  · rw [← hrun, List.append_assoc]
    rfl
  · rw [← hnew, ← herase, ← hafter]
    rfl

/-- The second and the third of four WORDs, from the blanks before the second. -/
theorem two_words_deleted_from_blanks :
    let t : Text := "x\na  b.c d e\n".toList
    let count : TypedCount := { digits := [2] }
    (withCaret t 3).ReadsCommands ∧ (withCaret t 3).edit.Lone ⟨0⟩ 3 ∧ t.FeedsOnly ∧
      t.charAt 3 = some ' ' ∧ ' ' ≠ '\n' ∧
      ∃ (after : Session) (line : Text),
        (withCaret t 3).handleAll (count.strokes ++ typed "daW") = (.executed, after) ∧
        after.editor.text.splitOn '\n' = ["x".toList, line, []] ∧
        line.words = ["a".toList, "e".toList] := by
  intro t count
  have hreads := withCaret_readsCommands t 3
  have hlone : (withCaret t 3).edit.Lone ⟨0⟩ 3 := withCaret_lone (by decide)
  have hbreaks : (withCaret t 3).editor.text.FeedsOnly := by
    rw [withCaret_text]
    decide +kernel
  have hc : (withCaret t 3).editor.text.charAt 3 = some ' ' := rfl
  obtain ⟨after, line, hrun, -, hlines, hwords⟩ :=
    around_words_deleted hreads hlone hbreaks hc (by decide) count
  have hrow : (withCaret t 3).editor.text.lineOf 3 = 1 := by decide +kernel
  have hrows : (withCaret t 3).editor.text.splitOn '\n' =
      ["x".toList, "a  b.c d e".toList, []] := by decide +kernel
  rw [hrows, hrow] at hlines
  exact ⟨hreads, hlone, hbreaks, hc, by decide, after, line, hrun, hlines,
    hwords.trans (by decide +kernel)⟩

end Session

end ModalEdit
