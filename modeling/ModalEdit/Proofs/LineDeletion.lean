import Mathlib.Data.List.TakeDrop
import ModalEdit.Proofs.LineGeometry
import ModalEdit.Proofs.SpanUnion

/-!
Lines deleted one after the other, in the order in which they stand. The lines before the last are taken
out alone, as other lines are still behind them (`Lacks.foldl_next_lines`). The last one takes the line
break before it along, unless it ends in one itself, and by then that is the line feed before the block of
lines at the end that have gone (`Lacks.next_last`). When the last line comes up again its span is empty,
and a span that is empty at the end of the text still takes the character before it along, unless that is
a line feed (`erasingLines_at_end`); so each time one character more is missing (`foldl_lineRanges`).
-/

set_option autoImplicit false
set_option relaxedAutoImplicit false

namespace ModalEdit

namespace Text

/-- The number of characters behind the last line feed. -/
def openEnd (t : Text) : Nat := (t.reverse.takeWhile (· != '\n')).length

/-- The text without some characters at its end, but for those up to its last line feed. -/
def chop (t : Text) (n : Nat) : Text := t.take (t.length - min n t.openEnd)

theorem chop_zero (t : Text) : t.chop 0 = t := by
  rw [chop, Nat.zero_min, Nat.sub_zero, List.take_length]

theorem chop_nil (n : Nat) : chop [] n = [] := List.take_nil

theorem chop_of_feed {t : Text} (h : t.getLast? = some '\n') (n : Nat) : t.chop n = t := by
  obtain ⟨init, rfl⟩ := List.getLast?_eq_some_iff.mp h
  have hopen : openEnd (init ++ ['\n']) = 0 := by
    rw [openEnd, List.reverse_append]
    rfl
  rw [chop, hopen, Nat.min_zero, Nat.sub_zero, List.take_length]

theorem chop_succ_of_ne {init : Text} {c : Char} (h : c ≠ '\n') (n : Nat) :
    chop (init ++ [c]) (n + 1) = init.chop n := by
  have hopen : openEnd (init ++ [c]) = openEnd init + 1 := by
    have hc : (c != '\n') = true := by simpa using h
    rw [openEnd, List.reverse_append, List.reverse_singleton, List.singleton_append,
      List.takeWhile_cons_of_pos (p := (· != '\n')) hc]
    rfl
  rw [chop, chop, hopen, List.length_append, List.length_singleton, Nat.add_min_add_right,
    Nat.add_sub_add_right, List.take_append_of_le_length (Nat.sub_le _ _)]

theorem chop_succ (t : Text) (n : Nat) : t.chop (n + 1) = (t.chop 1).chop n := by
  rcases List.eq_nil_or_concat t with rfl | ⟨init, c, rfl⟩
  · simp only [chop_nil]
  · rw [List.concat_eq_append]
    by_cases hc : c = '\n'
    · have hfeed : (init ++ [c]).getLast? = some '\n' := by rw [List.getLast?_concat, hc]
      simp only [chop_of_feed hfeed]
    · rw [chop_succ_of_ne hc, chop_succ_of_ne hc, chop_zero]

theorem openEnd_le (t : Text) : t.openEnd ≤ t.length := by
  rw [openEnd, ← t.length_reverse]
  exact (List.takeWhile_prefix _).length_le

theorem chop_eq_self_iff {t : Text} {n : Nat} : t.chop n = t ↔ n = 0 ∨ t.openEnd = 0 := by
  have hopen := t.openEnd_le
  rw [chop, List.take_eq_self_iff]
  omega

/-- Up to a number, the line from which on all lines are chosen. -/
def blockStart (chosen : Nat → Bool) : Nat → Nat
  | 0 => 0
  | line + 1 => if chosen line then blockStart chosen line else line + 1

/-- The text without some of its lines. If the last line is one of them and has no line feed, the line feed
before the block of such lines at the end goes too. -/
def withoutLines (t : Text) (ls : List Nat) : Text :=
  let block := blockStart ls.contains t.lineCount
  t.without fun offset ↦ ls.contains (t.lineOf offset) ||
    (ls.contains t.lastLine && t.getLast? != some '\n' && 0 < block && offset + 1 == t.lineStart block)

section Block

variable {chosen : Nat → Bool} {n line : Nat}

theorem blockStart_le (chosen : Nat → Bool) (n : Nat) : blockStart chosen n ≤ n := by
  induction n with
  | zero => exact Nat.le_refl 0
  | succ n ih =>
    rw [blockStart]
    split
    · exact Nat.le_succ_of_le ih
    · exact Nat.le_refl _

theorem blockStart_le_of_chosen (h : chosen n = true) : blockStart chosen (n + 1) ≤ n := by
  rw [blockStart, if_pos h]
  exact blockStart_le chosen n

theorem chosen_of_blockStart_le (hle : blockStart chosen n ≤ line) (hlt : line < n) :
    chosen line = true := by
  induction n with
  | zero => exact absurd hlt (Nat.not_lt_zero line)
  | succ n ih =>
    rw [blockStart] at hle
    split at hle
    · next hn =>
      rcases Nat.lt_succ_iff_lt_or_eq.mp hlt with hbefore | rfl
      · exact ih hle hbefore
      · exact hn
    · omega

theorem not_chosen_of_blockStart (h : blockStart chosen n = line + 1) : chosen line = false := by
  induction n with
  | zero => exact absurd h (Nat.succ_ne_zero line).symm
  | succ n ih =>
    rw [blockStart] at h
    split at h
    · exact ih h
    · next hn =>
      rw [← Nat.succ_inj.mp h]
      exact Bool.not_eq_true _ ▸ hn

/-- All lines from the first of the block on are chosen. -/
theorem chosen_lineOf {t : Text} {offset : Nat} (h : blockStart chosen t.lineCount < t.lineCount)
    (hle : t.lineOffset (blockStart chosen t.lineCount) ≤ offset) : chosen (t.lineOf offset) = true :=
  chosen_of_blockStart_le (le_lineOf h hle) (t.lineOf_lt offset)

/-- The line before the block is not chosen. -/
theorem not_chosen_lineOf {t : Text} (h : blockStart chosen t.lineCount < t.lineCount)
    (hpos : 0 < t.lineOffset (blockStart chosen t.lineCount)) :
    chosen (t.lineOf (t.lineOffset (blockStart chosen t.lineCount) - 1)) = false := by
  cases hblock : blockStart chosen t.lineCount with
  | zero =>
    rw [hblock, lineOffset_zero] at hpos
    exact absurd hpos (Nat.lt_irrefl 0)
  | succ line =>
    rw [hblock] at h hpos
    have hlt := Nat.lt_of_succ_lt h
    have hne : t ≠ [] := by
      rintro rfl
      exact absurd h (Nat.not_lt.mpr (Nat.le_add_left 1 line))
    have hstep := lineOffset_lt_succ hne hlt
    have hline : t.lineOf (t.lineOffset (line + 1) - 1) = line :=
      (lineOf_eq_iff hlt).mpr ⟨by omega, fun _ ↦ by omega⟩
    rw [hline]
    exact not_chosen_of_blockStart hblock

end Block

end Text

namespace Revision

/-- Whether the line break before a span goes with it. -/
def takesBreakBefore (t : Text) (r : TextRange) : Bool :=
  r.stop == t.length && 0 < r.start && t.charAt (r.stop - 1) != some '\n'

/-- To take out lines takes the break before them along at the end of a text without a last line feed. -/
def erasingLines (t : Text) (r : TextRange) : Revision :=
  erasingBetween t (if takesBreakBefore t r then r.start - 1 else r.start) r.stop

section Lines

variable {v : Revision} {t : Text} {gone : Nat → Bool} {r : TextRange}

theorem next_erasingLines_of_not (h : takesBreakBefore v.text (v.carried r) = false) :
    v.next erasingLines r = v.next erasing r := by
  have hedit : erasingLines v.text (v.carried r) = erasing v.text (v.carried r) := by
    rw [erasingLines, h]
    rfl
  unfold next
  rw [hedit]

theorem Lacks.congr {other : Nat → Bool} (h : v.Lacks t gone)
    (heq : ∀ offset, offset < t.length → gone offset = other offset) : v.Lacks t other := by
  have hleave (offset : Nat) (ho : offset < t.length) :
      Text.leaveOut gone offset = Text.leaveOut other offset := by
    unfold Text.leaveOut
    rw [heq offset ho]
  constructor
  · rw [h.text, Text.without_eq_replaceEach, Text.without_eq_replaceEach]
    exact Text.replaceEachFrom_congr fun offset _ ho ↦ hleave offset (by omega)
  · exact fun offset ↦ (h.follow offset).trans (Text.placeAt_congr hleave offset)

section Kept

variable {a : Nat} (h : v.Lacks t gone) (hkept : ∀ offset, a ≤ offset → gone offset = false)

include h hkept

theorem Lacks.drop_eq : v.text.drop (t.placeAt (Text.leaveOut gone) a) = t.drop a := by
  rw [h.text, Text.without_eq_replaceEach, Text.drop_placeAt]
  refine Text.replaceEachFrom_eq_self fun offset c hle _ ↦ ?_
  rw [Text.leaveOut, hkept offset hle]
  rfl

/-- Lines before others that are left are taken out alone. -/
theorem Lacks.next_lines (ha : a < t.length) (hstop : r.stop ≤ a) :
    (v.next erasingLines r).Lacks t fun offset ↦ gone offset || r.contains offset := by
  have hcarried := (h.carried_eq r).2
  have hmono := t.placeAt_mono (Text.leaveOut gone) hstop
  have hlength := congrArg List.length (h.drop_eq hkept)
  rw [List.length_drop, List.length_drop] at hlength
  have hbreak : takesBreakBefore v.text (v.carried r) = false := by
    have hne : ((v.carried r).stop == v.text.length) = false := by
      rw [beq_eq_false_iff_ne]
      omega
    rw [takesBreakBefore, hne, Bool.false_and, Bool.false_and]
  rw [next_erasingLines_of_not hbreak]
  exact h.next r

end Kept

theorem Lacks.foldl_next_lines (h : v.Lacks t gone) {a : Nat} (ha : a < t.length)
    (hkept : ∀ offset, a ≤ offset → gone offset = false) {ranges : List TextRange}
    (hstop : ∀ r ∈ ranges, r.stop ≤ a) :
    (ranges.foldl (Revision.next erasingLines) v).Lacks t
      fun offset ↦ gone offset || ranges.any (·.contains offset) := by
  induction ranges generalizing v gone with
  | nil => simpa only [List.foldl_nil, List.any_nil, Bool.or_false] using h
  | cons r rest ih =>
    obtain ⟨hr, hrest⟩ := List.forall_mem_cons.mp hstop
    have hstill (offset : Nat) (ho : a ≤ offset) : (gone offset || r.contains offset) = false := by
      rw [hkept offset ho, TextRange.contains_eq_false_iff.mpr (.inr (Nat.le_trans hr ho))]
      rfl
    simpa only [List.foldl_cons, List.any_cons, Bool.or_assoc] using
      ih (h.next_lines hkept ha hr) hstill hrest

/-! ### The last line -/

theorem next_erasingLines_of_takes (h : v.Lacks t gone)
    (hbreak : takesBreakBefore v.text (v.carried r) = true) {z : Nat} (hz : z ≤ r.stop)
    (hplace : t.placeAt (Text.leaveOut gone) z + 1 = t.placeAt (Text.leaveOut gone) r.start) :
    (v.next erasingLines r).Lacks t fun offset ↦ gone offset || (z ≤ offset && offset < r.stop) := by
  obtain ⟨hstart, hstop⟩ := h.carried_eq r
  refine h.erasedBetween hz (fun _ ↦ rfl) ?_
  rw [erasingLines, if_pos hbreak, hstart, hstop, ← hplace, Nat.add_sub_cancel]

/-- An empty span at the end of a text takes the last character along as if it were a line break, unless
it is a line feed. -/
theorem erasingLines_at_end {t : Text} {r : TextRange} (hstart : r.start = t.length)
    (hstop : r.stop = t.length) : (erasingLines t r).text = t.chop 1 ∧
      (erasingLines t r).follow t.length = (t.chop 1).length := by
  rw [erasingLines, takesBreakBefore, hstart, hstop, beq_self_eq_true, Bool.true_and]
  rcases List.eq_nil_or_concat t with rfl | ⟨init, c, rfl⟩
  · exact ⟨rfl, rfl⟩
  · have hlast : Text.charAt (init ++ [c]) ((init ++ [c]).length - 1) = some c := by
      rw [Text.charAt, List.length_append, List.length_singleton, Nat.add_sub_cancel,
        List.getElem?_concat_length]
    have hpos : 0 < (init ++ [c]).length := by simp
    rw [List.concat_eq_append, hlast, decide_eq_true hpos, Bool.true_and]
    by_cases hc : c = '\n'
    · have hfeed : (init ++ [c]).getLast? = some '\n' := by rw [List.getLast?_concat, hc]
      rw [Text.chop_of_feed hfeed, if_neg (by simp [hc])]
      simp only [erasingBetween, Text.erase, MarkSet.offsetAfterErase, Nat.min_self, Nat.max_self,
        List.take_length, List.drop_length, List.append_nil, Nat.le_refl, if_true, Nat.sub_self,
        Nat.sub_zero, and_self]
    · rw [if_pos (by simp [hc]), Text.chop_succ_of_ne hc, Text.chop_zero]
      simp only [erasingBetween, Text.erase, MarkSet.offsetAfterErase, List.length_append,
        List.length_singleton, Nat.add_sub_cancel, Nat.min_eq_left (Nat.le_add_right _ _),
        Nat.max_eq_right (Nat.le_add_right _ _), List.take_left]
      have hdrop : (init ++ [c]).drop (init.length + 1) = [] := List.drop_of_length_le (by simp)
      rw [hdrop, List.append_nil]
      exact ⟨rfl, by split <;> omega⟩

theorem next_erasingLines_at_end (hstart : v.follow r.start = v.text.length)
    (hstop : v.follow r.stop = v.text.length) :
    (v.next erasingLines r).text = v.text.chop 1 ∧
      (v.next erasingLines r).follow r.start = (v.next erasingLines r).text.length ∧
      (v.next erasingLines r).follow r.stop = (v.next erasingLines r).text.length := by
  have hends : (v.carried r).start = v.text.length ∧ (v.carried r).stop = v.text.length := by
    simp only [carried, hstart, hstop, TextRange.between, Nat.min_self, Nat.max_self, and_self]
  obtain ⟨htext, hfollow⟩ := erasingLines_at_end hends.1 hends.2
  have hedit : (v.next erasingLines r).text = v.text.chop 1 := htext
  have hmoved {x : Nat} (hx : v.follow x = v.text.length) :
      (v.next erasingLines r).follow x = (v.next erasingLines r).text.length := by
    rw [hedit, ← hfollow, ← hx]
    rfl
  exact ⟨hedit, hmoved hstart, hmoved hstop⟩

theorem foldl_erasingLines_at_end (hstart : v.follow r.start = v.text.length)
    (hstop : v.follow r.stop = v.text.length) (n : Nat) :
    ((List.replicate n r).foldl (Revision.next erasingLines) v).text = v.text.chop n := by
  induction n generalizing v with
  | zero => exact v.text.chop_zero.symm
  | succ n ih =>
    obtain ⟨htext, hstart, hstop⟩ := next_erasingLines_at_end hstart hstop
    rw [List.replicate_succ, List.foldl_cons, ih hstart hstop, htext, ← Text.chop_succ]

theorem Lacks.carried_stop_eq (h : v.Lacks t gone) (hstop : r.stop = t.length) :
    (v.carried r).stop = v.text.length := by
  rw [(h.carried_eq r).2, hstop, h.text, Text.without_eq_replaceEach, Text.placeAt_length]

/-- A line that lasts to the end is taken out alone where it ends in a line feed or nothing comes before. -/
theorem Lacks.next_last_alone (h : v.Lacks t gone) (hstop : r.stop = t.length)
    (hbreak : takesBreakBefore v.text (v.carried r) = false) :
    (v.next erasingLines r).Lacks t fun offset ↦ gone offset || decide (r.start ≤ offset) := by
  rw [next_erasingLines_of_not hbreak]
  refine (h.next r).congr fun offset ho ↦ ?_
  rw [TextRange.contains, hstop, decide_eq_true ho, Bool.and_true]

/-- Where all has gone from an offset on, it is found at the end. -/
theorem Lacks.follow_eq_length (h : v.Lacks t gone) (offset : Nat)
    (hgone : ∀ x, offset ≤ x → x < t.length → gone x = true) : v.follow offset = v.text.length := by
  have hlength : v.text.length = t.placeAt (Text.leaveOut gone) t.length := by
    rw [h.text, Text.without_eq_replaceEach, Text.placeAt_length]
  rw [h.follow, hlength]
  rcases Nat.le_total offset t.length with hle | hle
  · rw [Text.placeAt_eq_add hle, replaceEachIn_leaveOut hgone]
    rfl
  · rw [← Text.placeAt_min_length, Nat.min_eq_right hle]

/-- What is left of a text ends as the text does if its last characters are left. -/
theorem Lacks.getLast?_eq (h : v.Lacks t gone) {a : Nat} (ha : a < t.length)
    (hkept : ∀ offset, a ≤ offset → gone offset = false) : v.text.getLast? = t.getLast? := by
  rw [← List.take_append_drop (t.placeAt (Text.leaveOut gone) a) v.text, h.drop_eq hkept,
    List.getLast?_append, List.getLast?_drop, if_neg (Nat.not_le.mpr ha)]
  cases hlast : t.getLast? with
  | none => exact absurd (List.getLast?_eq_none_iff.mp hlast) (List.ne_nil_of_length_pos (by omega))
  | some c => rfl

/-- Where all before a span has gone down to some offset, the span begins where that offset is. -/
theorem Lacks.carried_start_eq (h : v.Lacks t gone) {z : Nat} (hz : z ≤ r.start)
    (hgone : ∀ offset, z ≤ offset → offset < r.start → gone offset = true) :
    (v.carried r).start = t.placeAt (Text.leaveOut gone) z := by
  rw [(h.carried_eq r).1, Text.placeAt_eq_add hz, replaceEachIn_leaveOut hgone]
  rfl

theorem placeAt_sub_one {z : Nat} (hpos : 0 < z) (hz : z ≤ t.length) (hleft : gone (z - 1) = false) :
    t.placeAt (Text.leaveOut gone) (z - 1) + 1 = t.placeAt (Text.leaveOut gone) z := by
  have hself (c : Char) : Text.leaveOut gone (z - 1) c = [c] := by
    rw [Text.leaveOut, hleft]
    rfl
  rw [← Text.placeAt_succ (by omega) hself, Nat.sub_add_cancel hpos]

/-- Once the lines between have gone, the last line is taken out together with the line feed before the
first of them, where it does not end in one itself. -/
theorem Lacks.next_last_line (h : v.Lacks t gone) (hstop : r.stop = t.length)
    (hne : t ≠ [] → r.start < t.length) (hkept : ∀ offset, r.start ≤ offset → gone offset = false)
    {z : Nat} (hz : z ≤ r.start) (hgone : ∀ offset, z ≤ offset → offset < r.start → gone offset = true)
    (hfeed : 0 < z → gone (z - 1) = false) :
    (v.next erasingLines r).Lacks t fun offset ↦ gone offset || decide (r.start ≤ offset) ||
      (t.getLast? != some '\n' && decide (0 < z) && offset + 1 == z) := by
  have hstart := h.carried_start_eq hz hgone
  have hbreak : takesBreakBefore v.text (v.carried r) =
      (decide (0 < t.placeAt (Text.leaveOut gone) z) && v.text.getLast? != some '\n') := by
    rw [takesBreakBefore, h.carried_stop_eq hstop, hstart, beq_self_eq_true, Bool.true_and, Text.charAt,
      ← List.getLast?_eq_getElem?]
  rcases Nat.eq_zero_or_pos z with rfl | hpos
  · have hnone : t.placeAt (Text.leaveOut gone) 0 = 0 := rfl
    refine (h.next_last_alone hstop (by rw [hbreak, hnone]; rfl)).congr fun offset _ ↦ ?_
    rw [decide_eq_false (Nat.lt_irrefl 0), Bool.and_false, Bool.false_and, Bool.or_false]
  · have hr := r.start_le_stop
    have hlt : r.start < t.length := hne (List.ne_nil_of_length_pos (by omega))
    have hplace := placeAt_sub_one hpos (Nat.le_trans hz (Nat.le_of_lt hlt)) (hfeed hpos)
    rw [h.getLast?_eq hlt hkept, ← hplace, decide_eq_true (Nat.succ_pos _), Bool.true_and] at hbreak
    rw [decide_eq_true hpos, Bool.and_true]
    by_cases hend : t.getLast? = some '\n'
    · rw [hend, bne_self_eq_false] at hbreak ⊢
      simpa only [Bool.false_and, Bool.or_false] using h.next_last_alone hstop hbreak
    · rw [bne_iff_ne.mpr hend] at hbreak ⊢
      rw [(h.carried_eq r).1] at hstart
      refine (next_erasingLines_of_takes h hbreak (z := z - 1) (by omega)
        (by rw [hplace, hstart])).congr fun offset ho ↦ ?_
      cases hgoneAt : gone offset with
      | true => rfl
      | false =>
        have hbetween : ¬(z ≤ offset ∧ offset < r.start) := fun hin ↦ by
          rw [hgone offset hin.1 hin.2] at hgoneAt
          cases hgoneAt
        rw [Bool.false_or, Bool.false_or, Bool.true_and, Bool.eq_iff_iff]
        simp only [Bool.and_eq_true, Bool.or_eq_true, decide_eq_true_eq, beq_iff_eq]
        omega

end Lines

/-! ### All lines -/

section Run

variable {t : Text} {ls front : List Nat}

/-- Lines in order are those before the last, and the last as often as it occurs. -/
theorem exists_front {last : Nat} (hsorted : ls.Pairwise (· ≤ ·)) (hle : ∀ line ∈ ls, line ≤ last) :
    ∃ front : List Nat, (∀ line ∈ front, line < last) ∧
      ls = front ++ List.replicate (ls.count last) last := by
  induction ls with
  | nil => exact ⟨[], fun _ h ↦ absurd h List.not_mem_nil, rfl⟩
  | cons line rest ih =>
    obtain ⟨hline, hrest⟩ := List.pairwise_cons.mp hsorted
    obtain ⟨hbefore, hothers⟩ := List.forall_mem_cons.mp hle
    rcases Nat.lt_or_eq_of_le hbefore with hlt | rfl
    · obtain ⟨front, hfront, heq⟩ := ih hrest hothers
      refine ⟨line :: front, List.forall_mem_cons.mpr ⟨hlt, hfront⟩, ?_⟩
      rw [List.count_cons_of_ne (Nat.ne_of_lt hlt), List.cons_append, ← heq]
    · refine ⟨[], fun _ h ↦ absurd h List.not_mem_nil, ?_⟩
      have hall (other : Nat) (h : other ∈ line :: rest) : other = line := by
        rcases List.mem_cons.mp h with rfl | h
        · rfl
        · exact Nat.le_antisymm (hothers other h) (hline other h)
      rw [List.nil_append, List.count_eq_length.mpr fun other h ↦ (hall other h).symm]
      exact List.eq_replicate_iff.mpr ⟨rfl, hall⟩

theorem any_lineRange_contains (hlt : ∀ line ∈ front, line < t.lineCount) {offset : Nat}
    (ho : offset < t.length) :
    ((front.map t.lineRange).any (·.contains offset)) = front.contains (t.lineOf offset) := by
  rw [List.any_map, Bool.eq_iff_iff, List.any_eq_true, List.contains_iff_mem]
  constructor
  · rintro ⟨line, hline, hin⟩
    rwa [(Text.lineRange_contains_iff (hlt line hline) ho).mp hin]
  · exact fun hline ↦ ⟨_, hline, (Text.lineRange_contains_iff (hlt _ hline) ho).mpr rfl⟩

/-- The lines before the last have been taken out. -/
theorem foldl_front (hfront : ∀ line ∈ front, line < t.lastLine) :
    ((front.map t.lineRange).foldl (Revision.next erasingLines) (start t)).Lacks t
      fun offset ↦ front.contains (t.lineOf offset) := by
  cases front with
  | nil => exact (start_lacks t).congr fun _ _ ↦ rfl
  | cons line rest =>
    have hne : t ≠ [] := by
      rintro rfl
      exact absurd (hfront line List.mem_cons_self) (Nat.not_lt_zero line)
    have hstop : ∀ r ∈ (line :: rest).map t.lineRange, r.stop ≤ t.lineOffset t.lastLine :=
      List.forall_mem_map.mpr fun other hother ↦ by
        rw [(t.lineRange_ends other).2]
        exact t.lineOffset_mono (hfront other hother)
    have hrun := (start_lacks t).foldl_next_lines (Text.lineOffset_lastLine_lt hne) (fun _ _ ↦ rfl) hstop
    refine hrun.congr fun offset ho ↦ ?_
    rw [Bool.false_or, any_lineRange_contains (fun other hother ↦
      Nat.lt_of_lt_of_le (hfront other hother) (Nat.sub_le _ _)) ho]

section Last

variable (hfront : ∀ line ∈ front, line < t.lastLine)
  (hls : ∀ line, ls.contains line = (front.contains line || line == t.lastLine))

include hls

theorem contains_lastLine : ls.contains t.lastLine = true := by
  rw [hls, beq_self_eq_true, Bool.or_true]

theorem blockStart_le_lastLine : Text.blockStart ls.contains t.lineCount ≤ t.lastLine := by
  rw [← t.lastLine_add_one]
  exact Text.blockStart_le_of_chosen (contains_lastLine hls)

theorem blockStart_lt_lineCount : Text.blockStart ls.contains t.lineCount < t.lineCount := by
  have hle := blockStart_le_lastLine hls
  have hlast := t.lastLine_add_one
  omega

/-- The lines of the block before the last are in front. -/
theorem contains_lineOf_of_block {offset : Nat}
    (hle : t.lineOffset (Text.blockStart ls.contains t.lineCount) ≤ offset)
    (hlt : offset < t.lineOffset t.lastLine) : front.contains (t.lineOf offset) = true := by
  have hne : (t.lineOf offset == t.lastLine) = false := by
    rw [beq_eq_false_iff_ne, ne_eq, Text.lineOf_eq_lastLine_iff]
    exact Nat.not_le_of_lt hlt
  have hin := Text.chosen_lineOf (blockStart_lt_lineCount hls) hle
  rwa [hls, hne, Bool.or_false] at hin

/-- The line before the block is not in front. -/
theorem not_contains_lineOf_before_block
    (hpos : 0 < t.lineOffset (Text.blockStart ls.contains t.lineCount)) :
    front.contains (t.lineOf (t.lineOffset (Text.blockStart ls.contains t.lineCount) - 1)) = false := by
  have hout := Text.not_chosen_lineOf (blockStart_lt_lineCount hls) hpos
  rw [hls, Bool.or_eq_false_iff] at hout
  exact hout.1

include hfront

/-- The last line is taken out after the lines before it. -/
theorem Lacks.next_last {v : Revision} (h : v.Lacks t fun offset ↦ front.contains (t.lineOf offset)) :
    (v.next erasingLines (t.lineRange t.lastLine)).Lacks t fun offset ↦ ls.contains (t.lineOf offset) ||
      (ls.contains t.lastLine && t.getLast? != some '\n' &&
        0 < Text.blockStart ls.contains t.lineCount &&
        offset + 1 == t.lineStart (Text.blockStart ls.contains t.lineCount)) := by
  have hstart := (t.lineRange_ends t.lastLine).1
  have hkept (offset : Nat) (ho : (t.lineRange t.lastLine).start ≤ offset) :
      front.contains (t.lineOf offset) = false := by
    rw [hstart] at ho
    rw [Text.lineOf_eq_lastLine_iff.mpr ho, ← Bool.not_eq_true, List.contains_iff_mem]
    exact fun hmem ↦ Nat.lt_irrefl _ (hfront _ hmem)
  have hlacks := h.next_last_line t.lineRange_lastLine_stop
    (fun hne ↦ hstart ▸ Text.lineOffset_lastLine_lt hne) hkept
    (hstart ▸ t.lineOffset_mono (blockStart_le_lastLine hls))
    (fun offset hle hlt ↦ contains_lineOf_of_block hls hle (hstart ▸ hlt))
    (not_contains_lineOf_before_block hls)
  refine hlacks.congr fun offset ho ↦ ?_
  have hlast : decide ((t.lineRange t.lastLine).start ≤ offset) = (t.lineOf offset == t.lastLine) := by
    rw [hstart, Bool.eq_iff_iff, decide_eq_true_eq, beq_iff_eq, Text.lineOf_eq_lastLine_iff]
  have hpos := Text.lineOffset_pos_iff (List.ne_nil_of_length_pos (Nat.zero_lt_of_lt ho))
    (blockStart_lt_lineCount hls)
  rw [hlast, ← hls, contains_lastLine hls, Bool.true_and,
    Text.lineStart_eq_lineOffset (blockStart_lt_lineCount hls), decide_eq_decide.mpr hpos]

end Last

/-- Lines taken out one after the other, in order. Each time that the last line comes up again, a character
more is missing at the end, where no line feed stands there. -/
theorem foldl_lineRanges (hsorted : ls.Pairwise (· ≤ ·)) (hlt : ∀ line ∈ ls, line < t.lineCount) :
    ((ls.map t.lineRange).foldl (Revision.next erasingLines) (start t)).text =
      (t.withoutLines ls).chop (ls.count t.lastLine - 1) := by
  have hle (line : Nat) (hline : line ∈ ls) : line ≤ t.lastLine := Nat.le_sub_one_of_lt (hlt line hline)
  obtain ⟨front, hfront, heq⟩ := exists_front hsorted hle
  have hrun := foldl_front hfront
  cases hn : ls.count t.lastLine with
  | zero =>
    have hnone : ls.contains t.lastLine = false := by
      rw [← Bool.not_eq_true, List.contains_iff_mem]
      exact List.count_eq_zero.mp hn
    rw [hn, List.replicate_zero, List.append_nil] at heq
    subst heq
    rw [Nat.zero_sub, Text.chop_zero, Text.withoutLines, hnone, hrun.text]
    simp only [Bool.false_and, Bool.or_false]
  | succ n =>
    rw [hn] at heq
    have hls (line : Nat) : ls.contains line = (front.contains line || line == t.lastLine) := by
      rw [heq, Bool.eq_iff_iff]
      simp only [List.contains_iff_mem, List.mem_append, List.mem_replicate, Bool.or_eq_true, beq_iff_eq,
        Nat.succ_ne_zero, ne_eq, not_false_eq_true, true_and]
    have hlacks := hrun.next_last hfront hls
    have hend (offset : Nat) (ho : t.lineOffset t.lastLine ≤ offset) :=
      hlacks.follow_eq_length offset fun x hx _ ↦ by
        rw [Text.lineOf_eq_lastLine_iff.mpr (Nat.le_trans ho hx), contains_lastLine hls, Bool.true_or]
    have hstart := Nat.le_of_eq (t.lineRange_ends t.lastLine).1.symm
    have hstop := Nat.le_trans hstart (t.lineRange t.lastLine).start_le_stop
    rw [heq, List.map_append, List.foldl_append, List.map_replicate, List.replicate_succ, List.foldl_cons,
      foldl_erasingLines_at_end (hend _ hstart) (hend _ hstop), hlacks.text, Nat.add_sub_cancel, ← heq]
    rfl

end Run

end Revision

end ModalEdit
