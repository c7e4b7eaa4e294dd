import Mathlib.Data.List.Sort
import ModalEdit.Proofs.LineEnds

/-!
Searches for a character on a line. The scan for a character ends at the occurrence that a count asks for
(`Text.indexOfNth?_eq`), and what is looked through from its end shows the same occurrences in descending
order (`Text.map_idxsOf_reverse`). So a search forward goes through the occurrences between an offset and
the end of its line, and one backward through those between the start of the line and the offset, the
nearest first (`Text.character_searches_count_occurrences`); neither leaves the line
(`Text.lineOf_of_findChar?`).
-/

set_option autoImplicit false
set_option relaxedAutoImplicit false

namespace ModalEdit.Text

/-- Where a character stands from an offset on and before another one, in ascending order. -/
def occurrences (t : Text) (target : Char) (start stop : Nat) : List Nat :=
  (t.idxsOf target).filter fun place ↦ start ≤ place ∧ place < stop

variable {t : Text} {target : Char} {start stop offset place count : Nat} {direction : Direction}
  {till : Bool}

theorem mem_occurrences : place ∈ t.occurrences target start stop ↔
    t.charAt place = some target ∧ start ≤ place ∧ place < stop := by
  rw [occurrences, List.mem_filter, List.mem_idxsOf_iff_exists_getElem_pos, decide_eq_true_eq, charAt,
    List.getElem?_eq_some_iff]
  simp only [beq_iff_eq]

theorem occurrences_sorted (t : Text) (target : Char) (start stop : Nat) :
    (t.occurrences target start stop).Pairwise (· < ·) := List.pairwise_idxsOf.filter _

/-- The occurrences on a span are those in what it holds, told as offsets of the whole text. -/
theorem occurrences_eq (t : Text) (target : Char) (start stop : Nat) :
    t.occurrences target start stop = ((t.take stop).drop start).idxsOf target start := by
  refine (t.occurrences_sorted target start stop).eq_of_mem_iff List.pairwise_idxsOf fun place ↦ ?_
  rw [mem_occurrences, List.mem_idxsOf_iff_getElem_sub_pos, charAt]
  grind

/-! ### The scan -/

/-- The scan ends at the occurrence that the count asks for. -/
theorem indexOfNth?_eq (target : Char) (count : Nat) (ahead : List Char) :
    indexOfNth? target count ahead = (ahead.idxsOf target)[count - 1]? := by
  have hshift (rest : List Char) : rest.idxsOf target 1 = (rest.idxsOf target).map (· + 1) :=
    List.idxsOf_start
  fun_induction indexOfNth? target count ahead with
  | case1 => rfl
  | case2 count rest hle =>
    rw [List.idxsOf_cons, if_pos (beq_self_eq_true _), Nat.sub_eq_zero_of_le hle]
    rfl
  | case3 count rest hlt ih =>
    obtain ⟨n, rfl⟩ : ∃ n, count = n + 2 := ⟨count - 2, by omega⟩
    rw [ih, List.idxsOf_cons, if_pos (beq_self_eq_true _), hshift]
    exact List.getElem?_map.symm
  | case4 count c rest hne ih =>
    rw [ih, List.idxsOf_cons, if_neg (by simpa using hne), hshift, List.getElem?_map]

/-- From its end a list shows the same occurrences, in descending order. -/
theorem map_idxsOf_reverse (target : Char) (behind : List Char) (start : Nat) :
    (behind.reverse.idxsOf target).map (start + behind.length - 1 - ·) =
      (behind.idxsOf target start).reverse := by
  induction behind generalizing start with
  | nil => rfl
  | cons c behind ih =>
    have hend : start + (behind.length + 1) - 1 = start + 1 + behind.length - 1 := by omega
    rw [List.reverse_cons, List.idxsOf_append, List.map_append, List.length_cons, hend, ih,
      List.length_reverse, List.idxsOf_cons, List.idxsOf_cons, List.idxsOf_nil]
    split
    · have hfirst : start + 1 + behind.length - 1 - (0 + behind.length) = start := by omega
      rw [List.map_singleton, hfirst, List.reverse_cons]
    · rw [List.map_nil, List.append_nil]

/-! ### The two searches -/

/-- Forward a search goes through the occurrences behind the offset and before the end of its line. -/
theorem findChar?_forward (t : Text) (offset : Nat) (target : Char) (count : Nat) (till : Bool) :
    t.findChar? offset target count .forward till =
      (t.occurrences target (offset + 1) (t.lineEnd (t.lineOf offset)))[count - 1]?.map
        fun place ↦ if till then place - 1 else place := by
  rw [occurrences_eq, List.idxsOf_start, List.getElem?_map, ← indexOfNth?_eq, Option.map_map, findChar?]
  refine congrArg (Option.map · _) (funext fun index ↦ ?_)
  rw [Function.comp_apply]
  split <;> omega

/-- Backward a search goes through the occurrences on its line before the offset, the nearest first. -/
theorem findChar?_backward (t : Text) (offset : Nat) (target : Char) (count : Nat) (till : Bool) :
    t.findChar? offset target count .backward till =
      (t.occurrences target (t.lineStart (t.lineOf offset)) offset).reverse[count - 1]?.map
        fun place ↦ if till then place + 1 else place := by
  have hlength : t.lineStart (t.lineOf offset) +
      ((t.take offset).drop (t.lineStart (t.lineOf offset))).length = min offset t.length := by
    have hstart := t.lineStart_lineOf_le offset
    have hend := t.lineStart_le_lineEnd (t.lineOf offset)
    have hlength := lineEnd_le_length (t.lineOf_lt offset)
    rw [List.length_drop, List.length_take]
    omega
  rw [occurrences_eq, ← map_idxsOf_reverse, List.getElem?_map, ← indexOfNth?_eq, Option.map_map, hlength,
    findChar?]
  refine Option.map_congr fun index hindex ↦ ?_
  rw [indexOfNth?_eq] at hindex
  have hlt := List.lt_add_of_mem_idxsOf index (List.mem_of_getElem? hindex)
  rw [List.length_reverse] at hlt
  rw [Function.comp_apply]
  split
  · omega
  · rfl

/-- No search leaves its line. -/
theorem lineOf_of_findChar? (h : t.findChar? offset target count direction till = some place) :
    t.lineOf place = t.lineOf offset := by
  cases direction with
  | forward =>
    rw [findChar?_forward] at h
    obtain ⟨found, hfound, rfl⟩ := Option.map_eq_some_iff.mp h
    obtain ⟨-, hbehind, hend⟩ := mem_occurrences.mp (List.mem_of_getElem? hfound)
    apply lineOf_eq_of_lt_lineEnd <;> split <;> omega
  | backward =>
    rw [findChar?_backward] at h
    obtain ⟨found, hfound, rfl⟩ := Option.map_eq_some_iff.mp h
    obtain ⟨-, hstart, hbefore⟩ := mem_occurrences.mp (List.mem_reverse.mp (List.mem_of_getElem? hfound))
    apply lineOf_eq_of_le <;> split <;> omega

/-- A search for a character counts its occurrences on the line of an offset. Forward it goes to the one
that the count asks for of those behind the offset and before the end of the line, in ascending order;
backward of those from the start of the line on and before the offset, in descending order. With `till`
it stops one short of it. Where there are fewer than the count, nothing is found. A count of zero is taken
for one. -/
theorem character_searches_count_occurrences (t : Text) (offset : Nat) (target : Char) (count : Nat)
    (till : Bool) :
    let line := t.lineOf offset
    let ahead := t.occurrences target (offset + 1) (t.lineEnd line)
    let behind := t.occurrences target (t.lineStart line) offset
    t.findChar? offset target count .forward till =
        ahead[count - 1]?.map (fun place ↦ if till then place - 1 else place) ∧
      t.findChar? offset target count .backward till =
        behind.reverse[count - 1]?.map fun place ↦ if till then place + 1 else place :=
  ⟨t.findChar?_forward offset target count till, t.findChar?_backward offset target count till⟩

/-- From a line feed back to the second point before it, and to just behind that one; from the second
point on there is but one more on the line. -/
example : let t : Text := "a.b.c.\nd.".toList
    (t.findChar? 6 '.' 2 .backward false, t.findChar? 6 '.' 2 .backward true,
      t.findChar? 3 '.' 1 .forward true, t.findChar? 3 '.' 2 .forward true) =
    (some 3, some 4, some 4, none) := by decide

end ModalEdit.Text
