import ModalEdit.Proofs.LineGeometry

/-!
A text with a line feed before it and one behind it (`Text.framed`). The line feed before is a line of its
own, and the one behind ends the last line or begins a further one (`Text.Continues`). So every offset of
the text is one line further down (`Text.lineOf_framed`), and its line begins and ends one offset further
on (`Text.lineStart_framed`, `Text.lineEnd_framed`).
-/

set_option autoImplicit false
set_option relaxedAutoImplicit false

namespace ModalEdit.Text

/-- The text with a line feed before it and one behind it. -/
def framed (t : Text) : Text := '\n' :: (t ++ ['\n'])

theorem length_framed (t : Text) : t.framed.length = t.length + 2 := by
  rw [framed, List.length_cons, List.length_append, List.length_singleton]

/-- What the lines of a text become with a line feed behind it. -/
inductive Continues : List Text → List Text → Prop
  | further : Continues [] [['\n']]
  | ended {last : Text} (h : last.getLast? ≠ some '\n') : Continues [last] [last ++ ['\n']]
  | line (l : Text) {ls ls' : List Text} (h : Continues ls ls') : Continues (l :: ls) (l :: ls')

section Lines

variable {t : Text} {ls ls' : List Text} {l : Text} {c : Char} {line offset n : Nat}

theorem splitLines_of_break (hc : isLineBreak c = true) (hfeed : c = '\r' → t.head? ≠ some '\n') :
    splitLines (c :: t) = [c] :: splitLines t := by
  rw [splitLines, if_pos hc]
  rintro rest rfl rfl
  exact hfeed rfl rfl

theorem splitLines_of_not_break (hc : isLineBreak c = false) (hcons : splitLines t = l :: ls) :
    splitLines (c :: t) = (c :: l) :: ls := by
  rw [splitLines, if_neg (Bool.eq_false_iff.mp hc), hcons]
  rintro rest rfl
  exact absurd hc (by decide)

theorem continues_splitLines (t : Text) : Continues t.splitLines (splitLines (t ++ ['\n'])) := by
  fun_induction splitLines t with
  | case1 => exact .further
  | case2 rest ih => exact .line _ ih
  | case3 c rest hfeed hc ih =>
    by_cases hend : c = '\r' ∧ rest = []
    · -- the carriage return and the line feed are one break
      obtain ⟨rfl, rfl⟩ := hend
      exact .ended (by decide)
    · rw [List.cons_append, splitLines_of_break hc]
      · exact .line _ ih
      · intro hreturn hhead
        cases rest with
        | nil => exact hend ⟨hreturn, rfl⟩
        | cons d rest => exact hfeed rest hreturn (by rw [Option.some.inj hhead])
  | case4 c rest _ hc hnil ih =>
    obtain rfl : rest = [] := by rw [← splitLines_flatten rest, hnil, List.flatten_nil]
    have hne : c ≠ '\n' := fun heq ↦ hc (heq ▸ by decide)
    rw [List.cons_append, List.nil_append, splitLines_of_not_break (Bool.eq_false_iff.mpr hc) rfl]
    exact .ended fun h ↦ hne (Option.some.inj h)
  | case5 c rest _ hc line others hcons ih =>
    have hline : line ≠ [] := ne_nil_of_mem_splitLines (t := rest) (hcons ▸ List.mem_cons_self)
    rw [hcons] at ih
    generalize hlines : splitLines (rest ++ ['\n']) = lines at ih
    rw [List.cons_append]
    cases ih with
    | ended h =>
      rw [splitLines_of_not_break (Bool.eq_false_iff.mpr hc) hlines]
      exact .ended (by rwa [List.getLast?_cons_of_ne_nil hline])
    | line l h =>
      rw [splitLines_of_not_break (Bool.eq_false_iff.mpr hc) hlines]
      exact .line _ h

theorem contentLength_append_feed (h : l.getLast? ≠ some '\n') :
    contentLength (l ++ ['\n']) = contentLength l := by
  rw [contentLength, if_pos List.getLast?_concat, contentLength, if_neg h, List.length_append]
  rfl

/-- The lines that there are begin where they did and have the same content. -/
theorem Continues.same (h : Continues ls ls') (hn : n < ls.length) : ls'.take n = ls.take n ∧
    ∃ (hn' : n < ls'.length), contentLength ls'[n] = contentLength ls[n] := by
  induction h generalizing n with
  | further => exact absurd hn (Nat.not_lt_zero n)
  | ended h =>
    obtain rfl : n = 0 := Nat.lt_one_iff.mp hn
    exact ⟨rfl, Nat.one_pos, contentLength_append_feed h⟩
  | line l _ ih =>
    cases n with
    | zero => exact ⟨rfl, Nat.succ_pos _, rfl⟩
    | succ n =>
      obtain ⟨htake, hn', hcontent⟩ := ih (Nat.lt_of_succ_lt_succ hn)
      exact ⟨congrArg (l :: ·) htake, Nat.succ_lt_succ hn', hcontent⟩

theorem Continues.ne_nil (h : Continues ls ls') : ls' ≠ [] := by
  cases h <;> exact List.cons_ne_nil _ _

theorem lineAmong_cons (hne : ls ≠ []) (offset : Nat) : lineAmong (l :: ls) offset =
    if offset < l.length then 0 else lineAmong ls (offset - l.length) + 1 := by
  cases ls with
  | nil => exact absurd rfl hne
  | cons => rfl

/-- An offset in the lines that there are is on the line that it was on. -/
theorem Continues.lineAmong (h : Continues ls ls') (hlt : offset < ls.flatten.length) :
    Text.lineAmong ls' offset = Text.lineAmong ls offset := by
  induction h generalizing offset with
  | further => exact absurd hlt (Nat.not_lt_zero offset)
  | ended => rfl
  | @line l ls ls' h ih =>
    rw [List.flatten_cons, List.length_append] at hlt
    rw [lineAmong_cons h.ne_nil]
    by_cases hnil : ls = []
    · subst hnil
      rw [if_pos (by simpa using hlt)]
      rfl
    · rw [lineAmong_cons hnil]
      split
      · rfl
      · rw [ih (by omega)]

theorem lines_framed (t : Text) : t.framed.lines = ['\n'] :: splitLines (t ++ ['\n']) := by
  rw [framed, lines_eq_splitLines (List.cons_ne_nil _ _), splitLines_of_break (by decide)]
  exact fun h ↦ absurd h (by decide)

theorem lineOf_framed (h : offset < t.length) : t.framed.lineOf (offset + 1) = t.lineOf offset + 1 := by
  have hcontinues := continues_splitLines t
  have hflat : t.splitLines.flatten.length = t.length := by rw [splitLines_flatten]
  rw [lineOf, lines_framed, lineAmong_cons hcontinues.ne_nil, if_neg (by simp), List.length_singleton,
    Nat.add_sub_cancel, hcontinues.lineAmong (by omega), lineOf,
    lines_eq_splitLines (List.ne_nil_of_length_pos (Nat.zero_lt_of_lt h))]

variable (hne : t ≠ []) (h : line < t.lineCount)
include hne h

theorem lineAt_framed : line + 1 < t.framed.lineCount ∧
    t.framed.lineOffset (line + 1) = t.lineOffset line + 1 ∧
    contentLength (t.framed.lineAt (line + 1)) = contentLength (t.lineAt line) := by
  have hlines := lines_eq_splitLines hne
  have hlt : line < t.splitLines.length := hlines ▸ h
  obtain ⟨htake, hlt', hcontent⟩ := (continues_splitLines t).same hlt
  have hcount : line + 1 < t.framed.lineCount := by
    rw [lineCount, lines_framed]
    exact Nat.succ_lt_succ hlt'
  refine ⟨hcount, ?_, ?_⟩
  · rw [lineOffset, lines_framed, List.take_succ_cons, htake, List.flatten_cons, List.length_append,
      lineOffset, hlines, Nat.add_comm]
    rfl
  · have hline := getElem?_lines h
    have hframed := getElem?_lines hcount
    rw [hlines, List.getElem?_eq_getElem hlt] at hline
    rw [lines_framed, List.getElem?_cons_succ, List.getElem?_eq_getElem hlt'] at hframed
    rwa [Option.some.inj hline, Option.some.inj hframed] at hcontent

theorem lineStart_framed : t.framed.lineStart (line + 1) = t.lineStart line + 1 := by
  obtain ⟨hcount, hoffset, -⟩ := lineAt_framed hne h
  rw [lineStart_eq_lineOffset hcount, hoffset, lineStart_eq_lineOffset h]

theorem lineEnd_framed : t.framed.lineEnd (line + 1) = t.lineEnd line + 1 := by
  obtain ⟨-, -, hcontent⟩ := lineAt_framed hne h
  rw [lineEnd, lineStart_framed hne h, hcontent, lineEnd]
  omega

end Lines

end ModalEdit.Text
