import ModalEdit.Proofs.MotionSpans

/-!
What an operator covers up to the end of the line, whatever breaks the lines. The content of a line ends
before the line feed that ends it, also before that of a carriage return and a line feed, but behind any
other break: there the next line begins (`Text.lineEnd_of_not_feed`). The motion takes in the character
that it goes to unless it is a line feed, so the span stays on its line exactly if the line ends in a line
feed, is the last one or comes before a line that begins with a line feed; else it has the first character
of the next line too (`Operator.line_end_span_stays_iff`).
-/

set_option autoImplicit false
set_option relaxedAutoImplicit false

namespace ModalEdit

namespace Text

variable {t : Text} {line offset : Nat} {c : Char}

theorem charAt_lineOffset (hne : t ≠ []) (h : line < t.lineCount) :
    t.charAt (t.lineOffset line) = (t.lineAt line).head? := by
  rw [List.head?_eq_getElem?]
  exact charAt_lineOffset_add h (length_lineAt_pos hne h)

/-- A line feed that ends a line comes right behind its content. -/
theorem charAt_lineEnd (h : line < t.lineCount) (hfeed : (t.lineAt line).getLast? = some '\n') :
    t.charAt (t.lineEnd line) = some '\n' := by
  have hcontent := contentLength_of_feed hfeed
  rw [lineEnd_eq h, charAt_lineOffset_add h (by omega), ← hfeed, List.getLast?_eq_getElem?, ← hcontent]
  rfl

/-- Any other break is content. -/
theorem lineEnd_of_not_feed (h : line < t.lineCount) (hother : (t.lineAt line).getLast? ≠ some '\n') :
    t.lineEnd line = t.lineOffset (line + 1) := by
  rw [lineEnd_eq h, contentLength, if_neg hother, lineOffset_succ h]

/-- A line ends in a line feed, is the last one or comes before a line that begins with a line feed. -/
def EndsApart (t : Text) (line : Nat) : Prop :=
  (t.lineAt line).getLast? = some '\n' ∨ line = t.lastLine ∨ (t.lineAt (line + 1)).head? = some '\n'

/-- No character other than a line feed comes right behind the content of such a line. -/
theorem endsApart_iff (h : line < t.lineCount) :
    t.EndsApart line ↔ ¬∃ c ≠ '\n', t.charAt (t.lineEnd line) = some c := by
  unfold EndsApart
  by_cases hfeed : (t.lineAt line).getLast? = some '\n'
  · rw [charAt_lineEnd h hfeed]
    exact iff_of_true (.inl hfeed) fun ⟨c, hne, hc⟩ ↦ hne (Option.some.inj hc).symm
  · rw [or_iff_right hfeed, lineEnd_of_not_feed h hfeed]
    by_cases hlast : line = t.lastLine
    · have hnone : t.charAt (t.lineOffset (line + 1)) = none := by
        rw [hlast, lastLine_add_one, lineOffset_lineCount]
        exact List.getElem?_eq_none (Nat.le_refl _)
      rw [hnone]
      exact iff_of_true (.inl hlast) fun ⟨c, _, hc⟩ ↦ Option.some_ne_none c hc.symm
    · have hnext : line + 1 < t.lineCount := by
        have hcount := t.lastLine_add_one
        omega
      have hne : t ≠ [] := ne_nil_of_lineCount (Nat.succ_pos line) hnext
      obtain ⟨c, hc⟩ : ∃ c, (t.lineAt (line + 1)).head? = some c :=
        ⟨_, List.head?_eq_some_head (List.ne_nil_of_length_pos (length_lineAt_pos hne hnext))⟩
      rw [or_iff_right hlast, charAt_lineOffset hne hnext, hc]
      simp only [Option.some.injEq, exists_eq_right', not_not]

/-- What comes right behind the content of a line is not on the line unless it is a line feed. -/
theorem lineOf_lineEnd_ne (hne : c ≠ '\n') (hc : t.charAt (t.lineEnd line) = some c) :
    t.lineOf (t.lineEnd line) ≠ line := by
  intro hsame
  have hlt : t.lineEnd line < t.lineEnd (t.lineOf (t.lineEnd line)) := lt_lineEnd_iff.mpr ⟨c, hc, hne⟩
  rw [hsame] at hlt
  exact Nat.lt_irrefl _ hlt

/-- Only at the end of a text is an offset past the content of its line. -/
theorem le_lineEnd_or (ho : offset ≤ t.length) :
    offset ≤ t.lineEnd (t.lineOf offset) ∨ offset = t.length := by
  rcases Nat.lt_or_eq_of_le ho with hlt | hend
  · have hstays := normalize_end_of_lt hlt
    rw [normalize_eq_min, lastCaretOffset, if_pos rfl] at hstays
    omega
  · exact .inr hend

/-- What lies between an offset and the end of its line, in either order, is on the line. -/
theorem lineOf_eq_of_between {place : Nat} (hle : min offset (t.lineEnd (t.lineOf offset)) ≤ place)
    (hlt : place < max offset (t.lineEnd (t.lineOf offset))) : t.lineOf place = t.lineOf offset := by
  rcases Nat.lt_or_ge place (t.lineEnd (t.lineOf offset)) with hshort | hbehind
  · exact lineOf_eq_of_lt_lineEnd (by omega) hshort
  · exact lineOf_eq_of_le (Nat.le_trans (t.lineStart_le_lineEnd _) hbehind) (by omega)

/-- A line whose content an offset on it is past ends in the line feed that ends the text. -/
theorem le_lineEnd_of_not_endsApart (h : ¬t.EndsApart (t.lineOf offset)) :
    offset ≤ t.lineEnd (t.lineOf offset) := by
  rw [endsApart_iff (t.lineOf_lt offset), not_not] at h
  obtain ⟨c, hne, hc⟩ := h
  refine Nat.le_of_not_lt fun hbehind ↦ lineOf_lineEnd_ne hne hc ?_
  exact lineOf_eq_of_le (t.lineStart_le_lineEnd _) (Nat.le_of_lt hbehind)

theorem lineEnd_of_not_endsApart (h : line < t.lineCount) (hapart : ¬t.EndsApart line) :
    t.lineEnd line = t.lineStart (line + 1) := by
  obtain ⟨hfeed, hrest⟩ := not_or.mp hapart
  have hcount := t.lastLine_add_one
  rw [lineEnd_of_not_feed h hfeed, lineStart_eq_lineOffset]
  have hlast := (not_or.mp hrest).1
  omega

end Text

theorem Registry.standard_get?_lineEnd : standard.get? ActionId.lineEnd =
    some (Builtin.motion ActionId.lineEnd Motion.lineEnd { Builtin.inclusive with stickyEol := true }) :=
  standard_get?_of_mem
    (a := Builtin.motion ActionId.lineEnd Motion.lineEnd { Builtin.inclusive with stickyEol := true })
    (by simp [Builtin.actions, Builtin.motions])

namespace Operator

variable {ctx : MotionContext} {a : ActionSpec}

/-- While an operator waits, the motion to the end of the line goes behind its content and takes in the
character there. -/
theorem range?_lineEnd (hctx : ctx.Completes (Builtin.motion ActionId.lineEnd Motion.lineEnd
      { Builtin.inclusive with stickyEol := true })) (hcount : ctx.count = 1) (operator : ActionId) :
    range? ctx operator (.motion Motion.lineEnd) =
      some (.between (min ctx.offset (ctx.text.lineEnd ctx.line))
        (Span.inclusiveEnd ctx.text (max ctx.offset (ctx.text.lineEnd ctx.line))) .characterwise) := by
  have hline : min (ctx.text.lineOf ctx.offset + (ctx.count - 1)) ctx.text.lastLine = ctx.line := by
    have hlt := ctx.text.lineOf_lt ctx.offset
    have hlast := ctx.text.lastLine_add_one
    rw [hcount, MotionContext.line]
    omega
  have hmotion : Motion.lineEnd ctx = some (ctx.text.lineEnd ctx.line) := by
    rw [Motion.lineEnd, Text.endOfLine, hline, MotionContext.allowEnd, hctx.pending, Bool.true_or,
      Text.lastCaretOffset, if_pos rfl]
  have hword : ¬(wordMotion? ctx.command.action).isSome = true := by
    rw [hctx.action]
    decide
  rw [range?_eq_rangeOfMotion hmotion fun h ↦ hword h.2.1, rangeOfMotion, hctx.flags]
  rfl

/-- An operator over the motion to the end of the line covers characters from the offset on, or from the
end of the line if the offset is behind it. They are all on the line exactly if it ends in a line feed, is
the last one or comes before a line that begins with a line feed, and then they are those up to the end;
else the first character of the next line is covered too. -/
theorem line_end_span_stays_iff (operator : ActionId)
    (hregistered : Registry.standard.get? ActionId.lineEnd = some a) (hctx : ctx.Completes a)
    (hcount : ctx.count = 1) (ho : ctx.offset ≤ ctx.text.length) :
    ∃ r, range? ctx operator a.handler = some r ∧ r.kind = .characterwise ∧
      r.start = min ctx.offset (ctx.text.lineEnd ctx.line) ∧ r.stop ≤ ctx.text.length ∧
      ((∀ place, r.contains place = true → ctx.text.lineOf place = ctx.line) ↔
        ctx.text.EndsApart ctx.line) ∧
      (ctx.text.EndsApart ctx.line → r.stop = max ctx.offset (ctx.text.lineEnd ctx.line)) ∧
      (¬ctx.text.EndsApart ctx.line → r.stop = ctx.text.lineStart (ctx.line + 1) + 1) := by
  obtain rfl := Option.some.inj (Registry.standard_get?_lineEnd.symm.trans hregistered)
  have hline : ctx.line < ctx.text.lineCount := ctx.text.lineOf_lt ctx.offset
  have hends := Text.lineEnd_le_length hline
  have hplace : ctx.offset ≤ ctx.text.lineEnd ctx.line ∨ ctx.offset = ctx.text.length :=
    Text.le_lineEnd_or ho
  refine ⟨_, range?_lineEnd hctx hcount operator, rfl, ?_⟩
  by_cases hapart : ctx.text.EndsApart ctx.line
  · have hstop : Span.inclusiveEnd ctx.text (max ctx.offset (ctx.text.lineEnd ctx.line)) =
        max ctx.offset (ctx.text.lineEnd ctx.line) := by
      rcases hplace with hle | hend
      · rw [Nat.max_eq_right hle]
        exact Span.inclusiveEnd_eq_self ((Text.endsApart_iff hline).mp hapart)
      · rw [hend, Nat.max_eq_left hends]
        refine Span.inclusiveEnd_eq_self fun ⟨c, _, hc⟩ ↦ ?_
        exact Nat.lt_irrefl _ (Text.lt_length_of_charAt hc)
    rw [hstop, TextRange.between_eq (Nat.le_trans (Nat.min_le_left _ _) (Nat.le_max_left _ _))]
    refine ⟨rfl, Nat.max_le.mpr ⟨ho, hends⟩, iff_of_true (fun place hplace ↦ ?_) hapart, fun _ ↦ rfl,
      absurd hapart⟩
    obtain ⟨hle, hlt⟩ := TextRange.contains_iff.mp hplace
    exact Text.lineOf_eq_of_between hle hlt
  · have hle : ctx.offset ≤ ctx.text.lineEnd ctx.line := Text.le_lineEnd_of_not_endsApart hapart
    obtain ⟨c, hne, hc⟩ := not_not.mp (mt (Text.endsApart_iff hline).mpr hapart)
    rw [Nat.min_eq_left hle, Nat.max_eq_right hle, Span.inclusiveEnd_eq_succ hne hc,
      TextRange.between_eq (Nat.le_succ_of_le hle)]
    refine ⟨rfl, Text.lt_length_of_charAt hc, iff_of_false (fun hall ↦ ?_) hapart,
      fun hends ↦ absurd hends hapart, fun _ ↦ ?_⟩
    · refine Text.lineOf_lineEnd_ne hne hc (hall _ (TextRange.contains_iff.mpr ?_))
      exact ⟨hle, Nat.lt_succ_self _⟩
    · rw [← Text.lineEnd_of_not_endsApart hline hapart]

/-- A carriage return and a line feed end a line together, and a deletion up to its end leaves the line
feed. -/
theorem deleted_up_to_feed :
    let ctx : MotionContext := {
      text := "ab\r\nc".toList, caret := ⟨0⟩, offset := 1, goal := .cell 1, mode := .normal
      command := {
        kind := .motion, action := ActionId.lineEnd, flags := { Builtin.inclusive with stickyEol := true } }
      operatorPending := true }
    ctx.text.EndsApart 0 ∧
      range? ctx ActionId.delete (.motion Motion.lineEnd) = some ⟨1, 3, .characterwise, by decide⟩ ∧
      ∀ place, 1 ≤ place ∧ place < 3 → ctx.text.lineOf place = 0 := by
  intro ctx
  have hctx : ctx.Completes
      (Builtin.motion ActionId.lineEnd Motion.lineEnd { Builtin.inclusive with stickyEol := true }) :=
    ⟨rfl, rfl, rfl⟩
  obtain ⟨r, hr, -, -, -, hstays, -, -⟩ := line_end_span_stays_iff ActionId.delete
    Registry.standard_get?_lineEnd hctx rfl (by decide)
  have hspan : range? ctx ActionId.delete (.motion Motion.lineEnd) =
      some ⟨1, 3, .characterwise, by decide⟩ := by decide +kernel
  obtain rfl := Option.some.inj (hr.symm.trans hspan)
  have hapart : ctx.text.EndsApart 0 := .inl (by decide +kernel)
  exact ⟨hapart, hspan, fun place hplace ↦ hstays.mpr hapart place (TextRange.contains_iff.mpr hplace)⟩

/-- Behind a lone carriage return the next line begins, and a deletion up to the end of the line takes the
first character of that line along. -/
theorem deleted_past_carriage_return :
    let ctx : MotionContext := {
      text := "a\rb".toList, caret := ⟨0⟩, offset := 0, goal := .cell 0, mode := .normal
      command := {
        kind := .motion, action := ActionId.lineEnd, flags := { Builtin.inclusive with stickyEol := true } }
      operatorPending := true }
    range? ctx ActionId.delete (.motion Motion.lineEnd) = some ⟨0, 3, .characterwise, by decide⟩ ∧
      ctx.text.charAt 2 = some 'b' ∧ ctx.line = 0 ∧ ctx.text.lineOf 2 = 1 := by
  decide +kernel

end Operator

end ModalEdit
