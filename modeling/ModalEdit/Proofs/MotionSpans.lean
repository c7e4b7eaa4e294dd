import ModalEdit.Proofs.LinewiseCommands
import ModalEdit.Proofs.WordSpans

/-!
What an operator covers by way of a motion, where the line feed is the only break. The motion has two
ends, the offset that it starts from and the one it goes to, in either order. A span without the character
at its end is one of characters from the first end on, or of whole lines (`Span.Exclusive`), and the end
of a word motion is drawn back before that is looked at. So whatever the motion, its flags and the
operator, the span stays between the two ends, but for the lines of the ends and the character that an
inclusive motion takes in (`Operator.BetweenEnds`, `Operator.motion_span_stays_between_ends`).
-/

set_option autoImplicit false
set_option relaxedAutoImplicit false

namespace ModalEdit

namespace Span

variable {t : Text} {a b : Nat}

theorem lines_of_le (hbreaks : t.FeedsOnly) {first last : Nat} (hle : first ≤ last)
    (hlast : last < t.lineCount) : lines t first last = t.linesRange first (last + 1 - first) := by
  rw [← lines_eq_linesRange hbreaks (by omega) (by omega)]
  congr
  omega

/-- An offset is on the first character other than blank of a line below that of an earlier offset, and
not at the end of the text. -/
structure AtIndentBelow (t : Text) (a b : Nat) : Prop where
  below : t.lineOf a < t.lineOf b
  indent : b = t.firstNonBlank (t.lineOf b)
  inside : b < t.length

/-- An offset is at the start of a line below that of an earlier offset, before which there are only
blanks on its line, and not at the end of the text. -/
structure AtStartBelow (t : Text) (a b : Nat) : Prop where
  below : t.lineOf a < t.lineOf b
  start : b = t.lineStart (t.lineOf b)
  blank : a ≤ t.firstNonBlank (t.lineOf a)
  inside : b < t.length

/-- The lines of two offsets and those between, with their line breaks. -/
def wholeLines (t : Text) (a b : Nat) : TextRange :=
  t.linesRange (t.lineOf a) (t.lineOf b + 1 - t.lineOf a)

/-- What a span without the character at its end may be: characters from its first end on, the lines of
its two ends and those between, or these without the last. -/
inductive Exclusive (t : Text) (a b : Nat) : TextRange → Prop
  | characters {e : Nat} (hae : a ≤ e) (heb : e ≤ b) (hindent : ¬AtIndentBelow t a b)
      (hstart : ¬AtStartBelow t a b) : Exclusive t a b ⟨a, e, .characterwise, hae⟩
  | wholeLines (hindent : AtIndentBelow t a b) : Exclusive t a b (wholeLines t a b)
  | withoutLast (hindent : ¬AtIndentBelow t a b) (hstart : AtStartBelow t a b) :
      Exclusive t a b (t.linesRange (t.lineOf a) (t.lineOf b - t.lineOf a))

theorem Exclusive.kind_eq_linewise_iff {r : TextRange} (h : Exclusive t a b r) :
    r.kind = .linewise ↔ AtIndentBelow t a b ∨ AtStartBelow t a b := by
  cases h with
  | characters _ _ hindent hstart => exact iff_of_false RangeKind.noConfusion (not_or.mpr ⟨hindent, hstart⟩)
  | wholeLines hindent => exact iff_of_true rfl (.inl hindent)
  | withoutLast _ hstart => exact iff_of_true rfl (.inr hstart)

theorem exclusive_cases (hbreaks : t.FeedsOnly) (hle : a ≤ b) (hb : b ≤ t.length) :
    Exclusive t a b (exclusive t a b) := by
  have hlast := t.lineOf_lt b
  have hmono := t.lineOf_mono hle
  unfold exclusive
  dsimp only
  rw [Nat.min_eq_left hle, Nat.max_eq_right hle, Nat.min_eq_left hb, TextRange.between_eq hle]
  split
  case isTrue hend =>
    have hnone (hbelow : t.lineOf a < t.lineOf b) (hinside : b < t.length) : False := by
      rcases hend with rfl | hlength
      · exact Nat.lt_irrefl _ hbelow
      · omega
    exact .characters hle (Nat.le_refl b) (fun h ↦ hnone h.below h.inside)
      (fun h ↦ hnone h.below h.inside)
  case isFalse hend =>
    have hinside : b < t.length := by omega
    split
    case isTrue hsame =>
      exact .characters hle (Nat.le_refl b) (fun h ↦ absurd hsame (Nat.ne_of_gt h.below))
        (fun h ↦ absurd hsame (Nat.ne_of_gt h.below))
    case isFalse hother =>
      have hbelow : t.lineOf a < t.lineOf b := by omega
      split
      case isTrue hindent =>
        rw [lines_of_le hbreaks hmono hlast]
        exact .wholeLines ⟨hbelow, hindent, hinside⟩
      case isFalse hindent =>
        split
        case isTrue hstart =>
          split
          case isTrue hblank =>
            rw [lines_of_le hbreaks (by omega) (by omega),
              show t.lineOf b - 1 + 1 - t.lineOf a = t.lineOf b - t.lineOf a by omega]
            exact .withoutLast (fun h ↦ hindent h.indent) ⟨hbelow, hstart, hblank, hinside⟩
          case isFalse hblank =>
            -- the line before ends at the start of this one at the latest
            have hend := @Text.lineEnd_le_lineOffset_succ t (t.lineOf b - 1) (by omega)
            rw [Nat.sub_add_cancel (by omega), ← Text.lineStart_eq_lineOffset hlast, ← hstart] at hend
            rw [TextRange.between_eq (Nat.le_max_right _ _)]
            exact .characters _ (Nat.max_le.mpr ⟨hend, hle⟩) (fun h ↦ hindent h.indent)
              (fun h ↦ hblank h.blank)
        case isFalse hstart =>
          exact .characters hle (Nat.le_refl b) (fun h ↦ hindent h.indent) (fun h ↦ hstart h.start)

end Span

namespace Operator

variable {ctx : MotionContext} {destination : Nat} {operator : ActionId}

/-- The span of a motion is one of whole lines: the motion is by lines, or it takes in no character, is none
to a word ahead and has its last end at the start or the indent of a later line. -/
def SpansLines (ctx : MotionContext) (destination : Nat) : Prop :=
  ctx.command.flags.linewise = true ∨ ctx.command.flags.inclusive = false ∧
    ¬((wordMotion? ctx.command.action).isSome = true ∧ ctx.offset < destination) ∧
      (Span.AtIndentBelow ctx.text (min ctx.offset destination) (max ctx.offset destination) ∨
        Span.AtStartBelow ctx.text (min ctx.offset destination) (max ctx.offset destination))

/-- A span lies between the two ends of a motion. It is one of whole lines, from the line of the first end
to that of the last, or it is one of characters from the first end up to the last, which an inclusive
motion takes in unless it is a line feed. The lines are all those between the ends if the motion is by
lines or ends on the first character other than blank of a later line. -/
structure BetweenEnds (ctx : MotionContext) (first last : Nat) (r : TextRange) : Prop where
  ordered : r.start ≤ r.stop
  stop_le : r.stop ≤ ctx.text.length
  kind : r.kind = .linewise ∨ r.kind = .characterwise
  linewise : ctx.command.flags.linewise = true → r.kind = .linewise
  lines : r.kind = .linewise → ∃ line n, 0 < n ∧ ctx.text.lineOf first ≤ line ∧
    line + n ≤ ctx.text.lineOf last + 1 ∧ r = ctx.text.linesRange line n
  allLines : r.kind = .linewise → ctx.command.flags.linewise = true ∨ Span.AtIndentBelow ctx.text first last →
    r = Span.wholeLines ctx.text first last
  characters : r.kind = .characterwise → r.start = first ∧ (r.stop ≤ last ∨
    r.stop = last + 1 ∧ ctx.command.flags.inclusive = true ∧
      ∃ c ≠ '\n', ctx.text.charAt last = some c)

section Between

variable {first last e : Nat}

theorem betweenEnds_wholeLines (hle : first ≤ last) :
    BetweenEnds ctx first last (Span.wholeLines ctx.text first last) where
  ordered := TextRange.start_le_stop _
  stop_le := Text.linesRange_stop_le (by
    have hlast := ctx.text.lineOf_lt last
    have hmono := ctx.text.lineOf_mono hle
    omega)
  kind := .inl rfl
  linewise _ := rfl
  lines _ := by
    have hmono := ctx.text.lineOf_mono hle
    exact ⟨_, _, by omega, Nat.le_refl _, by omega, rfl⟩
  allLines _ _ := rfl
  characters h := by cases h

theorem betweenEnds_characters (hlines : ctx.command.flags.linewise = false) (hle : first ≤ e)
    (he : e ≤ ctx.text.length) (hstop : e ≤ last ∨ e = last + 1 ∧ ctx.command.flags.inclusive = true ∧
      ∃ c ≠ '\n', ctx.text.charAt last = some c) :
    BetweenEnds ctx first last ⟨first, e, .characterwise, hle⟩ where
  ordered := hle
  stop_le := he
  kind := .inr rfl
  linewise h := by rw [hlines] at h; cases h
  lines h := by cases h
  allLines h := by cases h
  characters _ := ⟨rfl, hstop⟩

theorem betweenEnds_inclusiveEnd (hlines : ctx.command.flags.linewise = false)
    (hinclusive : ctx.command.flags.inclusive = true) (hle : first ≤ last) (hlast : last ≤ ctx.text.length) :
    BetweenEnds ctx first last (.between first (Span.inclusiveEnd ctx.text last) .characterwise) := by
  by_cases hchar : ∃ c ≠ '\n', ctx.text.charAt last = some c
  · obtain ⟨c, hfeed, hc⟩ := hchar
    rw [Span.inclusiveEnd_eq_succ hfeed hc, TextRange.between_eq (Nat.le_succ_of_le hle)]
    exact betweenEnds_characters hlines _ (Text.lt_length_of_charAt hc)
      (.inr ⟨rfl, hinclusive, c, hfeed, hc⟩)
  · rw [Span.inclusiveEnd_eq_self hchar, TextRange.between_eq hle]
    exact betweenEnds_characters hlines hle hlast (.inl (Nat.le_refl _))

theorem betweenEnds_exclusive (hlines : ctx.command.flags.linewise = false) (hle : first ≤ last)
    (hlast : last ≤ ctx.text.length) {r : TextRange} (h : Span.Exclusive ctx.text first last r) :
    BetweenEnds ctx first last r := by
  cases h with
  | characters hae heb => exact betweenEnds_characters hlines hae (Nat.le_trans heb hlast) (.inl heb)
  | wholeLines => exact betweenEnds_wholeLines hle
  | withoutLast hindent hstart =>
    have hbelow := hstart.below
    have hline := ctx.text.lineOf_lt last
    refine ⟨TextRange.start_le_stop _, Text.linesRange_stop_le (by omega), .inl rfl, fun _ ↦ rfl,
      fun _ ↦ ⟨_, _, Nat.sub_pos_of_lt hbelow, Nat.le_refl _, by omega, rfl⟩, fun _ hall ↦ ?_,
      fun h ↦ by cases h⟩
    rcases hall with hflag | hat
    · rw [hlines] at hflag
      cases hflag
    · exact absurd hat hindent

end Between

/-- But for the change of a word, the operator has the span of the motion. -/
theorem range?_eq_rangeOfMotion {f : Motion} (hf : f ctx = some destination)
    (hchange : ¬(operator = ActionId.change ∧ (wordMotion? ctx.command.action).isSome = true ∧
      ∃ c, ctx.text.charAt ctx.offset = some c ∧ Unicode.isWhiteSpace c = false)) :
    range? ctx operator (.motion f) = some (rangeOfMotion ctx destination) := by
  have hnone : changesToWordEnd? ctx operator = none := by
    unfold changesToWordEnd?
    split
    case isTrue h =>
      obtain ⟨hoperator, hnonblank⟩ := h
      obtain ⟨c, hc, hword⟩ := (Option.any_eq_true _ _).mp hnonblank
      refine Option.not_isSome_iff_eq_none.mp fun hsome ↦ hchange ⟨hoperator, hsome, c, hc, ?_⟩
      rwa [Bool.not_eq_true'] at hword
    case isFalse => rfl
  rw [range?, hnone, hf, Option.map_some]

/-- Whatever the motion, its flags and the operator, the span stays between the ends of the motion. -/
theorem motion_span_stays_between_ends {f : Motion} (operator : ActionId) (hbreaks : ctx.text.FeedsOnly)
    (ho : ctx.offset ≤ ctx.text.length) (hf : f ctx = some destination)
    (hd : destination ≤ ctx.text.length)
    (hchange : ¬(operator = ActionId.change ∧ (wordMotion? ctx.command.action).isSome = true ∧
      ∃ c, ctx.text.charAt ctx.offset = some c ∧ Unicode.isWhiteSpace c = false)) :
    ∃ r, range? ctx operator (.motion f) = some r ∧
      BetweenEnds ctx (min ctx.offset destination) (max ctx.offset destination) r ∧
      (r.kind = .linewise ↔ SpansLines ctx destination) := by
  refine ⟨_, range?_eq_rangeOfMotion hf hchange, ?_⟩
  have hle : min ctx.offset destination ≤ max ctx.offset destination := by omega
  have hlast : max ctx.offset destination ≤ ctx.text.length := Nat.max_le.mpr ⟨ho, hd⟩
  unfold rangeOfMotion SpansLines
  dsimp only
  generalize min ctx.offset destination = first at *
  generalize max ctx.offset destination = last at *
  cases hlines : ctx.command.flags.linewise with
  | true =>
    rw [if_pos rfl, Span.linesOf, Span.lines_of_le hbreaks (ctx.text.lineOf_mono hle)
      (ctx.text.lineOf_lt last)]
    exact ⟨betweenEnds_wholeLines hle, iff_of_true rfl (.inl rfl)⟩
  | false =>
    rw [if_neg Bool.false_ne_true, or_iff_right Bool.false_ne_true]
    cases hinclusive : ctx.command.flags.inclusive with
    | true =>
      rw [if_pos rfl]
      exact ⟨betweenEnds_inclusiveEnd hlines hinclusive hle hlast,
        iff_of_false RangeKind.noConfusion fun h ↦ Bool.false_ne_true h.1.symm⟩
    | false =>
      rw [if_neg Bool.false_ne_true, and_iff_right rfl]
      simp only [Bool.and_eq_true, decide_eq_true_eq]
      split
      case isTrue hword =>
        obtain ⟨hstart, hstop, hnone⟩ := (Span.isGreatest_trimWordMotion hbreaks hle hlast).1
        rw [Span.exclusive_of_no_feed hbreaks hstart (Nat.le_trans hstop hlast) hnone]
        exact ⟨betweenEnds_characters hlines hstart (Nat.le_trans hstop hlast) (.inl hstop),
          iff_of_false RangeKind.noConfusion fun h ↦ h.1 hword⟩
      case isFalse hword =>
        have hcases := Span.exclusive_cases hbreaks hle hlast
        refine ⟨betweenEnds_exclusive hlines hle hlast hcases, ?_⟩
        rw [hcases.kind_eq_linewise_iff, and_iff_right hword]

/-- Back over the line feed to the start of the word on the line before, a deletion takes both lines. -/
theorem word_above_deleted_with_lines :
    let ctx : MotionContext := {
      text := "ab\n  cd\ne".toList, caret := ⟨0⟩, offset := 5, goal := .cell 0, mode := .normal
      command := { kind := .motion, action := ActionId.wordBackward, flags := Builtin.exclusive }
      operatorPending := true }
    ctx.text.FeedsOnly ∧ Motion.wordBackward false ctx = some 0 ∧
      range? ctx ActionId.delete (.motion (Motion.wordBackward false)) = some (ctx.text.linesRange 0 2) ∧
      BetweenEnds ctx 0 5 (ctx.text.linesRange 0 2) := by
  intro ctx
  have hbreaks : ctx.text.FeedsOnly := by decide +kernel
  have hmotion : Motion.wordBackward false ctx = some 0 := by decide +kernel
  obtain ⟨r, hr, hbetween, -⟩ := motion_span_stays_between_ends ActionId.delete hbreaks (by decide) hmotion
    (by decide) (by decide)
  have hspan : range? ctx ActionId.delete (.motion (Motion.wordBackward false)) =
      some (ctx.text.linesRange 0 2) := by decide +kernel
  obtain rfl := Option.some.inj (hr.symm.trans hspan)
  exact ⟨hbreaks, hmotion, hspan, hbetween⟩

end Operator

end ModalEdit
