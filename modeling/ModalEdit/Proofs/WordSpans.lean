import Mathlib.Data.List.DropRight
import Mathlib.Order.Bounds.Defs
import ModalEdit.Proofs.FeedLines
import ModalEdit.Proofs.TargetSpans
import ModalEdit.Proofs.WordMotions

/-!
What an operator covers by the motion to the next word. To change from within a word covers up to the
end of a word (`Operator.change_to_next_word_ends_at_word_end`). Every other operator covers up to the
last place before which no line feed is among the blanks (`Operator.next_word_span_is_greatest`): that
is where the span of the motion is cut (`Span.isGreatest_trimWordMotion`), and from there no rule for
exclusive motions draws it back further or makes it whole lines (`Span.exclusive_of_no_feed`). The
blanks at the end of a slice are told by the class of the places they fill
(`Text.TrailingBlanks`).
-/

set_option autoImplicit false
set_option relaxedAutoImplicit false

namespace ModalEdit

theorem TextRange.between_eq {a b : Nat} (hle : a ≤ b) (kind : RangeKind) :
    between a b kind = ⟨a, b, kind, hle⟩ := by
  unfold between
  simp only [Nat.min_eq_left hle, Nat.max_eq_right hle]

namespace Text

variable {t : Text} {a b offset q : Nat} {c : Char}

/-! ### Slices -/

theorem slice_self (t : Text) (a : Nat) : t.slice a a = [] := by
  rw [slice, Nat.max_self, Nat.min_self, Nat.sub_self, List.take_zero]

theorem slice_succ (hle : a ≤ b) (hc : t.charAt b = some c) :
    t.slice a (b + 1) = t.slice a b ++ [c] := by
  have hc : (t.drop a)[b - a]? = some c := by rwa [List.getElem?_drop, Nat.add_sub_cancel' hle]
  rw [slice, slice, Nat.min_eq_left hle, Nat.max_eq_right hle, Nat.min_eq_left (Nat.le_succ_of_le hle),
    Nat.max_eq_right (Nat.le_succ_of_le hle), Nat.succ_sub hle, List.take_add_one, hc,
    Option.toList_some]

theorem length_slice (hle : a ≤ b) (hb : b ≤ t.length) : (t.slice a b).length = b - a := by
  rw [slice, Nat.min_eq_left hle, Nat.max_eq_right hle, List.length_take, List.length_drop]
  omega

theorem head?_slice (hlt : a < b) (hc : t.charAt a = some c) : (t.slice a b).head? = some c := by
  rw [slice, Nat.min_eq_left (Nat.le_of_lt hlt), Nat.max_eq_right (Nat.le_of_lt hlt), drop_of_charAt hc,
    List.head?_take, if_neg (Nat.sub_ne_zero_of_lt hlt), List.head?_cons]

theorem mem_slice_iff (hle : a ≤ b) : c ∈ t.slice a b ↔ ∃ q, a ≤ q ∧ q < b ∧ t.charAt q = some c := by
  rw [slice, Nat.min_eq_left hle, Nat.max_eq_right hle, List.mem_iff_getElem?]
  constructor
  · rintro ⟨n, hn⟩
    rw [List.getElem?_take] at hn
    split at hn
    · exact ⟨a + n, Nat.le_add_right _ _, by omega, List.getElem?_drop.symm.trans hn⟩
    · cases hn
  · rintro ⟨q, hq, hlt, hc⟩
    refine ⟨q - a, ?_⟩
    rw [List.getElem?_take_of_lt (by omega), List.getElem?_drop, Nat.add_sub_cancel' hq]
    exact hc

theorem take_append_slice (t : Text) (hle : a ≤ b) : t.take a ++ t.slice a b = t.take b := by
  rw [slice, Nat.min_eq_left hle, Nat.max_eq_right hle, ← List.take_add, Nat.add_sub_cancel' hle]

/-! ### Line feeds ahead -/

/-- Two offsets are on the same line if no line feed is between them. -/
theorem lineOf_eq_of_no_feed (hbreaks : t.FeedsOnly) (hle : a ≤ b) (hnone : '\n' ∉ t.slice a b) :
    t.lineOf a = t.lineOf b := by
  have hcount : (t.take b).count '\n' = (t.take a).count '\n' := by
    rw [← t.take_append_slice hle, List.count_append, List.count_eq_zero.mpr hnone, Nat.add_zero]
  rw [lineOf_eq_feedLineOf hbreaks, lineOf_eq_feedLineOf hbreaks, feedLineOf, feedLineOf, hcount]

theorem charAt_ne_feed_of_lt_lineEnd (hle : offset ≤ q) (hlt : q < t.lineEnd (t.lineOf offset)) :
    t.charAt q ≠ some '\n' := by
  intro hfeed
  rw [← lineOf_eq_of_lt_lineEnd hle hlt] at hlt
  obtain ⟨c, hc, hne⟩ := lt_lineEnd_iff.mp hlt
  exact hne (Option.some.inj (hc.symm.trans hfeed))

/-- The line that an offset is on ends at the first line feed from there on. -/
theorem charAt_lineEnd_of_feed (hbreaks : t.FeedsOnly) (hle : offset ≤ q)
    (hfeed : t.charAt q = some '\n') :
    offset ≤ t.lineEnd (t.lineOf offset) ∧ t.lineEnd (t.lineOf offset) ≤ q ∧
      t.charAt (t.lineEnd (t.lineOf offset)) = some '\n' := by
  have hq := lt_length_of_charAt hfeed
  have hstart : offset ≤ t.lineEnd (t.lineOf offset) := by
    have hstays := normalize_end_of_lt (Nat.lt_of_le_of_lt hle hq)
    rw [normalize_eq_min, lastCaretOffset, if_pos rfl] at hstays
    omega
  have hbefore : t.lineEnd (t.lineOf offset) ≤ q :=
    Nat.le_of_not_lt fun hlt ↦ charAt_ne_feed_of_lt_lineEnd hle hlt hfeed
  refine ⟨hstart, hbefore, ?_⟩
  have hsame := lineOf_eq_of_no_feed hbreaks hstart fun hmem ↦ by
    obtain ⟨q, hq, hlt, hfeed⟩ := (mem_slice_iff hstart).mp hmem
    exact charAt_ne_feed_of_lt_lineEnd hq hlt hfeed
  have hend : ¬t.lineEnd (t.lineOf offset) < t.lineEnd (t.lineOf (t.lineEnd (t.lineOf offset))) := by
    rw [← hsame]
    exact Nat.lt_irrefl _
  have hchar := List.getElem?_eq_getElem (Nat.lt_of_le_of_lt hbefore hq)
  rw [lt_lineEnd_iff] at hend
  exact Decidable.byContradiction fun hne ↦
    hend ⟨_, hchar, fun heq ↦ hne (hchar.trans (congrArg some heq))⟩

/-- A character other than a blank is behind the indent of its line. -/
theorem firstNonBlank_le (hc : t.charAt offset = some c) (hblank : Unicode.isWhiteSpace c = false) :
    t.firstNonBlank (t.lineOf offset) ≤ offset := by
  refine Nat.le_of_not_lt fun hlt ↦ ?_
  have hstart := t.lineStart_lineOf_le offset
  have htext : t.lineText (t.lineOf offset) =
      (t.take (t.lineEnd (t.lineOf offset))).drop (t.lineStart (t.lineOf offset)) := by
    have hends := t.lineStart_le_lineEnd (t.lineOf offset)
    rw [lineText, slice, Nat.min_eq_left hends, Nat.max_eq_right hends, List.drop_take]
  rw [firstNonBlank, htext] at hlt
  obtain ⟨d, hd, hindent⟩ := (takeWhile_ahead _ _ _).1 offset hstart hlt
  obtain rfl : c = d := by
    rw [charAt, List.getElem?_take] at hd
    split at hd
    · exact Option.some.inj (hc.symm.trans hd)
    · cases hd
  rw [Bool.or_eq_true, beq_iff_eq, beq_iff_eq] at hindent
  rcases hindent with rfl | rfl <;> exact absurd hblank (by decide)

/-! ### The blanks at the end of a slice -/

/-- Where the blanks that a slice ends with start. -/
structure TrailingBlanks (t : Text) (a b p : Nat) : Prop where
  start_le : a ≤ p
  le_stop : p ≤ b
  blank : ∀ q, p ≤ q → q < b → t.classAt false q = .blank
  word : ∀ q, a ≤ q → q + 1 = p → t.classAt false q ≠ .blank

theorem exists_trailingBlanks (hle : a ≤ b) (hb : b ≤ t.length) : ∃ p, t.TrailingBlanks a b p ∧
    (t.slice a b).rtakeWhile Unicode.isWhiteSpace = t.slice p b := by
  induction b, hle using Nat.le_induction with
  | base =>
    refine ⟨a, ⟨Nat.le_refl a, Nat.le_refl a, fun q hq hlt ↦ absurd hlt (Nat.not_lt.mpr hq),
      fun q hq heq ↦ absurd hq (Nat.not_le.mpr (heq ▸ Nat.lt_succ_self q))⟩, ?_⟩
    rw [slice_self]
    rfl
  | succ b hle ih =>
    obtain ⟨p, hp, htrailing⟩ := ih (Nat.le_of_succ_le hb)
    obtain ⟨c, hc⟩ : ∃ c, t.charAt b = some c := ⟨t[b], List.getElem?_eq_getElem hb⟩
    rw [slice_succ hle hc]
    by_cases hblank : Unicode.isWhiteSpace c = true
    · rw [List.rtakeWhile_concat_pos _ _ _ hblank, htrailing, ← slice_succ hp.le_stop hc]
      refine ⟨p, ⟨hp.start_le, Nat.le_succ_of_le hp.le_stop, fun q hq hlt ↦ ?_, hp.word⟩, rfl⟩
      rcases Nat.eq_or_lt_of_le (Nat.le_of_lt_succ hlt) with rfl | hlt
      · rw [classAt_of_charAt hc, ofChar_eq_blank_iff, hblank]
      · exact hp.blank q hq hlt
    · rw [List.rtakeWhile_concat_neg _ _ _ hblank]
      refine ⟨b + 1, ⟨Nat.le_succ_of_le hle, Nat.le_refl _,
        fun q hq hlt ↦ absurd hlt (Nat.not_lt.mpr hq), fun q hq heq ↦ ?_⟩, (t.slice_self _).symm⟩
      obtain rfl := Nat.succ.inj heq
      rwa [classAt_of_charAt hc, Ne, ofChar_eq_blank_iff]

/-- Where only blank comes up to the end of the slice, the blanks at its end have started. -/
theorem TrailingBlanks.le_of_blank {p : Nat} (h : t.TrailingBlanks a b p) (hle : a ≤ q)
    (hblank : ∀ r, q ≤ r → r < b → t.classAt false r = .blank) : p ≤ q := by
  refine Nat.le_of_not_lt fun hlt ↦ ?_
  have hstop := h.le_stop
  exact h.word (p - 1) (by omega) (by omega) (hblank (p - 1) (by omega) (by omega))

/-- A slice has a line feed among the blanks at its end if only blank comes behind a line feed of it. -/
theorem feed_mem_trailing_iff (hle : a ≤ b) (hb : b ≤ t.length) :
    '\n' ∈ (t.slice a b).rtakeWhile Unicode.isWhiteSpace ↔ ∃ q, a ≤ q ∧ q < b ∧
      t.charAt q = some '\n' ∧ ∀ r, q ≤ r → r < b → t.classAt false r = .blank := by
  obtain ⟨p, hp, htrailing⟩ := exists_trailingBlanks hle hb
  rw [htrailing, mem_slice_iff hp.le_stop]
  constructor
  · rintro ⟨q, hq, hlt, hfeed⟩
    exact ⟨q, Nat.le_trans hp.start_le hq, hlt, hfeed, fun r hr ↦ hp.blank r (Nat.le_trans hq hr)⟩
  · rintro ⟨q, hq, hlt, hfeed, hblank⟩
    exact ⟨q, hp.le_of_blank hq hblank, hlt, hfeed⟩

/-- The first of the line feeds among the blanks at the end of a slice is the last place up to which the
slice has none there. -/
theorem TrailingBlanks.isGreatest_of_first_feed {p e : Nat} (h : t.TrailingBlanks a b p)
    (hb : b ≤ t.length) (hpe : p ≤ e) (heb : e < b) (hfeed : t.charAt e = some '\n')
    (hfirst : ∀ q, p ≤ q → q < e → t.charAt q ≠ some '\n') :
    IsGreatest {e | a ≤ e ∧ e ≤ b ∧ '\n' ∉ (t.slice a e).rtakeWhile Unicode.isWhiteSpace} e := by
  have hae := Nat.le_trans h.start_le hpe
  refine ⟨⟨hae, Nat.le_of_lt heb, ?_⟩, fun x ⟨hax, hxb, hnone⟩ ↦ Nat.le_of_not_lt fun hex ↦ hnone ?_⟩
  · rw [feed_mem_trailing_iff hae (Nat.le_trans (Nat.le_of_lt heb) hb)]
    rintro ⟨q, haq, hqe, hq, hblank⟩
    refine hfirst q (h.le_of_blank haq fun r hr hrb ↦ ?_) hqe hq
    rcases Nat.lt_or_ge r e with hre | her
    · exact hblank r hr hre
    · exact h.blank r (Nat.le_trans hpe her) hrb
  · rw [feed_mem_trailing_iff hax (Nat.le_trans hxb hb)]
    exact ⟨e, hae, hex, hfeed, fun r hr hrx ↦
      h.blank r (Nat.le_trans hpe hr) (Nat.lt_of_lt_of_le hrx hxb)⟩

end Text

namespace Span

open Text

variable {t : Text} {a b e : Nat}

/-- The span of a motion to the next word ends at the last place up to which the slice has no line feed
among the blanks at its end. -/
theorem isGreatest_trimWordMotion (hbreaks : t.FeedsOnly) (hle : a ≤ b) (hb : b ≤ t.length) :
    IsGreatest {e | a ≤ e ∧ e ≤ b ∧ '\n' ∉ (t.slice a e).rtakeWhile Unicode.isWhiteSpace}
      (trimWordMotion t a b) := by
  obtain ⟨p, hp, htrailing⟩ := exists_trailingBlanks hle hb
  have hreverse : (t.slice a b).reverse.takeWhile Unicode.isWhiteSpace = (t.slice p b).reverse := by
    rw [← htrailing, List.rtakeWhile, List.reverse_reverse]
  have hcontains : (t.slice p b).reverse.contains '\n' = true ↔ '\n' ∈ t.slice p b := by
    rw [List.contains_iff_mem, List.mem_reverse]
  unfold trimWordMotion
  dsimp only
  rw [hreverse, List.length_reverse, length_slice hp.le_stop hb, Nat.sub_sub_self hp.le_stop]
  by_cases hcrosses : '\n' ∈ t.slice p b
  · obtain ⟨q, hpq, hqb, hq⟩ := (mem_slice_iff hp.le_stop).mp hcrosses
    -- the end of the line of the last word, or of the first line if there is none
    have hreach : max a (p - 1) ≤ q := by
      have hstart := hp.start_le
      omega
    obtain ⟨hstart, hbefore, hend⟩ := charAt_lineEnd_of_feed hbreaks hreach hq
    rw [if_pos (hcontains.mpr hcrosses), Nat.max_eq_left (Nat.le_trans (Nat.le_max_left _ _) hstart)]
    refine hp.isGreatest_of_first_feed hb ?_ (Nat.lt_of_le_of_lt hbefore hqb) hend fun r hr hlt ↦ ?_
    · refine Nat.le_of_not_lt fun hlt ↦ ?_
      refine hp.word _ (Nat.le_trans (Nat.le_max_left _ _) hstart) (by omega) ?_
      rw [classAt_of_charAt hend, ofChar_feed]
    · have hstart := hp.start_le
      exact charAt_ne_feed_of_lt_lineEnd (by omega) hlt
  · rw [if_neg fun h ↦ hcrosses (hcontains.mp h)]
    exact ⟨⟨hle, Nat.le_refl b, htrailing ▸ hcrosses⟩, fun x hx ↦ hx.2.1⟩

/-- Without a line feed among the blanks at its end a slice is spanned by its characters. -/
theorem exclusive_of_no_feed (hbreaks : t.FeedsOnly) (hle : a ≤ e) (he : e ≤ t.length)
    (hnone : '\n' ∉ (t.slice a e).rtakeWhile Unicode.isWhiteSpace) :
    exclusive t a e = ⟨a, e, .characterwise, hle⟩ := by
  obtain ⟨p, hp, htrailing⟩ := exists_trailingBlanks hle he
  rw [htrailing] at hnone
  unfold exclusive
  dsimp only
  rw [Nat.min_eq_left hle, Nat.max_eq_right hle, Nat.min_eq_left he, TextRange.between_eq hle]
  split
  · rfl
  · split
    · rfl
    · next hother =>
      -- a word before the blanks is on the last line, since no line feed is behind it
      have hword : a < p := by
        refine Nat.lt_of_le_of_ne hp.start_le ?_
        rintro rfl
        exact hother (lineOf_eq_of_no_feed hbreaks hle hnone).symm
      obtain ⟨last, rfl⟩ := Nat.exists_eq_succ_of_ne_zero (Nat.ne_zero_of_lt hword)
      obtain ⟨c, hc, hblank⟩ := exists_charAt (hp.word last (Nat.le_of_lt_succ hword) rfl)
      have hlast : last ≤ e := Nat.le_of_succ_le hp.le_stop
      have hline : t.lineOf last = t.lineOf e := by
        refine lineOf_eq_of_no_feed hbreaks hlast fun hmem ↦ ?_
        obtain ⟨q, hq, hlt, hfeed⟩ := (mem_slice_iff hlast).mp hmem
        rcases Nat.eq_or_lt_of_le hq with rfl | hlater
        · obtain rfl := Option.some.inj (hc.symm.trans hfeed)
          exact hblank (ofChar_feed false)
        · exact hnone ((mem_slice_iff hp.le_stop).mpr ⟨q, hlater, hlt, hfeed⟩)
      have hindent := firstNonBlank_le hc
        (Bool.eq_false_iff.mpr fun h ↦ hblank (ofChar_eq_blank_iff.mpr h))
      have hstart := t.lineStart_lineOf_le last
      have hbehind : last < e := hp.le_stop
      rw [hline] at hindent hstart
      rw [if_neg (by omega), if_neg (by omega)]

end Span

/-! ### The motion to the next word -/

/-- The motion to the next word, or to the next big one. -/
def ActionId.nextWord (big : Bool) : ActionId := if big then bigWordForward else wordForward

theorem Registry.standard_get?_nextWord (big : Bool) : standard.get? (ActionId.nextWord big) =
    some (Builtin.motion (ActionId.nextWord big) (Motion.wordForward big) Builtin.exclusive) := by
  cases big with
  | false =>
    exact standard_get?_of_mem (a := Builtin.motion ActionId.wordForward (Motion.wordForward false) _)
      (by simp [Builtin.actions, Builtin.motions])
  | true =>
    exact standard_get?_of_mem (a := Builtin.motion ActionId.bigWordForward (Motion.wordForward true) _)
      (by simp [Builtin.actions, Builtin.motions])

/-- An operator waits, and this is the action that completes it. -/
structure MotionContext.Completes (ctx : MotionContext) (a : ActionSpec) : Prop where
  pending : ctx.operatorPending = true
  action : ctx.command.action = a.id
  flags : ctx.command.flags = a.flags

namespace Operator

variable {ctx : MotionContext} {a : ActionSpec} {big : Bool}

theorem wordMotion?_nextWord (big : Bool) : wordMotion? (ActionId.nextWord big) = some big := by
  cases big <;> decide

theorem wordMotion?_of_completes (h : ctx.Completes
    (Builtin.motion (ActionId.nextWord big) (Motion.wordForward big) Builtin.exclusive)) :
    wordMotion? ctx.command.action = some big :=
  (congrArg wordMotion? h.action).trans (wordMotion?_nextWord big)

theorem changesToWordEnd?_eq_none {operator : ActionId} (h : operator = ActionId.change →
    ∃ c, ctx.text.charAt ctx.offset = some c ∧ Unicode.isWhiteSpace c = true) :
    changesToWordEnd? ctx operator = none := by
  refine if_neg fun ⟨hchange, hnonblank⟩ ↦ ?_
  obtain ⟨c, hc, hblank⟩ := h hchange
  rw [hc, Option.any_some, hblank] at hnonblank
  cases hnonblank

/-- While an operator waits, the motion to the next word does not fail before the end of the text. -/
theorem wordForward_of_pending (hpending : ctx.operatorPending = true)
    (hlt : ctx.offset < ctx.text.length) :
    Motion.wordForward big ctx = some (ctx.text.wordForward ctx.offset ctx.count big) := by
  have hnonempty : ¬ctx.text.isEmpty = true := fun hempty ↦
    absurd (List.isEmpty_iff.mp hempty ▸ hlt) (Nat.not_lt_zero _)
  have hmoves := (Text.wordForward_bounds hlt ctx.count big).1
  rw [Motion.wordForward, if_neg hnonempty]
  dsimp only
  rw [if_pos hpending, MotionContext.moved, if_neg (Nat.ne_of_gt hmoves)]

/-- An operator over the motion to the next word covers characters, never whole lines, up to the last
place before which no line feed is among the blanks; but to change from within a word goes to the end
of a word. -/
theorem next_word_span_is_greatest (operator : ActionId)
    (hregistered : Registry.standard.get? (ActionId.nextWord big) = some a) (hctx : ctx.Completes a)
    (hbreaks : ctx.text.FeedsOnly) (hlt : ctx.offset < ctx.text.length)
    (hoperator : operator = ActionId.change →
      ∃ c, ctx.text.charAt ctx.offset = some c ∧ Unicode.isWhiteSpace c = true) :
    ∃ r, range? ctx operator a.handler = some r ∧ r.kind = .characterwise ∧ r.start = ctx.offset ∧
      IsGreatest {e | ctx.offset ≤ e ∧ e ≤ ctx.text.wordForward ctx.offset ctx.count big ∧
        '\n' ∉ (ctx.text.slice ctx.offset e).rtakeWhile Unicode.isWhiteSpace} r.stop := by
  obtain rfl := Option.some.inj ((Registry.standard_get?_nextWord big).symm.trans hregistered)
  obtain ⟨hforward, hend⟩ := Text.wordForward_bounds hlt ctx.count big
  have hgreatest := Span.isGreatest_trimWordMotion hbreaks (Nat.le_of_lt hforward) hend
  have hmoves : Motion.wordForward big ctx = _ := wordForward_of_pending hctx.pending hlt
  generalize ctx.text.wordForward ctx.offset ctx.count big = destination at *
  obtain ⟨hstart, hstop, hnone⟩ := hgreatest.1
  have hrange : rangeOfMotion ctx destination =
      ⟨ctx.offset, Span.trimWordMotion ctx.text ctx.offset destination, .characterwise, hstart⟩ := by
    rw [← Span.exclusive_of_no_feed hbreaks hstart (Nat.le_trans hstop hend) hnone]
    unfold rangeOfMotion
    rw [hctx.flags, wordMotion?_of_completes hctx, Nat.min_eq_left (Nat.le_of_lt hforward),
      Nat.max_eq_right (Nat.le_of_lt hforward), decide_eq_true hforward]
    rfl
  refine ⟨⟨ctx.offset, _, .characterwise, hstart⟩, ?_, rfl, rfl, hgreatest⟩
  show range? ctx operator (.motion (Motion.wordForward big)) = _
  rw [range?, changesToWordEnd?_eq_none hoperator, hmoves, Option.map_some, hrange]

/-- To delete the last word of a line takes the blanks behind it, and leaves the line feed and the indent
of the next line. -/
theorem last_word_of_line_deleted :
    let ctx : MotionContext := {
      text := "foo  \n  bar\n".toList, caret := ⟨0⟩, offset := 0, goal := .cell 0, mode := .normal
      command := { kind := .motion, action := ActionId.nextWord false, flags := Builtin.exclusive }
      operatorPending := true }
    let a := Builtin.motion (ActionId.nextWord false) (Motion.wordForward false) Builtin.exclusive
    ctx.text.wordForward 0 1 false = 8 ∧
      range? ctx ActionId.delete a.handler = some ⟨0, 5, .characterwise, Nat.zero_le 5⟩ ∧
      IsGreatest {e | 0 ≤ e ∧ e ≤ ctx.text.wordForward 0 1 false ∧
        '\n' ∉ (ctx.text.slice 0 e).rtakeWhile Unicode.isWhiteSpace} 5 := by
  intro ctx a
  have hctx : ctx.Completes a := ⟨rfl, rfl, rfl⟩
  obtain ⟨r, hr, -, -, hgreatest⟩ := next_word_span_is_greatest ActionId.delete
    (Registry.standard_get?_nextWord false) hctx (by decide +kernel) (by decide)
    fun hchange ↦ absurd hchange (by decide)
  have hspan : range? ctx ActionId.delete a.handler = some ⟨0, 5, .characterwise, Nat.zero_le 5⟩ := by
    decide +kernel
  obtain rfl := Option.some.inj (hr.symm.trans hspan)
  exact ⟨by decide +kernel, hspan, hgreatest⟩

/-- To change to the next word from within a word changes to the end of a word: the one that the count
asks for from the offset on, or the last of the text. -/
theorem change_to_next_word_ends_at_word_end {c : Char}
    (hregistered : Registry.standard.get? (ActionId.nextWord big) = some a) (hctx : ctx.Completes a)
    (hc : ctx.text.charAt ctx.offset = some c) (hblank : Unicode.isWhiteSpace c = false) :
    ∃ r q, range? ctx ActionId.change a.handler = some r ∧ r.kind = .characterwise ∧
      r.start = ctx.offset ∧ r.stop = q + 1 ∧
      some q = ((ctx.text.wordEnds big).filter (ctx.offset ≤ ·))[ctx.count - 1]?.or
        (ctx.text.wordEnds big).getLast? ∧
      ∃ first last, (ctx.text.slice r.start r.stop).head? = some first ∧
        (ctx.text.slice r.start r.stop).getLast? = some last ∧
        Unicode.isWhiteSpace first = false ∧ Unicode.isWhiteSpace last = false := by
  obtain rfl := Option.some.inj ((Registry.standard_get?_nextWord big).symm.trans hregistered)
  have hchanges : changesToWordEnd? ctx ActionId.change = some big := by
    rw [changesToWordEnd?, hc, Option.any_some, hblank, if_pos ⟨rfl, rfl⟩, wordMotion?_of_completes hctx]
  have hclass : ctx.text.classAt big ctx.offset ≠ .blank := by
    rw [Text.classAt_of_charAt hc, Ne, Text.ofChar_eq_blank_iff, hblank]
    exact Bool.false_ne_true
  have hends : (ctx.text.wordEnds big).filter (ctx.offset ≤ ·) ≠ [] := by
    obtain ⟨q, hle, hend⟩ := Text.exists_endsWord hclass
    exact List.ne_nil_of_mem (List.mem_filter.mpr ⟨Text.mem_wordEnds.mpr hend, decide_eq_true hle⟩)
  obtain ⟨q, hmem, hle, hlast, hnth⟩ :=
    Text.exists_nth_or_last (ctx.text.wordEnds_sorted big) hends (ctx.count - 1)
  obtain ⟨d, hd, hend⟩ := Text.exists_charAt (Text.mem_wordEnds.mp hmem).1
  have hlastBlank : Unicode.isWhiteSpace d = false :=
    Bool.eq_false_iff.mpr fun h ↦ hend (Text.ofChar_eq_blank_iff.mpr h)
  have hstop : Span.inclusiveEnd ctx.text q = q + 1 := by
    refine Span.inclusiveEnd_of_lt_lineEnd (Text.lt_lineEnd_iff.mpr ⟨d, hd, ?_⟩)
    rintro rfl
    exact hend (Text.ofChar_feed big)
  rw [← Text.wordEnd_stopping_eq (Text.lt_length_of_charAt hc)] at hlast
  refine ⟨⟨ctx.offset, q + 1, .characterwise, Nat.le_succ_of_le hle⟩, q, ?_, rfl, rfl, rfl, hnth,
    ⟨c, d, Text.head?_slice (Nat.lt_succ_of_le hle) hc, ?_, hblank, hlastBlank⟩⟩
  · show range? ctx ActionId.change (.motion (Motion.wordForward big)) = _
    rw [range?, hchanges]
    dsimp only
    rw [hlast, hstop, TextRange.between_eq (Nat.le_succ_of_le hle)]
  · rw [Text.slice_succ hle hd, List.getLast?_concat]

/-- Three words changed from the one that ends at the offset: into the next line, but not up to the blank
behind. -/
theorem three_words_changed :
    let ctx : MotionContext := {
      text := "a bc\n d e".toList, caret := ⟨0⟩, offset := 0, goal := .cell 0, mode := .normal
      command := {
        kind := .motion, action := ActionId.nextWord false, rawCount := some 3
        flags := Builtin.exclusive }
      operatorPending := true }
    let a := Builtin.motion (ActionId.nextWord false) (Motion.wordForward false) Builtin.exclusive
    ∃ r, range? ctx ActionId.change a.handler = some r ∧ r.start = 0 ∧ r.stop = 7 := by
  intro ctx a
  have hctx : ctx.Completes a := ⟨rfl, rfl, rfl⟩
  have hc : ctx.text.charAt ctx.offset = some 'a' := rfl
  obtain ⟨r, q, hr, -, hstart, hstop, hq, -⟩ := change_to_next_word_ends_at_word_end
    (Registry.standard_get?_nextWord false) hctx hc (by decide +kernel)
  have hlast : ((ctx.text.wordEnds false).filter (ctx.offset ≤ ·))[ctx.count - 1]?.or
      (ctx.text.wordEnds false).getLast? = some 6 := by decide +kernel
  obtain rfl := Option.some.inj (hq.trans hlast)
  exact ⟨r, hr, hstart, hstop⟩

end Operator

end ModalEdit
