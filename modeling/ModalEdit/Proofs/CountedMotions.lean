import Mathlib.Logic.Function.Iterate
import ModalEdit.Proofs.MotionCommands
import ModalEdit.Proofs.WordMotions

/-!
Counts as repetition. A counted motion along a line or by words takes its step as often as the count says
and is drawn onto its line once, at the end; typed as often, the motion is drawn onto the line after every
step. Both lead to the same place (`MotionKey.normalize_iterate_next`): all places that the motions stop
at are such that a caret may rest there, but for the end of the text behind the last word, and from where
a caret is then drawn back to no word lies ahead either.
-/

set_option autoImplicit false
set_option relaxedAutoImplicit false

namespace ModalEdit

namespace Text

variable {t : Text} {offset place : Nat} {big : Bool}

/-- A step that stops moving stays where it is. -/
theorem iterate_eq (step : Nat → Nat) (count offset : Nat) :
    iterate step count offset = step^[count] offset := by
  induction count generalizing offset with
  | zero => rfl
  | succ count ih =>
    rw [iterate]
    split
    · next hstays => exact (Function.iterate_fixed hstays _).symm
    · rw [ih, Function.iterate_succ_apply]

/-! ### Where carets may rest -/

/-- Back to the start of its line, an offset where a caret may rest has such offsets before it. -/
theorem normalize_of_le (h : t.normalize offset false = offset)
    (hstart : t.lineStart (t.lineOf offset) ≤ place) (hle : place ≤ offset) :
    t.normalize place false = place := by
  rw [normalize_eq_self_iff] at h
  rw [normalize_eq_self_iff, lineOf_eq_of_le hstart hle]
  omega

theorem normalize_of_classAt (h : t.classAt big offset ≠ .blank) : t.normalize offset false = offset := by
  obtain ⟨c, hc, hword⟩ := exists_charAt h
  refine normalize_of_lt_lineEnd (lt_lineEnd_iff.mpr ⟨c, hc, ?_⟩)
  rintro rfl
  exact hword (ofChar_feed big)

/-- An empty line begins where it is. -/
theorem EmptyLine.normalize (h : t.EmptyLine offset) : t.normalize offset false = offset := by
  rw [normalize_eq_self_iff]
  refine .inr (Nat.le_antisymm (Nat.le_of_not_lt fun hlt ↦ ?_) (t.lineStart_lineOf_le offset))
  -- The line feed before it would be on its line, and a line ends in its line feed.
  have hline := t.lineOf_lt offset
  have hbefore : t.charAt (offset - 1) = some '\n' := h.2.resolve_left (by omega)
  have hsame : t.lineOf (offset - 1) = t.lineOf offset :=
    lineOf_eq_of_le (Nat.le_sub_one_of_lt hlt) (Nat.sub_le _ _)
  have hend : ¬offset - 1 < t.lineEnd (t.lineOf (offset - 1)) := by
    rw [lt_lineEnd_iff, hbefore]
    rintro ⟨c, hc, hne⟩
    exact hne (Option.some.inj hc).symm
  have hcontent : (t.lineAt (t.lineOf offset)).length ≤
      contentLength (t.lineAt (t.lineOf offset)) + 1 := by
    unfold contentLength
    split <;> omega
  have hnext := lt_lineOffset_succ_lineOf h.lt_length
  rw [lineOffset_succ hline] at hnext
  rw [hsame, lineEnd_eq hline] at hend
  omega

theorem normalize_of_mem_wordStarts (h : offset ∈ t.wordStarts big) :
    t.normalize offset false = offset := by
  rcases mem_wordStarts.mp h with hword | hempty
  · exact normalize_of_classAt hword.1
  · exact hempty.normalize

theorem normalize_of_mem_wordEnds (h : offset ∈ t.wordEnds big) : t.normalize offset false = offset :=
  normalize_of_classAt (mem_wordEnds.mp h).1

theorem normalize_of_mem_wordEndsAndEmptyLines (h : offset ∈ t.wordEndsAndEmptyLines big) :
    t.normalize offset false = offset := by
  rcases mem_wordEndsAndEmptyLines.mp h with hword | hempty
  · exact normalize_of_classAt hword.1
  · exact hempty.normalize

theorem normalize_zero (t : Text) : t.normalize 0 false = 0 :=
  Nat.le_zero.mp (t.normalize_le 0 false)

/-- Among places where carets may rest, so is the nearest one below, or the start of the text. -/
theorem NearestBelow.normalize {places : List Nat}
    (hplaces : ∀ q ∈ places, t.normalize q false = q) (h : NearestBelow places offset place) :
    t.normalize place false = place := by
  rcases h with ⟨⟨hmem, -⟩, -⟩ | ⟨-, rfl⟩
  · exact hplaces place hmem
  · exact t.normalize_zero

/-! ### Drawn once, or after every step -/

/-- Where drawing an offset onto its line makes no difference to where the next step is drawn to, the
repeated step may be drawn onto its line once or every time. -/
theorem normalize_iterate {step : Nat → Nat} {P : Nat → Prop} (hstep : ∀ p, P p → P (step p))
    (hdraw : ∀ p, P p → t.normalize (step (t.normalize p false)) false = t.normalize (step p) false)
    (n : Nat) (h : P offset) : t.normalize (step^[n] offset) false =
      (fun p ↦ t.normalize (step p) false)^[n] (t.normalize offset false) := by
  have hkept : P (step^[n] offset) ∧ t.normalize (step^[n] offset) false =
      (fun p ↦ t.normalize (step p) false)^[n] (t.normalize offset false) := by
    induction n with
    | zero => exact ⟨h, rfl⟩
    | succ n ih =>
      rw [Function.iterate_succ_apply', Function.iterate_succ_apply', ← ih.2, hdraw _ ih.1]
      exact ⟨hstep _ ih.1, rfl⟩
  exact hkept.2

/-- A step from where carets may rest to where carets may rest. -/
theorem normalize_iterate_of_rest {step : Nat → Nat}
    (hstep : ∀ p, t.normalize p false = p → t.normalize (step p) false = step p) (n : Nat)
    (h : t.normalize offset false = offset) :
    t.normalize (step^[n] offset) false = (fun p ↦ t.normalize (step p) false)^[n] offset := by
  have hdrawn := normalize_iterate (P := fun p ↦ t.normalize p false = p) hstep
    (fun p hp ↦ by rw [hp]) n h
  rwa [h] at hdrawn

theorem nextWord_length (t : Text) (big : Bool) : t.nextWord big t.length = t.length := by
  rw [nextWord, Nat.min_self, List.drop_length]
  rfl

/-- Behind the last word the step by words goes to the end of the text, also from where a caret is drawn
back to from there. -/
theorem nextWord_normalize_length (t : Text) (big : Bool) :
    t.nextWord big (t.normalize t.length false) = t.length := by
  have hpassed (q : Nat) (hq : q ∈ t.wordStarts big) : q ≤ t.normalize t.length false := by
    rw [← normalize_of_mem_wordStarts hq]
    exact t.normalize_mono false (Nat.le_of_lt (mem_places.mp hq).1)
  rcases t.nearestAbove_nextWord big (t.normalize t.length false) with ⟨⟨hmem, hlt⟩, -⟩ | ⟨-, hrest⟩
  · exact absurd (hpassed _ hmem) (Nat.not_le.mpr hlt)
  · exact hrest

theorem normalize_iterate_nextWord (big : Bool) (n : Nat) (h : t.normalize offset false = offset) :
    t.normalize ((t.nextWord big)^[n] offset) false =
      (fun p ↦ t.normalize (t.nextWord big p) false)^[n] offset := by
  have hstep (p : Nat) : t.normalize (t.nextWord big p) false = t.nextWord big p ∨
      t.nextWord big p = t.length := by
    rcases t.nearestAbove_nextWord big p with ⟨⟨hmem, -⟩, -⟩ | ⟨-, hrest⟩
    · exact .inl (normalize_of_mem_wordStarts hmem)
    · exact .inr hrest
  have hdraw (p : Nat) (hp : t.normalize p false = p ∨ p = t.length) :
      t.normalize (t.nextWord big (t.normalize p false)) false =
        t.normalize (t.nextWord big p) false := by
    rcases hp with hp | rfl
    · rw [hp]
    · rw [nextWord_normalize_length, nextWord_length]
  have hdrawn := normalize_iterate (fun p _ ↦ hstep p) hdraw n (.inl h)
  rwa [h] at hdrawn

/-! ### Along a line -/

theorem left_bounds (t : Text) (offset count : Nat) :
    t.lineStart (t.lineOf offset) ≤ t.left offset count ∧ t.left offset count ≤ offset :=
  ⟨Nat.le_max_left _ _, Nat.max_le.mpr ⟨t.lineStart_lineOf_le offset, Nat.sub_le _ _⟩⟩

theorem left_eq (t : Text) (offset count : Nat) : t.left offset count = (t.left · 1)^[count] offset := by
  induction count with
  | zero => exact Nat.max_eq_right (t.lineStart_lineOf_le offset)
  | succ count ih =>
    obtain ⟨hstart, hle⟩ := t.left_bounds offset count
    rw [Function.iterate_succ_apply', ← ih]
    show _ = max (t.lineStart (t.lineOf (t.left offset count))) (t.left offset count - 1)
    rw [lineOf_eq_of_le hstart hle]
    unfold left
    omega

theorem normalize_left (h : t.normalize offset false = offset) (count : Nat) :
    t.normalize (t.left offset count) false = t.left offset count :=
  normalize_of_le h (t.left_bounds offset count).1 (t.left_bounds offset count).2

section Right

variable (h : t.normalize offset false = offset)
include h

/-- To the right a caret stays on its line, where it may rest. -/
theorem right_rests (count : Nat) :
    t.lineOf (t.right offset count false) = t.lineOf offset ∧
      t.normalize (t.right offset count false) false = t.right offset count false := by
  have hplace := normalize_eq_self_iff.mp h
  have hstart := t.lineStart_lineOf_le offset
  by_cases hcontent : offset < t.lineEnd (t.lineOf offset)
  · have hle : offset ≤ t.right offset count false := by
      simp only [right, lastCaretOffset, Bool.false_eq_true, if_false]
      omega
    have hend : t.right offset count false < t.lineEnd (t.lineOf offset) := by
      simp only [right, lastCaretOffset, Bool.false_eq_true, if_false]
      omega
    have hline := lineOf_eq_of_lt_lineEnd hle hend
    exact ⟨hline, normalize_of_lt_lineEnd (by rwa [hline])⟩
  · have hsame : t.right offset count false = offset := by
      simp only [right, lastCaretOffset, Bool.false_eq_true, if_false]
      omega
    rw [hsame]
    exact ⟨rfl, h⟩

theorem right_eq (count : Nat) : t.right offset count false = (t.right · 1 false)^[count] offset := by
  induction count with
  | zero =>
    rw [normalize_eq_min] at h
    exact h
  | succ count ih =>
    rw [Function.iterate_succ_apply', ← ih]
    show _ = min (t.right offset count false + 1) (t.lastCaretOffset (t.lineOf _) false)
    rw [(right_rests h count).1]
    unfold right
    omega

end Right

end Text

/-! ### The motions -/

/-- Other than for an operator, a motion to the start of a word comes to rest on a character. -/
theorem Motion.wordForward_of_resting {ctx : MotionContext} (htext : ctx.text ≠ [])
    (hpending : ctx.operatorPending = false) (big : Bool) : Motion.wordForward big ctx =
      ctx.moved (ctx.text.normalize (ctx.text.wordForward ctx.offset ctx.count big) ctx.allowEnd) := by
  unfold Motion.wordForward
  rw [if_neg (by simpa using htext), hpending]
  rfl

namespace MotionKey

open Text

variable {m : MotionKey} {t : Text} {caret : CaretId} {state : CaretState}

/-- The step that a motion along a line or by words repeats. -/
def next (m : MotionKey) (t : Text) : Nat → Nat :=
  match m with
  | left => (t.left · 1)
  | right => (t.right · 1 false)
  | wordForward big => t.nextWord big
  | wordBackward big => t.previousWord big
  | wordEnd big => t.nextWordEnd big
  | wordEndBackward big => t.previousWordEnd big
  | down | up => id

/-- The repeated step may be drawn onto the line of the caret at the end or after every step. -/
theorem normalize_iterate_next {offset : Nat} (h : t.normalize offset false = offset) (n : Nat) :
    t.normalize ((m.next t)^[n] offset) false =
      (fun p ↦ t.normalize (m.next t p) false)^[n] offset := by
  cases m with
  | left => exact normalize_iterate_of_rest (fun p hp ↦ normalize_left hp 1) n h
  | right => exact normalize_iterate_of_rest (fun p hp ↦ (right_rests hp 1).2) n h
  | down | up => exact normalize_iterate_of_rest (fun p hp ↦ hp) n h
  | wordForward big => exact normalize_iterate_nextWord big n h
  | wordBackward big =>
    refine normalize_iterate_of_rest (fun p _ ↦ ?_) n h
    exact (t.nearestBelow_previousWord big p).normalize fun q ↦ normalize_of_mem_wordStarts
  | wordEnd big =>
    refine normalize_iterate_of_rest (fun p hp ↦ ?_) n h
    rcases t.nearestAbove_nextWordEnd big p with ⟨⟨hmem, -⟩, -⟩ | ⟨-, hstays⟩
    · exact normalize_of_mem_wordEnds hmem
    · rw [next, hstays]
      exact hp
  | wordEndBackward big =>
    refine normalize_iterate_of_rest (fun p _ ↦ ?_) n h
    exact (t.nearestBelow_previousWordEnd big p).normalize fun q ↦
      normalize_of_mem_wordEndsAndEmptyLines

/-- A motion to a destination other than where the caret is takes it there, and else fails. -/
theorem step_offset_of_moved {c : TypedCount} (hnormal : t.normalize state.offset false = state.offset)
    {destination : Nat} (hmotion : m.motion (m.context c t caret state) =
      (m.context c t caret state).moved destination) :
    (m.step c t caret state).offset = t.normalize destination false := by
  unfold step
  rw [hmotion, MotionContext.moved]
  by_cases hsame : destination = (m.context c t caret state).offset
  · rw [if_pos hsame, hsame]
    exact hnormal.symm
  · rw [if_neg hsame]

/-- A motion along a line or by words takes a caret as many steps as are counted. -/
theorem step_offset (hm : m.isVertical = false) (c : TypedCount)
    (hnormal : t.normalize state.offset false = state.offset) :
    (m.step c t caret state).offset =
      t.normalize ((m.next t)^[c.limited] state.offset) false := by
  have hcount : (m.context c t caret state).count = c.limited := m.call_count c
  have hsteps : max (m.context c t caret state).count 1 = c.limited :=
    hcount.symm ▸ Nat.max_eq_left c.limited_pos
  cases m with
  | left =>
    refine step_offset_of_moved hnormal ?_
    show MotionContext.moved _ (t.left state.offset _) = _
    rw [hcount, left_eq]
    rfl
  | right =>
    refine step_offset_of_moved hnormal ?_
    show MotionContext.moved _ (t.right state.offset _ false) = _
    rw [hcount, right_eq hnormal]
    rfl
  | down | up => cases hm
  | wordForward big =>
    cases t with
    | nil =>
      have hzero : state.offset = 0 := Nat.le_zero.mp (le_length_sub_one hnormal)
      have hend := normalize_le_length [] ((next (wordForward big) [])^[c.limited] state.offset) false
      exact hzero.trans (Nat.le_zero.mp hend).symm
    | cons first rest =>
      have hmotion : (wordForward big).motion (context (wordForward big) c (first :: rest) caret state) =
          (context (wordForward big) c (first :: rest) caret state).moved
            (normalize (first :: rest) (iterate (nextWord (first :: rest) big)
              (max (context (wordForward big) c (first :: rest) caret state).count 1) state.offset)
              false) :=
        Motion.wordForward_of_resting (List.cons_ne_nil first rest) rfl big
      rw [step_offset_of_moved hnormal hmotion, normalize_normalize, hsteps, iterate_eq]
      rfl
  | wordBackward big =>
    refine step_offset_of_moved hnormal ?_
    show MotionContext.moved _ (iterate (t.previousWord big) _ state.offset) = _
    rw [hsteps, iterate_eq]
    rfl
  | wordEnd big =>
    have hstart : min state.offset (t.length - 1) = state.offset :=
      Nat.min_eq_left (le_length_sub_one hnormal)
    refine step_offset_of_moved hnormal ?_
    show MotionContext.moved _ (iterate (t.nextWordEnd big) _ (min state.offset (t.length - 1))) = _
    rw [hstart, Bool.false_and, if_neg Bool.false_ne_true, hsteps, iterate_eq]
    rfl
  | wordEndBackward big =>
    refine step_offset_of_moved hnormal ?_
    show MotionContext.moved _ (iterate (t.previousWordEnd big) _ state.offset) = _
    rw [hsteps, iterate_eq]
    rfl

end MotionKey

namespace Session

open Text

variable {s : Session} {m : MotionKey} {caret : CaretId} {offset : Nat}

/-- A count and a motion take a caret as many steps as are counted. -/
theorem ReadsCommands.moves_to (h : s.ReadsCommands) (hanchored : s.edit.Anchored)
    (hm : m.isVertical = false) (c : TypedCount) (hstands : s.editor.caretOffset? caret = some offset)
    (hnormal : s.editor.text.normalize offset false = offset) :
    (s.handleAll (c.strokes ++ m.keys)).2.editor.caretOffset? caret =
      some (s.editor.text.normalize ((m.next s.editor.text)^[c.limited] offset) false) := by
  obtain ⟨-, -, -, hcarets⟩ := h.moves hanchored m c
  have hstate : s.edit.remembered caret =
      some (CaretTable.placed (s.edit.carets.get? caret) offset) := by
    rw [EditState.remembered, show s.edit.caretOffset? caret = some offset from hstands]
    rfl
  have hafter := EditState.remembered_offset (s.handleAll (c.strokes ++ m.keys)).2.edit caret
  rw [hcarets caret, hstate] at hafter
  refine hafter.symm.trans (congrArg some ?_)
  exact MotionKey.step_offset hm c hnormal

/-- Typed again and again without a count, the motion takes the caret one step at a time. -/
theorem ReadsCommands.moves_repeatedly (h : s.ReadsCommands) (hanchored : s.edit.Anchored)
    (hm : m.isVertical = false) (hstands : s.editor.caretOffset? caret = some offset)
    (hnormal : s.editor.text.normalize offset false = offset) (n : Nat) :
    let after := (s.handleAll (List.replicate n m.keys).flatten).2
    after.ReadsCommands ∧ after.edit.Anchored ∧ after.editor.text = s.editor.text ∧
      after.editor.caretOffset? caret =
        some ((fun p ↦ s.editor.text.normalize (m.next s.editor.text p) false)^[n] offset) := by
  induction n with
  | zero => exact ⟨h, hanchored, rfl, hstands⟩
  | succ n ih =>
    obtain ⟨hreads, hanchors, htext, hplace⟩ := ih
    have hresting : s.editor.text.normalize
        ((fun p ↦ s.editor.text.normalize (m.next s.editor.text p) false)^[n] offset) false =
          (fun p ↦ s.editor.text.normalize (m.next s.editor.text p) false)^[n] offset := by
      rw [← MotionKey.normalize_iterate_next hnormal n, normalize_normalize]
    rw [List.replicate_succ', List.flatten_append, List.flatten_singleton, handleAll_append,
      Function.iterate_succ_apply']
    generalize (s.handleAll (List.replicate n m.keys).flatten).2 = after at *
    have hkeys : (({} : TypedCount).strokes ++ m.keys) = m.keys := rfl
    obtain ⟨hagain, hanchored', htext', -⟩ := hreads.moves hanchors m {}
    have hstep := hreads.moves_to hanchors hm {} hplace (by rw [htext]; exact hresting)
    rw [hkeys] at hagain hanchored' htext' hstep
    rw [htext] at hstep
    exact ⟨hagain, hanchored', htext'.trans htext, hstep⟩

/-- A motion along a line or by words with a count takes a caret to where the motion takes it if it is
typed as often without one. -/
theorem counted_motion_repeats (h : s.ReadsCommands) (hanchored : s.edit.Anchored)
    (hm : m.isVertical = false) (c : TypedCount) (hstands : s.editor.caretOffset? caret = some offset)
    (hnormal : s.editor.text.normalize offset false = offset) :
    ∃ place,
      (s.handleAll (c.strokes ++ m.keys)).2.editor.caretOffset? caret = some place ∧
      (s.handleAll (List.replicate c.limited m.keys).flatten).2.editor.caretOffset? caret =
        some place := by
  refine ⟨_, h.moves_to hanchored hm c hstands hnormal, ?_⟩
  rw [(h.moves_repeatedly hanchored hm hstands hnormal c.limited).2.2.2,
    MotionKey.normalize_iterate_next hnormal]

/-- From the first of two words, `3w` and `www` go to the last character of the line. -/
theorem words_counted_past_last :
    let s : Session := withCaret "ab cd\n".toList 0
    let c : TypedCount := { digits := [3] }
    c.limited = 3 ∧ ∃ place,
      (s.handleAll (c.strokes ++ (MotionKey.wordForward false).keys)).2.editor.caretOffset? ⟨0⟩ =
        some place ∧
      (s.handleAll (List.replicate 3 (MotionKey.wordForward false).keys).flatten).2.editor.caretOffset?
        ⟨0⟩ = some place := by
  intro s c
  have hlone : s.edit.Lone ⟨0⟩ 0 := withCaret_lone (Nat.zero_le _)
  have hlimited : c.limited = 3 := by decide
  have hplace := counted_motion_repeats (m := .wordForward false)
    (withCaret_readsCommands "ab cd\n".toList 0) hlone.toAnchored rfl c hlone.stands rfl
  rw [hlimited] at hplace
  exact ⟨hlimited, hplace⟩

end Session

end ModalEdit
