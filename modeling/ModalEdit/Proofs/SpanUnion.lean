import ModalEdit.Proofs.CaretTable
import ModalEdit.Proofs.StandardSession
import ModalEdit.Proofs.TextReplacement

/-!
Spans of characters deleted or changed at all carets. Each run takes one span out of what the runs before
have left of the text (`Revision.Lacks`), wherever the spans meet, overlap or lie within one another, so
that what is gone in the end is the union of the spans.
-/

set_option autoImplicit false
set_option relaxedAutoImplicit false

namespace ModalEdit

namespace Revision

/-- To take out what is between two offsets draws the offsets there to the first of them. -/
def erasingBetween (t : Text) (a b : Nat) : Revision :=
  ⟨t.erase a b, MarkSet.offsetAfterErase (min (min a b) t.length) (min (max a b) t.length)⟩

def erasing (t : Text) (r : TextRange) : Revision := erasingBetween t r.start r.stop

/-- The characters at some offsets of a text are gone, and no other change has been made. -/
structure Lacks (v : Revision) (t : Text) (gone : Nat → Bool) : Prop where
  text : v.text = t.without gone
  follow : ∀ offset, v.follow offset = t.placeAt (Text.leaveOut gone) offset

section Lacks

variable {v : Revision} {t : Text} {gone : Nat → Bool}

theorem start_lacks (t : Text) : (start t).Lacks t fun _ ↦ false where
  text := ((t.without_eq_replaceEach _).trans (Text.replaceEach_eq_self fun _ _ ↦ rfl)).symm
  follow offset := (Text.placeAt_eq_min (fun _ _ ↦ rfl) offset).symm

/-- What has become of offsets keeps their order, so a span is carried end by end. -/
theorem Lacks.carried_eq (h : v.Lacks t gone) (r : TextRange) :
    (v.carried r).start = t.placeAt (Text.leaveOut gone) r.start ∧
      (v.carried r).stop = t.placeAt (Text.leaveOut gone) r.stop := by
  have hle := t.placeAt_mono (Text.leaveOut gone) r.start_le_stop
  simp only [carried, TextRange.between, h.follow, Nat.min_eq_left hle, Nat.max_eq_right hle, and_self]

/-- Nothing is left of a span that is gone as a whole. -/
theorem replaceEachIn_leaveOut {a b : Nat} (h : ∀ offset, a ≤ offset → offset < b → gone offset = true) :
    t.replaceEachIn (Text.leaveOut gone) a b = [] := by
  refine List.flatMap_eq_nil_iff.mpr fun (c, offset) hmem ↦ ?_
  obtain ⟨hle, hlt, -⟩ := List.mem_zipIdx hmem
  rw [List.length_take] at hlt
  exact if_pos (h offset hle (by omega))

section Between

variable {a b offset : Nat} {more : Nat → Bool}
  (hmore : ∀ offset, more offset = (gone offset || (a ≤ offset && offset < b)))

include hmore

theorem leaveOut_of_outside (ho : offset < a ∨ b ≤ offset) :
    Text.leaveOut gone offset = Text.leaveOut more offset := by
  have hnot : (a ≤ offset && offset < b : Bool) = false := by
    simp only [Bool.and_eq_false_iff, decide_eq_false_iff_not]
    omega
  unfold Text.leaveOut
  rw [hmore, hnot, Bool.or_false]

theorem replaceEachIn_of_between {stop : Nat} (hstop : stop ≤ b) :
    t.replaceEachIn (Text.leaveOut more) a stop = [] := by
  refine replaceEachIn_leaveOut fun offset ha ho ↦ ?_
  have hlt : offset < b := Nat.lt_of_lt_of_le ho hstop
  simp only [hmore, ha, hlt, decide_true, Bool.and_self, Bool.or_true]

theorem placeAt_before (ho : offset ≤ a) :
    t.placeAt (Text.leaveOut more) offset = t.placeAt (Text.leaveOut gone) offset :=
  Text.placeAt_of_le (fun _ hlt ↦ leaveOut_of_outside hmore (.inl hlt)) ho

/-- What lay between is where the first of it was. -/
theorem placeAt_between (ha : a ≤ offset) (hb : offset ≤ b) :
    t.placeAt (Text.leaveOut more) offset = t.placeAt (Text.leaveOut gone) a := by
  rw [Text.placeAt_eq_add ha, replaceEachIn_of_between hmore hb, placeAt_before hmore (Nat.le_refl _)]
  rfl

end Between

/-- What lies between two offsets more is gone. -/
theorem Lacks.erasedBetween (h : v.Lacks t gone) {a b : Nat} (hab : a ≤ b) {more : Nat → Bool}
    (hmore : ∀ offset, more offset = (gone offset || (a ≤ offset && offset < b))) {next : Revision}
    (hnext : next = erasingBetween v.text (t.placeAt (Text.leaveOut gone) a)
      (t.placeAt (Text.leaveOut gone) b)) :
    Lacks ⟨next.text, next.follow ∘ v.follow⟩ t more := by
  subst hnext
  have hle := t.placeAt_mono (Text.leaveOut gone) hab
  have hend := t.placeAt_le_length (Text.leaveOut gone) b
  have htext : v.text = t.replaceEach (Text.leaveOut gone) :=
    h.text.trans (t.without_eq_replaceEach gone)
  constructor
  · show v.text.erase _ _ = _
    rw [Text.without_eq_replaceEach, Text.replaceEach_of_outside hab fun _ ↦ leaveOut_of_outside hmore,
      replaceEachIn_of_between hmore (Nat.le_refl _), List.append_nil, Text.erase, Nat.min_eq_left hle,
      Nat.max_eq_right hle, htext]
  · intro offset
    show MarkSet.offsetAfterErase _ _ (v.follow offset) = _
    rw [h.follow, Nat.min_eq_left hle, Nat.max_eq_right hle, htext,
      Nat.min_eq_left (Nat.le_trans hle hend), Nat.min_eq_left hend, MarkSet.offsetAfterErase]
    rcases Nat.le_total offset a with hbefore | hafter
    · have hmono := t.placeAt_mono (Text.leaveOut gone) hbefore
      rw [placeAt_before hmore hbefore]
      split <;> omega
    · rcases Nat.le_total offset b with hwithin | hbehind
      · have hlow := t.placeAt_mono (Text.leaveOut gone) hafter
        have hhigh := t.placeAt_mono (Text.leaveOut gone) hwithin
        rw [placeAt_between hmore hafter hwithin]
        split <;> omega
      · have hmono := t.placeAt_mono (Text.leaveOut gone) hbehind
        have hshift := Text.placeAt_of_ge (t := t) (g := Text.leaveOut gone) (h := Text.leaveOut more)
          (fun _ ho ↦ leaveOut_of_outside hmore (.inr ho)) hbehind
        rw [placeAt_between hmore hab (Nat.le_refl _)] at hshift
        split <;> omega

/-- One span more is gone. -/
theorem Lacks.next (h : v.Lacks t gone) (r : TextRange) :
    (v.next erasing r).Lacks t fun offset ↦ gone offset || r.contains offset := by
  obtain ⟨hstart, hstop⟩ := h.carried_eq r
  exact h.erasedBetween r.start_le_stop (fun _ ↦ rfl) (by rw [erasing, hstart, hstop])

/-- After all spans have been taken out in turn, their union is gone. -/
theorem Lacks.foldl_next (h : v.Lacks t gone) (ranges : List TextRange) :
    (ranges.foldl (Revision.next erasing) v : Revision).Lacks t
      fun offset ↦ gone offset || ranges.any (·.contains offset) := by
  induction ranges generalizing v gone with
  | nil => simpa only [List.foldl_nil, List.any_nil, Bool.or_false] using h
  | cons r rest ih => simpa only [List.foldl_cons, List.any_cons, Bool.or_assoc] using ih (h.next r)

end Lacks

end Revision

namespace Operator

/-- What is between two offsets is taken out and recorded. -/
theorem revises_of_erases {body : Operator} {kind : RangeKind} {a b : Text → TextRange → Nat}
    (h : ∀ e args, args.range.kind = kind → ∃ content, (body e args).2 =
      (e.eraseRange (a e.text args.range) (b e.text args.range)).2.recordDelete args.register content) :
    body.Revises kind fun t r ↦ Revision.erasingBetween t (a t r) (b t r) where
  text e args hkind := by
    obtain ⟨content, heq⟩ := h e args hkind
    rw [heq]
    rfl
  marks e args hkind := by
    obtain ⟨content, heq⟩ := h e args hkind
    rw [heq]
    rfl
  carets e args hkind := by
    obtain ⟨content, heq⟩ := h e args hkind
    rw [heq]
    rfl

theorem delete_revises : delete.Revises .characterwise Revision.erasing := by
  refine revises_of_erases fun e ⟨caret, ⟨start, stop, kind, hle⟩, register, count⟩ hkind ↦ ?_
  cases hkind
  exact ⟨_, rfl⟩

theorem change_revises : change.Revises .characterwise Revision.erasing := by
  refine revises_of_erases fun e ⟨caret, ⟨start, stop, kind, hle⟩, register, count⟩ hkind ↦ ?_
  cases hkind
  exact ⟨_, rfl⟩

end Operator

namespace EditState

/-- The motion over two characters. -/
def twoRight : ActionCall :=
  { kind := .motion, action := ActionId.right, rawCount := some 2, flags := Builtin.exclusive }

theorem twoRight_registered : Registry.standard.get? twoRight.action =
    some (Builtin.motion ActionId.right Motion.right Builtin.exclusive) :=
  Registry.standard_get?_of_mem (a := Builtin.motion ActionId.right Motion.right Builtin.exclusive)
    (by simp [Builtin.actions, Builtin.motions])

/-- Deleting or changing spans of characters at all carets takes out what lies in at least one of the
spans, and nothing else. -/
theorem compose_removes_union {s : EditState} (hs : s.editor.Sound) {body : Operator}
    (hbody : body = Operator.delete ∨ body = Operator.change) (registry : Registry) (command : Command)
    (hkind : ∀ p ∈ s.plannedSpans registry command, p.2.kind = .characterwise) :
    (s.compose registry command body).2.text =
      s.text.without fun offset ↦ (s.plannedSpans registry command).any (·.2.contains offset) := by
  have hrevises : body.Revises .characterwise Revision.erasing := by
    rcases hbody with rfl | rfl
    · exact Operator.delete_revises
    · exact Operator.change_revises
  have hunion := ((Revision.start_lacks s.text).foldl_next
    ((s.plannedSpans registry command).map (·.2))).text
  rw [compose_text hs hrevises registry command hkind, hunion]
  simp only [Bool.false_or, List.any_map, Function.comp_def]

/-- Two carets next to each other delete two characters each, of which they share one. -/
theorem overlapping_spans_removed :
    let s : EditState := { editor := .ofMarked { text := "abcdef".toList, carets := [0, 1] } }
    let command : Command :=
      { kind := .operator, action := ActionId.delete, argument := some twoRight }
    (s.plannedSpans .standard command).map (·.2) =
        [.between 0 2 .characterwise, .between 1 3 .characterwise] ∧
      (s.compose .standard command .delete).2.text = "def".toList := by
  intro s command
  have hordered : s.syncCarets.carets.orderedByOffset = [⟨0⟩, ⟨1⟩] :=
    CaretTable.orderedByOffset_of_pairwise (by decide +kernel)
  have hspans : s.plannedSpans .standard command =
      [(⟨0⟩, .between 0 2 .characterwise), (⟨1⟩, .between 1 3 .characterwise)] := by
    rw [plannedSpans_of_get? rfl twoRight_registered, plannedRanges, hordered]
    decide +kernel
  have hs : s.editor.Sound := Editor.ofMarked_sound { text := "abcdef".toList, carets := [0, 1] }
  have hunion := compose_removes_union hs (.inl rfl) .standard command (by rw [hspans]; decide)
  rw [hunion, hspans]
  exact ⟨rfl, rfl⟩

end EditState

end ModalEdit
