import Mathlib.Data.Nat.Find
import ModalEdit.Proofs.LineEnds
import ModalEdit.Proofs.Overwriting
import ModalEdit.Proofs.SpanUnion

/-!
Where carets stand when the spans of all of them have been deleted. Each deletion puts its own caret at the
start of the span and normalizes it there, and takes the other carets along (`Deleting.operateOn`). So, told
by an offset of the text before, a caret is left somewhere by its own deletion and is moved by no other
(`Text.leftAt`). But it is not normalized again when the spans of carets behind it are deleted, and these may
take all that was left of its line from the character it was left on. So a caret rests unless it is stranded
behind what remains of its line (`delete_rests_iff`).
-/

set_option autoImplicit false
set_option relaxedAutoImplicit false

namespace ModalEdit

namespace Text

/-- The offset from which what is found at a place has come, when the characters at some offsets are gone. -/
def originOf (t : Text) (gone : Nat → Bool) (place : Nat) : Nat :=
  Nat.findGreatest (fun offset ↦ t.placeAt (leaveOut gone) offset ≤ place) t.length

/-- At the end of its line or past it, with something on the line before it. -/
def Stranded (t : Text) (offset : Nat) : Prop :=
  t.lineStart (t.lineOf offset) < offset ∧ ∀ c, t.charAt offset = some c → c = '\n'

section Origins

variable {t : Text} {gone : Nat → Bool} {offset place : Nat}

theorem normalize_eq_self_iff_not_stranded :
    t.normalize offset false = offset ↔ ¬ t.Stranded offset := by
  have hstart := t.lineStart_lineOf_le offset
  rw [normalize_eq_self_iff, lt_lineEnd_iff, Stranded, not_and, Classical.not_forall]
  constructor
  · rintro (⟨c, hc, hne⟩ | heq) hlt
    · exact ⟨c, fun himp ↦ hne (himp hc)⟩
    · exact absurd heq (Nat.ne_of_gt hlt)
  · intro h
    rcases Nat.lt_or_eq_of_le hstart with hlt | heq
    · obtain ⟨c, hc⟩ := h hlt
      rw [Classical.not_imp] at hc
      exact .inl ⟨c, hc⟩
    · exact .inr heq.symm

/-- A character that stays is found at its place. -/
theorem charAt_without {c : Char} (hkept : gone offset = false) (hc : t.charAt offset = some c) :
    (t.without gone).charAt (t.placeAt (leaveOut gone) offset) = some c := by
  obtain ⟨hlt, rfl⟩ := List.getElem?_eq_some_iff.mp hc
  have hrest : (t.without gone).drop (t.placeAt (leaveOut gone) offset) =
      t[offset] :: replaceEachFrom (offset + 1) (t.drop (offset + 1)) (leaveOut gone) := by
    rw [without_eq_replaceEach, drop_placeAt, List.drop_eq_getElem_cons hlt, replaceEachFrom_cons, leaveOut,
      hkept]
    rfl
  rw [charAt, ← List.head?_drop, hrest, List.head?_cons]

theorem placeAt_leaveOut_succ_le (t : Text) (gone : Nat → Bool) (offset : Nat) :
    t.placeAt (leaveOut gone) (offset + 1) ≤ t.placeAt (leaveOut gone) offset + 1 := by
  rw [placeAt_eq_add (Nat.le_add_right offset 1), replaceEachIn, Nat.add_sub_cancel_left]
  refine Nat.add_le_add_left ?_ _
  cases hspan : (t.drop offset).take 1 with
  | nil => exact Nat.zero_le 1
  | cons old rest =>
    have hnone : rest = [] := by
      have hlength := congrArg List.length hspan
      rw [List.length_take, List.length_cons] at hlength
      exact List.eq_nil_of_length_eq_zero (by omega)
    rw [hnone, replaceEachFrom_cons, leaveOut]
    split
    · exact Nat.zero_le 1
    · exact Nat.le_refl 1

/-- What has come from an offset is at the place of that offset. -/
theorem placeAt_originOf (hle : place ≤ (t.without gone).length) :
    t.placeAt (leaveOut gone) (t.originOf gone place) = place := by
  let P (offset : Nat) : Prop := t.placeAt (leaveOut gone) offset ≤ place
  have hspec : t.placeAt (leaveOut gone) (t.originOf gone place) ≤ place :=
    Nat.findGreatest_spec (P := P) (Nat.zero_le t.length) (Nat.zero_le place)
  refine Nat.le_antisymm hspec ?_
  rcases Nat.lt_or_eq_of_le (Nat.findGreatest_le (P := P) t.length) with hlt | hend
  · have hbeyond : ¬ t.placeAt (leaveOut gone) (t.originOf gone place + 1) ≤ place :=
      Nat.findGreatest_is_greatest (P := P) (Nat.lt_succ_self _) hlt
    have hstep := t.placeAt_leaveOut_succ_le gone (t.originOf gone place)
    omega
  · rw [originOf, hend, placeAt_length, ← without_eq_replaceEach]
    exact hle

end Origins

/-- Where a caret is left that is put at the start of a span when the characters at some offsets are gone, as
an offset of the text with them. -/
def landing (t : Text) (gone : Nat → Bool) (start : Nat) : Nat :=
  t.originOf gone ((t.without gone).normalize (t.placeAt (leaveOut gone) start) false)

/-- Whether an offset lies in one of some carets' spans. -/
def takenBy (planned : List (CaretId × TextRange)) (offset : Nat) : Bool := planned.any (·.2.contains offset)

/-- Where a caret is left when the spans of carets are deleted one by one, as an offset of the text before:
its own deletion puts it at the start of its span, and no other moves it. -/
def leftAt (t : Text) (planned : List (CaretId × TextRange)) (caret : CaretId) (offset : Nat) : Nat :=
  match planned.lookup caret with
  | none => offset
  | some r => t.landing (takenBy (planned.takeWhile (·.1 ≠ caret) ++ [(caret, r)])) r.start

section Left

variable {t : Text} {planned : List (CaretId × TextRange)} {caret : CaretId} {r : TextRange}

theorem takenBy_concat (planned : List (CaretId × TextRange)) (caret : CaretId) (r : TextRange)
    (offset : Nat) :
    takenBy (planned ++ [(caret, r)]) offset = (takenBy planned offset || r.contains offset) := by
  rw [takenBy, List.any_append, List.any_cons, List.any_nil, Bool.or_false]
  rfl

/-- The spans before that of a caret. -/
theorem takeWhile_before {before later : List (CaretId × TextRange)}
    (hbefore : ∀ entry ∈ before, caret ≠ entry.1) :
    (before ++ (caret, r) :: later).takeWhile (·.1 ≠ caret) = before := by
  rw [List.takeWhile_append_of_pos fun entry hentry ↦ decide_eq_true (hbefore entry hentry).symm,
    List.takeWhile_cons_of_neg (by simp), List.append_nil]

theorem leftAt_concat_self (hnew : caret ∉ planned.map (·.1)) (offset : Nat) :
    t.leftAt (planned ++ [(caret, r)]) caret offset =
      t.landing (takenBy (planned ++ [(caret, r)])) r.start := by
  have hbefore : ∀ entry ∈ planned, caret ≠ entry.1 := fun entry hentry heq ↦
    hnew (List.mem_map.mpr ⟨entry, hentry, heq.symm⟩)
  have hfound : (planned ++ [(caret, r)]).lookup caret = some r := by
    rw [List.lookup_append, CaretTable.lookup_eq_none_of_notMem hnew, Option.none_or, List.lookup_cons_self]
  rw [leftAt, hfound, takeWhile_before hbefore]

theorem leftAt_concat_of_ne {other : CaretId} (hne : other ≠ caret) (offset : Nat) :
    t.leftAt (planned ++ [(caret, r)]) other offset = t.leftAt planned other offset := by
  have hsame : (planned ++ [(caret, r)]).lookup other = planned.lookup other := by
    rw [List.lookup_append, lookup_cons_eq_ite, if_neg hne, List.lookup_nil, Option.or_none]
  rw [leftAt, leftAt, hsame]
  cases hfound : planned.lookup other with
  | none => rfl
  | some span =>
    obtain ⟨before, later, rfl, hbefore⟩ := List.lookup_eq_some_iff.mp hfound
    have hbefore' : ∀ entry ∈ before, other ≠ entry.1 := fun entry hentry ↦
      bne_iff_ne.mp (hbefore entry hentry)
    dsimp only
    rw [List.append_assoc, List.cons_append, takeWhile_before hbefore', takeWhile_before hbefore']

end Left

end Text

namespace Revision

/-- The text without the characters at some offsets. -/
def lacking (t : Text) (gone : Nat → Bool) : Revision := ⟨t.without gone, t.placeAt (Text.leaveOut gone)⟩

theorem lacking_lacks (t : Text) (gone : Nat → Bool) : (lacking t gone).Lacks t gone := ⟨rfl, fun _ ↦ rfl⟩

theorem Lacks.eq_lacking {v : Revision} {t : Text} {gone : Nat → Bool} (h : v.Lacks t gone) :
    v = lacking t gone := by
  obtain ⟨text, follow⟩ := v
  obtain ⟨htext, hfollow⟩ := h
  rw [lacking, Revision.mk.injEq]
  exact ⟨htext, funext hfollow⟩

/-- One caret's span more is gone. -/
theorem next_lacking (t : Text) (done : List (CaretId × TextRange)) (caret : CaretId) (r : TextRange) :
    (lacking t (Text.takenBy done)).next erasing r = lacking t (Text.takenBy (done ++ [(caret, r)])) := by
  have hmore : Text.takenBy (done ++ [(caret, r)]) =
      fun offset ↦ Text.takenBy done offset || r.contains offset :=
    funext (Text.takenBy_concat done caret r)
  rw [hmore]
  exact ((lacking_lacks t _).next r).eq_lacking

end Revision

namespace EditState

/-! ### One deletion -/

/-- The editor without a span that marks held and with what was in it recorded. -/
def erasedPinned (s : EditState) (p : PinnedRange) (r : TextRange) (register : Option Char) : Editor :=
  let e := (s.editor.releaseMark p.first).releaseMark p.last
  (e.eraseRange r.start r.stop).2.recordDelete register ⟨e.text.slice r.start r.stop, .characterwise⟩

/-- A caret is put at the start of its span once that is gone, and normalized. -/
theorem operateOn_delete {s : EditState} {v : Revision} {p : PinnedRange} {r : TextRange}
    (h : Shows s.editor v.follow p r) (hkind : r.kind = .characterwise) (call : ActionCall) (mode : Mode) :
    operateOn call .delete mode s p =
      (.normal, { s with editor := s.erasedPinned p (v.carried r) call.register }.moveCaret p.caret
        ((s.erasedPinned p (v.carried r) call.register).text.normalize (v.carried r).start false)) := by
  obtain ⟨start, stop, kind, hle⟩ := r
  cases hkind
  unfold operateOn
  rw [unpin_eq h]
  rfl

/-- The spans of some carets have been deleted and those of others wait, each held by marks of its own. Every
caret stands where it was left. -/
structure Deleting (start : EditState) (done todo : List (CaretId × TextRange)) (pins : List PinnedRange)
    (s : EditState) : Prop where
  anchored : s.Anchored
  same : s.editor.carets = start.editor.carets
  modes : s.modes = start.modes
  pinned : Pins s (.lacking start.text (Text.takenBy done)) pins (todo.map (·.2))
  carets : pins.map (·.caret) = todo.map (·.1)
  young : ∀ mark ∈ pins.flatMap PinnedRange.marks, start.editor.buffer.marks.next ≤ mark.serial
  places : ∀ caret offset, start.caretOffset? caret = some offset →
    s.caretOffset? caret = some (start.text.placeAt (Text.leaveOut (Text.takenBy done))
      (start.text.leftAt done caret offset))

namespace Deleting

variable {start s : EditState} {done todo : List (CaretId × TextRange)} {caret : CaretId} {r : TextRange}
  {p : PinnedRange} {pins : List PinnedRange}

/-- The marks of a span that waits are none of the carets'. -/
theorem not_holds (h : Deleting start done todo pins s) (hstart : start.Anchored) {mark : Mark}
    (hmark : mark ∈ pins.flatMap PinnedRange.marks) : ¬ s.editor.Holds mark := by
  rintro ⟨entry, hentry, hheld⟩
  rw [h.same] at hentry
  exact Nat.lt_irrefl _ (Nat.lt_of_lt_of_le (hstart.editor.lt_of_holds ⟨entry, hentry, hheld⟩)
    (h.young mark hmark))

/-- The span of one caret is deleted, which leaves that caret at its start and takes the others along. -/
theorem operateOn (h : Deleting start done ((caret, r) :: todo) (p :: pins) s) (hstart : start.Anchored)
    (hkind : r.kind = .characterwise) (hnew : caret ∉ done.map (·.1))
    (hmem : caret ∈ start.editor.caretIds) (call : ActionCall) (mode : Mode) :
    (EditState.operateOn call .delete mode s p).1 = .normal ∧
      Deleting start (done ++ [(caret, r)]) todo pins (EditState.operateOn call .delete mode s p).2 := by
  let t := start.text
  let v : Revision := .lacking t (Text.takenBy done)
  obtain ⟨more, hmore⟩ : ∃ more, more = Text.takenBy (done ++ [(caret, r)]) := ⟨_, rfl⟩
  have hnext : v.next .erasing r = .lacking t more := hmore ▸ Revision.next_lacking t done caret r
  have hshows : Shows s.editor v.follow p r := (List.forall₂_cons.mp h.pinned.shows).1
  obtain ⟨hcaret, hrest⟩ := List.cons.inj h.carets
  have hfirst : ¬ s.editor.Holds p.first := h.not_holds hstart (by simp [PinnedRange.marks])
  have hlast : ¬ s.editor.Holds p.last := h.not_holds hstart (by simp [PinnedRange.marks])
  let e : Editor := (s.editor.releaseMark p.first).releaseMark p.last
  have he : e.Anchored := (h.anchored.editor.releaseMark hfirst).releaseMark hlast
  let erased : Editor := s.erasedPinned p (v.carried r) call.register
  let place := erased.text.normalize (v.carried r).start false
  have hon : EditState.operateOn call .delete mode s p =
      (.normal, { s with editor := erased }.moveCaret caret place) :=
    (show p.caret = caret from hcaret) ▸ operateOn_delete hshows hkind call mode
  have hpins := operateOn_pins Operator.delete_revises call mode hkind h.pinned
  have hfollow (offset : Nat) : (Revision.erasing v.text (v.carried r)).follow (v.follow offset) =
      t.placeAt (Text.leaveOut more) offset := congrFun (congrArg Revision.follow hnext) offset
  have htext : erased.text = t.without more := by
    refine Eq.trans ?_ (congrArg Revision.text hnext)
    show s.text.erase _ _ = v.text.erase _ _
    rw [h.pinned.text]
  have hshift (other : CaretId) : erased.caretOffset? other =
      (s.caretOffset? other).map (Revision.erasing v.text (v.carried r)).follow := by
    have hkept : e.caretOffset? other = s.caretOffset? other :=
      ((h.anchored.editor.releaseMark_keeps hfirst other).trans
        ((h.anchored.editor.releaseMark hfirst).releaseMark_keeps hlast other)).offset
    refine (e.caretOffset?_eraseRange _ _ other).trans ?_
    rw [hkept, show e.text = v.text from h.pinned.text]
    rfl
  have herased : erased.Anchored := (he.eraseRange _ _).of_buffer rfl rfl rfl
  obtain ⟨-, hmoved⟩ := Moved.of_edited h.anchored herased
    rfl (by rw [Editor.caretIds, h.same]; exact hmem) (erased.text.normalize_le_length _ false) hshift
  rw [show v.next .erasing r = _ from hnext, hmore] at hpins
  rw [hon] at hpins ⊢
  refine ⟨rfl, hmoved.anchored, (Editor.moveCaret_carets _ _ _).trans h.same, h.modes, hpins, hrest,
    fun mark hmark ↦ h.young mark (List.mem_append_right _ hmark), fun other offset hoffset ↦ ?_⟩
  rw [← hmore]
  by_cases heq : other = caret
  · have hstartPlace : (v.carried r).start = t.placeAt (Text.leaveOut more) r.start := by
      rw [((Revision.lacking_lacks t _).carried_eq r).1, hmore]
      exact (Revision.placeAt_before (Text.takenBy_concat done caret r) (Nat.le_refl _)).symm
    rw [heq, Text.leftAt_concat_self hnew, ← hmore, Text.landing, Text.placeAt_originOf
      (Text.normalize_le_length _ _ _), ← hstartPlace, ← htext]
    exact hmoved.self
  · rw [Text.leftAt_concat_of_ne heq, ← hfollow]
    exact (hmoved.others other heq).trans (congrArg (Option.map _) (h.places other offset hoffset))

/-- One after the other all spans are deleted. -/
theorem run (h : Deleting start done todo pins s) (hstart : start.Anchored)
    (hkind : ∀ entry ∈ todo, entry.2.kind = .characterwise) (hnodup : ((done ++ todo).map (·.1)).Nodup)
    (hmem : ∀ entry ∈ todo, entry.1 ∈ start.editor.caretIds) (call : ActionCall) {mode : Mode}
    (hmode : mode = .normal) :
    let result := pins.foldl (fun (mode, s) p ↦ EditState.operateOn call .delete mode s p) (mode, s)
    result.1 = .normal ∧ Deleting start (done ++ todo) [] [] result.2 := by
  induction todo generalizing done pins s mode with
  | nil =>
    obtain rfl := List.map_eq_nil_iff.mp h.carets
    rw [List.append_nil]
    exact ⟨hmode, h⟩
  | cons entry todo ih =>
    obtain ⟨caret, r⟩ := entry
    obtain ⟨p, rest, rfl, -, -⟩ := List.map_eq_cons_iff.mp h.carets
    obtain ⟨hfirst, hlater⟩ := List.forall_mem_cons.mp hkind
    have hnew : caret ∉ done.map (·.1) := fun hdone ↦ by
      rw [List.map_append, List.nodup_append] at hnodup
      exact hnodup.2.2 caret hdone caret List.mem_cons_self rfl
    obtain ⟨hnormal, hnext⟩ := h.operateOn hstart hfirst hnew (hmem _ List.mem_cons_self) call mode
    rw [List.append_cons] at hnodup ⊢
    exact ih hnext hlater hnodup (fun entry hentry ↦ hmem entry (List.mem_cons_of_mem _ hentry)) hnormal

theorem bell (h : Deleting start done todo pins s) : Deleting start done todo pins s.bell :=
  ⟨⟨h.anchored.editor.of_buffer rfl rfl rfl, h.anchored.carets⟩, h.same, h.modes,
    ⟨h.pinned.text, h.pinned.shows.imp fun _ _ hshows ↦ hshows.of_eq fun _ _ ↦ rfl, h.pinned.apart,
      h.pinned.unheld⟩, h.carets, h.young, h.places⟩

/-- The table of carets does not matter. -/
theorem of_syncCarets (h : Deleting start.syncCarets done todo pins s) : Deleting start done todo pins s :=
  ⟨h.anchored, h.same, h.modes, h.pinned, h.carets, h.young, h.places⟩

end Deleting

section Compose

variable {s : EditState}

/-- Pinning moves no caret. -/
theorem Anchored.pinAll (h : s.Anchored) (ranges : List (CaretId × TextRange)) :
    (s.pinAll ranges).2.Anchored ∧ (s.pinAll ranges).2.modes = s.modes ∧
      (s.pinAll ranges).1.map (·.caret) = ranges.map (·.1) ∧
      ∀ caret, (s.pinAll ranges).2.caretOffset? caret = s.caretOffset? caret := by
  induction ranges generalizing s with
  | nil => exact ⟨h, rfl, rfl, fun _ ↦ rfl⟩
  | cons entry rest ih =>
    have hfirst := h.editor.createMark entry.2.start
    obtain ⟨hanchored, hmodes, hcarets, hoffsets⟩ := ih (s := (s.pin entry.1 entry.2).2)
      ⟨hfirst.createMark entry.2.stop, h.carets⟩
    refine ⟨hanchored, hmodes, congrArg (entry.1 :: ·) hcarets, fun caret ↦ (hoffsets caret).trans ?_⟩
    exact ((h.editor.createMark_keeps entry.2.start caret).trans
      (hfirst.createMark_keeps entry.2.stop caret)).offset

/-- At the start all spans wait and every caret stands where it is. -/
theorem deleting_start (h : s.Anchored) (planned : List (CaretId × TextRange)) :
    Deleting s [] planned (s.pinAll planned).1 (s.pinAll planned).2 := by
  obtain ⟨hanchored, hmodes, hcarets, hoffsets⟩ := h.pinAll planned
  have hnone : Revision.start s.text = .lacking s.text (Text.takenBy []) :=
    (Revision.start_lacks s.text).eq_lacking
  refine ⟨hanchored, s.pinAll_carets planned, hmodes, hnone ▸ pinAll_pins h.editor.toSound planned, hcarets,
    s.le_serial_of_mem_pinAll planned, fun caret offset hoffset ↦ ?_⟩
  have hle : offset ≤ s.text.length := h.editor.caretOffset?_le hoffset
  have hplace : s.text.placeAt (Text.leaveOut (Text.takenBy [])) offset = offset :=
    Text.placeAt_leaveOut_none hle
  exact (hoffsets caret).trans (hoffset.trans (congrArg some hplace.symm))

/-- A command has a span for each caret at most. -/
theorem plannedSpans_carets (h : s.Anchored) (registry : Registry) (command : Command) :
    ((s.plannedSpans registry command).map (·.1)).Nodup ∧
      ∀ entry ∈ s.plannedSpans registry command, entry.1 ∈ s.editor.caretIds := by
  have hperm := orderedByOffset_perm h
  unfold plannedSpans
  split
  · exact ⟨List.nodup_nil, fun _ hentry ↦ absurd hentry List.not_mem_nil⟩
  · next argument spec _ =>
    unfold plannedRanges
    generalize hspan : (fun caret ↦ _ : CaretId → Option (CaretId × TextRange)) = span
    have hself (caret : CaretId) (entry : CaretId × TextRange) (hentry : span caret = some entry) :
        entry.1 = caret := by
      rw [← hspan] at hentry
      obtain ⟨state, -, hrange⟩ := Option.bind_eq_some_iff.mp hentry
      obtain ⟨r, -, hr⟩ := Option.bind_eq_some_iff.mp hrange
      rw [← Option.some.inj hr]
    constructor
    · rw [List.map_filterMap]
      refine (hperm.nodup_iff.mpr h.editor.distinct).filterMap fun first second caret hfirst hsecond ↦ ?_
      obtain ⟨entry, hentry, rfl⟩ := Option.map_eq_some_iff.mp hfirst
      obtain ⟨other, hother, heq⟩ := Option.map_eq_some_iff.mp hsecond
      rw [← hself first entry hentry, ← hself second other hother]
      exact heq.symm
    · intro entry hentry
      obtain ⟨caret, hcaret, hspanned⟩ := List.mem_filterMap.mp hentry
      rw [hself caret entry hspanned]
      exact hperm.subset hcaret

theorem enterMode_of_mode {target : Mode} (h : s.mode = target) : (s.enterMode target).2 = s := by
  have hcan : s.modes.canTransition target = true := by
    rw [ModeMachine.canTransition, show s.modes.mode = target from h, beq_self_eq_true, Bool.true_or]
  have hstays : s.modes.transition target = .ok s.modes := h ▸ s.modes.transition_self
  rw [enterMode, if_pos hcan, setMode, hstays]

/-- From the normal mode, what is planned is deleted and every caret stands where it was left. -/
theorem operate_deleting (h : s.Anchored) (hmode : s.mode = .normal) {planned : List (CaretId × TextRange)}
    (hkind : ∀ entry ∈ planned, entry.2.kind = .characterwise) (hnodup : (planned.map (·.1)).Nodup)
    (hmem : ∀ entry ∈ planned, entry.1 ∈ s.editor.caretIds) (call : ActionCall) :
    Deleting s planned [] [] (s.operate call .delete planned).2 := by
  obtain ⟨hnormal, hdone⟩ := (deleting_start h planned).run h hkind hnodup hmem call rfl
  have hstays := (congrArg ModeMachine.mode hdone.modes).trans hmode
  unfold operate
  dsimp only
  rw [hnormal, if_neg Mode.noConfusion, enterMode_of_mode hstays]
  exact hdone

theorem compose_deleting (h : s.Anchored) (hmode : s.mode = .normal) {registry : Registry} {command : Command}
    (hkind : ∀ p ∈ s.plannedSpans registry command, p.2.kind = .characterwise) :
    Deleting s (s.plannedSpans registry command) [] [] (s.compose registry command .delete).2 := by
  obtain ⟨hnodup, hmem⟩ := plannedSpans_carets h registry command
  unfold plannedSpans at hkind hnodup hmem ⊢
  unfold compose
  cases hfound : command.argument.bind fun argument ↦
      (registry.get? argument.action).map (argument, ·) with
  | none => exact (deleting_start h []).bell
  | some found =>
    rw [hfound] at hkind hnodup hmem
    dsimp only at hkind hnodup hmem ⊢
    split
    · next hnone =>
      rw [hnone]
      exact (deleting_start h.syncCarets []).of_syncCarets.bell
    · exact (operate_deleting h.syncCarets hmode hkind hnodup hmem command.toActionCall).of_syncCarets

end Compose

/-- Where spans of characters are deleted at all carets, each caret ends at the place of the offset where its
own deletion left it, and rests there if the character at that offset stays and is no line feed. All carets
rest just if none is stranded behind what remains of its line. -/
theorem delete_rests_iff {s : EditState} (h : s.Anchored) (hmode : s.mode = .normal) {registry : Registry}
    {command : Command} (hkind : ∀ p ∈ s.plannedSpans registry command, p.2.kind = .characterwise) :
    let t := s.text
    let planned := s.plannedSpans registry command
    let after := (s.compose registry command .delete).2
    let left := t.leftAt planned
    let place (caret : CaretId) (offset : Nat) : Nat :=
      t.placeAt (Text.leaveOut (Text.takenBy planned)) (left caret offset)
    after.mode = .normal ∧ after.text = t.without (Text.takenBy planned) ∧
    (∀ caret offset, s.caretOffset? caret = some offset →
      after.caretOffset? caret = some (place caret offset) ∧
      ∀ c, t.charAt (left caret offset) = some c → c ≠ '\n' →
        Text.takenBy planned (left caret offset) = false →
        after.text.normalize (place caret offset) false = place caret offset) ∧
    ((∀ caret offset, after.caretOffset? caret = some offset → after.text.normalize offset false = offset) ↔
      ∀ caret offset, s.caretOffset? caret = some offset → ¬ after.text.Stranded (place caret offset)) := by
  intro t planned after left place
  have hdeleted : Deleting s planned [] [] after := compose_deleting h hmode hkind
  have htext : after.text = t.without (Text.takenBy planned) := hdeleted.pinned.text
  have hids : after.editor.caretIds = s.editor.caretIds := congrArg (List.map Prod.fst) hdeleted.same
  refine ⟨(congrArg ModeMachine.mode hdeleted.modes).trans hmode, htext, fun caret offset hoffset ↦
    ⟨hdeleted.places caret offset hoffset, fun c hc hne hkept ↦ ?_⟩, fun hrests caret offset hoffset ↦ ?_,
    fun hfree caret offset hoffset ↦ ?_⟩
  · rw [Text.normalize_eq_self_iff_not_stranded, htext]
    exact fun hstranded ↦ hne (hstranded.2 c (Text.charAt_without hkept hc))
  · exact Text.normalize_eq_self_iff_not_stranded.mp (hrests caret _ (hdeleted.places caret offset hoffset))
  · have hmem : caret ∈ s.editor.caretIds := hids ▸ Editor.mem_caretIds_of_caretOffset? hoffset
    obtain ⟨before, -, hbefore⟩ := h.editor.exists_caretOffset? hmem
    obtain rfl := Option.some.inj (hoffset.symm.trans (hdeleted.places caret before hbefore))
    exact Text.normalize_eq_self_iff_not_stranded.mpr (hfree caret before hbefore)

/-- The motion over one character. -/
def oneRight : ActionCall := { kind := .motion, action := ActionId.right, flags := Builtin.exclusive }

/-- Two carets delete a character each, and each stands on the one behind. -/
theorem distant_deletions_rest :
    let s : EditState := { editor := .ofMarked { text := "abcd\n".toList, carets := [0, 2] } }
    let command : Command :=
      { kind := .operator, action := ActionId.delete, argument := some oneRight }
    let after := (s.compose .standard command .delete).2
    (s.Anchored ∧ s.mode = .normal ∧
      ∀ p ∈ s.plannedSpans .standard command, p.2.kind = .characterwise) ∧
    after.mode = .normal ∧ after.text = "bd\n".toList ∧ after.caretOffset? ⟨0⟩ = some 0 ∧
      after.caretOffset? ⟨1⟩ = some 1 ∧
      ∀ caret offset, after.caretOffset? caret = some offset →
        after.text.normalize offset false = offset := by
  intro s command after
  have hanchored : s.Anchored :=
    ⟨Editor.ofMarked_anchored { text := "abcd\n".toList, carets := [0, 2] }, List.nodup_nil⟩
  have hordered : s.syncCarets.carets.orderedByOffset = [⟨0⟩, ⟨1⟩] :=
    CaretTable.orderedByOffset_of_pairwise (by decide +kernel)
  have hargument : command.argument = some oneRight := rfl
  let planned : List (CaretId × TextRange) :=
    [(⟨0⟩, .between 0 1 .characterwise), (⟨1⟩, .between 2 3 .characterwise)]
  have hspans : s.plannedSpans .standard command = planned := by
    rw [plannedSpans_of_get? hargument twoRight_registered, plannedRanges, hordered]
    decide +kernel
  have hkind : ∀ p ∈ s.plannedSpans .standard command, p.2.kind = .characterwise := by
    rw [hspans]
    decide
  obtain ⟨hmode, htext, hplaces, hiff⟩ := delete_rests_iff hanchored rfl hkind
  rw [hspans] at htext hplaces hiff
  have hafter : after.text = "bd\n".toList := htext.trans (by decide +kernel)
  have hfree : ∀ caret ∈ s.editor.caretIds, ∀ offset ∈ s.caretOffset? caret, ¬ after.text.Stranded
      (s.text.placeAt (Text.leaveOut (Text.takenBy planned)) (s.text.leftAt planned caret offset)) := by
    simp only [← Text.normalize_eq_self_iff_not_stranded, hafter]
    decide +kernel
  exact ⟨⟨hanchored, rfl, hkind⟩, hmode, hafter,
    (hplaces ⟨0⟩ 0 (by decide +kernel)).1.trans (by decide +kernel),
    (hplaces ⟨1⟩ 2 (by decide +kernel)).1.trans (by decide +kernel),
    hiff.mpr fun caret offset hoffset ↦
      hfree caret (Editor.mem_caretIds_of_caretOffset? hoffset) offset hoffset⟩

/-- The second caret deletes what the first one has been left on, and strands it behind the line. -/
theorem adjacent_deletions_strand :
    let s : EditState := { editor := .ofMarked { text := "abc\n".toList, carets := [1, 2] } }
    let command : Command :=
      { kind := .operator, action := ActionId.delete, argument := some oneRight }
    let after := (s.compose .standard command .delete).2
    (s.Apart ∧ (∀ caret offset, s.caretOffset? caret = some offset →
        s.text.normalize offset false = offset) ∧
      ∀ p ∈ s.plannedSpans .standard command, p.2.kind = .characterwise) ∧
    after.mode = .normal ∧ after.text = "a\n".toList ∧ after.caretOffset? ⟨0⟩ = some 1 ∧
      after.text.normalize 1 false = 0 ∧
      ¬ ∀ caret offset, after.caretOffset? caret = some offset →
        after.text.normalize offset false = offset := by
  intro s command after
  have hanchored : s.Anchored :=
    ⟨Editor.ofMarked_anchored { text := "abc\n".toList, carets := [1, 2] }, List.nodup_nil⟩
  have hapart : s.Apart := by
    unfold Apart
    decide +kernel
  have hrests : ∀ caret ∈ s.editor.caretIds, ∀ offset ∈ s.caretOffset? caret,
      s.text.normalize offset false = offset := by decide +kernel
  have hordered : s.syncCarets.carets.orderedByOffset = [⟨0⟩, ⟨1⟩] :=
    CaretTable.orderedByOffset_of_pairwise (by decide +kernel)
  have hargument : command.argument = some oneRight := rfl
  have hspans : s.plannedSpans .standard command =
      [(⟨0⟩, .between 1 2 .characterwise), (⟨1⟩, .between 2 3 .characterwise)] := by
    rw [plannedSpans_of_get? hargument twoRight_registered, plannedRanges, hordered]
    decide +kernel
  have hkind : ∀ p ∈ s.plannedSpans .standard command, p.2.kind = .characterwise := by
    rw [hspans]
    decide
  have hdeleted : Deleting s (s.plannedSpans .standard command) [] [] after :=
    compose_deleting hanchored rfl hkind
  rw [hspans] at hdeleted
  have hmode : after.mode = .normal := congrArg ModeMachine.mode hdeleted.modes
  have hafter : after.text = "a\n".toList := hdeleted.pinned.text.trans (by decide +kernel)
  have hfirst : after.caretOffset? ⟨0⟩ = some 1 :=
    (hdeleted.places ⟨0⟩ 1 (by decide +kernel)).trans (by decide +kernel)
  have hnormalized : after.text.normalize 1 false = 0 := hafter ▸ by decide +kernel
  refine ⟨⟨hapart, fun caret offset hoffset ↦ ?_, hkind⟩, hmode, hafter, hfirst, hnormalized, fun hall ↦ ?_⟩
  · exact hrests caret (Editor.mem_caretIds_of_caretOffset? hoffset) offset hoffset
  · exact absurd (hnormalized.symm.trans (hall ⟨0⟩ 1 hfirst)) (by decide)

end EditState

end ModalEdit
