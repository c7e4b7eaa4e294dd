import Mathlib.Data.List.Forall2
import ModalEdit.Proofs.EditFrame
import ModalEdit.Proofs.Marks

/-!
An operator run on the spans of all carets, told without marks. Each run edits the text and carries all
offsets along, and the span of the next caret is where the runs before have carried it (`Revision.next`).
As every operator treats all marks alike (`Operator.Revises`) and each span is held by marks of its own
(`EditState.Pins`), what the marks show is what the offsets would be carried to, so the text in the end is
that of the revisions alone (`operate_text`, `compose_text`).
-/

set_option autoImplicit false
set_option relaxedAutoImplicit false

namespace ModalEdit

/-- What has become of a text, and of the offsets in it. -/
structure Revision where
  text : Text
  follow : Nat → Nat

namespace Revision

/-- Nothing is done yet. Offsets past the end are taken for the end. -/
def start (t : Text) : Revision := ⟨t, fun offset ↦ min offset t.length⟩

def carried (v : Revision) (r : TextRange) : TextRange :=
  .between (v.follow r.start) (v.follow r.stop) r.kind

/-- The edit of one span more, given by its place in the first text. -/
def next (edit : Text → TextRange → Revision) (v : Revision) (r : TextRange) : Revision :=
  { text := (edit v.text (v.carried r)).text
    follow := (edit v.text (v.carried r)).follow ∘ v.follow }

end Revision

/-- On spans of a kind, an operator edits the text in some way, takes all marks where this takes their
offsets, and neither brings nor removes carets. -/
structure Operator.Revises (body : Operator) (kind : RangeKind) (edit : Text → TextRange → Revision) :
    Prop where
  text : ∀ e args, args.range.kind = kind → (body e args).2.text = (edit e.text args.range).text
  marks : ∀ e args, args.range.kind = kind → (body e args).2.buffer.marks =
    e.buffer.marks.mapOffsets fun _ ↦ (edit e.text args.range).follow
  carets : ∀ e args, args.range.kind = kind → (body e args).2.carets = e.carets

namespace Editor

variable {e : Editor} {mark : Mark}

theorem markOffset?_releaseMark_of_ne {released : Mark} (hne : mark ≠ released) :
    (e.releaseMark released).markOffset? mark = e.markOffset? mark := MarkSet.get?_release_of_ne hne

theorem markOffset?_createMark (h : e.Sound) (offset : Nat) :
    (e.createMark offset).2.markOffset? (e.createMark offset).1 = some (min offset e.text.length) :=
  MarkSet.get?_create h.issued _

theorem markOffset?_createMark_of_ne (offset : Nat) (hne : mark ≠ (e.createMark offset).1) :
    (e.createMark offset).2.markOffset? mark = e.markOffset? mark := MarkSet.get?_create_of_ne _ hne

/-- Moving a caret sets its mark, and tells the listener. -/
theorem exists_moveCaret_eq (e : Editor) (caret : CaretId) (offset : Nat) :
    ∃ buffer listener, e.moveCaret caret offset = { e with buffer, listener } ∧
      buffer.text = e.buffer.text ∧ buffer.marks.next = e.buffer.marks.next ∧
      ∀ mark, (∀ caret ∈ e.carets, caret.2.head ≠ mark) →
        buffer.markOffset? mark = e.buffer.markOffset? mark := by
  unfold moveCaret setHead
  cases hfound : e.carets.lookup caret with
  | none => exact ⟨e.buffer, e.listener, rfl, rfl, rfl, fun _ _ ↦ rfl⟩
  | some marks =>
    have hmem : (caret, marks) ∈ e.carets := by
      obtain ⟨before, after, heq, -⟩ := List.lookup_eq_some_iff.mp hfound
      rw [heq]
      exact List.mem_append_right _ List.mem_cons_self
    have hkeeps (mark : Mark) (h : ∀ caret ∈ e.carets, caret.2.head ≠ mark) :
        (e.buffer.setMark marks.head offset).markOffset? mark = e.buffer.markOffset? mark :=
      MarkSet.get?_set_of_ne (h _ hmem).symm _
    dsimp only
    cases { e with buffer := e.buffer.setMark marks.head offset }.markOffset? marks.head with
    | none => exact ⟨_, _, rfl, rfl, rfl, hkeeps⟩
    | some offset => exact ⟨_, _, rfl, rfl, rfl, hkeeps⟩

theorem moveCaret_carets (e : Editor) (caret : CaretId) (offset : Nat) :
    (e.moveCaret caret offset).carets = e.carets := by
  obtain ⟨buffer, listener, heq, -⟩ := e.exists_moveCaret_eq caret offset
  rw [heq]

theorem moveCaret_text (e : Editor) (caret : CaretId) (offset : Nat) :
    (e.moveCaret caret offset).text = e.text := by
  obtain ⟨buffer, listener, heq, htext, -⟩ := e.exists_moveCaret_eq caret offset
  rw [heq]
  exact htext

/-- Moving a caret moves no mark but those of carets. -/
theorem markOffset?_moveCaret_of_ne (h : ∀ caret ∈ e.carets, caret.2.head ≠ mark) (caret : CaretId)
    (offset : Nat) : (e.moveCaret caret offset).markOffset? mark = e.markOffset? mark := by
  obtain ⟨buffer, listener, heq, -, -, hkeeps⟩ := e.exists_moveCaret_eq caret offset
  rw [heq]
  exact hkeeps mark h

end Editor

namespace EditState

def PinnedRange.marks (p : PinnedRange) : List Mark := [p.first, p.last]

/-- The marks of a span show where its ends have been carried. -/
structure Shows (e : Editor) (follow : Nat → Nat) (p : PinnedRange) (r : TextRange) : Prop where
  first : e.markOffset? p.first = some (follow r.start)
  last : e.markOffset? p.last = some (follow r.stop)
  kind : p.kind = r.kind

theorem Shows.of_eq {e after : Editor} {follow : Nat → Nat} {p : PinnedRange} {r : TextRange}
    (h : Shows e follow p r) (hmarks : ∀ mark ∈ p.marks, after.markOffset? mark = e.markOffset? mark) :
    Shows after follow p r where
  first := (hmarks _ List.mem_cons_self).trans h.first
  last := (hmarks _ (List.mem_cons_of_mem _ List.mem_cons_self)).trans h.last
  kind := h.kind

/-- Spans wait to be edited, each held by marks of its own, where the edits so far have carried them. -/
structure Pins (s : EditState) (v : Revision) (pins : List PinnedRange) (ranges : List TextRange) :
    Prop where
  text : s.text = v.text
  shows : List.Forall₂ (Shows s.editor v.follow) pins ranges
  apart : (pins.flatMap PinnedRange.marks).Nodup
  unheld : ∀ caret ∈ s.editor.carets, caret.2.head ∉ pins.flatMap PinnedRange.marks

/-! ### Pinning -/

section PinAll

variable {s : EditState}

theorem pinAll_text (s : EditState) (ranges : List (CaretId × TextRange)) :
    (s.pinAll ranges).2.text = s.text := by
  induction ranges generalizing s with
  | nil => rfl
  | cons range rest ih => exact ih _

theorem pinAll_carets (s : EditState) (ranges : List (CaretId × TextRange)) :
    (s.pinAll ranges).2.editor.carets = s.editor.carets := by
  induction ranges generalizing s with
  | nil => rfl
  | cons range rest ih => exact ih _

theorem pin_sound (h : s.editor.Sound) (caret : CaretId) (r : TextRange) :
    (s.pin caret r).2.editor.Sound := (h.createMark _).createMark _

/-- The marks of pinned spans are all new. -/
theorem le_serial_of_mem_pinAll (s : EditState) (ranges : List (CaretId × TextRange)) :
    ∀ mark ∈ (s.pinAll ranges).1.flatMap PinnedRange.marks,
      s.editor.buffer.marks.next ≤ mark.serial := by
  induction ranges generalizing s with
  | nil => exact fun _ h ↦ absurd h List.not_mem_nil
  | cons range rest ih =>
    intro mark hmark
    rcases List.mem_append.mp hmark with hfirst | hrest
    · rcases List.mem_pair.mp hfirst with rfl | rfl
      · exact Nat.le_refl s.editor.buffer.marks.next
      · exact Nat.le_succ s.editor.buffer.marks.next
    · exact Nat.le_trans (Nat.le_add_right _ 2) (ih (s.pin range.1 range.2).2 mark hrest)

theorem pinAll_nodup (s : EditState) (ranges : List (CaretId × TextRange)) :
    ((s.pinAll ranges).1.flatMap PinnedRange.marks).Nodup := by
  induction ranges generalizing s with
  | nil => exact List.nodup_nil
  | cons range rest ih =>
    have hlater := le_serial_of_mem_pinAll (s.pin range.1 range.2).2 rest
    have hnew : ((s.pin range.1 range.2).1).marks.Nodup := by
      simp [PinnedRange.marks, pin, Editor.createMark, Buffer.createMark, MarkSet.create]
    refine List.nodup_append.mpr ⟨hnew, ih _, fun mark hmark other hother ↦ ?_⟩
    have hle := hlater other hother
    have hlt : mark.serial < (s.pin range.1 range.2).2.editor.buffer.marks.next := by
      rcases List.mem_pair.mp hmark with rfl | rfl
      · exact Nat.lt_add_of_pos_right Nat.two_pos
      · exact Nat.lt_succ_self (s.editor.buffer.marks.next + 1)
    rintro rfl
    exact Nat.lt_irrefl _ (Nat.lt_of_lt_of_le hlt hle)

/-- Pinning leaves the marks that have been given out before where they are. -/
theorem pinAll_markOffset?_of_lt {mark : Mark} (ranges : List (CaretId × TextRange))
    (h : mark.serial < s.editor.buffer.marks.next) :
    (s.pinAll ranges).2.editor.markOffset? mark = s.editor.markOffset? mark := by
  induction ranges generalizing s with
  | nil => rfl
  | cons range rest ih =>
    have hne {e : Editor} (hlt : mark.serial < e.buffer.marks.next) (offset : Nat) :
        (e.createMark offset).2.markOffset? mark = e.markOffset? mark := by
      refine Editor.markOffset?_createMark_of_ne offset ?_
      rintro rfl
      exact Nat.lt_irrefl _ hlt
    calc (s.pinAll (range :: rest)).2.editor.markOffset? mark
      _ = (s.pin range.1 range.2).2.editor.markOffset? mark :=
        ih (s := (s.pin range.1 range.2).2) (Nat.lt_of_lt_of_le h (Nat.le_add_right _ 2))
      _ = (s.editor.createMark range.2.start).2.markOffset? mark :=
        hne (e := (s.editor.createMark range.2.start).2) (Nat.lt_succ_of_lt h) range.2.stop
      _ = s.editor.markOffset? mark := hne h range.2.start

theorem pinAll_shows (h : s.editor.Sound) (ranges : List (CaretId × TextRange)) :
    List.Forall₂ (Shows (s.pinAll ranges).2.editor (Revision.start s.text).follow) (s.pinAll ranges).1
      (ranges.map (·.2)) := by
  induction ranges generalizing s with
  | nil => exact .nil
  | cons range rest ih =>
    refine .cons ?_ (ih (s := (s.pin range.1 range.2).2) (pin_sound h range.1 range.2))
    have hfirst := Editor.markOffset?_createMark h range.2.start
    have hlast := Editor.markOffset?_createMark (h.createMark range.2.start) range.2.stop
    have hkept : ((s.editor.createMark range.2.start).2.createMark range.2.stop).2.markOffset?
        (s.editor.createMark range.2.start).1 =
        (s.editor.createMark range.2.start).2.markOffset? (s.editor.createMark range.2.start).1 :=
      Editor.markOffset?_createMark_of_ne _ fun heq ↦
        Nat.ne_of_lt (Nat.lt_succ_self s.editor.buffer.marks.next) (Mark.mk.inj heq)
    refine Shows.of_eq (e := (s.pin range.1 range.2).2.editor) ⟨hkept.trans hfirst, hlast, rfl⟩ ?_
    intro mark hmark
    refine pinAll_markOffset?_of_lt (s := (s.pin range.1 range.2).2) rest ?_
    rcases List.mem_pair.mp hmark with rfl | rfl
    · exact Nat.lt_add_of_pos_right Nat.two_pos
    · exact Nat.lt_succ_self (s.editor.buffer.marks.next + 1)

/-- Pinned spans wait where they are. -/
theorem pinAll_pins (h : s.editor.Sound) (ranges : List (CaretId × TextRange)) :
    Pins (s.pinAll ranges).2 (.start s.text) (s.pinAll ranges).1 (ranges.map (·.2)) where
  text := s.pinAll_text ranges
  shows := pinAll_shows h ranges
  apart := s.pinAll_nodup ranges
  unheld caret hcaret hmem := by
    rw [pinAll_carets] at hcaret
    exact Nat.lt_irrefl _ (Nat.lt_of_lt_of_le (h.heads caret hcaret)
      (s.le_serial_of_mem_pinAll ranges _ hmem))

end PinAll

/-! ### Running -/

section Operate

variable {s : EditState} {v : Revision} {body : Operator} {kind : RangeKind}
  {edit : Text → TextRange → Revision} {pins : List PinnedRange} {ranges : List TextRange}

/-- Unpinning gives the span that the marks show. -/
theorem unpin_eq {p : PinnedRange} {r : TextRange} (h : Shows s.editor v.follow p r) :
    s.unpin p = (some (v.carried r),
      { s with editor := (s.editor.releaseMark p.first).releaseMark p.last }) := by
  rw [unpin, h.first, h.last, h.kind]
  rfl

theorem markOffset?_unpin_of_notMem {p : PinnedRange} {mark : Mark} (h : mark ∉ p.marks) :
    (s.unpin p).2.editor.markOffset? mark = s.editor.markOffset? mark := by
  rw [PinnedRange.marks, List.mem_pair, not_or] at h
  exact (Editor.markOffset?_releaseMark_of_ne h.2).trans (Editor.markOffset?_releaseMark_of_ne h.1)

/-- Spans that wait are carried on by the edit of another and the move of its caret. -/
theorem Pins.edited (h : Pins s v pins ranges) {args : OperatorArgs} (hbody : body.Revises kind edit)
    {r : TextRange} (hargs : args.range = v.carried r) (hkind : r.kind = kind) (caret : CaretId)
    (offset : Nat) :
    Pins ({ s with editor := (body s.editor args).2 }.moveCaret caret offset) (v.next edit r) pins
      ranges := by
  have hof : args.range.kind = kind := by
    rw [hargs]
    exact hkind
  have hunheld (mark : Mark) (hmark : mark ∈ pins.flatMap PinnedRange.marks) :
      ∀ caret ∈ (body s.editor args).2.carets, caret.2.head ≠ mark := by
    intro caret hcaret
    rw [hbody.carets _ _ hof] at hcaret
    rintro rfl
    exact h.unheld caret hcaret hmark
  have hmarks (mark : Mark) (hmark : mark ∈ pins.flatMap PinnedRange.marks) :
      ((body s.editor args).2.moveCaret caret offset).markOffset? mark =
        (s.editor.markOffset? mark).map (edit v.text (v.carried r)).follow := by
    rw [Editor.markOffset?_moveCaret_of_ne (hunheld mark hmark), ← hargs, ← h.text]
    show (body s.editor args).2.buffer.marks.get? mark = _
    rw [hbody.marks _ _ hof, MarkSet.get?_mapOffsets]
    rfl
  refine ⟨?_, ?_, h.apart, ?_⟩
  · show ((body s.editor args).2.moveCaret caret offset).text = _
    rw [Editor.moveCaret_text, hbody.text _ _ hof, hargs]
    exact congrArg (fun t ↦ (edit t (v.carried r)).text) h.text
  · have hcarried {p : PinnedRange} (hp : p ∈ pins) {other : TextRange}
        (hshows : Shows s.editor v.follow p other) :
        Shows ((body s.editor args).2.moveCaret caret offset) (v.next edit r).follow p other := by
      refine ⟨?_, ?_, hshows.kind⟩
      · rw [hmarks _ (List.mem_flatMap.mpr ⟨p, hp, List.mem_cons_self⟩), hshows.first]
        rfl
      · rw [hmarks _ (List.mem_flatMap.mpr ⟨p, hp, List.mem_pair.mpr (.inr rfl)⟩), hshows.last]
        rfl
    exact ((List.forall₂_and_left _ _).mpr ⟨fun _ hp ↦ hp, h.shows⟩).imp
      fun _ _ hp ↦ hcarried hp.1 hp.2
  · show ∀ caret ∈ ((body s.editor args).2.moveCaret _ offset).carets, _
    rw [Editor.moveCaret_carets, hbody.carets _ _ hof]
    exact h.unheld

/-- One span is edited, and the others wait where that carries them. -/
theorem operateOn_pins (hbody : body.Revises kind edit) (call : ActionCall) (nextMode : Mode)
    {p : PinnedRange} {r : TextRange} (hkind : r.kind = kind) (h : Pins s v (p :: pins) (r :: ranges)) :
    Pins (operateOn call body nextMode s p).2 (v.next edit r) pins ranges := by
  obtain ⟨htext, hshows, hapart, hunheld⟩ := h
  obtain ⟨hp, hpins⟩ := List.forall₂_cons.mp hshows
  rw [List.flatMap_cons] at hapart hunheld
  obtain ⟨-, hrest, hdistinct⟩ := List.nodup_append.mp hapart
  have hunpinned : Pins (s.unpin p).2 v pins ranges := by
    refine ⟨htext, ?_, hrest, fun caret hcaret hmem ↦
      hunheld caret hcaret (List.mem_append_right _ hmem)⟩
    have hkept {q : PinnedRange} (hq : q ∈ pins) : ∀ mark ∈ q.marks,
        (s.unpin p).2.editor.markOffset? mark = s.editor.markOffset? mark := by
      intro mark hmark
      have hmem : mark ∈ pins.flatMap PinnedRange.marks := List.mem_flatMap.mpr ⟨q, hq, hmark⟩
      exact markOffset?_unpin_of_notMem fun hof ↦ hdistinct mark hof mark hmem rfl
    exact ((List.forall₂_and_left _ _).mpr ⟨fun _ hq ↦ hq, hpins⟩).imp
      fun _ _ hq ↦ hq.2.of_eq (hkept hq.1)
  unfold operateOn
  rw [unpin_eq hp] at hunpinned ⊢
  exact hunpinned.edited hbody rfl hkind p.caret _

theorem foldl_operateOn_text (hbody : body.Revises kind edit) (call : ActionCall) (nextMode : Mode)
    (hkind : ∀ r ∈ ranges, r.kind = kind) (h : Pins s v pins ranges) :
    (pins.foldl (fun (mode, s) p ↦ operateOn call body mode s p) (nextMode, s)).2.text =
      (ranges.foldl (Revision.next edit) v).text := by
  induction pins generalizing s v nextMode ranges with
  | nil =>
    rw [List.forall₂_nil_left_iff.mp h.shows]
    exact h.text
  | cons p pins ih =>
    obtain ⟨r, rest, -, -, rfl⟩ := List.forall₂_cons_left_iff.mp h.shows
    have hstep := operateOn_pins hbody call nextMode (hkind r List.mem_cons_self) h
    rw [List.foldl_cons, List.foldl_cons]
    exact ih _ (List.forall_mem_cons.mp hkind).2 hstep

/-- The text after an operator has been run on all spans is that of its revisions, one after the other. -/
theorem operate_text (hs : s.editor.Sound) (hbody : body.Revises kind edit) (call : ActionCall)
    {planned : List (CaretId × TextRange)} (hkind : ∀ p ∈ planned, p.2.kind = kind) :
    (s.operate call body planned).2.text =
      ((planned.map (·.2)).foldl (Revision.next edit) (.start s.text)).text := by
  have hrun := foldl_operateOn_text hbody call .normal (List.forall_mem_map.mpr hkind)
    (pinAll_pins hs planned)
  have hentered (s : EditState) (mode : Mode) : (s.enterMode mode).2.text = s.text := by
    rw [enterMode_snd]
    rfl
  unfold operate
  dsimp only
  split
  · exact (markInsertStart_moves _).rearranges.editor.text.trans ((hentered _ _).trans hrun)
  · exact (hentered _ _).trans hrun

/-- What the carets' motions or text objects cover for a command, in the text as it is. -/
def plannedSpans (s : EditState) (registry : Registry) (command : Command) :
    List (CaretId × TextRange) :=
  match command.argument.bind fun argument ↦ (registry.get? argument.action).map (argument, ·) with
  | none => []
  | some (argument, spec) =>
    s.syncCarets.plannedRanges command.toActionCall argument spec.handler

theorem plannedSpans_of_get? {registry : Registry} {command : Command} {argument : ActionCall}
    {spec : ActionSpec} (hargument : command.argument = some argument)
    (hget : registry.get? argument.action = some spec) : s.plannedSpans registry command =
      s.syncCarets.plannedRanges command.toActionCall argument spec.handler := by
  rw [plannedSpans, hargument, Option.bind_some, hget]
  rfl

/-- An operator with its motion or text object makes of the text what its revisions make of it. -/
theorem compose_text (hs : s.editor.Sound) (hbody : body.Revises kind edit) (registry : Registry)
    (command : Command) (hkind : ∀ p ∈ s.plannedSpans registry command, p.2.kind = kind) :
    (s.compose registry command body).2.text =
      (((s.plannedSpans registry command).map (·.2)).foldl (Revision.next edit) (.start s.text)).text := by
  unfold plannedSpans at hkind ⊢
  unfold compose
  cases hfound : command.argument.bind fun argument ↦
      (registry.get? argument.action).map (argument, ·) with
  | none => rfl
  | some found =>
    rw [hfound] at hkind
    dsimp only
    split
    · next hnone =>
      rw [hnone]
      rfl
    · exact operate_text (s := s.syncCarets) hs hbody _ hkind

end Operate

end EditState

end ModalEdit
