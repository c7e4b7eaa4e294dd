import ModalEdit.Proofs.ClearStates
import ModalEdit.Proofs.SessionFrame

/-!
States with one caret. What goes through the carets is then done once (`Lone.forCarets`,
`Lone.foldCarets`), and an operator on the span of the caret does what its body does to the text,
the registers and the caret (`Lone.operate`): the marks that hold the span are no more than its
ends, drawn into the text.
-/

set_option autoImplicit false
set_option relaxedAutoImplicit false

namespace ModalEdit

open Relation (ReflTransGen)

/-- A span with its ends drawn into a text. -/
def TextRange.within (r : TextRange) (t : Text) : TextRange :=
  .between (min r.start t.length) (min r.stop t.length) r.kind

theorem TextRange.within_eq_self {r : TextRange} {t : Text} (h : r.stop ≤ t.length) :
    r.within t = r := by
  obtain ⟨start, stop, kind, hle⟩ := r
  have hle' : stop ≤ t.length := h
  simp only [within, between, TextRange.mk.injEq, and_true]
  omega

namespace EditState

/-- There is one caret, and it stands at an offset. -/
structure Lone (s : EditState) (caret : CaretId) (offset : Nat) : Prop extends Anchored s where
  ids : s.editor.caretIds = [caret]
  stands : s.caretOffset? caret = some offset

variable {s t : EditState} {caret : CaretId} {offset : Nat}

theorem exists_lone (h : s.Anchored) (hids : s.editor.caretIds = [caret]) :
    ∃ offset, s.Lone caret offset := by
  have hmem : caret ∈ s.editor.caretIds := by simp [hids]
  obtain ⟨offset, -, hoffset⟩ := h.editor.exists_caretOffset? hmem
  exact ⟨offset, h, hids, hoffset⟩

namespace Lone

theorem mem (h : s.Lone caret offset) : caret ∈ s.editor.caretIds := by simp [h.ids]

theorem le (h : s.Lone caret offset) : offset ≤ s.text.length := h.editor.caretOffset?_le h.stands

theorem of_stays (h : s.Lone caret offset) (hstays : Stays s t) {target : Nat}
    (hstands : t.caretOffset? caret = some target) : t.Lone caret target :=
  ⟨hstays.anchored, hstays.ids.trans h.ids, hstands⟩

theorem syncCarets (h : s.Lone caret offset) : s.syncCarets.Lone caret offset :=
  ⟨h.toAnchored.syncCarets, h.ids, h.stands⟩

theorem withGuard (h : s.Lone caret offset) (guard : SuppressionGuard) :
    Lone { s with editor := { s.editor with guard } } caret offset :=
  ⟨⟨h.editor.of_buffer rfl rfl rfl, h.carets⟩, h.ids, h.stands⟩

theorem withModes (h : s.Lone caret offset) (modes : ModeMachine) :
    Lone { s with modes } caret offset :=
  ⟨⟨h.editor, h.carets⟩, h.ids, h.stands⟩

theorem modifyCaret (h : s.Lone caret offset) (other : CaretId) (f : CaretState → CaretState) :
    (s.modifyCaret other f).Lone caret offset :=
  ⟨⟨h.editor, h.carets.modify other f⟩, h.ids, h.stands⟩

theorem moveCaret (h : s.Lone caret offset) (target : Nat) :
    (s.moveCaret caret target).Lone caret (min target s.text.length) :=
  h.of_stays (moveCaret_touches h.toAnchored caret target).toStays
    (h.editor.caretOffset?_moveCaret h.mem target)

/-! ### Going through the carets -/

theorem orderedByOffset (h : s.Lone caret offset) : s.syncCarets.carets.orderedByOffset = [caret] :=
  List.perm_singleton.mp (h.ids ▸ orderedByOffset_perm h.toAnchored)

/-- What is remembered of the caret once the table is in line. -/
theorem known (h : s.Lone caret offset) : s.syncCarets.carets.get? caret =
    some (CaretTable.placed (s.carets.get? caret) offset) :=
  congrArg CaretView.state? (view_syncCarets h.editor h.mem h.stands)

theorem forCarets (h : s.Lone caret offset) (f : CaretId → EditState → EditState) :
    s.forCarets f = f caret s.syncCarets := by
  unfold EditState.forCarets
  dsimp only
  rw [h.orderedByOffset]
  rfl

theorem foldCarets {α : Type} (h : s.Lone caret offset) (a : α)
    (f : CaretId → α → EditState → α × EditState) :
    s.foldCarets a f = f caret a s.syncCarets := by
  unfold EditState.foldCarets
  dsimp only
  rw [h.orderedByOffset]
  rfl

theorem moveAll (h : s.Lone caret offset) (destination : Text → Nat → Nat) :
    (s.moveAll destination).Lone caret (min (destination s.text offset) s.text.length) := by
  unfold EditState.moveAll
  rw [h.forCarets, show s.syncCarets.caretOffset? caret = some offset from h.stands]
  dsimp only
  split
  · next heq =>
    rw [show destination s.text offset = offset from heq, Nat.min_eq_left h.le]
    exact h.syncCarets
  · exact h.syncCarets.moveCaret _

/-! ### An operator on one span -/

/-- A span that is pinned and let go of comes back within the text, and nothing else has changed. -/
theorem exists_unpinned (h : s.Lone caret offset) (range : TextRange) :
    ∃ e : Editor, e.Anchored ∧ e.carets = s.editor.carets ∧ e.text = s.text ∧
      e.registers = s.editor.registers ∧ e.caretOffset? caret = some offset ∧
      (s.pin caret range).2.unpin (s.pin caret range).1 =
        (some (range.within s.text), { s with editor := e }) := by
  have hfree (e : Editor) (he : e.carets = s.editor.carets) {mark : Mark}
      (hmark : mark ∈ (s.pin caret range).1.marks) : ¬ e.Holds mark := by
    rintro ⟨entry, hentry, hheld⟩
    have hholds : s.editor.Holds mark := ⟨entry, he ▸ hentry, hheld⟩
    refine h.editor.not_holds_of_le ?_ hholds
    rcases List.mem_pair.mp hmark with rfl | rfl
    · exact Nat.le_refl _
    · exact Nat.le_succ _
  have hpinned := (h.editor.createMark range.start).createMark range.stop
  have hfirst := hpinned.releaseMark (hfree _ rfl (List.mem_pair.mpr (.inl rfl)))
  have hlast := hfirst.releaseMark (hfree _ rfl (List.mem_pair.mpr (.inr rfl)))
  have hkeeps := ((((h.editor.createMark_keeps range.start caret).trans
    ((h.editor.createMark range.start).createMark_keeps range.stop caret)).trans
    (hpinned.releaseMark_keeps (hfree _ rfl (List.mem_pair.mpr (.inl rfl))) caret)).trans
    (hfirst.releaseMark_keeps (hfree _ rfl (List.mem_pair.mpr (.inr rfl))) caret))
  have hshows := List.forall₂_cons.mp (pinAll_shows h.editor.toSound [(caret, range)])
  exact ⟨_, hlast, rfl, rfl, rfl, hkeeps.offset.trans h.stands, unpin_eq hshows.1⟩

theorem markInsertStart (h : s.Lone caret offset) : s.markInsertStart.Lone caret offset ∧
    s.markInsertStart.editor = s.editor ∧ s.markInsertStart.modes = s.modes := by
  unfold EditState.markInsertStart
  rw [h.forCarets]
  exact ⟨h.syncCarets.modifyCaret caret _, rfl, rfl⟩

/-- An operator on the span of the caret does what its body does. -/
theorem operate (h : s.Lone caret offset) (hcoherent : s.modes.Coherent) {body : Operator}
    (hbody : body.Rewrites) (call : ActionCall) (range : TextRange) :
    ∃ e : Editor, e.text = s.text ∧ e.registers = s.editor.registers ∧
      e.caretOffset? caret = some offset ∧
      let result := body e
        { caret, range := range.within s.text, register := call.register, count := call.count }
      let t := (s.operate call body [(caret, range)]).2
      t.text = result.2.text ∧ t.editor.registers = result.2.registers ∧
        t.Lone caret (min result.1.caretOffset result.2.text.length) ∧
        t.mode = result.1.nextMode := by
  obtain ⟨e, hanchored, hcarets, htext, hregisters, hstands, hunpin⟩ := h.exists_unpinned range
  refine ⟨e, htext, hregisters, hstands, ?_⟩
  obtain ⟨effect, editor, hresult⟩ : ∃ effect editor, body e
      { caret, range := range.within s.text, register := call.register, count := call.count } =
        (effect, editor) :=
    ⟨_, _, rfl⟩
  obtain ⟨hafter, hkept⟩ := Editor.rewrites_keep (hbody.editor e
    { caret, range := range.within s.text, register := call.register, count := call.count })
      hanchored
  rw [hresult] at hafter hkept
  have hids : editor.caretIds = [caret] := by
    rw [Editor.caretIds, show editor.carets = s.editor.carets from hkept.trans hcarets]
    exact h.ids
  obtain ⟨_, hedited⟩ := exists_lone (s := { s with editor }) ⟨hafter, h.carets⟩ hids
  have hmoved := hedited.moveCaret effect.caretOffset
  have hrepositions := editor.moveCaret_repositions caret effect.caretOffset
  obtain ⟨modes, hentered, hmode, -⟩ := enterMode_eq
    (s := { s with editor }.moveCaret caret effect.caretOffset) hcoherent effect.nextMode
  have hon : operateOn call body .normal (s.pin caret range).2 (s.pin caret range).1 =
      (effect.nextMode, { s with editor }.moveCaret caret effect.caretOffset) := by
    unfold operateOn
    rw [hunpin]
    dsimp only
    rw [show (s.pin caret range).1.caret = caret from rfl, hresult]
  have hrun : (s.operate call body [(caret, range)]).2 =
      if effect.nextMode = .insert then
        EditState.markInsertStart
          { { s with editor }.moveCaret caret effect.caretOffset with modes }
      else { { s with editor }.moveCaret caret effect.caretOffset with modes } := by
    unfold EditState.operate
    rw [show s.pinAll [(caret, range)] = ([(s.pin caret range).1], (s.pin caret range).2) from rfl]
    simp only [List.foldl_cons, List.foldl_nil, hon, hentered]
  rw [hrun, hresult]
  have hlone := hmoved.withModes modes
  split
  · obtain ⟨hmarked, heditor, hmodes⟩ := hlone.markInsertStart
    refine ⟨?_, ?_, hmarked, ?_⟩
    · rw [EditState.text, heditor]
      exact hrepositions.text
    · rw [heditor]
      exact hrepositions.registers
    · rw [EditState.mode, hmodes]
      exact hmode
  · exact ⟨hrepositions.text, hrepositions.registers, hlone, hmode⟩

/-! ### The spans of commands -/

/-- The caret alone has a span, if its motion or text object covers one. -/
theorem plannedRanges_eq (h : s.Lone caret offset) (call argument : ActionCall)
    (handler : ActionHandler) : s.syncCarets.plannedRanges call argument handler =
      ((Operator.range? (s.pendingContext argument caret
        (CaretTable.placed (s.carets.get? caret) offset)) call.action handler).map
          (caret, ·)).toList := by
  have hcovers : ((s.syncCarets.carets.get? caret).bind fun state ↦
      (Operator.range? (s.pendingContext argument caret state) call.action handler).bind fun r ↦
        some (caret, r)) =
      (Operator.range? (s.pendingContext argument caret
        (CaretTable.placed (s.carets.get? caret) offset)) call.action handler).bind fun r ↦
          some (caret, r) := by
    rw [h.known, Option.bind_some]
  rw [plannedRanges, h.orderedByOffset]
  cases hrange : Operator.range? (s.pendingContext argument caret
    (CaretTable.placed (s.carets.get? caret) offset)) call.action handler with
  | none =>
    rw [hrange, Option.bind_none] at hcovers
    exact List.filterMap_cons_none hcovers
  | some range =>
    rw [hrange, Option.bind_some] at hcovers
    exact List.filterMap_cons_some hcovers

theorem plannedRanges_cases (h : s.Lone caret offset) (call argument : ActionCall)
    (handler : ActionHandler) : s.syncCarets.plannedRanges call argument handler = [] ∨
      ∃ range, s.syncCarets.plannedRanges call argument handler = [(caret, range)] := by
  rw [h.plannedRanges_eq]
  cases Operator.range? _ call.action handler with
  | none => exact .inl rfl
  | some range => exact .inr ⟨range, rfl⟩

theorem exists_selectedRanges (h : s.Lone caret offset) (kind : SelectionKind)
    (forceLines : Bool) :
    ∃ range, s.syncCarets.selectedRanges kind forceLines = [(caret, range)] := by
  rw [selectedRanges, h.orderedByOffset, List.filterMap_cons, List.filterMap_nil, h.known]
  exact ⟨_, rfl⟩

/-- With one caret, an operator is given the span of its target. -/
theorem compose (h : s.Lone caret offset) {registry : Registry} (command : Command)
    (body : Operator) {argument : ActionCall} {spec : ActionSpec} {range : TextRange}
    (hargument : command.argument = some argument)
    (hget : registry.get? argument.action = some spec)
    (hrange : ∀ state, state.offset = offset →
      Operator.range? (s.pendingContext argument caret state)
      command.action spec.handler = some range) :
    s.compose registry command body = s.syncCarets.operate command.toActionCall body
      [(caret, range)] := by
  unfold EditState.compose
  rw [hargument, Option.bind_some, hget]
  dsimp only [Option.map_some]
  rw [h.plannedRanges_eq, hrange _ rfl]
  rfl

end Lone

theorem execute_of_operator {registry : Registry} {body : Operator} (command : Command)
    {id : ActionId} {flags : CommandFlags} (hget : registry.get? command.action =
      some (Builtin.operator id body flags)) (s : EditState)
    (options : Options) : s.execute registry options command =
      if s.mode.isVisual || s.mode.isSelect then s.operateOnSelections command body
      else s.compose registry command body := by
  unfold execute
  rw [hget]
  rfl

end EditState

namespace Session

/-- What an operator leaves: its text and registers, the caret in the text, and the mode that
follows. -/
structure EndsWith (s : Session) (caret : CaretId)
    (result : OperatorEffect × Text × Registers) : Prop where
  text : s.editor.text = result.2.1
  registers : s.editor.registers = result.2.2
  offset : s.editor.caretOffset? caret = some (min result.1.caretOffset result.2.1.length)
  mode : s.mode = result.1.nextMode

theorem EndsWith.of_run {s : Session} {caret : CaretId} {modes : ModeMachine}
    {f : EditState → Dispatch × EditState} {t : EditState}
    {result : OperatorEffect × Text × Registers}
    (hrun : (f (EditState.prepared { s.edit with modes })).2 = t)
    (h : t.text = result.2.1 ∧ t.editor.registers = result.2.2 ∧
      t.Lone caret (min result.1.caretOffset result.2.1.length) ∧ t.mode = result.1.nextMode) :
    EndsWith { s with resolver := {}, edit := ({ s.edit with modes }.guarded f).2 } caret
      result := by
  subst hrun
  exact ⟨h.1, h.2.1, h.2.2.1.stands, h.2.2.2⟩

end Session

end ModalEdit
