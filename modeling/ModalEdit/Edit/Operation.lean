import ModalEdit.Edit.Movement
import ModalEdit.Operator.Range

/-!
Operators as commands. The spans of all carets are found first, in the text as it is; marks then hold
them while the operator is run for one caret after the other, so that each finds its span where the
edits before have carried it.
-/

set_option autoImplicit false

namespace ModalEdit

namespace EditState

/-- A span held by marks. -/
structure PinnedRange where
  caret : CaretId
  first : Mark
  last : Mark
  kind : RangeKind
  deriving DecidableEq, Repr

def pin (s : EditState) (caret : CaretId) (r : TextRange) : PinnedRange × EditState :=
  let (first, editor) := s.editor.createMark r.start
  let (last, editor) := editor.createMark r.stop
  (⟨caret, first, last, r.kind⟩, { s with editor })

def pinAll (s : EditState) : List (CaretId × TextRange) → List PinnedRange × EditState
  | [] => ([], s)
  | (caret, r) :: rest =>
    let (p, s) := s.pin caret r
    let (pinned, s) := s.pinAll rest
    (p :: pinned, s)

/-- Lets go of the marks; the span they held. -/
def unpin (s : EditState) (p : PinnedRange) : Option TextRange × EditState :=
  let r := do return .between (← s.editor.markOffset? p.first) (← s.editor.markOffset? p.last) p.kind
  (r, { s with editor := (s.editor.releaseMark p.first).releaseMark p.last })

/-- Runs an operator on one span; the mode it asks for. -/
def operateOn (call : ActionCall) (body : Operator) (nextMode : Mode) (s : EditState)
    (p : PinnedRange) : Mode × EditState :=
  match s.unpin p with
  | (none, s) => (nextMode, s)
  | (some range, s) =>
    let (effect, editor) :=
      body s.editor { caret := p.caret, range, register := call.register, count := call.count }
    (effect.nextMode, { s with editor }.moveCaret p.caret effect.caretOffset)

/-- Runs an operator on each span in turn, and enters the mode that it asks for last. -/
def operate (s : EditState) (call : ActionCall) (body : Operator) (ranges : List (CaretId × TextRange)) :
    Dispatch × EditState :=
  let (pinned, s) := s.pinAll ranges
  let (nextMode, s) := pinned.foldl (fun (mode, s) p ↦ operateOn call body mode s p) (.normal, s)
  let (_, s) := s.enterMode nextMode
  (.executed, if nextMode = .insert then s.markInsertStart else s)

/-- What every caret's motion or text object covers in the text as it is. -/
def plannedRanges (s : EditState) (call argument : ActionCall) (handler : ActionHandler) :
    List (CaretId × TextRange) :=
  s.carets.orderedByOffset.filterMap fun caret ↦ do
    let state ← s.carets.get? caret
    let ctx : MotionContext :=
      { s.motionContext argument caret state with mode := .operatorPending, operatorPending := true }
    return (caret, ← Operator.range? ctx call.action handler)

/-- An operator with its motion or text object. Carets without a span are left out. -/
def compose (s : EditState) (registry : Registry) (command : Command) (body : Operator) :
    Dispatch × EditState :=
  match command.argument.bind fun argument ↦ (registry.get? argument.action).map (argument, ·) with
  | none => (.cancelled, s.bell)
  | some (argument, spec) =>
    let s := s.syncCarets
    match s.plannedRanges command.toActionCall argument spec.handler with
    | [] => (.cancelled, s.bell)
    | ranges => s.operate command.toActionCall body ranges

/-- What every caret's selection covers. -/
def selectedRanges (s : EditState) (kind : SelectionKind) (forceLines : Bool) :
    List (CaretId × TextRange) :=
  s.carets.orderedByOffset.filterMap fun caret ↦ do
    let state ← s.carets.get? caret
    return (caret, Span.selection s.text (state.selectionStart.getD state.offset) state.offset kind
      s.mode.isSelect forceLines)

/-- An operator on the selections, which are given up before its own mode is entered. -/
def operateOnSelections (s : EditState) (command : Command) (body : Operator) : Dispatch × EditState :=
  match s.mode.selectionKind? with
  | none => (.cancelled, s)
  | some kind =>
    let s := s.syncCarets
    let ranges := s.selectedRanges kind command.flags.linewise
    (s.clearSelections.setMode .normal).2.operate command.toActionCall body ranges

end EditState

end ModalEdit
