import ModalEdit.Action.Basic
import ModalEdit.Action.Id
import ModalEdit.Keymap.Basic
import ModalEdit.Resolver.Pending

/-!
The resolver takes strokes and gives commands. A command is written as a register (`"a`), a count, an
operator, another count, and a motion or text object. An operator waits for what it acts on; typed twice
it acts on lines. A motion that needs a character waits for it. A sequence that could still become a
longer one waits for the next stroke, or until it is flushed.

Strokes that are left over when a shorter sequence is taken, and those that a binding stands for, go to
the front of the input and are read before any new ones.
-/

set_option autoImplicit false

namespace ModalEdit

/-- How many bindings may be replaced by the strokes they stand for, between two strokes from
outside. -/
def maxMapDepth : Nat := 1000

inductive Outcome where
  | pending
  | resolved (command : Command)
  /-- No binding; in the modes of text entry this is text. -/
  | unmapped (keys : Keys)
  | cancelled
  deriving DecidableEq, Repr

structure Resolver where
  pending : PendingInput := {}
  /-- The operator that waits for what it acts on. -/
  operator : Option ActionCall := none
  /-- The motion or text object that waits for its character. -/
  awaitingChar : Option ActionCall := none
  input : Keys := []
  mapDepth : Nat := 0
  deriving DecidableEq, Repr

namespace Resolver

/-- Takes a stroke from outside. -/
def enqueue (r : Resolver) (stroke : KeyStroke) : Resolver :=
  { r with input := r.input ++ [stroke], mapDepth := 0 }

def replay (r : Resolver) (keys : Keys) : Resolver := { r with input := keys ++ r.input }

def operatorPending (r : Resolver) : Bool := r.operator.isSome

/-- Whether something has been typed of a command that is not complete. -/
def hasPending (r : Resolver) : Bool :=
  !r.pending.isEmpty || r.operator.isSome || r.awaitingChar.isSome

/-- Forgets what has been typed of a command. -/
def reset (r : Resolver) : Resolver := { r with pending := {}, operator := none, awaitingChar := none }

/-- Forgets the strokes to be read as well. -/
def clear (r : Resolver) : Resolver := { r.reset with input := [] }

def modifyPending (r : Resolver) (f : PendingInput → PendingInput) : Resolver :=
  { r with pending := f r.pending }

/-- The call with the count that was typed for it. -/
def counted (r : Resolver) (call : ActionCall) : ActionCall := { call with rawCount := r.pending.totalCount }

/-- A finished motion or text object goes to the operator that waits for it, or is a command alone. -/
def complete (r : Resolver) (call : ActionCall) : Outcome × Resolver :=
  let register := r.pending.register
  let command : Command :=
    match r.operator with
    | some op =>
      { op with rawCount := call.rawCount, register, keys := op.keys ++ call.keys, argument := some call }
    | none => { call with register, argument := none }
  (.resolved command, r.reset)

/-- A command that takes the count and the register, and no argument. -/
def resolveAlone (r : Resolver) (call : ActionCall) : Outcome × Resolver :=
  (.resolved { r.counted call with register := r.pending.register, argument := none },
    { r with pending := {} })

/-- In the visual modes an operator acts on the selection; elsewhere it waits. -/
def acceptOperator (r : Resolver) (call : ActionCall) (mode : Mode) (registry : Registry) :
    Outcome × Resolver :=
  if mode.isVisual then r.resolveAlone call
  else
    match r.operator with
    | none => (.pending, { r with operator := some call })
    | some op =>
      if op.action = call.action then
        let flags := ((registry.get? ActionId.currentLine).map (·.flags)).getD { linewise := true }
        let lines : ActionCall :=
          { kind := .motion, action := ActionId.currentLine, flags, keys := call.keys }
        r.complete (r.counted lines)
      else (.unmapped call.keys, r.reset)

/-- Takes an action whose sequence is complete. -/
def acceptAction (r : Resolver) (id : ActionId) (keys : Keys) (mode : Mode) (registry : Registry) :
    Outcome × Resolver :=
  match registry.get? id with
  | none => (.unmapped keys, r.reset)
  | some spec =>
    let call := { spec.call with keys }
    match call.kind with
    | .operator => r.acceptOperator call mode registry
    | .motion | .textObject =>
      let call := r.counted call
      let r := r.modifyPending (·.clearCounts)
      if call.flags.expectsChar then (.pending, { r with awaitingChar := some call })
      else r.complete call
    | .other => if r.operatorPending then (.unmapped keys, r.reset) else r.resolveAlone call

/-- Takes the longest sequence that the strokes begin with; those behind it are read again. -/
def accept (r : Resolver) (consumed : Nat) (target : Target) (mode : Mode) (registry : Registry) :
    Outcome × Resolver :=
  let keys := r.pending.keys.take consumed
  let leftover := r.pending.keys.drop consumed
  let r := (r.modifyPending ({ · with keys := [] })).replay leftover
  match target with
  | .action id => r.acceptAction id keys mode registry
  | .remap replacement =>
    let r := { r with mapDepth := r.mapDepth + 1 }
    if maxMapDepth < r.mapDepth then (.unmapped keys, r.clear) else (.pending, r.replay replacement)

/-- Strokes that begin no sequence. Where they are text the first is given up and the others are read
again; elsewhere all are. -/
def giveUp (r : Resolver) (mode : Mode) : Outcome × Resolver :=
  match r.pending.keys with
  | first :: rest =>
    if mode.isTextEntry && !r.operatorPending then
      (.unmapped [first], (r.modifyPending ({ · with keys := [] })).replay rest)
    else (.unmapped (first :: rest), r.reset)
  | [] => (.unmapped [], r.reset)

/-- The character that a stroke stands for as an argument. -/
def argumentChar? (stroke : KeyStroke) : Option Char :=
  stroke.typedChar?.or (if stroke.code = .tab then some '\t' else none)

/-- A mode in which digits are counts. -/
def takesCounts : Mode → Bool
  | .normal | .visual _ | .operatorPending => true
  | _ => false

/-- The digit that a stroke adds to a count; a zero begins none. -/
def countDigit? (r : Resolver) (stroke : KeyStroke) : Option Nat :=
  stroke.digit?.filter fun d ↦ d != 0 || r.pending.hasCount r.operatorPending

def startsRegister (r : Resolver) (stroke : KeyStroke) : Bool :=
  stroke.typedChar? == some '"' && !r.operatorPending && r.pending.register.isNone

/-- Adds a stroke to those that may become a sequence. -/
def buffer (r : Resolver) (stroke : KeyStroke) (mode : Mode) (keymap : Keymap) (registry : Registry) :
    Outcome × Resolver :=
  let r := r.modifyPending fun p ↦ { p with keys := p.keys ++ [stroke] }
  match keymap.resolve (.ofMode mode) r.pending.keys with
  | .needMore => (.pending, r)
  | .matched consumed target ambiguous =>
    if ambiguous then (.pending, r) else r.accept consumed target mode registry
  | .unmapped => r.giveUp mode

/-- Takes one stroke that was read from the input. -/
def feed (r : Resolver) (stroke : KeyStroke) (mode : Mode) (keymap : Keymap) (registry : Registry) :
    Outcome × Resolver :=
  if stroke.isEscape && r.hasPending then (.cancelled, r.reset)
  else
    match r.awaitingChar with
    | some call =>
      match argumentChar? stroke with
      | some c => { r with awaitingChar := none }.complete
          { call with char := some c, keys := call.keys ++ [stroke] }
      | none => (.unmapped [stroke], r.reset)
    | none =>
      if r.pending.awaitingRegister then
        match stroke.typedChar?.filter Registers.isValidName with
        | some name => (.pending, r.modifyPending (·.setRegister name))
        | none => (.unmapped [stroke], r.reset)
      else if takesCounts mode && r.pending.keys.isEmpty then
        match r.countDigit? stroke with
        | some d => (.pending, r.modifyPending (·.pushDigit d r.operatorPending))
        | none =>
          if r.startsRegister stroke then
            (.pending, r.modifyPending ({ · with awaitingRegister := true }))
          else r.buffer stroke mode keymap registry
      else r.buffer stroke mode keymap registry

/-- Takes what can be had from strokes that wait to become a longer sequence. -/
def flush (r : Resolver) (mode : Mode) (keymap : Keymap) (registry : Registry) : Outcome × Resolver :=
  if r.pending.keys.isEmpty then (.pending, r)
  else
    match keymap.resolve (.ofMode mode) r.pending.keys with
    | .matched consumed target _ => r.accept consumed target mode registry
    | .needMore | .unmapped => r.giveUp mode

end Resolver

end ModalEdit
