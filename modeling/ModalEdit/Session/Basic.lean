import ModalEdit.Action.Builtin
import ModalEdit.Edit.Execute
import ModalEdit.Extension.Basic
import ModalEdit.Key.Notation
import ModalEdit.Keymap.Default
import ModalEdit.Resolver.Drain

/-!
A session: keys go through the resolver, and the commands that come out are run on the editor. While a
command runs the guard is locked, so that the moves it makes are not taken for the user's.
-/

set_option autoImplicit false

namespace ModalEdit

/-- What a key did. -/
inductive KeyOutcome where
  | pending
  | executed
  | cancelled
  | unmapped
  | typed
  deriving DecidableEq, Repr

def KeyOutcome.ofDispatch (done : KeyOutcome) : Dispatch → KeyOutcome
  | .executed => done
  | .cancelled => cancelled

structure Session where
  keymap : Keymap := .default
  registry : Registry := Builtin.registry
  options : Options := {}
  resolver : Resolver := {}
  /-- Whether the mouse is dragging; the guard is locked all the while. -/
  dragging : Bool := false
  edit : EditState

namespace Session

def mode (s : Session) : Mode := s.edit.mode

def editor (s : Session) : Editor := s.edit.editor

def withEditor (s : Session) (editor : Editor) : Session := { s with edit := { s.edit with editor } }

def bind (s : Session) (modes : List MapMode) (keys : Keys) (target : Target) : BindOutcome × Session :=
  let (outcome, keymap) := s.keymap.bind modes keys target
  (outcome, { s with keymap })

/-- Binds written keys to other written keys. -/
def bindKeys (s : Session) (modes : List MapMode) (lhs rhs : List Char) :
    Except KeyError (BindOutcome × Session) := do
  let keys ← Keys.parse lhs
  let replacement ← Keys.parse rhs
  return s.bind modes keys (.remap replacement)

def registerAction (s : Session) (a : ActionSpec) : Bool × Session :=
  let (added, registry) := s.registry.register a
  (added, { s with registry })

def loadExtensions (s : Session) (host : ExtensionHost) : ExtensionHost × Session :=
  let (host, registry, keymap) := host.load s.registry s.keymap
  (host, { s with registry, keymap })

end Session

namespace EditState

def lock (s : EditState) : SuppressionToken × EditState :=
  let (token, guard) := s.editor.guard.lock
  (token, { s with editor := { s.editor with guard } })

def unlock (s : EditState) (token : SuppressionToken) : EditState :=
  let (_, _, guard) := s.editor.guard.release token
  { s with editor := { s.editor with guard } }

/-- Does something with the guard locked and the caret table in line with the editor. -/
def guarded {α : Type} (s : EditState) (f : EditState → α × EditState) : α × EditState :=
  let (token, s) := s.lock
  let (a, s) := f s.syncCarets
  (a, s.unlock token)

def guardedChange (s : EditState) (f : EditState → EditState) : EditState :=
  (s.guarded fun s ↦ ((), f s)).2

/-- The mode machine is in the pending mode just while an operator waits. -/
def syncOperatorMode (s : EditState) (operatorPending : Bool) : EditState :=
  if operatorPending then { s with modes := s.modes.tryTransition .operatorPending }
  else if s.mode = .operatorPending then
    { s with modes := s.modes.parent.elim s.modes s.modes.tryTransition }
  else s

/-- What an outcome of the resolver does. -/
def apply (s : EditState) (registry : Registry) (options : Options) (operatorPending : Bool)
    (outcome : Outcome) : KeyOutcome × EditState :=
  let s := s.syncOperatorMode operatorPending
  match outcome with
  | .pending => (.pending, s)
  | .resolved command =>
    let (dispatch, s) := s.guarded fun s ↦ s.execute registry options command
    (.ofDispatch .executed dispatch, s)
  | .cancelled => (.cancelled, s.guardedChange cancel)
  | .unmapped keys =>
    if s.mode.isTextEntry then
      let (dispatch, s) := s.guarded fun s ↦ s.typeKeys keys
      (.ofDispatch .typed dispatch, s)
    else (.unmapped, s.bell)

end EditState

namespace Session

/-- Reads the resolver's input to its end; the outcome is that of the last stroke read. -/
def drain (s : Session) (last : KeyOutcome) : KeyOutcome × Session :=
  let (resolver, outcome, edit) :=
    s.resolver.drain s.keymap s.registry
      (fun _ (_, edit) ↦ edit.mode)
      (fun r outcome (_, edit) ↦ edit.apply s.registry s.options r.operatorPending outcome)
      (last, s.edit)
  (outcome, { s with resolver, edit })

/-- Takes one stroke without looking at what the editor reported. -/
def pressKey (s : Session) (stroke : KeyStroke) : KeyOutcome × Session :=
  { s with resolver := s.resolver.enqueue stroke }.drain .pending

/-- Takes strokes that wait to become a longer sequence for what they are. -/
def flushPending (s : Session) : KeyOutcome × Session :=
  let (outcome, resolver) := s.resolver.flush s.mode s.keymap s.registry
  let (last, edit) := s.edit.apply s.registry s.options resolver.operatorPending outcome
  { s with resolver, edit }.drain last

end Session

end ModalEdit
