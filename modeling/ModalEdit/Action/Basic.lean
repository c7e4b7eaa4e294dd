import ModalEdit.Command
import ModalEdit.Edit.State
import ModalEdit.Operator.Basic
import ModalEdit.Options
import ModalEdit.TextObject.Word

/-!
Actions: a name, flags and a function, by which an action is a motion, a text object, an operator or
anything else that changes the state. A registry holds actions by name and keeps the first of each name.
-/

set_option autoImplicit false

namespace ModalEdit

/-- What an action may look at besides the state: the options, and the motions by name. -/
structure Surroundings where
  options : Options := {}
  motion? : ActionId → Option (Motion × CommandFlags) := fun _ ↦ none

abbrev OtherAction := Surroundings → Command → EditState → EditState

inductive ActionHandler where
  | motion (f : Motion)
  | textObject (f : TextObject)
  | operator (f : Operator)
  | other (f : OtherAction)

def ActionHandler.kind : ActionHandler → CommandKind
  | motion _ => .motion
  | textObject _ => .textObject
  | operator _ => .operator
  | other _ => .other

structure ActionSpec where
  id : ActionId
  handler : ActionHandler
  flags : CommandFlags := {}

/-- The action with nothing typed for it. -/
def ActionSpec.call (a : ActionSpec) : ActionCall := { kind := a.handler.kind, action := a.id, flags := a.flags }

structure Registry where
  specs : List ActionSpec := []

namespace Registry

def get? (r : Registry) (id : ActionId) : Option ActionSpec := r.specs.find? (·.id == id)

def contains (r : Registry) (id : ActionId) : Bool := (r.get? id).isSome

/-- Whether the name was free; if not, the action that has it stays. -/
def register (r : Registry) (a : ActionSpec) : Bool × Registry :=
  if r.contains a.id then (false, r) else (true, ⟨r.specs ++ [a]⟩)

def ofList (specs : List ActionSpec) : Registry := specs.foldl (fun r a ↦ (r.register a).2) {}

def size (r : Registry) : Nat := r.specs.length

def motion? (r : Registry) (id : ActionId) : Option (Motion × CommandFlags) :=
  match r.get? id with
  | some { handler := .motion f, flags, .. } => some (f, flags)
  | _ => none

end Registry

end ModalEdit
