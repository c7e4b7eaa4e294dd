import ModalEdit.Edit.Operation

/-!
A command is run by what its action is: a motion moves the carets, a text object selects, an operator
acts on the selections or over its argument, and anything else does what it does.
-/

set_option autoImplicit false

namespace ModalEdit

def Registry.surroundings (registry : Registry) (options : Options) : Surroundings :=
  { options, motion? := registry.motion? }

namespace EditState

def execute (s : EditState) (registry : Registry) (options : Options) (command : Command) :
    Dispatch × EditState :=
  match registry.get? command.action with
  | none => (.cancelled, s.bell)
  | some spec =>
    match spec.handler with
    | .motion f => s.applyMotion command.toActionCall f
    | .textObject f => s.selectTextObject command.toActionCall f
    | .operator body =>
      if s.mode.isVisual || s.mode.isSelect then s.operateOnSelections command body
      else s.compose registry command body
    | .other f => (.executed, f (registry.surroundings options) command s)

end EditState

end ModalEdit
