/-!
Options: what shifted and unshifted arrow keys do to a selection, which selections start the select
modes, how long to wait for the rest of an ambiguous sequence, and the extensions to load.
-/

set_option autoImplicit false

namespace ModalEdit

inductive KeyModelFlag where
  /-- Shifted special keys start a selection. -/
  | startSel
  /-- Special keys without Shift stop a selection. -/
  | stopSel
  | stopSelect
  | stopVisual
  | continueSelect
  | continueVisual
  deriving DecidableEq, Repr

namespace KeyModelFlag

def all : List KeyModelFlag := [startSel, stopSel, stopSelect, stopVisual, continueSelect, continueVisual]

def name : KeyModelFlag → String
  | startSel => "startsel"
  | stopSel => "stopsel"
  | stopSelect => "stopselect"
  | stopVisual => "stopvisual"
  | continueSelect => "continueselect"
  | continueVisual => "continuevisual"

def ofName? (name : String) : Option KeyModelFlag := all.find? (·.name == name)

end KeyModelFlag

inductive SelectModeFlag where
  | mouse
  | key
  | cmd
  /-- Selections that are made neither by the mouse nor by keys. -/
  | editor
  deriving DecidableEq, Repr

namespace SelectModeFlag

def all : List SelectModeFlag := [mouse, key, cmd, editor]

def name : SelectModeFlag → String
  | mouse => "mouse"
  | key => "key"
  | cmd => "cmd"
  | editor => "ideaselection"

def ofName? (name : String) : Option SelectModeFlag := all.find? (·.name == name)

end SelectModeFlag

structure Options where
  keymodel : List KeyModelFlag := [.continueSelect, .stopSelect]
  selectmode : List SelectModeFlag := []
  timeout : Bool := true
  /-- In milliseconds. -/
  timeoutlen : Nat := 1000
  extensions : List String := []
  deriving DecidableEq, Repr

namespace Options

def hasKeyModel (o : Options) (flag : KeyModelFlag) : Bool := o.keymodel.contains flag

def hasSelectMode (o : Options) (flag : SelectModeFlag) : Bool := o.selectmode.contains flag

end Options

end ModalEdit
