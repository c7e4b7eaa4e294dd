/-!
The modes of a session. In the pending mode an operator has been typed and waits for what it acts on.
-/

set_option autoImplicit false

namespace ModalEdit

/-- What a selection in the visual and select modes is made of. -/
inductive SelectionKind where
  | character
  | line
  | block
  deriving DecidableEq, Repr

inductive Mode where
  | normal
  | insert
  | replace
  | visual (kind : SelectionKind)
  | select (kind : SelectionKind)
  | operatorPending
  | commandLine
  deriving DecidableEq, Repr

namespace Mode

def isVisual : Mode → Bool
  | visual _ => true
  | _ => false

def isSelect : Mode → Bool
  | select _ => true
  | _ => false

/-- The modes in which a printable key that no binding takes is typed. -/
def isTextEntry : Mode → Bool
  | insert | replace | select _ | commandLine => true
  | _ => false

def selectionKind? : Mode → Option SelectionKind
  | visual kind | select kind => some kind
  | _ => none

def name : Mode → String
  | normal => "NORMAL"
  | insert => "INSERT"
  | replace => "REPLACE"
  | visual .character => "VISUAL"
  | visual .line => "VISUAL LINE"
  | visual .block => "VISUAL BLOCK"
  | select .character => "SELECT"
  | select .line => "SELECT LINE"
  | select .block => "SELECT BLOCK"
  | operatorPending => "OP PENDING"
  | commandLine => "COMMAND"

def all : List Mode :=
  [normal, insert, replace, visual .character, visual .line, visual .block, select .character,
    select .line, select .block, operatorPending, commandLine]

def ofName? (name : String) : Option Mode := all.find? (·.name == name)

end Mode

end ModalEdit
