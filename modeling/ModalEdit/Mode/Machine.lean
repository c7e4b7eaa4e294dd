import ModalEdit.Mode.Basic

/-!
The mode machine: which mode follows which, and who is told. The pending mode lies on top of the mode it
was entered from and is left only towards it. Every change goes to each observer once, in the order in
which they subscribed; a refused one leaves everything as it is.
-/

set_option autoImplicit false

namespace ModalEdit

structure ModeChange where
  source : Mode
  target : Mode
  deriving DecidableEq, Repr

/-- An observer by the order of its subscription. -/
structure Subscription where
  serial : Nat
  deriving DecidableEq, Repr

structure ModeMachine where
  mode : Mode := .normal
  /-- The mode under the pending mode. -/
  parent : Option Mode := none
  observers : List Subscription := []
  nextObserver : Nat := 0
  /-- What was told to whom, oldest first. -/
  delivered : List (Subscription × ModeChange) := []
  deriving DecidableEq, Repr

inductive ModeError where
  | illegalTransition (source target : Mode)
  deriving DecidableEq, Repr

namespace ModeError

def message : ModeError → String
  | illegalTransition source target =>
    "illegal mode transition " ++ source.name ++ " -> " ++ target.name

end ModeError

namespace Mode

/-- Which changes are allowed, apart from staying where one is. -/
def isLegal (source target : Mode) (parent : Option Mode) : Bool :=
  match source, target with
  | operatorPending, target => parent == some target
  | normal, operatorPending | visual _, operatorPending => true
  | _, operatorPending => false
  | normal, _ => true
  | insert, normal | insert, replace | insert, select _ => true
  | replace, normal | replace, insert => true
  | visual _, normal | visual _, visual _ | visual _, select _ | visual _, commandLine => true
  | select _, normal | select _, select _ | select _, visual _ | select _, insert => true
  | commandLine, normal => true
  | _, _ => false

end Mode

namespace ModeMachine

def canTransition (m : ModeMachine) (target : Mode) : Bool :=
  target == m.mode || m.mode.isLegal target m.parent

/-- Asking for the mode one is in does nothing. -/
def transition (m : ModeMachine) (target : Mode) : Except ModeError ModeMachine :=
  if m.mode = target then .ok m
  else if m.mode.isLegal target m.parent then
    .ok { m with
      mode := target
      parent := if target = .operatorPending then some m.mode else none
      delivered := m.delivered ++ m.observers.map fun o ↦ (o, ⟨m.mode, target⟩) }
  else .error (.illegalTransition m.mode target)

/-- The change if it is allowed, and nothing otherwise. -/
def tryTransition (m : ModeMachine) (target : Mode) : ModeMachine :=
  (m.transition target).toOption.getD m

/-- Back to the normal mode, by way of the mode under the pending one. -/
def resetToNormal (m : ModeMachine) : ModeMachine :=
  let m := if m.mode = .operatorPending then m.parent.elim m m.tryTransition else m
  m.tryTransition .normal

def subscribe (m : ModeMachine) : Subscription × ModeMachine :=
  (⟨m.nextObserver⟩,
    { m with observers := m.observers ++ [⟨m.nextObserver⟩], nextObserver := m.nextObserver + 1 })

def unsubscribe (m : ModeMachine) (o : Subscription) : ModeMachine :=
  { m with observers := m.observers.filter (· ≠ o) }

end ModeMachine

end ModalEdit
