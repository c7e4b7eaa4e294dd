import ModalEdit.Keymap.Trie
import ModalEdit.Mode.Basic

/-!
A keymap holds one trie for each mapping mode. A binding goes into the tries of all the modes it is made
for, and one mode consults one trie.
-/

set_option autoImplicit false

namespace ModalEdit

inductive MapMode where
  | normal
  | visual
  | select
  | operatorPending
  | insert
  | commandLine
  deriving DecidableEq, Repr

namespace MapMode

def all : List MapMode := [normal, visual, select, operatorPending, insert, commandLine]

/-- The letter a mapping mode is written by. -/
def letter : MapMode → Char
  | normal => 'N'
  | visual => 'V'
  | select => 'S'
  | operatorPending => 'O'
  | insert => 'I'
  | commandLine => 'C'

/-- The modes that a text of letters names. -/
def ofLetters (letters : List Char) : List MapMode := all.filter (letters.contains ·.letter)

/-- The trie that is consulted in a mode. -/
def ofMode : Mode → MapMode
  | .normal => normal
  | .insert | .replace => insert
  | .visual _ => visual
  | .select _ => select
  | .operatorPending => operatorPending
  | .commandLine => commandLine

end MapMode

structure Keymap where
  normal : Trie := .nil
  visual : Trie := .nil
  select : Trie := .nil
  operatorPending : Trie := .nil
  insert : Trie := .nil
  commandLine : Trie := .nil
  deriving DecidableEq, Repr

namespace Keymap

def trie (m : Keymap) : MapMode → Trie
  | .normal => m.normal
  | .visual => m.visual
  | .select => m.select
  | .operatorPending => m.operatorPending
  | .insert => m.insert
  | .commandLine => m.commandLine

def setTrie (m : Keymap) (mode : MapMode) (t : Trie) : Keymap :=
  match mode with
  | .normal => { m with normal := t }
  | .visual => { m with visual := t }
  | .select => { m with select := t }
  | .operatorPending => { m with operatorPending := t }
  | .insert => { m with insert := t }
  | .commandLine => { m with commandLine := t }

/-- Added if some mode gained the binding, else a conflict if some mode refused it. -/
def combine : BindOutcome → BindOutcome → BindOutcome
  | .added, _ | _, .added => .added
  | .conflict, _ | _, .conflict => .conflict
  | .alreadyBound, .alreadyBound => .alreadyBound

def bind (m : Keymap) (modes : List MapMode) (keys : Keys) (target : Target) : BindOutcome × Keymap :=
  modes.foldl
    (fun (outcome, m) mode ↦
      let (here, t) := (m.trie mode).insert keys target
      (combine outcome here, m.setTrie mode t))
    (.alreadyBound, m)

def get? (m : Keymap) (mode : MapMode) (keys : Keys) : Option Target := (m.trie mode).get? keys

def resolve (m : Keymap) (mode : MapMode) (buffer : Keys) : Resolution := (m.trie mode).resolve buffer

end Keymap

end ModalEdit
