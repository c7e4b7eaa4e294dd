import ModalEdit.Key.Basic

/-!
Key sequences and what they stand for, shared by their beginnings. A sequence keeps the target it was
given first. Looking up a buffer of strokes finds the longest bound sequence that it begins with, and
tells whether more strokes could make a longer one.
-/

set_option autoImplicit false

namespace ModalEdit

/-- The name an action is registered under. -/
abbrev ActionId := String

/-- What a complete sequence does: an action, or other strokes in its place. -/
inductive Target where
  | action (id : ActionId)
  | remap (keys : Keys)
  deriving DecidableEq, Repr

inductive BindOutcome where
  | added
  | alreadyBound
  | conflict
  deriving DecidableEq, Repr

/-- The longest bound beginning of a buffer, by its length and target; `ambiguous` if the whole buffer
also begins a longer sequence. -/
inductive Resolution where
  | matched (consumed : Nat) (target : Target) (ambiguous : Bool)
  | needMore
  | unmapped
  deriving DecidableEq, Repr

/-- The edges out of a node, oldest first: the stroke, what the sequence so far stands for, the edges
below, and the edges beside. -/
inductive Trie where
  | nil
  | edge (key : KeyStroke) (target : Option Target) (below beside : Trie)
  deriving DecidableEq, Repr

namespace Trie

/-- The target and the edges behind a stroke. -/
def follow : Trie → KeyStroke → Option (Option Target × Trie)
  | nil, _ => none
  | edge key target below beside, k => if key = k then some (target, below) else follow beside k

/-- A single path to a target. -/
def path (key : KeyStroke) (target : Target) : Keys → Trie
  | [] => edge key (some target) nil nil
  | next :: rest => edge key none (path next target rest) nil

/-- Binds the sequence of a stroke and those that follow it. -/
def insertFrom (key : KeyStroke) (rest : Keys) (target : Target) : Trie → BindOutcome × Trie
  | nil => (.added, path key target rest)
  | edge k held below beside =>
    if k = key then
      match rest with
      | [] =>
        match held with
        | none => (.added, edge k (some target) below beside)
        | some existing =>
          (if existing = target then .alreadyBound else .conflict, edge k held below beside)
      | next :: rest =>
        let (outcome, below) := insertFrom next rest target below
        (outcome, edge k held below beside)
    else
      let (outcome, beside) := insertFrom key rest target beside
      (outcome, edge k held below beside)

/-- Binds a sequence that has no target yet. The empty sequence cannot be bound. -/
def insert (t : Trie) (keys : Keys) (target : Target) : BindOutcome × Trie :=
  match keys with
  | [] => (.conflict, t)
  | key :: rest => insertFrom key rest target t

/-- The number of bound sequences. -/
def size : Trie → Nat
  | nil => 0
  | edge _ target below beside => (if target.isSome then 1 else 0) + below.size + beside.size

def get? (t : Trie) : Keys → Option Target
  | [] => none
  | [key] => (t.follow key).bind (·.1)
  | key :: next :: rest => (t.follow key).bind fun (_, below) ↦ below.get? (next :: rest)

/-- The longest bound sequence that a buffer begins with. -/
def longest? (t : Trie) : Keys → Option (Nat × Target)
  | [] => none
  | key :: rest =>
    match t.follow key with
    | none => none
    | some (target, below) =>
      match below.longest? rest with
      | some (consumed, longer) => some (consumed + 1, longer)
      | none => target.map ((1, ·))

/-- Whether a bound sequence goes beyond the buffer. -/
def goesBeyond (t : Trie) : Keys → Bool
  | [] => t != nil
  | key :: rest =>
    match t.follow key with
    | none => false
    | some (_, below) => below.goesBeyond rest

def resolve (t : Trie) (buffer : Keys) : Resolution :=
  match t.longest? buffer with
  | some (consumed, target) => .matched consumed target (t.goesBeyond buffer)
  | none => if !buffer.isEmpty && t.goesBeyond buffer then .needMore else .unmapped

end Trie

end ModalEdit
