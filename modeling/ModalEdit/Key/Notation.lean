import ModalEdit.Key.Basic

/-!
Written keys. A printable key without modifiers stands for itself; any other is a name between angle
brackets, with a letter and a hyphen before it for each modifier: `<Esc>`, `<C-v>`, `<S-Home>`. An
opening bracket that no closing one follows before the next opening one stands for itself.
-/

set_option autoImplicit false

namespace ModalEdit

inductive KeyError where
  | unknownKey (body : List Char)
  | emptyName
  deriving DecidableEq, Repr

namespace KeyError

def message : KeyError → String
  | unknownKey body => "unknown key name `<" ++ String.ofList body ++ ">`"
  | emptyName => "empty key notation `<>`"

end KeyError

namespace KeyCode

/-- The names a key may be read by, in small letters. -/
def names : List (List Char × KeyCode) :=
  [("esc".toList, escape), ("cr".toList, enter), ("enter".toList, enter), ("return".toList, enter),
    ("bs".toList, backspace), ("backspace".toList, backspace), ("tab".toList, tab),
    ("del".toList, delete), ("delete".toList, delete), ("up".toList, up), ("down".toList, down),
    ("left".toList, left), ("right".toList, right), ("home".toList, home), ("end".toList, endKey),
    ("space".toList, char ' '), ("lt".toList, char '<'), ("bslash".toList, char '\\'),
    ("bar".toList, char '|')]

/-- A name in any mixture of case, or a single character for itself. -/
def ofName? (name : List Char) : Option KeyCode :=
  match names.lookup (name.map Char.toLower) with
  | some code => some code
  | none =>
    match name with
    | [c] => some (char c)
    | _ => none

/-- The name a key is written by between brackets. -/
def name : KeyCode → List Char
  | char ' ' => "Space".toList
  | char '<' => "lt".toList
  | char c => [c]
  | enter => "CR".toList
  | escape => "Esc".toList
  | backspace => "BS".toList
  | tab => "Tab".toList
  | delete => "Del".toList
  | up => "Up".toList
  | down => "Down".toList
  | left => "Left".toList
  | right => "Right".toList
  | home => "Home".toList
  | endKey => "End".toList

end KeyCode

namespace Modifiers

/-- The modifier that a letter adds. -/
def add? (mods : Modifiers) (letter : Char) : Option Modifiers :=
  match letter.toUpper with
  | 'C' => some { mods with ctrl := true }
  | 'A' => some { mods with alt := true }
  | 'M' => some { mods with alt := true }
  | 'S' => some { mods with shift := true }
  | _ => none

/-- The modifiers that a bracketed name begins with, and the name behind them. A last hyphen belongs to
the name. -/
def split (mods : Modifiers) : List Char → Modifiers × List Char
  | letter :: '-' :: c :: rest =>
    match mods.add? letter with
    | some more => split more (c :: rest)
    | none => (mods, letter :: '-' :: c :: rest)
  | name => (mods, name)

def render (mods : Modifiers) : List Char :=
  (if mods.ctrl then ['C', '-'] else []) ++ (if mods.alt then ['A', '-'] else []) ++
    (if mods.shift then ['S', '-'] else [])

end Modifiers

namespace KeyStroke

/-- The stroke that the text between two brackets names. -/
def ofBracketed (body : List Char) : Except KeyError KeyStroke :=
  if body.isEmpty then .error .emptyName
  else
    let (mods, name) := Modifiers.split {} body
    match KeyCode.ofName? name with
    | some code => .ok (normalized code mods)
    | none => .error (.unknownKey body)

def isPlain (s : KeyStroke) : Bool := s.mods == {}

def render (s : KeyStroke) : List Char :=
  match s.code with
  | .char c =>
    if s.isPlain && c != ' ' && c != '<' then [c]
    else '<' :: s.mods.render ++ s.code.name ++ ['>']
  | _ => '<' :: s.mods.render ++ s.code.name ++ ['>']

end KeyStroke

namespace Keys

/-- The text up to a closing bracket and what follows it, unless another bracket opens first. -/
def untilClose? : List Char → Option (List Char × List Char)
  | [] => none
  | '>' :: rest => some ([], rest)
  | '<' :: _ => none
  | c :: rest => (untilClose? rest).map fun (body, after) ↦ (c :: body, after)

theorem length_lt_of_untilClose? {s body after : List Char} (h : untilClose? s = some (body, after)) :
    after.length < s.length := by
  induction s generalizing body with
  | nil => simp [untilClose?] at h
  | cons c rest ih =>
    unfold untilClose? at h
    split at h
    · simp_all
    · simp_all
    · simp_all
    · next hc =>
      obtain ⟨rfl, rfl⟩ := List.cons.inj hc
      obtain ⟨⟨body', after'⟩, hr, he⟩ := Option.map_eq_some_iff.1 h
      obtain ⟨rfl, rfl⟩ := Prod.mk.inj he
      have := ih hr
      simp only [List.length_cons]
      omega

/-- The strokes that a text writes; the first name that means nothing is the error. -/
def parse : List Char → Except KeyError Keys
  | [] => .ok []
  | c :: rest =>
    if c = '<' then
      match h : untilClose? rest with
      | some (body, after) => do
        let stroke ← KeyStroke.ofBracketed body
        have := length_lt_of_untilClose? h
        return stroke :: (← parse after)
      | none => do return .char c :: (← parse rest)
    else do return .char c :: (← parse rest)
termination_by s => s.length
decreasing_by all_goals simp only [List.length_cons]; omega

def render (keys : Keys) : List Char := keys.flatMap KeyStroke.render

end Keys

end ModalEdit
