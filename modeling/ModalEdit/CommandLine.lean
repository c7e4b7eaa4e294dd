import ModalEdit.Editor.Marked
import ModalEdit.Options.File
import ModalEdit.Session.Event

/-!
The command line: keys are run over a marked text, and what comes out is the marked text and the mode.
The arguments are read here, and the files that they name are read by the caller.
-/

set_option autoImplicit false

namespace ModalEdit.CommandLine

/-- Each argument is given by its name and a value, behind an equals sign or as the next word; only
extensions may be given more than once. -/
structure Arguments where
  text : Option String := none
  file : Option String := none
  keys : Option String := none
  config : Option String := none
  extensions : List String := []
  deriving DecidableEq, Repr

namespace Arguments

def assign? (a : Arguments) (name value : String) : Option Arguments :=
  match name with
  | "--text" => if a.text.isSome then none else some { a with text := some value }
  | "--file" => if a.file.isSome then none else some { a with file := some value }
  | "--keys" => if a.keys.isSome then none else some { a with keys := some value }
  | "--config" => if a.config.isSome then none else some { a with config := some value }
  | "--extension" => some { a with extensions := a.extensions ++ [value] }
  | _ => none

/-- The name before an equals sign and the value behind it. -/
def split? (word : String) : Option (String × String) :=
  let name := word.toList.takeWhile (· != '=')
  if name.length < word.length then
    some (String.ofList name, String.ofList (word.toList.drop (name.length + 1)))
  else none

/-- A word that begins with a hyphen is no value, unless it is just a hyphen. -/
def isValue (word : String) : Bool := word.toList.head? != some '-' || word == "-"

def parseFrom (a : Arguments) : List String → Option Arguments
  | [] => some a
  | [word] => (split? word).bind fun (name, value) ↦ a.assign? name value
  | word :: next :: rest =>
    match split? word with
    | some (name, value) => (a.assign? name value).bind (parseFrom · (next :: rest))
    | none => if isValue next then (a.assign? word next).bind (parseFrom · rest) else none

/-- There have to be keys, and not both a text and a file. -/
def isComplete (a : Arguments) : Bool := a.keys.isSome && !(a.text.isSome && a.file.isSome)

def parse? (words : List String) : Option Arguments := (parseFrom {} words).filter isComplete

end Arguments

/-- What to do: the text as an argument and that of a file, the keys, and the text of the configuration
file if there is one. -/
structure Request where
  text : Option Text := none
  file : Option Text := none
  keys : Option Text := none
  config : Option Text := none
  extensions : List String := []
  deriving DecidableEq, Repr

inductive Failure where
  /-- The arguments do not go together. -/
  | usage
  | missingText
  | extension (e : ExtensionError)
  | marked (e : MarkedError)
  | keys (e : KeyError)

namespace Failure

def exitCode : Failure → UInt8
  | usage => 2
  | _ => 1

def message : Failure → String
  | usage => "give --keys, and one of --text and --file"
  | missingText => "one of --text or --file is required"
  | extension e => e.message
  | marked e => e.message
  | keys e => e.message

end Failure

/-- Puts line feeds, tabs and backslashes for their escapes; any other backslash stays. -/
def expandEscapes : List Char → List Char
  | '\\' :: 'n' :: rest => '\n' :: expandEscapes rest
  | '\\' :: 't' :: rest => '\t' :: expandEscapes rest
  | '\\' :: '\\' :: rest => '\\' :: expandEscapes rest
  | c :: rest => c :: expandEscapes rest
  | [] => []

/-- The text to begin with; escapes are for the one that is an argument. -/
def startText (r : Request) : Except Failure Text :=
  match r.text, r.file with
  | some text, _ => .ok (expandEscapes text)
  | none, some content => .ok content
  | none, none => .error .missingText

/-- The options that a request comes with. A configuration that cannot be used counts for nothing. -/
def optionsOf (r : Request) : Options := (r.config.bind Options.ofFile?).getD {}

/-- The final text, which ends in a line feed, and a line with the mode. -/
def report (s : Session) : Text :=
  let text := s.editor.toMarked.render
  (if text.getLast? = some '\n' then text else text ++ ['\n']) ++ ("-- " ++ s.mode.name ++ " --\n").toList

def run (r : Request) : Except Failure Text := do
  let some written := r.keys | throw .usage
  if r.text.isSome && r.file.isSome then throw .usage
  let text ← startText r
  let options := optionsOf r
  let host ← (ExtensionHost.ofNames (options.extensions ++ r.extensions)).mapError .extension
  let marked ← (MarkedText.parse text).mapError .marked
  let session : Session := { options, edit := { editor := (Editor.ofMarked marked).attachListener } }
  let (_, session) := session.loadExtensions host
  let (_, session) ← (session.handleKeys written).mapError .keys
  return report session.pump

end ModalEdit.CommandLine
