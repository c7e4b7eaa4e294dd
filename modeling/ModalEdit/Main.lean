import ModalEdit.CommandLine

/-!
Runs keys over a text and prints what comes out.
-/

set_option autoImplicit false

open ModalEdit CommandLine

/-- Prints why nothing came of a request, and ends with the code for it. -/
def giveUp (message : String) (code : UInt8) : IO UInt32 := do
  IO.eprintln ("Error: " ++ message)
  return code.toUInt32

/-- A configuration that cannot be read counts for nothing. -/
def readConfig (path : Option String) : IO (Option Text) := do
  let some path := path | return none
  try
    return some (← IO.FS.readFile path).toList
  catch _ => return none

def main (words : List String) : IO UInt32 := do
  let some arguments := Arguments.parse? words | giveUp Failure.usage.message Failure.usage.exitCode
  let file ←
    match arguments.file with
    | none => pure none
    | some path =>
      try
        pure (some (← IO.FS.readFile path).toList)
      catch _ => return ← giveUp ("reading " ++ path) 1
  let request : Request :=
    { text := arguments.text.map (·.toList), file, keys := arguments.keys.map (·.toList)
      config := ← readConfig arguments.config, extensions := arguments.extensions }
  match CommandLine.run request with
  | .ok report =>
    IO.print (String.ofList report)
    return 0
  | .error failure => giveUp failure.message failure.exitCode
