/-!
Sets of code points as sorted runs. A run steps from its first to its last member by a stride, so that
the alternating small and capital letters of a script are one run each.
-/

set_option autoImplicit false

namespace ModalEdit.Unicode

/-- The first member, the last member and the distance between neighbours. -/
abbrev CodeRun := Nat × Nat × Nat

def CodeRun.contains (run : CodeRun) (code : Nat) : Bool :=
  run.1 ≤ code && code ≤ run.2.1 && (code - run.1) % run.2.2 == 0

/-- Whether one of the runs, sorted and without overlap, holds the code point: the first run that does
not end before it decides. -/
def inRuns : List CodeRun → Nat → Bool
  | [], _ => false
  | run :: rest, code => if code ≤ run.2.1 then run.contains code else inRuns rest code

end ModalEdit.Unicode
