import ModalEdit.Action.Basic
import ModalEdit.Action.Id

/-!
The span that an operator acts on when a motion or a text object completes it.
-/

set_option autoImplicit false

namespace ModalEdit.Operator

/-- Whether an action is a motion to the next word, and if so whether to the next big one. -/
def wordMotion? (id : ActionId) : Option Bool :=
  if id = ActionId.wordForward then some false
  else if id = ActionId.bigWordForward then some true
  else none

/-- To change to the next word, from a character that is not blank, changes to the end of the word. -/
def changesToWordEnd? (ctx : MotionContext) (operator : ActionId) : Option Bool :=
  if operator = ActionId.change ∧
      (ctx.text.charAt ctx.offset).any (fun c ↦ !Unicode.isWhiteSpace c) then
    wordMotion? ctx.command.action
  else none

def rangeOfTextObject (ctx : MotionContext) (r : TextRange) : TextRange :=
  if ctx.command.flags.linewise then Span.linesOf ctx.text r.start (max r.start (r.stop - 1))
  else if ctx.command.flags.inclusive && r.kind == .characterwise then
    .between r.start (Span.inclusiveEnd ctx.text r.stop) .characterwise
  else r

/-- The span between a caret and where a motion goes. -/
def rangeOfMotion (ctx : MotionContext) (destination : Nat) : TextRange :=
  let a := min ctx.offset destination
  let b := max ctx.offset destination
  if ctx.command.flags.linewise then Span.linesOf ctx.text a b
  else if ctx.command.flags.inclusive then
    .between a (Span.inclusiveEnd ctx.text b) .characterwise
  else if (wordMotion? ctx.command.action).isSome && ctx.offset < destination then
    Span.exclusive ctx.text a (Span.trimWordMotion ctx.text a b)
  else Span.exclusive ctx.text a b

/-- None if the motion or text object fails. -/
def range? (ctx : MotionContext) (operator : ActionId) : ActionHandler → Option TextRange
  | .textObject f => (f ctx).map (rangeOfTextObject ctx)
  | .motion f =>
    match changesToWordEnd? ctx operator with
    | some big =>
      let last := ctx.text.wordEnd ctx.offset ctx.count big true
      some (.between ctx.offset (Span.inclusiveEnd ctx.text last) .characterwise)
    | none => (f ctx).map (rangeOfMotion ctx)
  | .operator _ | .other _ => none

end ModalEdit.Operator
