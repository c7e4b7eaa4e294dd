import ModalEdit.Action.Id
import ModalEdit.Keymap.Basic

/-!
The default bindings.
-/

set_option autoImplicit false

namespace ModalEdit

/-- A key sequence with what it does, in some modes. -/
structure Binding where
  modes : List MapMode
  keys : Keys
  target : Target
  deriving DecidableEq, Repr

namespace Keymap

def bindAll (m : Keymap) (bindings : List Binding) : Keymap :=
  bindings.foldl (fun m b ↦ (m.bind b.modes b.keys b.target).2) m

namespace Default

/-- The strokes that type a text. -/
def typed (s : String) : Keys := s.toList.map .char

def press (code : KeyCode) : Keys := [{ code }]

def shifted (code : KeyCode) : Keys := [{ code, mods := { shift := true } }]

def ctrl (c : Char) : Keys := [{ code := .char c, mods := { ctrl := true } }]

def bind (letters : String) (keys : Keys) (id : ActionId) : Binding :=
  { modes := MapMode.ofLetters letters.toList, keys, target := .action id }

def remap (keys replacement : String) : Binding :=
  { modes := [.normal], keys := typed keys, target := .remap (typed replacement) }

def motions : List Binding := [
  bind "NVO" (typed "h") ActionId.left,
  bind "NVO" (typed "l") ActionId.right,
  bind "NVO" (typed "j") ActionId.down,
  bind "NVO" (typed "k") ActionId.up,
  bind "NVO" (typed "0") ActionId.lineStart,
  bind "NVO" (typed "^") ActionId.firstNonBlank,
  bind "NVO" (typed "$") ActionId.lineEnd,
  bind "NVO" (typed "_") ActionId.currentLine,
  bind "NVO" (typed "+") ActionId.nextLineStart,
  bind "NVO" (press .enter) ActionId.nextLineStart,
  bind "NVO" (typed "-") ActionId.previousLineStart,
  bind "NVO" (typed "w") ActionId.wordForward,
  bind "NVO" (typed "W") ActionId.bigWordForward,
  bind "NVO" (typed "b") ActionId.wordBackward,
  bind "NVO" (typed "B") ActionId.bigWordBackward,
  bind "NVO" (typed "e") ActionId.wordEnd,
  bind "NVO" (typed "E") ActionId.bigWordEnd,
  bind "NVO" (typed "ge") ActionId.wordEndBackward,
  bind "NVO" (typed "gE") ActionId.bigWordEndBackward,
  bind "NVO" (typed "gg") ActionId.gotoFirstLine,
  bind "NVO" (typed "G") ActionId.gotoLastLine,
  bind "NVO" (typed "f") ActionId.findForward,
  bind "NVO" (typed "F") ActionId.findBackward,
  bind "NVO" (typed "t") ActionId.tillForward,
  bind "NVO" (typed "T") ActionId.tillBackward]

def specialKeys : List Binding := [
  bind "NOI" (press .left) ActionId.left,
  bind "NOI" (press .right) ActionId.right,
  bind "NOI" (press .up) ActionId.up,
  bind "NOI" (press .down) ActionId.down,
  bind "NOI" (press .home) ActionId.lineStart,
  bind "NOI" (press .endKey) ActionId.lineEnd,
  bind "VS" (press .left) ActionId.keyLeft,
  bind "VS" (press .right) ActionId.keyRight,
  bind "VS" (press .up) ActionId.keyUp,
  bind "VS" (press .down) ActionId.keyDown,
  bind "VS" (press .home) ActionId.keyHome,
  bind "VS" (press .endKey) ActionId.keyEnd,
  bind "NVSI" (shifted .left) ActionId.keyShiftLeft,
  bind "NVSI" (shifted .right) ActionId.keyShiftRight,
  bind "NVSI" (shifted .up) ActionId.keyShiftUp,
  bind "NVSI" (shifted .down) ActionId.keyShiftDown,
  bind "NVSI" (shifted .home) ActionId.keyShiftHome,
  bind "NVSI" (shifted .endKey) ActionId.keyShiftEnd]

def textObjects : List Binding := [
  bind "VO" (typed "iw") ActionId.innerWord,
  bind "VO" (typed "aw") ActionId.aroundWord,
  bind "VO" (typed "iW") ActionId.innerBigWord,
  bind "VO" (typed "aW") ActionId.aroundBigWord]

/-- In the pending mode `u`, `U` and `~` are the second key of `guu`, `gUU` and `g~~`. -/
def operators : List Binding := [
  bind "NVO" (typed "d") ActionId.delete,
  bind "NVO" (typed "c") ActionId.change,
  bind "NVO" (typed "y") ActionId.yank,
  bind "NVO" (typed "gu") ActionId.lowercase,
  bind "NVO" (typed "gU") ActionId.uppercase,
  bind "NVO" (typed "g~") ActionId.toggleCase,
  bind "O" (typed "u") ActionId.lowercase,
  bind "O" (typed "U") ActionId.uppercase,
  bind "O" (typed "~") ActionId.toggleCase,
  bind "V" (typed "x") ActionId.delete,
  bind "V" (typed "X") ActionId.deleteLines,
  bind "V" (typed "D") ActionId.deleteLines,
  bind "V" (typed "s") ActionId.change,
  bind "V" (typed "S") ActionId.changeLines,
  bind "V" (typed "R") ActionId.changeLines,
  bind "V" (typed "C") ActionId.changeLinesEnd,
  bind "V" (typed "Y") ActionId.yankLines,
  bind "V" (typed "u") ActionId.lowercase,
  bind "V" (typed "U") ActionId.uppercase,
  bind "V" (typed "~") ActionId.toggleCase]

def remaps : List Binding := [
  remap "x" "dl",
  remap "X" "dh",
  remap "D" "d$",
  remap "C" "c$",
  remap "s" "cl",
  remap "Y" "yy",
  remap "~" "g~ll"]

def modeChanges : List Binding := [
  bind "N" (typed "i") ActionId.insert,
  bind "N" (typed "a") ActionId.append,
  bind "N" (typed "I") ActionId.insertLineStart,
  bind "N" (typed "A") ActionId.appendLineEnd,
  bind "N" (typed "o") ActionId.openBelow,
  bind "N" (typed "O") ActionId.openAbove,
  bind "N" (typed "R") ActionId.replace,
  bind "NV" (typed "v") ActionId.visualChar,
  bind "NV" (typed "V") ActionId.visualLine,
  bind "NV" (ctrl 'v') ActionId.visualBlock,
  bind "N" (typed "gh") ActionId.selectChar,
  bind "N" (typed "gH") ActionId.selectLine,
  bind "N" (typed "g" ++ ctrl 'h') ActionId.selectBlock,
  bind "VS" (ctrl 'g') ActionId.toggleVisualSelect,
  bind "NV" (typed ":") ActionId.commandLine,
  bind "NVS" (press .escape) ActionId.escape]

def typing : List Binding := [
  bind "I" (press .escape) ActionId.insertEscape,
  bind "I" (press .backspace) ActionId.insertBackspace,
  bind "I" (press .enter) ActionId.insertNewline,
  bind "I" (press .tab) ActionId.insertTab,
  bind "C" (press .escape) ActionId.commandLineCancel,
  bind "C" (press .enter) ActionId.commandLineExecute,
  bind "C" (press .backspace) ActionId.commandLineBackspace]

def bindings : List Binding :=
  motions ++ specialKeys ++ textObjects ++ operators ++ remaps ++ modeChanges ++ typing

end Default

def default : Keymap := bindAll {} Default.bindings

end Keymap

end ModalEdit
