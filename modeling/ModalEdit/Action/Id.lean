import ModalEdit.Keymap.Trie

/-!
The names of the built-in actions.
-/

set_option autoImplicit false

namespace ModalEdit.ActionId

def left : ActionId := "motion.left"
def right : ActionId := "motion.right"
def up : ActionId := "motion.up"
def down : ActionId := "motion.down"
def lineStart : ActionId := "motion.line_start"
def firstNonBlank : ActionId := "motion.first_non_blank"
def lineEnd : ActionId := "motion.line_end"

/-- Also the motion of an operator whose key is typed twice. -/
def currentLine : ActionId := "motion.current_line"
def nextLineStart : ActionId := "motion.next_line_start"
def previousLineStart : ActionId := "motion.prev_line_start"
def wordForward : ActionId := "motion.word_forward"
def bigWordForward : ActionId := "motion.big_word_forward"
def wordBackward : ActionId := "motion.word_backward"
def bigWordBackward : ActionId := "motion.big_word_backward"
def wordEnd : ActionId := "motion.word_end"
def bigWordEnd : ActionId := "motion.big_word_end"
def wordEndBackward : ActionId := "motion.word_end_backward"
def bigWordEndBackward : ActionId := "motion.big_word_end_backward"
def gotoFirstLine : ActionId := "motion.goto_first_line"
def gotoLastLine : ActionId := "motion.goto_last_line"
def findForward : ActionId := "motion.find_forward"
def findBackward : ActionId := "motion.find_backward"
def tillForward : ActionId := "motion.till_forward"
def tillBackward : ActionId := "motion.till_backward"

def innerWord : ActionId := "object.inner_word"
def aroundWord : ActionId := "object.around_word"
def innerBigWord : ActionId := "object.inner_big_word"
def aroundBigWord : ActionId := "object.around_big_word"

def delete : ActionId := "operator.delete"
def change : ActionId := "operator.change"
def yank : ActionId := "operator.yank"
def lowercase : ActionId := "operator.lowercase"
def uppercase : ActionId := "operator.uppercase"
def toggleCase : ActionId := "operator.toggle_case"
def deleteLines : ActionId := "operator.delete_lines"
def changeLines : ActionId := "operator.change_lines"
def changeLinesEnd : ActionId := "operator.change_lines_end"
def yankLines : ActionId := "operator.yank_lines"

def insert : ActionId := "mode.insert"
def append : ActionId := "mode.append"
def insertLineStart : ActionId := "mode.insert_line_start"
def appendLineEnd : ActionId := "mode.append_line_end"
def openBelow : ActionId := "mode.open_below"
def openAbove : ActionId := "mode.open_above"
def replace : ActionId := "mode.replace"
def visualChar : ActionId := "mode.visual_char"
def visualLine : ActionId := "mode.visual_line"
def visualBlock : ActionId := "mode.visual_block"
def selectChar : ActionId := "mode.select_char"
def selectLine : ActionId := "mode.select_line"
def selectBlock : ActionId := "mode.select_block"
def toggleVisualSelect : ActionId := "mode.toggle_visual_select"
def commandLine : ActionId := "mode.command_line"
def escape : ActionId := "mode.escape"

def insertEscape : ActionId := "insert.escape"
def insertBackspace : ActionId := "insert.backspace"
def insertNewline : ActionId := "insert.newline"
def insertTab : ActionId := "insert.tab"
def commandLineCancel : ActionId := "cmdline.cancel"
def commandLineExecute : ActionId := "cmdline.execute"
def commandLineBackspace : ActionId := "cmdline.backspace"

def keyLeft : ActionId := "key.left"
def keyRight : ActionId := "key.right"
def keyUp : ActionId := "key.up"
def keyDown : ActionId := "key.down"
def keyHome : ActionId := "key.home"
def keyEnd : ActionId := "key.end"
def keyShiftLeft : ActionId := "key.shift_left"
def keyShiftRight : ActionId := "key.shift_right"
def keyShiftUp : ActionId := "key.shift_up"
def keyShiftDown : ActionId := "key.shift_down"
def keyShiftHome : ActionId := "key.shift_home"
def keyShiftEnd : ActionId := "key.shift_end"

end ModalEdit.ActionId
