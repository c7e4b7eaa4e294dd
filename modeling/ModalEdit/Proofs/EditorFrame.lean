import ModalEdit.Editor.Basic
import ModalEdit.Operator.Basic

/-!
What the editor's own operations leave alone. None of them touches the guard, and while the guard is
locked none of them gets a report through to the listener (`Editor.Silent`). Those that move carets and
selections keep the text and the registers besides (`Editor.Repositions`). Both relations compose, so
each operation is treated once, and whatever is made of operations follows by going through them in
order. Commands do nothing to the editor but by such operations (`Editor.Edit`), and by some of them only
if they leave the text alone (`Editor.Move`).
-/

set_option autoImplicit false
set_option relaxedAutoImplicit false

namespace ModalEdit

namespace Editor

/-- The reports that wait to be asked for. -/
def reported (e : Editor) : List EditorEvent := (e.listener.map (·.queue)).getD []

/-- The guard stays as it is, and no report gets past it while it is locked. -/
structure Silent (before after : Editor) : Prop where
  guard : after.guard = before.guard
  reported : before.guard.isLocked = true → after.reported = before.reported

/-- Carets and selections may be elsewhere; the text and the registers are the same. -/
structure Repositions (before after : Editor) : Prop extends Silent before after where
  text : after.text = before.text
  registers : after.registers = before.registers

theorem Silent.refl (e : Editor) : Silent e e := ⟨rfl, fun _ ↦ rfl⟩

theorem Silent.trans {first middle last : Editor} (h₁ : Silent first middle)
    (h₂ : Silent middle last) : Silent first last where
  guard := h₂.guard.trans h₁.guard
  reported hlocked := by
    have hmiddle : middle.guard.isLocked = true := by rwa [h₁.guard]
    exact (h₂.reported hmiddle).trans (h₁.reported hlocked)

theorem Repositions.refl (e : Editor) : Repositions e e := ⟨.refl e, rfl, rfl⟩

theorem Repositions.trans {first middle last : Editor} (h₁ : Repositions first middle)
    (h₂ : Repositions middle last) : Repositions first last where
  toSilent := h₁.toSilent.trans h₂.toSilent
  text := h₂.text.trans h₁.text
  registers := h₂.registers.trans h₁.registers

/-- An operation that has no way to the listener is silent. -/
theorem Silent.of_eq {before after : Editor} (hguard : after.guard = before.guard)
    (hlistener : after.listener = before.listener) : Silent before after where
  guard := hguard
  reported _ := by rw [Editor.reported, hlistener, Editor.reported]

/-! ### Reports -/

theorem emit_silent (e : Editor) {event : EditorEvent} (h : event.isSuppressible = true) :
    Silent e (e.emit event) where
  guard := rfl
  reported hlocked := by
    rw [reported, reported, emit]
    cases e.listener with
    | none => rfl
    | some listener =>
      have hdropped : (event.isSuppressible && e.guard.isLocked) = true := by rw [h, hlocked]; rfl
      show (listener.notify e.guard event).queue = listener.queue
      rw [Listener.notify, if_pos hdropped]

theorem emit_repositions (e : Editor) {event : EditorEvent} (h : event.isSuppressible = true) :
    Repositions e (e.emit event) := ⟨emit_silent e h, rfl, rfl⟩

theorem takeEvents_fst (e : Editor) : e.takeEvents.1 = e.reported := by
  rw [takeEvents, reported]
  cases e.listener <;> rfl

theorem takeEvents_reported (e : Editor) : e.takeEvents.2.reported = [] := by
  cases h : e.listener with
  | none => simp only [takeEvents, h, reported, Option.map_none, Option.getD_none]
  | some listener => simp only [takeEvents, h, reported, Listener.drain, Option.map_some, Option.getD_some]

theorem takeEvents_of_reported_nil {e : Editor} (h : e.reported = []) : e.takeEvents.2 = e := by
  cases hlistener : e.listener with
  | none => simp only [takeEvents, hlistener]
  | some listener =>
    have hqueue : listener.queue = [] := by
      simpa only [reported, hlistener, Option.map_some, Option.getD_some] using h
    have hdrained : listener.drain.2 = listener := by rw [Listener.drain, ← hqueue]
    simp only [takeEvents, hlistener, hdrained]
    rw [← hlistener]

/-- Taking the reports away changes nothing but the listener. -/
theorem takeEvents_eq (e : Editor) : ∃ listener, e.takeEvents.2 = { e with listener } := by
  cases h : e.listener with
  | none =>
    have hsame : e.takeEvents.2 = e := by simp only [takeEvents, h]
    exact ⟨e.listener, hsame⟩
  | some listener => exact ⟨some listener.drain.2, by simp only [takeEvents, h]⟩

/-! ### Carets and selections -/

theorem setHead_repositions (e : Editor) (caret : CaretId) (offset : Nat) :
    Repositions e (e.setHead caret offset).2 := by
  unfold setHead
  split
  · exact .refl e
  · exact ⟨.of_eq rfl rfl, rfl, rfl⟩

theorem moveCaret_repositions (e : Editor) (caret : CaretId) (offset : Nat) :
    Repositions e (e.moveCaret caret offset) := by
  have hhead := e.setHead_repositions caret offset
  unfold moveCaret
  split
  · next he =>
    rw [he] at hhead
    exact hhead
  · next he =>
    rw [he] at hhead
    exact hhead.trans (emit_repositions _ rfl)

theorem storeSelection_repositions (e : Editor) (caret : CaretId) (a b : Nat) :
    Repositions e (e.storeSelection caret a b) := by
  unfold storeSelection
  split
  · exact .refl e
  · exact ⟨.of_eq rfl rfl, rfl, rfl⟩
  · exact ⟨.of_eq rfl rfl, rfl, rfl⟩

theorem clearSelection_repositions (e : Editor) (caret : CaretId) :
    Repositions e (e.clearSelection caret).2 := by
  unfold clearSelection
  split
  · exact .refl e
  · exact ⟨.of_eq rfl rfl, rfl, rfl⟩

theorem setSelection_repositions (e : Editor) (caret : CaretId) (a b : Nat) :
    Repositions e (e.setSelection caret a b) := by
  have hstored := e.storeSelection_repositions caret a b
  unfold setSelection
  dsimp only
  split
  · exact hstored.trans (emit_repositions _ rfl)
  · exact hstored

theorem removeSelection_repositions (e : Editor) (caret : CaretId) :
    Repositions e (e.removeSelection caret) := by
  have hcleared := e.clearSelection_repositions caret
  unfold removeSelection
  split
  · next he =>
    rw [he] at hcleared
    exact hcleared
  · next he =>
    rw [he] at hcleared
    exact hcleared.trans (emit_repositions _ rfl)

/-! ### What commands do to the editor -/

/-- What commands do to the editor without touching the text. -/
inductive Move : Editor → Editor → Prop
  | bell (e : Editor) : Move e e.bell
  | moveCaret (e : Editor) (caret : CaretId) (offset : Nat) : Move e (e.moveCaret caret offset)
  | setSelection (e : Editor) (caret : CaretId) (a b : Nat) : Move e (e.setSelection caret a b)
  | removeSelection (e : Editor) (caret : CaretId) : Move e (e.removeSelection caret)

/-- All that commands do to the editor. -/
inductive Edit : Editor → Editor → Prop
  | move {e after : Editor} (h : Move e after) : Edit e after
  | eraseRange (e : Editor) (a b : Nat) : Edit e (e.eraseRange a b).2
  | insertText (e : Editor) (offset : Nat) (s : Text) : Edit e (e.insertText offset s)
  | createMark (e : Editor) (offset : Nat) : Edit e (e.createMark offset).2
  | releaseMark (e : Editor) (mark : Mark) : Edit e (e.releaseMark mark)
  | record (e : Editor) (registers : Registers) : Edit e { e with registers }

/-- What operators do to the editor: the text and the registers change, and the marks go along. -/
inductive Rewrite : Editor → Editor → Prop
  | eraseRange (e : Editor) (a b : Nat) : Rewrite e (e.eraseRange a b).2
  | insertText (e : Editor) (offset : Nat) (s : Text) : Rewrite e (e.insertText offset s)
  | record (e : Editor) (registers : Registers) : Rewrite e { e with registers }

theorem Rewrite.edit {before after : Editor} (h : Rewrite before after) : Edit before after := by
  cases h with
  | eraseRange a b => exact .eraseRange before a b
  | insertText offset s => exact .insertText before offset s
  | record registers => exact .record before registers

theorem Move.repositions {before after : Editor} (h : Move before after) : Repositions before after := by
  cases h with
  | bell => exact ⟨.of_eq rfl rfl, rfl, rfl⟩
  | moveCaret caret offset => exact before.moveCaret_repositions caret offset
  | setSelection caret a b => exact before.setSelection_repositions caret a b
  | removeSelection caret => exact before.removeSelection_repositions caret

theorem Edit.silent {before after : Editor} (h : Edit before after) : Silent before after := by
  cases h with
  | move h => exact h.repositions.toSilent
  | eraseRange a b => exact .of_eq rfl rfl
  | insertText offset s => exact .of_eq rfl rfl
  | createMark offset => exact .of_eq rfl rfl
  | releaseMark mark => exact .of_eq rfl rfl
  | record registers => exact .of_eq rfl rfl

end Editor

/-- An operator that reports nothing while the guard is locked, and after which no operator waits. -/
def Operator.Discreet (body : Operator) : Prop :=
  ∀ e args, Editor.Silent e (body e args).2 ∧ (body e args).1.nextMode ≠ .operatorPending

end ModalEdit
