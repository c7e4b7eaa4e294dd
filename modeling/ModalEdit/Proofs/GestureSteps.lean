import ModalEdit.Proofs.SessionFrame

/-!
What gestures are made of. Every gesture of a user is a chain of single steps: a caret is put somewhere, a
selection is stored or dropped, a report is made, a caret comes or goes (`Editor.GestureStep`). Each gesture
is taken apart once (`Gesture.on_steps`), and what the steps keep, all gestures keep (`Gesture.keeps`).
-/

set_option autoImplicit false
set_option relaxedAutoImplicit false

namespace ModalEdit

open Relation (ReflTransGen)

namespace Editor

/-- One thing that a gesture does to the editor. -/
inductive GestureStep : Editor → Editor → Prop
  | setHead (e : Editor) (caret : CaretId) (offset : Nat) : GestureStep e (e.setHead caret offset).2
  | storeSelection (e : Editor) (caret : CaretId) (a b : Nat) : GestureStep e (e.storeSelection caret a b)
  | clearSelection (e : Editor) (caret : CaretId) : GestureStep e (e.clearSelection caret).2
  | emit (e : Editor) (event : EditorEvent) : GestureStep e (e.emit event)
  | spawnCaret (e : Editor) (offset : Nat) : GestureStep e (e.spawnCaret offset).2
  | removeCaret (e : Editor) (caret : CaretId) : GestureStep e (e.removeCaret caret).2

abbrev GestureSteps := ReflTransGen GestureStep

theorem collapseSelection_steps (e : Editor) (caret : CaretId) (offset : Nat) (source : EventSource) :
    GestureSteps e (e.collapseSelection caret offset source) := by
  have hcleared : GestureSteps e (e.clearSelection caret).2 := .single (.clearSelection e caret)
  unfold collapseSelection
  split
  · next he =>
    rw [he] at hcleared
    exact hcleared
  · next he =>
    rw [he] at hcleared
    exact hcleared.tail (.emit _ _)

/-- A gesture that begins by putting a caret somewhere, and does no more if it is not there. -/
theorem steps_of_setHead (e : Editor) (caret : CaretId) (offset : Nat) {f : Nat → Editor → Editor}
    (hf : ∀ offset moved, GestureSteps moved (f offset moved)) :
    GestureSteps e (match e.setHead caret offset with
      | (none, e) => e
      | (some offset, e) => f offset e) := by
  have hmoved : GestureSteps e (e.setHead caret offset).2 := .single (.setHead e caret offset)
  split
  · next he =>
    rw [he] at hmoved
    exact hmoved
  · next he =>
    rw [he] at hmoved
    exact hmoved.trans (hf _ _)

theorem userSelect_steps (e : Editor) (caret : CaretId) (anchor head : Nat) (source : EventSource) :
    GestureSteps e (e.userSelect caret anchor head source) :=
  e.steps_of_setHead caret head fun _ moved ↦
    .tail (.single (.storeSelection moved caret anchor head)) (.emit _ _)

end Editor

namespace Session

theorem Gesture.on_steps (g : Gesture) (e : Editor) : e.GestureSteps (g.on e) := by
  cases g with
  | select caret anchor head source => exact e.userSelect_steps caret anchor head source
  | click caret offset clicks =>
    exact e.steps_of_setHead caret offset fun _ moved ↦
      (moved.collapseSelection_steps caret _ _).tail (.emit _ _)
  | moveCaret caret offset =>
    exact e.steps_of_setHead caret offset fun _ moved ↦
      (moved.collapseSelection_steps caret _ _).tail (.emit _ _)
  | dragStart caret => exact .single (.emit e _)
  | dragTo caret anchor head => exact e.userSelect_steps caret anchor head .mouse
  | release caret => exact .single (.emit e _)
  | addCaret offset => exact .tail (.single (.spawnCaret e offset)) (.emit _ _)
  | removeCaret caret => exact .single (.removeCaret e caret)

/-- What each step keeps, a gesture keeps. -/
theorem Gesture.keeps {P : Editor → Prop} (hstep : ∀ {e after}, Editor.GestureStep e after → P e → P after)
    (g : Gesture) {e : Editor} (h : P e) : P (g.on e) := by
  have hsteps := g.on_steps e
  generalize g.on e = after at hsteps ⊢
  induction hsteps with
  | refl => exact h
  | tail _ hlast ih => exact hstep hlast ih

end Session

end ModalEdit
