import Mathlib.Logic.Function.Iterate
import ModalEdit.Proofs.EditFrame
import ModalEdit.Proofs.Transcript
import ModalEdit.Session.Event

/-!
What a session does in one step. Whatever a command does with the guard locked goes unheard: the
listener has no more reports after it than before, whether or not the guard was locked already
(`guarded_unheard`). A turn of the reading loop hands the resolver one stroke and acts on the outcome
(`Session.readNext`); draining the input is nothing but turns, taken until the input is empty
(`exists_drain_eq_iterate`, `drain_input`). What the editor reports is dealt with by changes that are
`Harmless`: the text and the registers stay, and the resolver is not touched (`handleEvent_eq`,
`pump_eq`).
-/

set_option autoImplicit false
set_option relaxedAutoImplicit false

namespace ModalEdit

namespace EditState

/-! ### Changes that nobody hears of -/

/-- The listener has heard nothing new, and the mode has changed steadily. -/
structure Unheard (before after : EditState) : Prop where
  reported : after.editor.reported = before.editor.reported
  modes : before.modes.Steady after.modes

/-- Nothing was heard of the change, and the text and the registers are the same. -/
structure Harmless (before after : EditState) : Prop extends Unheard before after where
  text : after.text = before.text
  registers : after.editor.registers = before.editor.registers

theorem Unheard.refl (s : EditState) : Unheard s s := ⟨rfl, .refl s.modes⟩

theorem Harmless.refl (s : EditState) : Harmless s s := ⟨.refl s, rfl, rfl⟩

theorem Harmless.trans {first middle last : EditState} (h₁ : Harmless first middle)
    (h₂ : Harmless middle last) : Harmless first last where
  reported := h₂.reported.trans h₁.reported
  modes := h₁.modes.trans h₂.modes
  text := h₂.text.trans h₁.text
  registers := h₂.registers.trans h₁.registers

/-- The state in which something is done with the guard locked. -/
def prepared (s : EditState) : EditState := s.lock.2.syncCarets

theorem prepared_isLocked (s : EditState) : s.prepared.editor.guard.isLocked = true :=
  decide_eq_true (Nat.succ_pos s.editor.guard.depth)

section Guarded

variable {α : Type} {f : EditState → α × EditState} (s : EditState)

theorem guarded_unheard (h : Orderly s.prepared (f s.prepared).2) : Unheard s (s.guarded f).2 where
  reported := h.editor.reported s.prepared_isLocked
  modes := h.modes

theorem guarded_harmless (h : Rearranges s.prepared (f s.prepared).2) :
    Harmless s (s.guarded f).2 where
  toUnheard := s.guarded_unheard h.orderly
  text := h.editor.text
  registers := h.editor.registers

theorem lock_harmless : Harmless s s.lock.2 := ⟨⟨rfl, .refl s.modes⟩, rfl, rfl⟩

theorem unlock_harmless (token : SuppressionToken) : Harmless s (s.unlock token) :=
  ⟨⟨rfl, .refl s.modes⟩, rfl, rfl⟩

end Guarded

theorem guardedChange_harmless {f : EditState → EditState} (s : EditState)
    (h : Rearranges s.prepared (f s.prepared)) : Harmless s (s.guardedChange f) := s.guarded_harmless h

/-! ### Acting on an outcome -/

/-- The mode machine once it follows the resolver. -/
theorem syncOperatorMode_eq (s : EditState) (operatorPending : Bool) :
    s.syncOperatorMode operatorPending = { s with
      modes := if operatorPending then s.modes.tryTransition .operatorPending
        else if s.mode = .operatorPending then s.modes.leavePending else s.modes } := by
  unfold syncOperatorMode
  cases operatorPending with
  | true => rfl
  | false =>
    by_cases hmode : s.mode = .operatorPending
    · rw [if_neg Bool.false_ne_true, if_neg Bool.false_ne_true, if_pos hmode, if_pos hmode]
      rfl
    · rw [if_neg Bool.false_ne_true, if_neg Bool.false_ne_true, if_neg hmode, if_neg hmode]

/-- With no operator waiting and none pending, there is nothing to follow. -/
theorem syncOperatorMode_of_ne {s : EditState} (h : s.mode ≠ .operatorPending) :
    s.syncOperatorMode false = s := by
  rw [syncOperatorMode_eq, if_neg Bool.false_ne_true, if_neg h]

theorem syncOperatorMode_coherent {s : EditState} (h : s.modes.Coherent) (operatorPending : Bool) :
    (s.syncOperatorMode operatorPending).modes.Coherent := by
  rw [syncOperatorMode_eq]
  cases operatorPending with
  | true => exact ModeMachine.tryTransition_coherent h .operatorPending
  | false => exact h.settles.2

/-- With no operator waiting, the machine is not in the pending mode. -/
theorem syncOperatorMode_settled {s : EditState} (h : s.modes.Coherent) :
    (s.syncOperatorMode false).mode ≠ .operatorPending := by
  rw [syncOperatorMode_eq]
  exact h.settles.1

/-- Apart from the mode that follows the resolver, an outcome is acted on unheard. -/
theorem apply_unheard {registry : Registry} (hregistry : registry.Orderly) (s : EditState)
    (options : Options) (operatorPending : Bool) (outcome : Outcome) :
    Unheard (s.syncOperatorMode operatorPending)
      (s.apply registry options operatorPending outcome).2 := by
  generalize hsynced : s.syncOperatorMode operatorPending = synced
  unfold apply
  rw [hsynced]
  cases outcome with
  | pending => exact .refl synced
  | resolved command =>
    show Unheard synced (synced.guarded fun s ↦ s.execute registry options command).2
    exact synced.guarded_unheard (execute_orderly hregistry synced.prepared options command)
  | cancelled => exact (synced.guardedChange_harmless synced.prepared.cancel_moves.rearranges).toUnheard
  | unmapped keys =>
    dsimp only
    split
    · show Unheard synced (synced.guarded fun s ↦ s.typeKeys keys).2
      exact synced.guarded_unheard (synced.prepared.typeKeys_edits keys).edits_orderly
    · exact ⟨rfl, .refl synced.modes⟩

/-! ### What the editor reports -/

theorem adoptSelection_moves (s : EditState) (options : Options) (caret : CaretId)
    (source : EventSource) : Moves s (s.adoptSelection options caret source) := by
  unfold adoptSelection
  split
  · split
    · exact s.exitToNormal_moves
    · exact .refl s
  · dsimp only
    generalize htarget : (if startsSelect options source then Mode.select .character
      else Mode.visual .character) = target
    have hne : target ≠ .operatorPending := by
      rw [← htarget]
      split <;> exact Mode.noConfusion
    generalize hmarked : s.modifyCaret caret _ = marked
    have hmarks : Moves s marked := by
      rw [← hmarked]
      exact s.modifyCaret_moves caret _
    generalize hentry : (if marked.mode = target then (true, marked)
      else marked.enterMode target) = entry
    have hentered : Moves s entry.2 := by
      rw [← hentry]
      split
      · exact hmarks
      · exact hmarks.trans (marked.enterMode_moves hne)
    split
    · exact (hentered.trans (moveCaret_moves _ caret _)).trans (updateSelection_moves _ caret)
    · exact hentered

theorem click_moves (s : EditState) (caret : CaretId) (offset : Nat) :
    Moves s (s.click caret offset) := by
  unfold click
  dsimp only
  generalize hleft : (if s.mode.isVisual || s.mode.isSelect then s.exitToNormal else s) = left
  have hexit : Moves s left := by
    rw [← hleft]
    split
    · exact s.exitToNormal_moves
    · exact .refl s
  split
  · exact hexit
  · split
    · exact hexit.trans (left.moveCaret_moves caret _)
    · exact hexit

end EditState

namespace Session

/-- Any report is dealt with by a harmless change, and nothing but the state of the commands and the
drag is concerned. -/
theorem handleEvent_eq (s : Session) (event : EditorEvent) :
    ∃ edit dragging, s.handleEvent event = { s with edit, dragging } ∧ s.edit.Harmless edit := by
  cases event with
  | caretAdded caret offset => exact ⟨_, s.dragging, rfl, ⟨rfl, .refl _⟩, rfl, rfl⟩
  | caretRemoved caret => exact ⟨_, s.dragging, rfl, ⟨rfl, .refl _⟩, rfl, rfl⟩
  | caretMoved caret offset => exact ⟨_, s.dragging, rfl, ⟨rfl, .refl _⟩, rfl, rfl⟩
  | dragStarted caret =>
    unfold handleEvent
    dsimp only
    split
    · exact ⟨s.edit, s.dragging, rfl, .refl s.edit⟩
    · exact ⟨_, true, rfl, s.edit.lock_harmless⟩
  | mouseReleased caret =>
    unfold handleEvent
    dsimp only
    split
    · exact ⟨_, false, rfl, (s.edit.guardedChange_harmless
        (EditState.adoptSelection_moves _ _ _ _).rearranges).trans (EditState.unlock_harmless _ {})⟩
    · exact ⟨s.edit, s.dragging, rfl, .refl s.edit⟩
  | mouseClicked caret offset clicks =>
    unfold handleEvent
    dsimp only
    split
    · exact ⟨_, s.dragging, rfl, s.edit.guardedChange_harmless (EditState.click_moves _ _ _).rearranges⟩
    · exact ⟨s.edit, s.dragging, rfl, .refl s.edit⟩
  | selectionChanged caret start stop source =>
    exact ⟨_, s.dragging, rfl, s.edit.guardedChange_harmless
      (EditState.adoptSelection_moves _ _ _ _).rearranges⟩

/-- Dealing with all reports leaves none, and changes neither the text nor the registers nor anything
but the state of the commands and the drag. -/
theorem pump_eq (s : Session) : ∃ edit dragging, s.pump = { s with edit, dragging } ∧
    edit.editor.reported = [] ∧ s.edit.modes.Steady edit.modes ∧ edit.text = s.edit.text ∧
    edit.editor.registers = s.edit.editor.registers := by
  have hfold : ∃ edit dragging,
      s.editor.takeEvents.1.foldl handleEvent (s.withEditor s.editor.takeEvents.2) =
        { s with edit, dragging } ∧
      EditState.Harmless { s.edit with editor := s.editor.takeEvents.2 } edit := by
    refine List.foldlRecOn (motive := fun t : Session ↦ ∃ edit dragging, t = { s with edit, dragging } ∧
      EditState.Harmless { s.edit with editor := s.editor.takeEvents.2 } edit) _ _
      ⟨_, s.dragging, rfl, .refl _⟩ ?_
    rintro _ ⟨edit, dragging, rfl, hedit⟩ event -
    obtain ⟨edit', dragging', heq, hnext⟩ := handleEvent_eq { s with edit, dragging } event
    exact ⟨edit', dragging', heq, hedit.trans hnext⟩
  obtain ⟨edit, dragging, heq, hedit⟩ := hfold
  obtain ⟨listener, htaken⟩ := s.editor.takeEvents_eq
  refine ⟨edit, dragging, heq, ?_, hedit.modes, ?_, ?_⟩
  · rw [hedit.reported]
    exact s.editor.takeEvents_reported
  · rw [hedit.text]
    show s.editor.takeEvents.2.buffer.text = s.edit.editor.buffer.text
    rw [htaken]
    rfl
  · rw [hedit.registers]
    show s.editor.takeEvents.2.registers = s.edit.editor.registers
    rw [htaken]
    rfl

theorem pump_resolver (s : Session) : s.pump.resolver = s.resolver := by
  obtain ⟨edit, dragging, hpump, -⟩ := s.pump_eq
  rw [hpump]

theorem pump_reported (s : Session) : s.pump.editor.reported = [] := by
  obtain ⟨edit, dragging, hpump, hreported, -⟩ := s.pump_eq
  rw [hpump]
  exact hreported

theorem pump_steady (s : Session) : s.edit.modes.Steady s.pump.edit.modes := by
  obtain ⟨edit, dragging, hpump, -, hmodes, -⟩ := s.pump_eq
  rw [hpump]
  exact hmodes

theorem pump_of_reported_nil {s : Session} (h : s.editor.reported = []) : s.pump = s := by
  show s.editor.takeEvents.1.foldl handleEvent (s.withEditor s.editor.takeEvents.2) = s
  rw [Editor.takeEvents_fst, h, Editor.takeEvents_of_reported_nil h]
  rfl

/-! ### The reading loop -/

/-- Acts on what the resolver gave for a stroke, or when it was flushed. -/
def act (s : Session) (result : Outcome × Resolver) : KeyOutcome × Session :=
  let (done, edit) := s.edit.apply s.registry s.options result.2.operatorPending result.1
  (done, { s with resolver := result.2, edit })

section Act

variable {s : Session} (horderly : s.registry.Orderly)
include horderly

theorem act_unheard (result : Outcome × Resolver) :
    (s.edit.syncOperatorMode result.2.operatorPending).Unheard (s.act result).2.edit :=
  s.edit.apply_unheard horderly s.options result.2.operatorPending result.1

theorem act_reported (result : Outcome × Resolver) :
    (s.act result).2.editor.reported = s.editor.reported := by
  have hdone := (act_unheard horderly result).reported
  rw [EditState.syncOperatorMode_eq] at hdone
  exact hdone

theorem act_coherent (h : s.edit.modes.Coherent) (result : Outcome × Resolver) :
    (s.act result).2.edit.modes.Coherent :=
  (act_unheard horderly result).modes.coherent (EditState.syncOperatorMode_coherent h _)

/-- Where no operator waits, the pending mode is left and not entered again. -/
theorem act_settled (h : s.edit.modes.Coherent) {result : Outcome × Resolver}
    (hnone : result.2.operatorPending = false) : (s.act result).2.mode ≠ .operatorPending := by
  have hdone := (act_unheard horderly result).modes
  rw [hnone] at hdone
  exact hdone.settled (EditState.syncOperatorMode_settled h)

end Act

/-- One turn: the first stroke of the input is fed and its outcome acted on. -/
def readNext (s : Session) : Session :=
  match s.resolver.input with
  | [] => s
  | stroke :: _ => (s.act (s.resolver.afterRead.feed stroke s.mode s.keymap s.registry)).2

/-- What flushing does before the input is read. -/
def flushNext (s : Session) : Session := (s.act (s.resolver.flush s.mode s.keymap s.registry)).2

theorem readNext_of_cons {s : Session} {stroke : KeyStroke} {rest : Keys}
    (h : s.resolver.input = stroke :: rest) :
    s.readNext = (s.act (s.resolver.afterRead.feed stroke s.mode s.keymap s.registry)).2 := by
  simp only [readNext, h]

theorem readNext_of_nil {s : Session} (h : s.resolver.input = []) : s.readNext = s := by
  simp only [readNext, h]

theorem readNext_reported {s : Session} (horderly : s.registry.Orderly) :
    s.readNext.editor.reported = s.editor.reported := by
  cases hinput : s.resolver.input with
  | nil => rw [readNext_of_nil hinput]
  | cons stroke rest =>
    rw [readNext_of_cons hinput]
    exact act_reported horderly _

theorem readNext_closer {s : Session} (h : s.resolver.input ≠ []) :
    s.readNext.resolver.Closer s.resolver := by
  obtain ⟨stroke, rest, hcons⟩ := List.exists_cons_of_ne_nil h
  rw [readNext_of_cons hcons]
  exact Resolver.feed_closer stroke s.mode s.keymap s.registry (List.length_pos_of_ne_nil h)

theorem drain_of_nil {s : Session} (last : KeyOutcome) (h : s.resolver.input = []) :
    s.drain last = (last, s) := by
  unfold drain
  rw [Resolver.drain_of_nil _ _ _ _ _ h]

theorem drain_of_cons {s : Session} {stroke : KeyStroke} {rest : Keys} (last : KeyOutcome)
    (h : s.resolver.input = stroke :: rest) : s.drain last = s.readNext.drain
      (s.act (s.resolver.afterRead.feed stroke s.mode s.keymap s.registry)).1 := by
  rw [readNext_of_cons h]
  unfold drain
  rw [Resolver.drain_of_cons _ _ _ _ _ h]
  rfl

/-- Draining takes turns, and stops only when there is nothing left to read. -/
theorem exists_drain_eq_iterate (s : Session) (last : KeyOutcome) :
    (∃ turns, (s.drain last).2 = readNext^[turns] s) ∧ (s.drain last).2.resolver.input = [] := by
  generalize hstart : s.resolver = start
  induction start using Resolver.wellFounded_closer.induction generalizing s last with
  | _ start ih =>
    subst hstart
    by_cases hinput : s.resolver.input = []
    · rw [drain_of_nil last hinput]
      exact ⟨⟨0, rfl⟩, hinput⟩
    · obtain ⟨stroke, rest, hcons⟩ := List.exists_cons_of_ne_nil hinput
      rw [drain_of_cons last hcons]
      obtain ⟨⟨turns, hturns⟩, hempty⟩ := ih _ (readNext_closer hinput) s.readNext _ rfl
      exact ⟨⟨turns + 1, hturns⟩, hempty⟩

/-- What each turn keeps, draining keeps. -/
theorem drain_keeps {P : Session → Prop} (hstep : ∀ t, P t → P t.readNext) {s : Session}
    (last : KeyOutcome) (h : P s) : P (s.drain last).2 := by
  obtain ⟨⟨turns, hturns⟩, -⟩ := s.exists_drain_eq_iterate last
  rw [hturns]
  exact Function.Iterate.rec P h hstep turns

theorem drain_input (s : Session) (last : KeyOutcome) : (s.drain last).2.resolver.input = [] :=
  (s.exists_drain_eq_iterate last).2

/-! ### Keys, calls and gestures -/

/-- Takes a stroke from outside, to be read next. -/
def enqueue (s : Session) (stroke : KeyStroke) : Session :=
  { s with resolver := s.resolver.enqueue stroke }

theorem enqueue_input (s : Session) (stroke : KeyStroke) :
    (s.enqueue stroke).resolver.input = s.resolver.input ++ [stroke] := rfl

theorem handleKey_snd (s : Session) (stroke : KeyStroke) :
    (s.handleKey stroke).2 = ((s.pump.enqueue stroke).drain .pending).2 := rfl

/-- A stroke that leaves nothing to read takes one turn. -/
theorem handleKey_of_read {s : Session} {stroke : KeyStroke}
    (h : (s.pump.enqueue stroke).readNext.resolver.input = []) :
    (s.handleKey stroke).2 = (s.pump.enqueue stroke).readNext := by
  have hne : (s.pump.enqueue stroke).resolver.input ≠ [] := by
    rw [enqueue_input]
    exact List.append_ne_nil_of_right_ne_nil _ (List.cons_ne_nil stroke [])
  obtain ⟨first, rest, hcons⟩ := List.exists_cons_of_ne_nil hne
  rw [handleKey_snd, drain_of_cons .pending hcons, drain_of_nil _ h]

/-- With nothing else to read, a stroke is answered by what is done about it. -/
theorem handleKey_of_act {s : Session} {stroke : KeyStroke} {result : KeyOutcome × Session}
    (hinput : s.pump.resolver.input = [])
    (h : (s.pump.enqueue stroke).act ((s.pump.enqueue stroke).resolver.afterRead.feed stroke
      s.pump.mode s.pump.keymap s.pump.registry) = result)
    (hread : result.2.resolver.input = []) : s.handleKey stroke = result := by
  have hcons : (s.pump.enqueue stroke).resolver.input = [stroke] := by
    rw [enqueue_input, hinput, List.nil_append]
  have hnext : (s.pump.enqueue stroke).readNext = result.2 := by
    rw [readNext_of_cons hcons]
    exact congrArg Prod.snd h
  show (s.pump.enqueue stroke).drain .pending = result
  rw [drain_of_cons .pending hcons, hnext, drain_of_nil _ hread]
  have hanswer := congrArg Prod.fst h
  exact Prod.ext hanswer rfl

/-- Each stroke is taken in the state that those before have left. -/
theorem handleAll_snd (s : Session) (keys : Keys) :
    (s.handleAll keys).2 = keys.foldl (fun s stroke ↦ (s.handleKey stroke).2) s := by
  unfold handleAll
  generalize KeyOutcome.pending = last
  induction keys generalizing s last with
  | nil => rfl
  | cons stroke rest ih => exact ih (s.handleKey stroke).2 (s.handleKey stroke).1

theorem handleAll_cons (s : Session) (stroke : KeyStroke) (keys : Keys) :
    (s.handleAll (stroke :: keys)).2 = ((s.handleKey stroke).2.handleAll keys).2 := by
  rw [handleAll_snd, handleAll_snd, List.foldl_cons]

theorem handleAll_append (s : Session) (first second : Keys) :
    (s.handleAll (first ++ second)).2 = ((s.handleAll first).2.handleAll second).2 := by
  rw [handleAll_snd, handleAll_snd, handleAll_snd, List.foldl_append]

/-- The answer to strokes is the answer to the last of them. -/
theorem handleAll_concat (s : Session) (keys : Keys) (stroke : KeyStroke) :
    s.handleAll (keys ++ [stroke]) = (s.handleAll keys).2.handleKey stroke := by
  rw [handleAll, List.foldl_append]
  rfl

/-- What a session is asked to do without a gesture of the user in between. -/
inductive KeyCall where
  | key (stroke : KeyStroke)
  | flush
  deriving DecidableEq, Repr

def call (s : Session) : KeyCall → Session
  | .key stroke => (s.handleKey stroke).2
  | .flush => s.flushPending.2

/-- The state in which a call begins to read the input. -/
def begin (s : Session) : KeyCall → Session
  | .key stroke => s.pump.enqueue stroke
  | .flush => s.flushNext

theorem call_eq_drain (s : Session) (c : KeyCall) : ∃ last, s.call c = ((s.begin c).drain last).2 := by
  cases c with
  | key stroke => exact ⟨.pending, rfl⟩
  | flush => exact ⟨_, rfl⟩

/-- A call is made of turns. -/
theorem exists_call_eq_iterate (s : Session) (c : KeyCall) :
    ∃ turns, s.call c = readNext^[turns] (s.begin c) := by
  obtain ⟨last, hcall⟩ := s.call_eq_drain c
  rw [hcall]
  exact ((s.begin c).exists_drain_eq_iterate last).1

theorem call_input (s : Session) (c : KeyCall) : (s.call c).resolver.input = [] := by
  obtain ⟨last, hcall⟩ := s.call_eq_drain c
  rw [hcall]
  exact drain_input _ last

/-- What beginning a call and each turn keep, the call keeps. -/
theorem call_keeps {P : Session → Prop} (hbegin : ∀ t c, P t → P (t.begin c))
    (hstep : ∀ t, P t → P t.readNext) {s : Session} (h : P s) (c : KeyCall) : P (s.call c) := by
  obtain ⟨last, hcall⟩ := s.call_eq_drain c
  rw [hcall]
  exact drain_keeps hstep last (hbegin s c h)

/-- What a user does to the editor. -/
inductive Gesture where
  | select (caret : CaretId) (anchor head : Nat) (source : EventSource)
  | click (caret : CaretId) (offset clicks : Nat)
  | moveCaret (caret : CaretId) (offset : Nat)
  | dragStart (caret : CaretId)
  | dragTo (caret : CaretId) (anchor head : Nat)
  | release (caret : CaretId)
  | addCaret (offset : Nat)
  | removeCaret (caret : CaretId)
  deriving DecidableEq, Repr

def Gesture.on (e : Editor) : Gesture → Editor
  | select caret anchor head source => e.userSelect caret anchor head source
  | click caret offset clicks => e.userClick caret offset clicks
  | moveCaret caret offset => e.userMoveCaret caret offset
  | dragStart caret => e.userDragStart caret
  | dragTo caret anchor head => e.userDragTo caret anchor head
  | release caret => e.userRelease caret
  | addCaret offset => (e.addCaret offset).2
  | removeCaret caret => (e.removeCaret caret).2

/-- A gesture goes past the session; it hears of it only from the reports. -/
def gesture (s : Session) (g : Gesture) : Session := s.withEditor (g.on s.editor)

end Session

end ModalEdit
