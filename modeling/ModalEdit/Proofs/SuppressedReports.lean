import ModalEdit.Proofs.EscapeLaw
import ModalEdit.Proofs.GestureSteps

/-!
What waits to be heard by a session stems from the user. Beside a run goes an account of the reports that
the gestures raise (`Session.Hearing`): those that the session has dealt with, and those that wait. Its calls
add nothing to them, as they change the editor with the guard locked, and the guard is locked on between
calls just while the mouse drags (`Session.Attentive`). So after any gestures and calls in any order the
queue holds what the account has waiting, and the depth of the guard is told by the reports that were dealt
with (`Session.depth_and_queue`).
-/

set_option autoImplicit false
set_option relaxedAutoImplicit false

namespace ModalEdit

/-! ### Actions -/

/-- An action that changes the editor only by what its surface offers: the guard is not touched, and while it
is locked nothing gets past it. -/
def ActionHandler.Silent : ActionHandler → Prop
  | motion _ | textObject _ => True
  | operator body => ∀ e args, Editor.Silent e (body e args).2
  | other f => ∀ around command s, Editor.Silent s.editor (f around command s).editor

/-- A registry all of whose actions are silent. -/
def Registry.Silent (r : Registry) : Prop := ∀ spec ∈ r.specs, spec.handler.Silent

theorem ActionHandler.Orderly.silent {handler : ActionHandler} (h : handler.Orderly) : handler.Silent := by
  cases handler with
  | motion f => trivial
  | textObject f => trivial
  | operator body => exact fun e args ↦ (h e args).1
  | other f => exact fun around command s ↦ (h around command s).editor

theorem Registry.Orderly.silent {r : Registry} (h : r.Orderly) : r.Silent :=
  fun spec hspec ↦ (h spec hspec).silent

namespace EditState

variable {s t : EditState} {body : Operator}

theorem Steps.silent (h : Edits s t) : s.editor.Silent t.editor := h.edits_orderly.editor

section Operate

variable (hbody : ∀ e args, Editor.Silent e (body e args).2)

include hbody

theorem operateOn_silent (call : ActionCall) (nextMode : Mode) (s : EditState) (p : PinnedRange) :
    s.editor.Silent (operateOn call body nextMode s p).2.editor := by
  have hunpinned := Steps.silent (unpin_steps id s p)
  unfold operateOn
  split
  · next he =>
    rw [he] at hunpinned
    exact hunpinned
  · next range t he =>
    rw [he] at hunpinned
    have hdone := hbody t.editor { caret := p.caret, range, register := call.register, count := call.count }
    generalize body t.editor _ = result at hdone ⊢
    have hmoved := (moveCaret_moves { t with editor := result.2 } p.caret result.1.caretOffset).edits.silent
    exact (hunpinned.trans hdone).trans hmoved

theorem operate_silent (s : EditState) (call : ActionCall) (ranges : List (CaretId × TextRange)) :
    s.editor.Silent (s.operate call body ranges).2.editor := by
  have hrun := List.foldlRecOn (motive := fun result : Mode × EditState ↦ s.editor.Silent result.2.editor)
    (s.pinAll ranges).1 (fun result p ↦ operateOn call body result.1 result.2 p)
    (b := (.normal, (s.pinAll ranges).2)) (Steps.silent (pinAll_steps id s ranges))
    fun result h p _ ↦ h.trans (operateOn_silent hbody call result.1 result.2 p)
  exact operate_keeps_editor (fun hmove h ↦ h.trans (Editor.Edit.move hmove).silent) hrun

theorem compose_silent (s : EditState) (registry : Registry) (command : Command) :
    s.editor.Silent (s.compose registry command body).2.editor := by
  unfold compose
  split
  · exact Steps.silent s.bell_moves.edits
  · dsimp only
    split
    · exact ((Step.syncCarets s).steps.trans s.syncCarets.bell_moves).edits.silent
    · exact operate_silent hbody s.syncCarets _ _

theorem operateOnSelections_silent (s : EditState) (command : Command) :
    s.editor.Silent (s.operateOnSelections command body).2.editor := by
  unfold operateOnSelections
  split
  · exact .refl s.editor
  · have hleft : Moves s (s.syncCarets.clearSelections.setMode .normal).2 :=
      ((Step.syncCarets s).steps.trans (clearSelections_moves _)).trans (setMode_moves _ Mode.noConfusion)
    exact (Steps.silent hleft.edits).trans (operate_silent hbody _ _ _)

end Operate

theorem execute_silent {registry : Registry} (h : registry.Silent) (s : EditState) (options : Options)
    (command : Command) : s.editor.Silent (s.execute registry options command).2.editor := by
  unfold execute
  split
  · exact Steps.silent s.bell_moves.edits
  · next spec hget =>
    have hspec := h spec (List.mem_of_find?_eq_some hget)
    split
    · exact Steps.silent (s.applyMotion_moves _ _).edits
    · exact Steps.silent (s.selectTextObject_moves _ _).edits
    · next body hhandler =>
      rw [hhandler] at hspec
      split
      · exact operateOnSelections_silent hspec s command
      · exact compose_silent hspec s registry command
    · next f hhandler =>
      rw [hhandler] at hspec
      exact hspec (registry.surroundings options) command s

/-! ### With the guard locked -/

/-- The guard is as before, and nothing has been heard. -/
structure Secret (before after : EditState) : Prop where
  guard : after.editor.guard = before.editor.guard
  reported : after.editor.reported = before.editor.reported

theorem unlock_guard (s : EditState) : (s.unlock {}).editor.guard = ⟨s.editor.guard.depth - 1⟩ := by
  show (s.editor.guard.release {}).2.2 = _
  obtain ⟨_ | depth⟩ := s.editor.guard <;> rfl

theorem guarded_secret {α : Type} {f : EditState → α × EditState} (s : EditState)
    (h : s.prepared.editor.Silent (f s.prepared).2.editor) : Secret s (s.guarded f).2 where
  guard := by
    have hguard : (f s.prepared).2.editor.guard = ⟨s.editor.guard.depth + 1⟩ := h.guard
    show ((f s.prepared).2.unlock {}).editor.guard = s.editor.guard
    rw [unlock_guard, hguard, Nat.add_sub_cancel]
  reported := h.reported s.prepared_isLocked

theorem guardedChange_secret {f : EditState → EditState} (s : EditState)
    (h : Moves s.prepared (f s.prepared)) : Secret s (s.guardedChange f) :=
  s.guarded_secret (Steps.silent h.edits)

theorem adoptSelection_secret (s : EditState) (options : Options) (caret : CaretId) (source : EventSource) :
    Secret s (s.guardedChange fun s ↦ s.adoptSelection options caret source) :=
  s.guardedChange_secret (adoptSelection_moves _ options caret source)

theorem click_secret (s : EditState) (caret : CaretId) (offset : Nat) :
    Secret s (s.guardedChange fun s ↦ s.click caret offset) :=
  s.guardedChange_secret (click_moves _ caret offset)

theorem apply_secret {registry : Registry} (hregistry : registry.Silent) (s : EditState) (options : Options)
    (operatorPending : Bool) (outcome : Outcome) :
    Secret s (s.apply registry options operatorPending outcome).2 := by
  have heditor : (s.syncOperatorMode operatorPending).editor = s.editor := by rw [syncOperatorMode_eq]
  generalize hsynced : s.syncOperatorMode operatorPending = synced at heditor
  suffices h : Secret synced (s.apply registry options operatorPending outcome).2 by
    exact ⟨heditor ▸ h.guard, heditor ▸ h.reported⟩
  unfold apply
  rw [hsynced]
  cases outcome with
  | pending => exact ⟨rfl, rfl⟩
  | resolved command =>
    show Secret synced (synced.guarded fun s ↦ s.execute registry options command).2
    exact synced.guarded_secret (execute_silent hregistry synced.prepared options command)
  | cancelled => exact synced.guardedChange_secret synced.prepared.cancel_moves
  | unmapped keys =>
    dsimp only
    split
    · show Secret synced (synced.guarded fun s ↦ s.typeKeys keys).2
      exact synced.guarded_secret (Steps.silent (synced.prepared.typeKeys_edits keys))
    · exact ⟨rfl, rfl⟩

end EditState

/-! ### Gestures -/

namespace Editor

variable {first middle last : Editor}

/-- The guard stays as it is, and what waits to be heard still does. -/
structure Reports (before after : Editor) : Prop where
  guard : after.guard = before.guard
  reported : before.reported <+: after.reported

theorem Reports.trans (h₁ : Reports first middle) (h₂ : Reports middle last) : Reports first last :=
  ⟨h₂.guard.trans h₁.guard, h₁.reported.trans h₂.reported⟩

theorem Reports.of_eq {before after : Editor} (hguard : after.guard = before.guard)
    (hlistener : after.listener = before.listener) : Reports before after := by
  have hsame : before.reported = after.reported := by rw [Editor.reported, Editor.reported, hlistener]
  exact ⟨hguard, hsame ▸ List.prefix_refl _⟩

theorem emit_reports (e : Editor) (event : EditorEvent) : Reports e (e.emit event) := by
  refine ⟨rfl, ?_⟩
  rw [reported, reported, emit]
  cases e.listener with
  | none => exact List.prefix_refl _
  | some listener =>
    show listener.queue <+: (listener.notify e.guard event).queue
    unfold Listener.notify
    split
    · exact List.prefix_refl _
    · exact List.prefix_append _ _

theorem clearSelection_reports (e : Editor) (caret : CaretId) : Reports e (e.clearSelection caret).2 := by
  unfold clearSelection
  split <;> exact .of_eq rfl rfl

theorem removeCaret_reports (e : Editor) (caret : CaretId) : Reports e (e.removeCaret caret).2 := by
  have hcleared := e.clearSelection_reports caret
  unfold removeCaret
  split
  · exact .of_eq rfl rfl
  · split
    · exact .of_eq rfl rfl
    · next marks _ _ =>
      have hgone : Reports (e.clearSelection caret).2 (Editor.releaseMark { (e.clearSelection caret).2 with
          carets := (e.clearSelection caret).2.carets.filter (·.1 ≠ caret) } marks.head) := .of_eq rfl rfl
      exact (hcleared.trans hgone).trans (emit_reports _ _)

theorem GestureStep.reports {before after : Editor} (h : GestureStep before after) :
    Reports before after := by
  cases h with
  | setHead caret offset =>
    unfold Editor.setHead
    split <;> exact .of_eq rfl rfl
  | storeSelection caret a b =>
    unfold Editor.storeSelection
    split <;> exact .of_eq rfl rfl
  | clearSelection caret => exact before.clearSelection_reports caret
  | emit event => exact before.emit_reports event
  | spawnCaret offset => exact .of_eq rfl rfl
  | removeCaret caret => exact before.removeCaret_reports caret

end Editor

namespace Session

theorem Gesture.on_reports (g : Gesture) (e : Editor) : e.Reports (g.on e) :=
  g.keeps (fun hstep hbefore ↦ hbefore.trans hstep.reports) (.of_eq rfl rfl)

/-- What a gesture adds to the reports that wait. -/
def Gesture.heard (e : Editor) (g : Gesture) : List EditorEvent := (g.on e).reported.drop e.reported.length

theorem Gesture.on_reported (g : Gesture) (e : Editor) : (g.on e).reported = e.reported ++ g.heard e := by
  obtain ⟨added, hadded⟩ := (g.on_reports e).reported
  rw [heard, ← hadded, List.drop_left]

/-! ### The account of the reports -/

/-- The reports that gestures have raised: those that were dealt with, and those that wait. -/
structure Hearing where
  read : List EditorEvent := []
  waiting : List EditorEvent := []
  deriving DecidableEq, Repr

/-- Only gestures add to the account; pumping deals with all that wait, and so does taking a key. -/
def Hearing.next (h : Hearing) (e : Editor) : Input → Hearing
  | .gesture g => { h with waiting := h.waiting ++ g.heard e }
  | .call (.key _) | .pump => { read := h.read ++ h.waiting }
  | .call .flush => h

/-- The account of a run. -/
def hearing (s : Session) (h : Hearing) : List Input → Hearing
  | [] => h
  | input :: rest => (s.receive input).hearing (h.next s.editor input) rest

/-- Whether the mouse drags after a report, if it did or did not before. -/
def dragsAfter (dragging : Bool) : EditorEvent → Bool
  | .dragStarted _ => true
  | .mouseReleased _ => false
  | _ => dragging

/-- Whether the last that was reported of the mouse button is that it went down. -/
def dragHeld (events : List EditorEvent) : Bool := events.foldl dragsAfter false

theorem dragHeld_append (before after : List EditorEvent) :
    dragHeld (before ++ after) = after.foldl dragsAfter (dragHeld before) := List.foldl_append

theorem foldl_dragsAfter_iff {events : List EditorEvent} (dragging : Bool) :
    events.foldl dragsAfter dragging = true ↔
      (dragging = true ∧ ∀ other, .mouseReleased other ∉ events) ∨
        ∃ before caret after, events = before ++ .dragStarted caret :: after ∧
          ∀ other, .mouseReleased other ∉ after := by
  induction events generalizing dragging with
  | nil => simp
  | cons event rest ih =>
    rw [List.foldl_cons, ih]
    constructor
    · rintro (⟨hdrags, hnone⟩ | ⟨before, caret, after, rfl, hnone⟩)
      · cases event with
        | dragStarted caret => exact .inr ⟨[], caret, rest, rfl, hnone⟩
        | mouseReleased caret => cases hdrags
        | _ => exact .inl ⟨hdrags, by simpa using hnone⟩
      · exact .inr ⟨event :: before, caret, after, rfl, hnone⟩
    · rintro (⟨rfl, hnone⟩ | ⟨before, caret, after, heq, hnone⟩)
      · refine .inl ⟨?_, fun other hmem ↦ hnone other (List.mem_cons_of_mem _ hmem)⟩
        cases event with
        | mouseReleased caret => exact absurd List.mem_cons_self (hnone caret)
        | _ => rfl
      · cases before with
        | nil =>
          obtain ⟨rfl, rfl⟩ := List.cons.inj heq
          exact .inl ⟨rfl, hnone⟩
        | cons first before =>
          obtain ⟨rfl, rfl⟩ := List.cons.inj heq
          exact .inr ⟨before, caret, after, rfl, hnone⟩

/-- A drag has started, and no release has come after. -/
theorem dragHeld_iff {events : List EditorEvent} : dragHeld events = true ↔
    ∃ before caret after, events = before ++ .dragStarted caret :: after ∧
      ∀ other, .mouseReleased other ∉ after := by
  simp [dragHeld, foldl_dragsAfter_iff]

/-! ### What a session keeps -/

/-- The guard is locked just while the mouse drags, as far as the session has heard, and what waits to be
heard is what the account has waiting. -/
structure Attentive (s : Session) (h : Hearing) : Prop where
  registry : s.registry.Silent
  depth : s.editor.guard.depth = s.dragging.toNat
  dragging : s.dragging = dragHeld h.read
  waiting : s.editor.reported = h.waiting

variable {s : Session} {h : Hearing}

/-- What leaves the registry and the drag alone, and is done in secret. -/
theorem Attentive.of_secret (hs : s.Attentive h) {t : Session} (hregistry : t.registry = s.registry)
    (hdragging : t.dragging = s.dragging) (hsecret : s.edit.Secret t.edit) : t.Attentive h where
  registry := hregistry ▸ hs.registry
  depth := by
    rw [hdragging, editor, hsecret.guard]
    exact hs.depth
  dragging := hdragging.trans hs.dragging
  waiting := hsecret.reported.trans hs.waiting

theorem Attentive.act (hs : s.Attentive h) (result : Outcome × Resolver) : (s.act result).2.Attentive h :=
  hs.of_secret rfl rfl (EditState.apply_secret hs.registry _ _ _ _)

theorem Attentive.readNext (hs : s.Attentive h) : s.readNext.Attentive h := by
  cases hinput : s.resolver.input with
  | nil => rwa [readNext_of_nil hinput]
  | cons stroke rest =>
    rw [readNext_of_cons hinput]
    exact hs.act _

/-- Dealing with a report moves it from those that wait. -/
theorem Attentive.handleEvent (hs : s.Attentive h) (event : EditorEvent) :
    (s.handleEvent event).Attentive { h with read := h.read ++ [event] } := by
  have hread (t : Session) (ht : t.Attentive h) (hsame : dragsAfter t.dragging event = t.dragging) :
      t.Attentive { h with read := h.read ++ [event] } := by
    refine ⟨ht.registry, ht.depth, ?_, ht.waiting⟩
    rw [dragHeld_append, List.foldl_cons, List.foldl_nil, ← ht.dragging, hsame]
  cases event with
  | caretAdded caret offset => exact hread _ (hs.of_secret rfl rfl ⟨rfl, rfl⟩) rfl
  | caretRemoved caret => exact hread _ (hs.of_secret rfl rfl ⟨rfl, rfl⟩) rfl
  | caretMoved caret offset => exact hread _ (hs.of_secret rfl rfl ⟨rfl, rfl⟩) rfl
  | selectionChanged caret start stop source =>
    exact hread _ (hs.of_secret rfl rfl (s.edit.adoptSelection_secret s.options caret source)) rfl
  | mouseClicked caret offset clicks =>
    unfold Session.handleEvent
    dsimp only
    split
    · exact hread _ (hs.of_secret rfl rfl (s.edit.click_secret caret offset)) rfl
    · exact hread _ hs rfl
  | dragStarted caret =>
    have hnow : dragHeld (h.read ++ [.dragStarted caret]) = true := dragHeld_append _ _
    unfold Session.handleEvent
    dsimp only
    split
    · next hdrags => exact hread s hs hdrags.symm
    · next hdrags =>
      have hdepth : s.editor.guard.depth = 0 := by simpa [hdrags] using hs.depth
      exact ⟨hs.registry, congrArg (· + 1) hdepth, hnow.symm, hs.waiting⟩
  | mouseReleased caret =>
    have hnow : dragHeld (h.read ++ [.mouseReleased caret]) = false := dragHeld_append _ _
    unfold Session.handleEvent
    dsimp only
    split
    · next hdrags =>
      have hsecret := s.edit.adoptSelection_secret s.options caret .mouse
      have hdepth : s.editor.guard.depth = 1 := by simpa [hdrags] using hs.depth
      refine ⟨hs.registry, ?_, hnow.symm, hsecret.reported.trans hs.waiting⟩
      show (EditState.unlock _ {}).editor.guard.depth = 0
      rw [EditState.unlock_guard, hsecret.guard]
      exact congrArg (· - 1) hdepth
    · next hdrags => exact hread s hs (Bool.eq_false_iff.mpr hdrags).symm

theorem Attentive.pump (hs : s.Attentive h) : s.pump.Attentive { read := h.read ++ h.waiting } := by
  have hfold (events : List EditorEvent) {t : Session} {g : Hearing} (ht : t.Attentive g) :
      (events.foldl Session.handleEvent t).Attentive { g with read := g.read ++ events } := by
    induction events generalizing t g with
    | nil => rwa [List.append_nil]
    | cons event rest ih =>
      have hnext := ih (ht.handleEvent event)
      rwa [List.append_assoc] at hnext
  obtain ⟨listener, htaken⟩ := s.editor.takeEvents_eq
  have hstart : (s.withEditor s.editor.takeEvents.2).Attentive { h with waiting := [] } := by
    refine ⟨hs.registry, ?_, hs.dragging, s.editor.takeEvents_reported⟩
    show s.editor.takeEvents.2.guard.depth = _
    rw [htaken]
    exact hs.depth
  have hwaits : s.editor.takeEvents.1 = h.waiting := s.editor.takeEvents_fst.trans hs.waiting
  rw [← hwaits]
  exact hfold s.editor.takeEvents.1 hstart

theorem Attentive.gesture (hs : s.Attentive h) (g : Gesture) :
    (s.gesture g).Attentive { h with waiting := h.waiting ++ g.heard s.editor } where
  registry := hs.registry
  depth := (congrArg SuppressionGuard.depth (g.on_reports s.editor).guard).trans hs.depth
  dragging := hs.dragging
  waiting := (g.on_reported s.editor).trans (by rw [hs.waiting])

theorem Attentive.receive (hs : s.Attentive h) (input : Input) :
    (s.receive input).Attentive (h.next s.editor input) := by
  have hdrained (last : KeyOutcome) {t : Session} {g : Hearing} (ht : t.Attentive g) :
      (t.drain last).2.Attentive g := drain_keeps (P := (·.Attentive g)) (fun _ hu ↦ hu.readNext) last ht
  cases input with
  | call c =>
    obtain ⟨last, hcall⟩ := s.call_eq_drain c
    show (s.call c).Attentive _
    rw [hcall]
    cases c with
    | key stroke => exact hdrained last (hs.pump.of_secret rfl rfl ⟨rfl, rfl⟩)
    | flush => exact hdrained last (hs.act _)
  | gesture g => exact hs.gesture g
  | pump => exact hs.pump

theorem Attentive.foldl_receive (hs : s.Attentive h) (inputs : List Input) :
    (inputs.foldl Session.receive s).Attentive (s.hearing h inputs) := by
  induction inputs generalizing s h with
  | nil => exact hs
  | cons input rest ih => exact ih (hs.receive input)

/-- Whatever a user does to the editor, and whatever a session is asked to do, in any order: the guard is
locked once if a drag has been dealt with whose release has not, and else not at all; what waits to be
heard is what gestures have raised since the reports were dealt with, and nothing that the session has done;
and after a key and after pumping nothing waits. -/
theorem depth_and_queue {s : Session} (hsilent : s.registry.Silent) (hdragging : s.dragging = false)
    (hdepth : s.editor.guard.depth = 0) (hreported : s.editor.reported = []) (inputs : List Input) :
    let now := inputs.foldl receive s
    let hearing := s.hearing {} inputs
    now.editor.guard.depth = (if dragHeld hearing.read then 1 else 0) ∧
      now.editor.reported = hearing.waiting ∧
      (∀ stroke, (now.handleKey stroke).2.editor.reported = []) ∧ now.pump.editor.reported = [] := by
  intro now hearing
  have hstart : s.Attentive {} := ⟨hsilent, by rw [hdepth, hdragging, Bool.toNat_false], hdragging, hreported⟩
  have hnow : now.Attentive hearing := hstart.foldl_receive inputs
  refine ⟨?_, hnow.waiting, fun stroke ↦ (hnow.receive (.call (.key stroke))).waiting, hnow.pump.waiting⟩
  rw [hnow.depth, hnow.dragging]
  cases dragHeld hearing.read <;> rfl

/-- A drag that has begun and gone some way keeps the guard locked, and a key pressed meanwhile is run unheard. -/
theorem drag_locks_guard :
    let s := [Input.gesture (.dragStart ⟨0⟩), .gesture (.dragTo ⟨0⟩ 0 3), .pump].foldl receive
      (opened {} (Editor.ofText "abc def\n".toList).attachListener [] [])
    s.editor.guard.depth = 1 ∧ (s.handleKey (.char 'w')).2.editor.reported = [] := by
  have hsilent : (opened {} (Editor.ofText "abc def\n".toList).attachListener [] []).registry.Silent := by
    rw [opened_registry]
    exact Registry.standard_orderly.silent
  have h := depth_and_queue hsilent rfl rfl rfl
    [.gesture (.dragStart ⟨0⟩), .gesture (.dragTo ⟨0⟩ 0 3), .pump]
  exact ⟨h.1.trans (by decide +kernel), h.2.2.1 _⟩

end Session

end ModalEdit
