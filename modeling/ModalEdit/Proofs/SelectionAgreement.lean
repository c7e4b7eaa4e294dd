import ModalEdit.Proofs.KeyedRuns
import ModalEdit.Proofs.SelectionSteps

/-!
Selections agree with the carets through any use of the keys. The actions that would leave
selections behind are bound in no mode that selects (`not_offeredAt_of_mem`), and all others keep
the agreement (`Registry.standard_keepsAgreement`), so that from an editor without selections on
every call ends with none, or with those from the remembered ends to the carets in the modes that
select (`selections_agree_with_carets`).
-/

set_option autoImplicit false
set_option relaxedAutoImplicit false

namespace ModalEdit

/-- The actions that take no notice of selections. -/
def heedlessActions : List ActionId :=
  [ActionId.insert, ActionId.append, ActionId.insertLineStart, ActionId.appendLineEnd,
    ActionId.openBelow,
    ActionId.openAbove, ActionId.replace, ActionId.insertBackspace, ActionId.insertNewline,
    ActionId.insertTab,
    ActionId.commandLineCancel, ActionId.commandLineExecute, ActionId.commandLineBackspace]

theorem standardBindings_heedless : ∀ b ∈ Keymap.standardBindings,
    MapMode.visual ∈ b.modes ∨ MapMode.select ∈ b.modes →
      ∀ id ∈ heedlessActions, b.target ≠ .action id := by
  decide +kernel

theorem heedless_waits_not : ∀ id ∈ heedlessActions, ¬ Waiting id := by
  have hnot : ∀ id ∈ heedlessActions, ∀ spec ∈ Registry.standard.get? id,
      spec.handler.kind ≠ .operator ∧ spec.flags.expectsChar = false := by
    decide +kernel
  rintro id hid ⟨spec, hget, hwaits⟩
  obtain ⟨hkind, hchar⟩ := hnot id hid spec hget
  rcases hwaits with hoperator | hexpects
  · exact hkind hoperator
  · rw [hchar] at hexpects
    cases hexpects

theorem not_offeredAt_of_mem {mode : Mode} (hmode : mode.selectionKind? ≠ none) {id : ActionId}
    (hid : id ∈ heedlessActions) : ¬ OfferedAt mode id := by
  intro hoffered
  have hselects : MapMode.ofMode mode = .visual ∨ MapMode.ofMode mode = .select := by
    cases mode with
    | visual kind => exact .inl rfl
    | select kind => exact .inr rfl
    | _ => exact absurd rfl hmode
  obtain ⟨b, hb, htarget, hmem | ⟨hnormal, -⟩⟩ := hoffered.bound (heedless_waits_not id hid)
  · refine standardBindings_heedless b hb ?_ id hid htarget
    rcases hselects with heq | heq
    · exact .inl (heq ▸ hmem)
    · exact .inr (heq ▸ hmem)
  · rw [hnormal] at hmode
    exact hmode rfl

/-- Where an action that takes no notice of selections is asked for, there are none. -/
def Heeded (id : ActionId) (mode : Mode) : Prop := id ∈ heedlessActions → mode.selectionKind? = none

namespace Builtin

theorem heedless_keepsAgreement {f : EditState → EditState} (hf : ∀ s, s.Plain → (f s).Plain)
    {id : ActionId} (hid : id ∈ heedlessActions) :
    (change id f).Keeps EditState.Agrees Operator.Rewrites Heeded :=
  change_keeps fun s hs hheeded ↦ .inl (hf s (hs.plain (hheeded hid)))

theorem modeChanges_keepAgreement :
    ∀ a ∈ modeChanges, a.Keeps EditState.Agrees Operator.Rewrites Heeded := by
  simp only [modeChanges, List.forall_mem_cons, List.not_mem_nil, false_imp_iff, implies_true,
    and_true]
  exact ⟨heedless_keepsAgreement (fun _ h ↦ h.enterInsert rfl) (by decide),
    heedless_keepsAgreement (fun _ h ↦ (h.moveAll _).enterInsert rfl) (by decide),
    heedless_keepsAgreement (fun _ h ↦ (h.moveAll _).enterInsert rfl) (by decide),
    heedless_keepsAgreement (fun _ h ↦ (h.moveAll _).enterInsert rfl) (by decide),
    heedless_keepsAgreement (fun _ h ↦ h.openLine true) (by decide),
    heedless_keepsAgreement (fun _ h ↦ h.openLine false) (by decide),
    heedless_keepsAgreement (fun _ h ↦ h.enterInsert rfl) (by decide),
    selecting_keeps (fun _ kind h ↦ h.toggleVisual kind) _,
    selecting_keeps (fun _ kind h ↦ h.toggleVisual kind) _,
    selecting_keeps (fun _ kind h ↦ h.toggleVisual kind) _,
    selecting_keeps (fun _ kind h ↦ .inr ⟨kind,
      EditState.startSelect_selecting h.anchored h.coherent kind⟩) _,
    selecting_keeps (fun _ kind h ↦ .inr ⟨kind,
      EditState.startSelect_selecting h.anchored h.coherent kind⟩) _,
    selecting_keeps (fun _ kind h ↦ .inr ⟨kind,
      EditState.startSelect_selecting h.anchored h.coherent kind⟩) _,
    change_keeps fun _ h _ ↦ h.toggleVisualSelect, change_keeps fun _ h _ ↦ h.openCommandLine,
    change_keeps fun _ h _ ↦ .inl (EditState.escape_plain h.anchored h.coherent
      fun hmode ↦ h.plain (by rw [hmode]; rfl))⟩

theorem typing_keepAgreement : ∀ a ∈ typing, a.Keeps EditState.Agrees Operator.Rewrites Heeded := by
  simp only [typing, List.forall_mem_cons, List.not_mem_nil, false_imp_iff, implies_true, and_true]
  exact ⟨change_keeps fun _ h _ ↦ .inl (EditState.leaveInsert_plain h.anchored h.coherent),
    heedless_keepsAgreement (fun _ h ↦ EditState.plain_keptByTyping.backspace h) (by decide),
    heedless_keepsAgreement (fun _ h ↦ EditState.plain_keptByTyping.insertAtCarets h _) (by decide),
    heedless_keepsAgreement (fun _ h ↦ EditState.plain_keptByTyping.typeTab h) (by decide),
    heedless_keepsAgreement (fun _ h ↦ h.closeCommandLine) (by decide),
    heedless_keepsAgreement (fun _ h ↦ h.closeCommandLine) (by decide),
    heedless_keepsAgreement (fun _ h ↦ h.commandLineBackspace) (by decide)⟩

end Builtin

theorem Registry.standard_keepsAgreement :
    ∀ a ∈ standard.specs, a.Keeps EditState.Agrees Operator.Rewrites Heeded :=
  standard_keeps Builtin.operators_rewrite Builtin.modeChanges_keepAgreement
    Builtin.typing_keepAgreement
    fun _ around command h ↦ h.specialKey around command

namespace EditState

variable {s : EditState}

theorem agrees_keptByCommands : KeptByCommands Agrees Operator.Rewrites where
  bell _ h := h.bell
  applyMotion _ call f h := h.applyMotion call f
  selectTextObject _ call f h := h.selectTextObject call f
  operateOnSelections s command body hbody h := by
    rcases h with hplain | ⟨kind, h⟩
    · unfold operateOnSelections
      rw [hplain.mode]
      exact .inl hplain
    · exact .inl (operateOnSelections_plain h.toAnchored h.coherent hbody
        (by rw [h.mode]; exact Option.some_ne_none kind) command)
  compose s registry command body hbody h hunselecting := by
    rcases h with hplain | ⟨kind, h⟩
    · exact .inl (hplain.compose hbody registry command)
    · rw [h.not_plain_mode] at hunselecting
      cases hunselecting

theorem Agrees.execute (h : s.Agrees) (options : Options) {command : Command}
    (hoffered : OfferedAt s.mode command.action) :
    (s.execute .standard options command).2.Agrees := by
  refine agrees_keptByCommands.execute Registry.standard_keepsAgreement h options fun hmem ↦ ?_
  by_contra hselects
  exact not_offeredAt_of_mem hselects hmem hoffered

/-! ### Reports before any key -/

theorem Plain.withCarets (h : s.Plain) {carets : CaretTable} (hcarets : carets.Distinct)
    (hunstarted : carets.Unselected) : Plain { s with carets } :=
  h.of_clear ⟨⟨h.editor, hcarets⟩, h.unselected, hunstarted⟩ rfl

theorem Plain.of_unselected {editor : Editor} (hanchored : editor.Anchored)
    (hnone : ∀ caret, editor.selection? caret = none) : Plain { editor } :=
  ⟨⟨⟨hanchored, List.nodup_nil⟩, hanchored.unselected hnone, fun _ hentry ↦ by cases hentry⟩, rfl,
    rfl⟩

/-- There is no selection to follow. -/
theorem Plain.adoptSelection (h : s.Plain) (options : Options) (caret : CaretId)
    (source : EventSource) :
    s.adoptSelection options caret source = s := by
  unfold EditState.adoptSelection
  rw [h.unselected.selection? caret, h.not_selecting]
  rfl

/-- In the normal mode a click does no more than to draw a caret from the end of a line. -/
theorem click_of_normal (hmode : s.mode = .normal) (caret : CaretId) (offset : Nat) :
    s.click caret offset = s ∨ offset = s.text.lineEnd (s.text.lineOf offset) ∧
      s.text.lineStart (s.text.lineOf offset) < offset ∧
        s.click caret offset = s.moveCaret caret (offset - 1) := by
  have hleft : (if s.mode.isVisual || s.mode.isSelect then s.exitToNormal else s) = s := by
    rw [hmode]
    rfl
  unfold click
  dsimp only
  rw [hleft, if_neg (by rw [hmode]; simp)]
  split
  · next hend => exact .inr ⟨hend.1, hend.2, rfl⟩
  · exact .inl rfl

/-- What following reports keeps where there are no selections: the guard is locked, other things
are remembered of the carets, and a caret is drawn back from the end of a line. -/
structure KeptByFollowing (P : EditState → Prop) : Prop where
  plain : ∀ {s}, P s → s.Plain
  withGuard : ∀ {s : EditState} guard, P s → P { s with editor := { s.editor with guard } }
  withCarets : ∀ {s : EditState} {carets}, P s → carets.Distinct → carets.Unselected →
    P { s with carets }
  drawBack : ∀ {s : EditState} caret {offset}, P s →
    offset = s.text.lineEnd (s.text.lineOf offset) →
    s.text.lineStart (s.text.lineOf offset) < offset → P (s.moveCaret caret (offset - 1))

theorem plain_keptByFollowing : KeptByFollowing Plain where
  plain h := h
  withGuard guard h := h.withGuard guard
  withCarets h := h.withCarets
  drawBack caret _ h _ _ := h.moveCaret caret _

end EditState

open EditState in
/-- Without selections, reports are followed to no selection and no other mode. -/
theorem Session.handleEvent_keeps {P : EditState → Prop} (hP : KeptByFollowing P) {s : Session}
    (event : EditorEvent) (h : P s.edit) (hmode : s.mode = .normal) :
    P (s.handleEvent event).edit ∧ (s.handleEvent event).mode = .normal := by
  have hplain := hP.plain h
  have hunlock {t : EditState} (ht : P t) (token : SuppressionToken) :
      P (t.unlock token) := hP.withGuard _ ht
  have hprepared : P s.edit.prepared := by
    have hlocked := hP.withGuard s.edit.lock.2.editor.guard h
    exact hP.withCarets hlocked (hplain.carets.sync _) (hplain.unstarted.sync _)
  have hadopted (caret : CaretId) (source : EventSource) :
      P (s.edit.guardedChange fun edit ↦ edit.adoptSelection s.options caret source) ∧
        (s.edit.guardedChange fun edit ↦ edit.adoptSelection s.options caret source).mode =
          .normal := by
    show P ((s.edit.prepared.adoptSelection s.options caret source).unlock s.edit.lock.1) ∧
      (s.edit.prepared.adoptSelection s.options caret source).mode = .normal
    rw [(hP.plain hprepared).adoptSelection]
    exact ⟨hunlock hprepared _, hmode⟩
  cases event with
  | caretAdded caret offset =>
    exact ⟨hP.withCarets h (hplain.carets.add caret offset) (hplain.unstarted.add caret offset),
      hmode⟩
  | caretRemoved caret =>
    exact ⟨hP.withCarets h (hplain.carets.remove caret) (hplain.unstarted.remove caret), hmode⟩
  | caretMoved caret offset =>
    exact ⟨hP.withCarets h (hplain.carets.modify caret _)
      (hplain.unstarted.modify caret fun _ hstate ↦ hstate), hmode⟩
  | dragStarted caret =>
    unfold handleEvent
    dsimp only
    split
    · exact ⟨h, hmode⟩
    · exact ⟨hP.withGuard s.edit.lock.2.editor.guard h, hmode⟩
  | mouseReleased caret =>
    unfold handleEvent
    dsimp only
    split
    · exact ⟨hunlock (hadopted caret .mouse).1 {}, (hadopted caret .mouse).2⟩
    · exact ⟨h, hmode⟩
  | mouseClicked caret offset clicks =>
    unfold handleEvent
    dsimp only
    split
    · show P ((s.edit.prepared.click caret offset).unlock s.edit.lock.1) ∧
        (s.edit.prepared.click caret offset).mode = .normal
      rcases click_of_normal (s := s.edit.prepared) hmode caret
        offset with heq | ⟨hend, hstart, heq⟩
      · rw [heq]
        exact ⟨hunlock hprepared _, hmode⟩
      · rw [heq]
        exact ⟨hunlock (hP.drawBack caret hprepared hend hstart) _, hmode⟩
    · exact ⟨h, hmode⟩
  | selectionChanged caret start stop source => exact hadopted caret source

namespace EditState

variable {s : EditState}

theorem Selecting.withGuard {kind : SelectionKind} (h : s.Selecting kind)
    (guard : SuppressionGuard) :
    Selecting { s with editor := { s.editor with guard } } kind :=
  h.of_same ⟨⟨h.editor.of_buffer rfl rfl rfl, h.carets⟩, rfl, rfl, rfl⟩ fun _ _ ↦ rfl

theorem Selecting.withListener {kind : SelectionKind} (h : s.Selecting kind)
    (listener : Option Listener) :
    Selecting { s with editor := { s.editor with listener } } kind :=
  h.of_same ⟨⟨h.editor.of_buffer rfl rfl rfl, h.carets⟩, rfl, rfl, rfl⟩ fun _ _ ↦ rfl

theorem Selecting.prepared {kind : SelectionKind} (h : s.Selecting kind) :
    s.prepared.Selecting kind :=
  (h.withGuard s.lock.2.editor.guard).syncCarets

theorem Selecting.view_prepared {kind : SelectionKind} (h : s.Selecting kind) {caret : CaretId}
    (hmem : caret ∈ s.editor.caretIds) : s.prepared.view caret = s.view caret :=
  (h.withGuard s.lock.2.editor.guard).view_syncCarets hmem

/-- The agreement endures any use of the keys. -/
theorem agrees_enduring : Enduring Agrees where
  withGuard s guard h := h.imp (·.withGuard guard) fun ⟨kind, h⟩ ↦ ⟨kind, h.withGuard guard⟩
  withListener s listener h :=
    h.imp (·.withListener listener) fun ⟨kind, h⟩ ↦ ⟨kind, h.withListener listener⟩
  syncCarets s h := h.syncCarets
  waits s h hmode := .inl ((h.plain (by rw [hmode]; rfl)).tryTransition rfl)
  leaves s h hmode honNormal := by
    have hparent : s.modes.parent = some .normal := by
      rw [honNormal]
      exact if_pos hmode
    rw [ModeMachine.leavePending_of_parent hmode hparent Mode.noConfusion]
    refine .inl ((h.plain (by rw [hmode]; rfl)).toClear.plain (ModeMachine.moved_coherent ?_ ?_)
      rfl)
    · rw [show s.modes.mode = .operatorPending from hmode]
      exact Mode.noConfusion
    · rw [show s.modes.mode = .operatorPending from hmode, hparent]
      rfl
  bell s h := h.bell
  cancel s h hcoherent _ :=
    .inl (cancel_plain h.anchored hcoherent fun hmode ↦ h.plain (by rw [hmode]; rfl))
  typeKeys s keys h _ := h.typeKeys keys
  execute s options command h _ _ hoffered := h.execute options hoffered

theorem agrees_kept_by_reports : KeptByReports Agrees := fun s event h hmode ↦
  (Session.handleEvent_keeps plain_keptByFollowing event
    (h.plain (by rw [show s.edit.mode = .normal from hmode]; rfl)) hmode).imp_left .inl

/-- Of each caret, an operator is given the selection that is shown. -/
theorem mem_selectedRanges_iff (h : s.Anchored) {caret : CaretId} {anchor offset : Nat}
    (hmem : caret ∈ s.editor.caretIds) (hstarts : (s.syncCarets.view caret).Starts anchor offset)
    (kind : SelectionKind) (range : TextRange) :
    (caret, range) ∈ s.syncCarets.selectedRanges kind false ↔
      range = Span.selection s.text anchor offset kind s.mode.isSelect false := by
  obtain ⟨-, state, hstate, rfl, hanchor⟩ := hstarts
  have hknown : s.syncCarets.carets.get? caret = some state := hstate
  have hordered : caret ∈ s.syncCarets.carets.orderedByOffset :=
    (orderedByOffset_perm h).mem_iff.mpr hmem
  unfold selectedRanges
  constructor
  · intro hrange
    obtain ⟨other, -, heq⟩ := List.mem_filterMap.mp hrange
    obtain ⟨known, hother, hpair⟩ := Option.bind_eq_some_iff.mp heq
    obtain ⟨rfl, rfl⟩ := Prod.mk.inj (Option.some.inj hpair)
    obtain rfl := Option.some.inj (hother.symm.trans hknown)
    rw [hanchor]
    rfl
  · rintro rfl
    refine List.mem_filterMap.mpr ⟨caret, hordered, ?_⟩
    rw [hknown]
    show some (caret, Span.selection s.text (state.selectionStart.getD state.offset) _ _ _ _) = _
    rw [hanchor]
    rfl

end EditState

/-- However the keys of a session with the default bindings, both extensions and any further
replacements of strokes are used, beginning with an editor without selections, after each call in a
visual or select mode every caret remembers a fixed end and the editor shows the selection from
there to the caret, which is also what an operator that is not for lines is given of that caret; in
any other mode there are no selections, and no caret remembers where one began. -/
theorem Session.selections_agree_with_carets (options : Options) (editor : Editor)
    (early late : List Remap) (hanchored : editor.Anchored)
    (hnone : ∀ caret, editor.selection? caret = none) (calls : List KeyCall) :
    let s := calls.foldl call (opened options editor early late)
    (∀ kind, s.mode.selectionKind? = some kind → ∃ ranges : List (CaretId × TextRange),
      (∀ command body, command.flags.linewise = false →
        s.edit.prepared.operateOnSelections command body =
          (s.edit.prepared.syncCarets.clearSelections.setMode .normal).2.operate
          command.toActionCall body ranges) ∧
      ∀ caret ∈ s.editor.caretIds, ∃ anchor offset selected,
        s.editor.caretOffset? caret = some offset ∧
        (∃ state, s.edit.carets.get? caret = some state ∧ state.selectionStart = some anchor) ∧
        selected = Span.selection s.editor.text anchor offset kind s.mode.isSelect false ∧
        s.editor.selection? caret = some (selected.start, selected.stop) ∧
        ∀ range, (caret, range) ∈ ranges ↔ range = selected) ∧
    (s.mode.selectionKind? = none → ∀ caret, s.editor.selection? caret = none ∧
      ∀ state, s.edit.carets.get? caret = some state → state.selectionStart = none) := by
  intro s
  have hopened : EditState.Agrees { editor } := .inl (.of_unselected hanchored hnone)
  have hagrees : s.edit.Agrees :=
    (calls_keep EditState.agrees_enduring options editor early late hopened
      (.inr EditState.agrees_kept_by_reports)
      calls).state
  clear_value s
  refine ⟨fun kind hkind ↦ ?_, fun hmode caret ↦ ?_⟩
  · have hselecting := hagrees.selecting hkind
    have hprepared := hselecting.prepared
    refine ⟨s.edit.prepared.syncCarets.selectedRanges kind false, fun command body hlines ↦ ?_,
      fun caret hcaret ↦ ?_⟩
    · rw [EditState.operateOnSelections_of_mode (s := s.edit.prepared) hkind, hlines]
    · obtain ⟨anchor, offset, hshows⟩ := hselecting.shown caret hcaret
      obtain ⟨state, hstate, -, hanchor⟩ := hshows.remembered
      refine ⟨anchor, offset, _, hshows.stands, ⟨state, hstate, hanchor⟩, rfl, hshows.selection, ?_⟩
      refine EditState.mem_selectedRanges_iff (s := s.edit.prepared) hprepared.toAnchored hcaret ?_
        kind
      rw [hprepared.view_syncCarets hcaret, hselecting.view_prepared hcaret]
      exact hshows.toStarts
  · have hplain := hagrees.plain hmode
    exact ⟨hplain.unselected.selection? caret,
      fun state hstate ↦ hplain.unstarted.selectionStart hstate⟩

/-- Two carets are selected from in step, by `v` and `l`. -/
theorem Session.two_carets_select :
    let editor := Editor.ofMarked ⟨"ab\ncde\n".toList, [1, 3], []⟩
    (editor.Anchored ∧ ∀ caret, editor.selection? caret = none) ∧
      let s := [KeyCall.key (.char 'v'), .key (.char 'l')].foldl call (opened {} editor [] [])
      (∀ kind, s.mode.selectionKind? = some kind → ∃ ranges : List (CaretId × TextRange),
        (∀ command body, command.flags.linewise = false →
          s.edit.prepared.operateOnSelections command body =
            (s.edit.prepared.syncCarets.clearSelections.setMode .normal).2.operate
            command.toActionCall body ranges) ∧
        ∀ caret ∈ s.editor.caretIds, ∃ anchor offset selected,
          s.editor.caretOffset? caret = some offset ∧
          (∃ state, s.edit.carets.get? caret = some state ∧ state.selectionStart = some anchor) ∧
          selected = Span.selection s.editor.text anchor offset kind s.mode.isSelect false ∧
          s.editor.selection? caret = some (selected.start, selected.stop) ∧
          ∀ range, (caret, range) ∈ ranges ↔ range = selected) ∧
      (s.mode.selectionKind? = none → ∀ caret, s.editor.selection? caret = none ∧
        ∀ state, s.edit.carets.get? caret = some state → state.selectionStart = none) := by
  intro editor
  have hanchored : editor.Anchored := Editor.ofMarked_anchored _
  have hunselected : editor.Unselected := by
    unfold Editor.Unselected
    decide +kernel
  exact ⟨⟨hanchored, hunselected.selection?⟩,
    selections_agree_with_carets {} editor [] [] hanchored hunselected.selection? _⟩

end ModalEdit
