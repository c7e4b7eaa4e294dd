import ModalEdit.Proofs.OperatorLockstep

/-!
Escape gets back to the normal mode from everywhere. The mode machine of a session stays coherent
whatever is typed and whatever the user does to the editor, and it is in the pending mode only while an
operator waits (`Session.Recoverable`). In such a state Escape goes one of two ways. If something has
been typed of a command it is given up (`escape_of_hasPending`); if not, Escape is taken for the action
that leaves the mode (`escape_of_idle`). Either way nothing is left of a command, the mode is the normal
one, and the text and the registers are what they were (`escape_gets_back_to_normal`).
-/

set_option autoImplicit false
set_option relaxedAutoImplicit false

namespace ModalEdit

/-! ### The action of Escape -/

/-- In a mode Escape is bound to an action of a name, which rearranges the state only and leaves the
mode for the normal one. -/
structure EscapesBy (mode : Mode) (id : ActionId) (f : EditState → EditState) : Prop where
  bound : (MapMode.ofMode mode).escapeAction? = some id
  registered : Registry.standard.get? id = some (Builtin.change id f)
  rearranges : ∀ s, EditState.Rearranges s (f s)
  normal : ∀ s : EditState, s.mode = mode → s.modes.Coherent → (f s).mode = .normal

theorem escapesBy_escape {mode : Mode}
    (h : (MapMode.ofMode mode).escapeAction? = some ActionId.escape) :
    EscapesBy mode ActionId.escape EditState.escape where
  bound := h
  registered := Registry.standard_get?_of_mem (a := Builtin.change ActionId.escape EditState.escape)
    (by simp [Builtin.actions, Builtin.modeChanges])
  rearranges s := s.escape_moves.rearranges
  normal _ _ hs := EditState.escape_mode hs

theorem escapesBy_insertEscape {mode : Mode}
    (h : (MapMode.ofMode mode).escapeAction? = some ActionId.insertEscape) :
    EscapesBy mode ActionId.insertEscape EditState.leaveInsert where
  bound := h
  registered := Registry.standard_get?_of_mem
    (a := Builtin.change ActionId.insertEscape EditState.leaveInsert)
    (by simp [Builtin.actions, Builtin.typing])
  rearranges s := s.leaveInsert_moves.rearranges
  normal _ _ hs := EditState.leaveInsert_mode hs

theorem escapesBy_commandLineCancel :
    EscapesBy .commandLine ActionId.commandLineCancel EditState.closeCommandLine where
  bound := rfl
  registered := Registry.standard_get?_of_mem
    (a := Builtin.change ActionId.commandLineCancel EditState.closeCommandLine)
    (by simp [Builtin.actions, Builtin.typing])
  rearranges s := s.closeCommandLine_moves.rearranges
  normal _ hmode _ := EditState.closeCommandLine_mode hmode

/-- Every mode but the pending one can be left by Escape. -/
theorem exists_escapesBy {mode : Mode} (hne : mode ≠ .operatorPending) : ∃ id f, EscapesBy mode id f := by
  cases mode with
  | normal => exact ⟨_, _, escapesBy_escape rfl⟩
  | visual kind => exact ⟨_, _, escapesBy_escape rfl⟩
  | select kind => exact ⟨_, _, escapesBy_escape rfl⟩
  | insert => exact ⟨_, _, escapesBy_insertEscape rfl⟩
  | replace => exact ⟨_, _, escapesBy_insertEscape rfl⟩
  | commandLine => exact ⟨_, _, escapesBy_commandLineCancel⟩
  | operatorPending => exact absurd rfl hne

namespace Resolver

variable {r : Resolver} {mode : Mode} {keymap : Keymap} {registry : Registry}

theorem feed_escape_of_hasPending (h : r.hasPending = true) :
    r.feed .escape mode keymap registry = (.cancelled, r.reset) := by
  have hcancel : (KeyStroke.escape.isEscape && r.hasPending) = true := by
    rw [h]
    rfl
  rw [feed, if_pos hcancel]

theorem eq_clear_of_idle (h : r.hasPending = false) (hinput : r.input = []) : r = r.clear := by
  obtain ⟨hpending, hoperator, hawaiting⟩ := hasPending_eq_false_iff.mp h
  cases r with
  | mk pending operator awaitingChar input mapDepth =>
    obtain rfl : pending = {} := hpending
    obtain rfl : operator = none := hoperator
    obtain rfl : awaitingChar = none := hawaiting
    obtain rfl : input = [] := hinput
    rfl

theorem resolveAlone_of_idle (h : r.pending = {}) (call : ActionCall) :
    ∃ command : Command, command.action = call.action ∧
      r.resolveAlone call = (.resolved command, r) := by
  have hsame : { r with pending := {} } = r := by rw [← h]
  refine ⟨{ r.counted call with register := r.pending.register, argument := none }, rfl, ?_⟩
  rw [resolveAlone, hsame]

/-- With nothing typed of a command, Escape gives the command of the action that it is bound to. -/
theorem feed_escape_of_idle (h : r.hasPending = false) {a : ActionSpec}
    (hresolve : keymap.resolve (.ofMode mode) [.escape] = .matched 1 (.action a.id) false)
    (hget : registry.get? a.id = some a) (hkind : a.handler.kind = .other) :
    ∃ command : Command, command.action = a.id ∧
      r.feed .escape mode keymap registry = (.resolved command, r) := by
  obtain ⟨hpending, hoperator, hawaiting⟩ := hasPending_eq_false_iff.mp h
  have hbuffers : r.buffers .escape mode = true := by
    have hdigit : r.countDigit? .escape = none := rfl
    have hmark : r.startsRegister .escape = false := rfl
    simp only [buffers, h, hawaiting, hpending, hdigit, hmark, Bool.and_false, Bool.not_false,
      Option.isNone_none, Option.isSome_none, Bool.or_false, Bool.and_self]
  have hpushed : (r.push .escape).pending.keys = [.escape] := by
    rw [push_pending, hpending]
    rfl
  rw [← hpushed] at hresolve
  rw [feed_of_buffers keymap registry hbuffers, buffer_of_matched registry hresolve]
  refine accept_cases
    (motive := fun result ↦ ∃ command : Command, command.action = a.id ∧
      result = (.resolved command, r))
    (r.push .escape) mode registry 1 (.action a.id) ?expand ?overflow ?action
  case expand =>
    intro _ htarget
    cases htarget
  case overflow =>
    intro _ htarget
    cases htarget
  case action =>
    intro id htarget
    obtain rfl := Target.action.inj htarget
    have htaken : (r.push .escape).takeKeys 1 = r := by
      cases r with
      | mk pending operator awaitingChar input mapDepth =>
        obtain rfl : pending = {} := hpending
        rfl
    rw [htaken, acceptAction_of_other hget hkind hoperator]
    exact resolveAlone_of_idle hpending (typedCall a _)

end Resolver

theorem EditState.execute_of_change {registry : Registry} {command : Command} {id : ActionId}
    {f : EditState → EditState} (hget : registry.get? command.action = some (Builtin.change id f))
    (s : EditState) (options : Options) :
    s.execute registry options command = (.executed, f s) := by
  unfold execute
  rw [hget]
  rfl

namespace Session

/-- A state from which Escape gets back to the normal mode: the mode machine is coherent, an operator
waits if it is in the pending mode, and Escape is bound to what leaves the mode. -/
structure Recoverable (s : Session) : Prop where
  registry : s.registry = .standard
  escape : ∀ mode id, MapMode.escapeAction? mode = some id →
    s.keymap.resolve mode [.escape] = .matched 1 (.action id) false
  coherent : s.edit.modes.Coherent
  waits : s.mode = .operatorPending → s.resolver.operatorPending = true

variable {s : Session}

/-! ### Escape itself -/

/-- What is typed of a command is given up. -/
theorem escape_of_hasPending (h : s.edit.modes.Coherent) (r : Resolver) :
    (s.act (.cancelled, r.reset)).2.mode = .normal ∧
      (s.act (.cancelled, r.reset)).2.edit.text = s.edit.text ∧
      (s.act (.cancelled, r.reset)).2.editor.registers = s.editor.registers := by
  have hsynced := EditState.syncOperatorMode_coherent h false
  have hcancel := (s.edit.syncOperatorMode false).guardedChange_harmless
    (EditState.cancel_moves _).rearranges
  refine ⟨?_, ?_, ?_⟩
  · exact EditState.cancel_mode (s := (s.edit.syncOperatorMode false).prepared) hsynced
  · refine hcancel.text.trans ?_
    rw [EditState.syncOperatorMode_eq]
    rfl
  · refine hcancel.registers.trans ?_
    rw [EditState.syncOperatorMode_eq]
    rfl

/-- With nothing typed of a command, Escape leaves the mode. -/
theorem escape_of_idle (h : s.Recoverable) {r : Resolver} (hidle : r.operator = none)
    (hne : s.edit.mode ≠ .operatorPending) {command : Command} {f : EditState → EditState}
    (hescapes : EscapesBy s.mode command.action f) :
    (s.act (.resolved command, r)).2.mode = .normal ∧
      (s.act (.resolved command, r)).2.edit.text = s.edit.text ∧
      (s.act (.resolved command, r)).2.editor.registers = s.editor.registers := by
  have hnone : r.operatorPending = false := Resolver.operatorPending_of_none hidle
  have hsynced : s.edit.syncOperatorMode false = s.edit := EditState.syncOperatorMode_of_ne hne
  have hget : s.registry.get? command.action = some (Builtin.change command.action f) := by
    rw [h.registry]
    exact hescapes.registered
  have hedit : (s.act (.resolved command, r)).2.edit = s.edit.guardedChange f := by
    show (s.edit.apply s.registry s.options r.operatorPending (.resolved command)).2 = _
    unfold EditState.apply
    rw [hnone, hsynced]
    show (s.edit.guarded fun t ↦ t.execute s.registry s.options command).2 = _
    rw [funext fun t ↦ EditState.execute_of_change hget t s.options]
    rfl
  have hdone := s.edit.guardedChange_harmless (hescapes.rearranges s.edit.prepared)
  rw [mode, editor, hedit]
  exact ⟨hescapes.normal s.edit.prepared rfl h.coherent, hdone.text, hdone.registers⟩

/-- Reading Escape forgets what was typed of a command and gets to the normal mode, with the text and
the registers as they are. -/
theorem readNext_escape (h : s.Recoverable) (hinput : s.resolver.input = [.escape]) :
    s.readNext.mode = .normal ∧ s.readNext.resolver = s.resolver.clear ∧
      s.readNext.edit.text = s.edit.text ∧ s.readNext.editor.registers = s.editor.registers := by
  have hread : s.resolver.afterRead.input = [] := by
    show s.resolver.input.tail = []
    rw [hinput]
    rfl
  rw [readNext_of_cons hinput]
  cases hpending : s.resolver.afterRead.hasPending with
  | true =>
    rw [Resolver.feed_escape_of_hasPending hpending]
    obtain ⟨hmode, htext, hregisters⟩ := escape_of_hasPending h.coherent s.resolver.afterRead
    refine ⟨hmode, ?_, htext, hregisters⟩
    show { s.resolver.reset with input := s.resolver.afterRead.input } = _
    rw [hread]
    rfl
  | false =>
    obtain ⟨-, hoperator, -⟩ := Resolver.hasPending_eq_false_iff.mp hpending
    have hne : s.mode ≠ .operatorPending := by
      intro hmode
      cases (Resolver.operatorPending_of_none (r := s.resolver) hoperator).symm.trans (h.waits hmode)
    obtain ⟨id, f, hescapes⟩ := exists_escapesBy hne
    have hget : s.registry.get? id = some (Builtin.change id f) := by
      rw [h.registry]
      exact hescapes.registered
    obtain ⟨command, haction, hfeed⟩ := Resolver.feed_escape_of_idle (a := Builtin.change id f)
      hpending (h.escape _ id hescapes.bound) hget rfl
    obtain rfl : command.action = id := haction
    rw [hfeed]
    obtain ⟨hmode, htext, hregisters⟩ := escape_of_idle h hoperator hne hescapes
    exact ⟨hmode, Resolver.eq_clear_of_idle hpending hread, htext, hregisters⟩

/-! ### Reachable states -/

/-- What a session can be given, in any order. -/
inductive Input where
  | call (c : KeyCall)
  | gesture (g : Gesture)
  | pump
  deriving DecidableEq, Repr

def receive (s : Session) : Input → Session
  | .call c => s.call c
  | .gesture g => s.gesture g
  | .pump => s.pump

/-- Whatever the resolver gives, acting on it leaves the state recoverable. -/
theorem act_recoverable (h : s.Recoverable) (result : Outcome × Resolver) :
    (s.act result).2.Recoverable := by
  have horderly : s.registry.Orderly := by
    rw [h.registry]
    exact Registry.standard_orderly
  refine ⟨h.registry, h.escape, act_coherent horderly h.coherent result, fun hmode ↦ ?_⟩
  by_cases hpending : result.2.operatorPending = true
  · exact hpending
  · exact absurd hmode (act_settled horderly h.coherent (Bool.eq_false_iff.mpr hpending))

theorem readNext_recoverable (h : s.Recoverable) : s.readNext.Recoverable := by
  cases hinput : s.resolver.input with
  | nil => rwa [readNext_of_nil hinput]
  | cons stroke rest =>
    rw [readNext_of_cons hinput]
    exact act_recoverable h _

theorem pump_recoverable (h : s.Recoverable) : s.pump.Recoverable := by
  have hcoherent := s.pump_steady.coherent h.coherent
  have hwaits : s.pump.mode = .operatorPending → s.pump.resolver.operatorPending = true := by
    intro hmode
    rw [pump_resolver]
    by_cases hbefore : s.mode = .operatorPending
    · exact h.waits hbefore
    · exact absurd hmode (s.pump_steady.settled hbefore)
  obtain ⟨edit, dragging, hpump, -⟩ := s.pump_eq
  rw [hpump] at hcoherent hwaits ⊢
  exact ⟨h.registry, h.escape, hcoherent, hwaits⟩

theorem begin_recoverable (h : s.Recoverable) (c : KeyCall) : (s.begin c).Recoverable := by
  cases c with
  | key stroke =>
    have hpumped := pump_recoverable h
    exact ⟨hpumped.registry, hpumped.escape, hpumped.coherent, hpumped.waits⟩
  | flush => exact act_recoverable h _

/-- Whatever a session is given, it stays recoverable and leaves nothing unread. -/
theorem receive_recoverable (h : s.Recoverable) (hread : s.resolver.input = []) (input : Input) :
    (s.receive input).Recoverable ∧ (s.receive input).resolver.input = [] := by
  cases input with
  | call c =>
    exact ⟨call_keeps (P := Recoverable) (fun _ c ht ↦ begin_recoverable ht c)
      (fun _ ht ↦ readNext_recoverable ht) h c, s.call_input c⟩
  | gesture g => exact ⟨⟨h.registry, h.escape, h.coherent, h.waits⟩, hread⟩
  | pump =>
    refine ⟨pump_recoverable h, ?_⟩
    show s.pump.resolver.input = []
    rw [pump_resolver]
    exact hread

theorem opened_recoverable (options : Options) (editor : Editor) {early late : List Remap}
    (hremaps : ∀ r ∈ early ++ late, r.keys.head? ≠ some .escape) :
    (opened options editor early late).Recoverable where
  registry := opened_registry options editor early late
  escape _ _ hid := opened_resolve_escape options editor hremaps hid
  coherent := by
    rw [opened_edit]
    rfl
  waits hmode := by
    rw [mode, opened_edit] at hmode
    cases hmode

/-- Whatever a session with the default bindings, both extensions and any further replacements of
strokes has been given, if no replaced sequence begins with Escape then Escape takes it to the normal
mode, nothing is left of a command or to be read, and the text and the registers stay the same. -/
theorem escape_gets_back_to_normal (options : Options) (editor : Editor) (early late : List Remap)
    (hremaps : ∀ r ∈ early ++ late, r.keys.head? ≠ some .escape) (inputs : List Input) :
    let s := inputs.foldl receive (opened options editor early late)
    let after := (s.handleKey .escape).2
    after.mode = .normal ∧ after.resolver.pending = {} ∧ after.resolver.operator = none ∧
      after.resolver.awaitingChar = none ∧ after.resolver.input = [] ∧
      after.editor.text = s.editor.text ∧ after.editor.registers = s.editor.registers := by
  intro s after
  have hs : s.Recoverable ∧ s.resolver.input = [] := by
    refine List.foldlRecOn (motive := fun t ↦ t.Recoverable ∧ t.resolver.input = []) inputs receive
      ⟨opened_recoverable options editor hremaps, by rw [opened_resolver]⟩ ?_
    rintro t ⟨ht, hread⟩ input -
    exact receive_recoverable ht hread input
  obtain ⟨edit, dragging, hpump, -, -, htext, hregisters⟩ := s.pump_eq
  have henqueued : (s.pump.enqueue .escape).Recoverable := begin_recoverable hs.1 (.key .escape)
  have hinput : (s.pump.enqueue .escape).resolver.input = [.escape] := by
    rw [enqueue_input, pump_resolver, hs.2, List.nil_append]
  obtain ⟨hmode, hclear, htext', hregisters'⟩ := readNext_escape henqueued hinput
  have hafter : after = (s.pump.enqueue .escape).readNext := handleKey_of_read (by rw [hclear]; rfl)
  rw [hafter, hclear]
  refine ⟨hmode, rfl, rfl, rfl, rfl, htext'.trans ?_, hregisters'.trans ?_⟩
  · show s.pump.edit.text = s.edit.text
    rw [hpump]
    exact htext
  · show s.pump.edit.editor.registers = s.edit.editor.registers
    rw [hpump]
    exact hregisters

/-- With `jk` for Escape in the insert mode, a selection made by mouse while an operator waits is given
up by Escape, and so is the operator. -/
theorem escape_from_stranded_operator :
    let s := [Input.call (.key (.char 'd')), .gesture (.select ⟨0⟩ 0 3 .mouse), .pump].foldl receive
      (opened {} (Editor.ofText "abc def\n".toList).attachListener []
        [⟨[.insert], [.char 'j', .char 'k'], [.escape]⟩])
    (s.handleKey .escape).2.mode = .normal ∧ (s.handleKey .escape).2.resolver.operator = none :=
  have h := escape_gets_back_to_normal {} (Editor.ofText "abc def\n".toList).attachListener []
    [⟨[.insert], [.char 'j', .char 'k'], [.escape]⟩] (by decide)
    [Input.call (.key (.char 'd')), .gesture (.select ⟨0⟩ 0 3 .mouse), .pump]
  ⟨h.1, h.2.2.1⟩

end Session

end ModalEdit
