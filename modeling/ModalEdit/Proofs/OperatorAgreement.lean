import ModalEdit.Proofs.LoneSelection
import ModalEdit.Proofs.ReadCommands
import ModalEdit.Proofs.SelectionGrammar

/-!
An operator with its target, and the same operator on what the target selects. Either way it is
given one span of characters of the text as it is, and heeds nothing else but the registers; the
spans are the same where the target is a text object that is not empty, or a motion forward to a
character (`TypedTarget.selects`). So both ways of typing the command end alike
(`Session.operator_agrees_with_selection`).
-/

set_option autoImplicit false
set_option relaxedAutoImplicit false

namespace ModalEdit

open Resolver (Completes)

/-! ### Operators -/

namespace OperatorKey

/-- What the operator does to a span. -/
def body : OperatorKey → Operator
  | delete => .delete
  | change => .change
  | yank => .yank
  | lowercase => .lowercase
  | uppercase => .uppercase
  | toggleCase => .toggleCase

theorem get?_action (o : OperatorKey) :
    Registry.standard.get? o.action = some (Builtin.operator o.action o.body {}) := by
  refine Registry.standard_get?_of_mem (a := Builtin.operator o.action o.body {}) ?_
  cases o <;> simp [Builtin.actions, Builtin.operators, action, body]

theorem body_heeds (o : OperatorKey) : o.body.Heeds := by
  cases o with
  | delete => exact Operator.delete_heeds
  | change => exact Operator.change_heeds
  | yank => exact Operator.yank_heeds
  | lowercase | uppercase | toggleCase => exact Operator.mapCase_heeds _

theorem body_rewrites (o : OperatorKey) : o.body.Rewrites := by
  cases o with
  | delete => exact Operator.delete_rewrites
  | change => exact Operator.changeWith_rewrites false
  | yank => exact Operator.yank_rewrites
  | lowercase | uppercase | toggleCase => exact Operator.mapCase_rewrites _

end OperatorKey

theorem TextRange.within_within (r : TextRange) (t : Text) :
    (r.within t).within t = r.within t := by
  simp only [within, between, TextRange.mk.injEq, and_true]
  omega

namespace EditState

variable {s : EditState} {caret : CaretId} {offset : Nat} {body : Operator}

/-- What an operator makes of a span of characters is what its edit makes of the text and the
registers. -/
theorem Lone.operate_characters (h : s.Lone caret offset) (hcoherent : s.modes.Coherent)
    (hbody : body.Rewrites)
    {edit : Text → Registers → TextRange → Option Char → OperatorEffect × Text × Registers}
    (hedit : ∀ (e : Editor) (args : OperatorArgs), args.range.kind = .characterwise →
      ((body e args).1, (body e args).2.text, (body e args).2.registers) =
        edit e.text e.registers args.range args.register)
    (call : ActionCall) (range : TextRange) (hkind : range.kind = .characterwise) :
    let result := edit s.text s.editor.registers (range.within s.text) call.register
    let t := (s.operate call body [(caret, range)]).2
    t.text = result.2.1 ∧ t.editor.registers = result.2.2 ∧
      t.Lone caret (min result.1.caretOffset result.2.1.length) ∧ t.mode = result.1.nextMode := by
  obtain ⟨e, htext, hregisters, -, hresult⟩ := h.operate hcoherent hbody call range
  have hedited := hedit e
    { caret, range := range.within s.text, register := call.register, count := call.count } hkind
  rw [htext, hregisters] at hedited
  intro result t
  rw [show result = _ from hedited.symm]
  exact hresult

end EditState

/-! ### Targets -/

namespace TypedTarget

variable {t : TypedTarget}

/-- A text object covers something, and a motion does not fail. -/
def Resolves (t : TypedTarget) (ctx : MotionContext) : Prop :=
  match t.spec.handler with
  | .textObject f => ∃ r, f ctx = some r ∧ r.isEmpty = false
  | .motion f => ∃ destination, f ctx = some destination
  | _ => False

theorem Selectable.endsOnCharacter (h : t.Selectable) {f : Motion}
    (hf : t.spec.handler = .motion f) :
    f.Local ∧ f.EndsOnCharacter ∧ t.spec.flags.linewise = false ∧ t.spec.flags.inclusive = true ∧
      Operator.wordMotion? t.spec.id = none := by
  have hspec {id : ActionId} (g : Motion) (flags : CommandFlags)
      (ha : Builtin.motion id g flags ∈ Builtin.motions)
      (hid : t.spec.id = id) : t.spec = Builtin.motion id g flags := by
    have hget : Registry.standard.get? id = some (Builtin.motion id g flags) :=
      Registry.standard_get?_of_mem (a := Builtin.motion id g flags) (by simp [Builtin.actions, ha])
    have hfound := t.registered
    rw [hid, hget] at hfound
    exact (Option.some.inj hfound).symm
  have hmotion {id : ActionId} {g : Motion} {flags : CommandFlags}
      (hs : t.spec = Builtin.motion id g flags) :
      g = f := by
    rw [hs] at hf
    exact ActionHandler.motion.inj hf
  rcases h with hobject | hid
  · rw [hf] at hobject
    cases hobject
  · simp only [ActionId.forwardToCharacter, List.mem_cons, List.not_mem_nil, or_false] at hid
    rcases hid with hid | hid | hid | hid
    · have hs := hspec (Motion.wordEnd false) Builtin.inclusive (by simp [Builtin.motions]) hid
      rw [← hmotion hs, hs]
      exact ⟨Motion.wordEnd_local _, Motion.wordEnd_endsOnCharacter _, rfl, rfl, rfl⟩
    · have hs := hspec (Motion.wordEnd true) Builtin.inclusive (by simp [Builtin.motions]) hid
      rw [← hmotion hs, hs]
      exact ⟨Motion.wordEnd_local _, Motion.wordEnd_endsOnCharacter _, rfl, rfl, rfl⟩
    · have hs := hspec (Motion.find .forward false) { Builtin.inclusive with expectsChar := true }
        (by simp [Builtin.motions]) hid
      rw [← hmotion hs, hs]
      exact ⟨Motion.find_local _ _, Motion.find_endsOnCharacter _, rfl, rfl, rfl⟩
    · have hs := hspec (Motion.find .forward true) { Builtin.inclusive with expectsChar := true }
        (by simp [Builtin.motions]) hid
      rw [← hmotion hs, hs]
      exact ⟨Motion.find_local _ _, Motion.find_endsOnCharacter _, rfl, rfl, rfl⟩

/-- What a target covers for an operator is what it selects. -/
theorem Selectable.selects (h : t.Selectable) (c : TypedCount) (ctx : MotionContext)
    (hcommand : ctx.command = { t.call with rawCount := c.kept? }) (hresolves : t.Resolves ctx)
    (hnormal : ctx.text.normalize ctx.offset false = ctx.offset) :
    ∃ (range : TextRange) (anchor head : Nat), range.kind = .characterwise ∧
      Span.selection ctx.text anchor head .character false false = range.within ctx.text ∧
      (∀ other operator, ctx.Alike other → Operator.range? other operator t.spec.handler =
        some range) ∧
      ∀ (s : EditState) (caret : CaretId) (options : Options), s.text = ctx.text →
        s.Selects caret ctx.offset ctx.offset →
          (s.execute .standard options (t.command c)).2.Selects caret anchor head := by
  have hflags {other : MotionContext} (halike : ctx.Alike other) :
      other.command.flags = t.spec.flags := by
    rw [← halike.command, hcommand]
    rfl
  have haction {other : MotionContext} (halike : ctx.Alike other) :
      other.command.action = t.spec.id := by
    rw [← halike.command, hcommand]
    rfl
  have hget : Registry.standard.get? (t.command c).action = some t.spec := t.registered
  unfold Resolves at hresolves
  split at hresolves
  · next f hf =>
    obtain ⟨r, hr, hne⟩ := hresolves
    obtain ⟨hlocal, hkind, hlines, hinclusive⟩ :=
      Registry.standard_coversCharacters.of_get? t.registered f hf
    refine ⟨r, r.start, min (max (r.stop - 1) r.start) ctx.text.length, hkind ctx r hr,
      Span.selection_of_textObject (hkind ctx r hr) hne _, fun other operator halike ↦ ?_,
      fun s caret options htext hselects ↦ ?_⟩
    · rw [hf]
      exact Operator.range?_of_textObject (by rw [hflags halike, hlines])
        (by rw [hflags halike, hinclusive])
        ((hlocal ctx other halike).symm.trans hr) operator
    · unfold EditState.execute
      rw [hget]
      dsimp only
      rw [hf, ← htext]
      refine hselects.selectTextObject _ hinclusive hne fun state goal hoffset ↦ ?_
      exact (hlocal ctx _ ⟨htext.symm, hoffset.symm, hcommand⟩).symm.trans hr
  · next f hf =>
    obtain ⟨destination, hdestination⟩ := hresolves
    obtain ⟨hlocal, hends, hlines, hinclusive, hword⟩ := h.endsOnCharacter hf
    obtain ⟨hle, hlt⟩ := hends ctx destination hnormal hdestination
    refine ⟨.between ctx.offset (destination + 1) .characterwise, ctx.offset, destination, rfl,
      Span.selection_of_motion hle hlt, fun other operator halike ↦ ?_,
      fun s caret options htext hselects ↦ ?_⟩
    · rw [hf, halike.offset]
      rw [halike.offset] at hle
      rw [halike.text] at hlt
      exact Operator.range?_of_motion (by rw [haction halike, hword])
        (by rw [hflags halike, hlines])
        (by rw [hflags halike, hinclusive]) ((hlocal ctx other halike).symm.trans hdestination) hle
          hlt operator
    · have hend := Text.lineEnd_le_length (ctx.text.lineOf_lt destination)
      have hmoves (state : CaretState) (hoffset : state.offset = ctx.offset) :
          f (s.motionContext (t.command c).toActionCall caret state) = some destination :=
        (hlocal ctx _ ⟨htext.symm, hoffset.symm, hcommand⟩).symm.trans hdestination
      have hmoved := hselects.applyMotion (t.command c).toActionCall hmoves
      rw [htext, Text.normalize_of_lt_lineEnd hlt, Nat.min_eq_left (by omega)] at hmoved
      unfold EditState.execute
      rw [hget]
      dsimp only
      rw [hf]
      exact hmoved
  · exact hresolves.elim

end TypedTarget

/-! ### Sessions -/

namespace Session

open EditState (Selects)

variable {s : Session} {caret : CaretId} {offset : Nat}

/-- The caret selects, and commands are taken. -/
structure Extends (s : Session) (caret : CaretId) (anchor offset : Nat) : Prop
    extends TakesCommands s where
  selects : s.edit.Selects caret anchor offset

/-- After a command that moves things about and leaves a selection, commands are still taken. -/
theorem TakesCommands.extends_of_run (h : s.TakesCommands) {anchor : Nat} {modes : ModeMachine}
    {f : EditState → Dispatch × EditState}
    (hmoves : EditState.Moves (EditState.prepared { s.edit with modes })
      (f (EditState.prepared { s.edit with modes })).2)
    (hselects : (f (EditState.prepared { s.edit with modes })).2.Selects caret anchor offset) :
    let after := { s with resolver := {}, edit := ({ s.edit with modes }.guarded f).2 }
    after.Extends caret anchor offset ∧ after.editor.text = s.editor.text ∧
      after.editor.registers = s.editor.registers := by
  have hharmless := EditState.guarded_harmless { s.edit with modes } (f := f) hmoves.rearranges
  have hafter := hselects.withGuard ({ s.edit with modes }.guarded f).2.editor.guard
  refine ⟨⟨⟨h.keymap, h.registry, rfl, rfl, hharmless.reported.trans h.reported, hafter.coherent,
    .inr ?_⟩, hafter⟩,
    hharmless.text, hharmless.registers⟩
  exact hafter.visual

/-- A selection is started where the caret is. -/
theorem TakesCommands.startSelection (h : s.TakesCommands) (hmode : s.mode = .normal)
    (hlone : s.edit.Lone caret offset) :
    (s.handleAll [.char 'v']).2.Extends caret offset offset ∧
      (s.handleAll [.char 'v']).2.editor.text = s.editor.text ∧
      (s.handleAll [.char 'v']).2.editor.registers = s.editor.registers := by
  obtain ⟨modes, hcoherent, hsame, hrun⟩ :=
    h.handleAll _ _ (by rw [hmode]; exact completes_visualChar)
  have hget : Registry.standard.get? ActionId.visualChar =
      some (Builtin.selecting ActionId.visualChar EditState.toggleVisual) :=
    Registry.standard_get?_of_mem (a := Builtin.selecting ActionId.visualChar
      EditState.toggleVisual)
      (by simp [Builtin.actions, Builtin.modeChanges])
  have hexecute (t : EditState) : t.execute .standard s.options
      { kind := .other, action := ActionId.visualChar, keys := [.char 'v'], argument := none } =
        (.executed, t.toggleVisual .character) := by
    unfold EditState.execute
    rw [hget]
    rfl
  have hnormal : (EditState.prepared { s.edit with modes }).mode = .normal := hsame.trans hmode
  have hstarts : (EditState.prepared { s.edit with modes }).toggleVisual .character =
      (EditState.prepared { s.edit with modes }).startSelection (.visual .character) := by
    unfold EditState.toggleVisual
    rw [hnormal]
  rw [hrun, funext hexecute]
  refine h.extends_of_run (f := fun t ↦ (.executed, t.toggleVisual .character))
    (EditState.toggleVisual_moves _ _) ?_
  show ((EditState.prepared { s.edit with modes }).toggleVisual .character).Selects
    caret offset offset
  rw [hstarts]
  exact (hlone.withModes modes).prepared.startSelection hcoherent

/-- A selection goes where its target takes it. -/
theorem Extends.runTarget {anchor head : Nat} (h : s.Extends caret offset offset) (t : TypedTarget)
    (hselectable : t.Selectable) (c : TypedCount)
    (hselects : ∀ (u : EditState) (options : Options), u.text = s.editor.text →
      u.Selects caret offset offset →
        (u.execute .standard options (t.command c)).2.Selects caret anchor head) :
    (s.handleAll (c.strokes ++ t.strokes)).2.Extends caret anchor head ∧
      (s.handleAll (c.strokes ++ t.strokes)).2.editor.text = s.editor.text ∧
      (s.handleAll (c.strokes ++ t.strokes)).2.editor.registers = s.editor.registers := by
  obtain ⟨modes, hcoherent, hsame, hrun⟩ := h.handleAll (c.strokes ++ t.strokes) (t.command c)
    (by
      rw [show s.mode = .visual .character from h.selects.mode]
      exact t.completes_command c hselectable _)
  have hmoves (u : EditState) :
      EditState.Moves u (u.execute .standard s.options (t.command c)).2 := by
    have hget : Registry.standard.get? (t.command c).action = some t.spec := t.registered
    have hkind := t.kind
    unfold EditState.execute
    rw [hget]
    dsimp only
    split
    · exact u.applyMotion_moves _ _
    · exact u.selectTextObject_moves _ _
    · next hf =>
      rw [hf] at hkind
      rcases hkind with hkind | hkind <;> cases hkind
    · next hf =>
      rw [hf] at hkind
      rcases hkind with hkind | hkind <;> cases hkind
  have hafter := hselects (EditState.prepared { s.edit with modes }) s.options rfl
    (h.selects.withModes hcoherent hsame).prepared
  rw [hrun]
  exact h.extends_of_run (f := fun u ↦ u.execute .standard s.options (t.command c)) (hmoves _)
    hafter

section Operators

variable {edit : Text → Registers → TextRange → Option Char → OperatorEffect × Text × Registers}
    {o : OperatorKey}
  (hedit : ∀ (e : Editor) (args : OperatorArgs), args.range.kind = .characterwise →
    ((o.body e args).1, (o.body e args).2.text, (o.body e args).2.registers) =
      edit e.text e.registers args.range args.register)
include hedit

/-- With its target, an operator is run on the span that the target covers. -/
theorem TakesCommands.runOperator (h : s.TakesCommands) (hmode : s.mode = .normal)
    (hlone : s.edit.Lone caret offset) (t : TypedTarget) (hselectable : t.Selectable)
    (c : TypedCount) {range : TextRange} (hkind : range.kind = .characterwise)
    (hrange : ∀ (u : EditState) state, u.text = s.editor.text → state.offset = offset →
      Operator.range? (u.pendingContext { t.call with rawCount := c.kept? } caret state) o.action
        t.spec.handler =
        some range) :
    (s.handleAll (o.keys ++ c.strokes ++ t.strokes)).2.EndsWith caret
      (edit s.editor.text s.editor.registers (range.within s.editor.text) none) := by
  let opening : Opening :=
    { operator := o, after := c, register_valid := fun _ hnone ↦ by cases hnone }
  have hzero : opening.after.digits ≠ [] → t.keys ≠ [.char '0'] := by
    rintro - hkeys
    have hdigit := hselectable.bound.2.2.2 (.char '0') (by rw [hkeys]; rfl)
    cases hdigit.1
  have hcompletes : Completes .standard .standard (·.modeOver .normal)
      (o.keys ++ c.strokes ++ t.strokes) {}
      (.resolved (opening.command t.call)) {} :=
    opening.waitsThrough_strokes.completes (opening.completes_target t hzero)
  obtain ⟨modes, hcoherent, hsame, hrun⟩ := h.handleAll _ _ (by rw [hmode]; exact hcompletes)
  have hprepared := (hlone.withModes modes).prepared
  have hcount : opening.count? = c.kept? := c.product?_alone.2
  have hunselecting : ((EditState.prepared { s.edit with modes }).mode.isVisual ||
      (EditState.prepared { s.edit with modes }).mode.isSelect) = false := by
    rw [show (EditState.prepared { s.edit with modes }).mode = .normal from hsame.trans hmode]
    rfl
  have hexecute :
      (EditState.prepared { s.edit with modes }).execute .standard s.options
          (opening.command t.call) =
        (EditState.prepared { s.edit with modes }).syncCarets.operate
          (opening.command t.call).toActionCall o.body
        [(caret, range)] := by
    have hargument : (opening.command t.call).argument =
        some { t.call with rawCount := c.kept? } := by
      rw [← hcount]
      rfl
    have hcovers := hprepared.compose (opening.command t.call) o.body hargument t.registered
      fun state hstate ↦ hrange _ state rfl hstate
    rw [EditState.execute_of_operator (opening.command t.call) o.get?_action, hunselecting,
      if_neg Bool.false_ne_true]
    exact hcovers
  rw [hrun]
  exact .of_run (congrArg Prod.snd hexecute) (hprepared.syncCarets.operate_characters hcoherent
    o.body_rewrites hedit
    (opening.command t.call).toActionCall range hkind)

/-- Without one, it is run on what is selected. -/
theorem Extends.runOperator {anchor : Nat} (h : s.Extends caret anchor offset) :
    (s.handleAll o.keys).2.EndsWith caret (edit s.editor.text s.editor.registers
      ((Span.selection s.editor.text anchor offset .character false false).within s.editor.text)
        none) := by
  obtain ⟨modes, hcoherent, hsame, hrun⟩ := h.handleAll o.keys o.command
    (by rw [show s.mode = .visual .character from h.selects.mode]; exact o.completes_command _)
  have hprepared := (h.selects.withModes hcoherent hsame).prepared
  obtain ⟨u, hlone, hmodes, htext, hregisters, hoperates⟩ :=
    hprepared.operateOnSelections o.command rfl o.body
  have hexecute : (EditState.prepared { s.edit with modes }).execute .standard s.options o.command =
      u.operate o.command.toActionCall o.body
        [(caret, Span.selection s.editor.text anchor offset .character false false)] := by
    rw [EditState.execute_of_operator o.command o.get?_action, hprepared.visual]
    exact hoperates
  have hresult := hlone.operate_characters hmodes o.body_rewrites hedit o.command.toActionCall
    (Span.selection s.editor.text anchor offset .character false false) rfl
  rw [htext, hregisters] at hresult
  rw [hrun]
  exact .of_run (congrArg Prod.snd hexecute) hresult

end Operators

end Session

open Session in
/-- With one caret, where it may be in the normal mode, an operator typed with a count and a target
ends with the same text, registers, caret and mode as the operator typed after the target has been
selected with the count, for a text object that is not empty there, or a motion to the end of a word
or forward to a character that does not fail there. -/
theorem Session.operator_agrees_with_selection {s : Session} (htakes : s.TakesCommands)
    (hmode : s.mode = .normal) {caret : CaretId} {offset : Nat} (hlone : s.edit.Lone caret offset)
    (hnormal : s.editor.text.normalize offset false = offset) (o : OperatorKey) (c : TypedCount)
    (t : TypedTarget) (hselectable : t.Selectable)
    (hresolves : t.Resolves (s.edit.pendingContext { t.call with rawCount := c.kept? } caret
      { offset })) :
    let direct := (s.handleAll (o.keys ++ c.strokes ++ t.strokes)).2
    let selected := (s.handleAll ([.char 'v'] ++ c.strokes ++ t.strokes ++ o.keys)).2
    direct.editor.text = selected.editor.text ∧
      direct.editor.registers = selected.editor.registers ∧
      (∃ place, direct.editor.caretOffset? caret = some place ∧
        selected.editor.caretOffset? caret = some place) ∧
      direct.mode = selected.mode := by
  intro direct selected
  obtain ⟨edit, hedit⟩ := o.body_heeds
  obtain ⟨range, anchor, head, hkind, hspan, hcovers, hselects⟩ := hselectable.selects c
    (s.edit.pendingContext { t.call with rawCount := c.kept? } caret { offset }) rfl hresolves
      hnormal
  have hdirect : direct.EndsWith caret
      (edit s.editor.text s.editor.registers (range.within s.editor.text) none) :=
    htakes.runOperator hedit hmode hlone t hselectable c hkind fun u state htext hstate ↦
      hcovers _ _ ⟨htext.symm, hstate.symm, rfl⟩
  obtain ⟨hstarted, htext, hregisters⟩ := htakes.startSelection hmode hlone
  obtain ⟨hextended, htext', hregisters'⟩ := hstarted.runTarget t hselectable c
    fun u options hu hstarts ↦ hselects u caret options (hu.trans htext) hstarts
  have hselected : selected.EndsWith caret
      (edit s.editor.text s.editor.registers (range.within s.editor.text) none) := by
    have hrun := hextended.runOperator hedit
    rw [htext', htext, hregisters', hregisters] at hrun
    rw [show Span.selection s.editor.text anchor head .character false false =
      range.within s.editor.text from hspan, TextRange.within_within, ← handleAll_append,
      ← handleAll_append, ← List.append_assoc, ← List.append_assoc] at hrun
    exact hrun
  exact ⟨hdirect.text.trans hselected.text.symm, hdirect.registers.trans hselected.registers.symm,
    ⟨_, hdirect.offset, hselected.offset⟩, hdirect.mode.trans hselected.mode.symm⟩

/-- By `d2aw` and by `v2awd` two words go with the blanks behind them. -/
theorem Session.two_words_deleted_either_way :
    let s : Session :=
      { keymap := .standard, registry := .standard
        edit := { editor := .ofMarked ⟨"one two three\n".toList, [1], []⟩ } }
    ∃ (c : TypedCount) (t : TypedTarget), c.strokes ++ t.strokes = Keymap.Default.typed "2aw" ∧
      (s.TakesCommands ∧ s.mode = .normal ∧ s.edit.Lone ⟨0⟩ 1 ∧
        s.editor.text.normalize 1 false = 1 ∧
        t.Selectable ∧
        t.Resolves
          (s.edit.pendingContext { t.call with rawCount := c.kept? } ⟨0⟩ { offset := 1 })) ∧
      let direct := (s.handleAll (OperatorKey.delete.keys ++ c.strokes ++ t.strokes)).2
      let selected := (s.handleAll ([.char 'v'] ++ c.strokes ++ t.strokes ++
        OperatorKey.delete.keys)).2
      direct.editor.text = selected.editor.text ∧
        direct.editor.registers = selected.editor.registers ∧
        (∃ place, direct.editor.caretOffset? ⟨0⟩ = some place ∧
          selected.editor.caretOffset? ⟨0⟩ = some place) ∧
        direct.mode = selected.mode := by
  intro s
  let c : TypedCount := { digits := [2] }
  let t : TypedTarget := {
    keys := Keymap.Default.typed "aw"
    spec := Builtin.textObject ActionId.aroundWord (TextObject.word false true)
    bound := Keymap.operatorPending_get?_of_mem "VO" (by decide +kernel) (by decide)
    registered := Registry.standard_get?_of_mem
      (a := Builtin.textObject ActionId.aroundWord (TextObject.word false true))
      (by simp [Builtin.actions, Builtin.textObjects])
    kind := .inr rfl
    takes := rfl
    typed _ h := by cases h }
  have hlone : s.edit.Lone ⟨0⟩ 1 := by
    refine ⟨⟨Editor.ofMarked_anchored ⟨"one two three\n".toList, [1], []⟩, List.nodup_nil⟩, ?_, ?_⟩
    · show Editor.caretIds (.ofMarked ⟨"one two three\n".toList, [1], []⟩) = [⟨0⟩]
      decide +kernel
    · show Editor.caretOffset? (.ofMarked ⟨"one two three\n".toList, [1], []⟩) ⟨0⟩ = some 1
      decide +kernel
  have htakes : s.TakesCommands := by
    refine ⟨by with_reducible rfl, by with_reducible rfl, rfl, rfl, ?_, rfl, .inl rfl⟩
    show Editor.reported (.ofMarked ⟨"one two three\n".toList, [1], []⟩) = []
    decide +kernel
  have hnormal : s.editor.text.normalize 1 false = 1 := by
    show Text.normalize "one two three\n".toList 1 false = 1
    decide +kernel
  have hresolves : t.Resolves (s.edit.pendingContext { t.call with rawCount := c.kept? } ⟨0⟩
    { offset := 1 }) := by
    refine ⟨.between 0 8 .characterwise, ?_, rfl⟩
    show TextObject.wordRange "one two three\n".toList 1 2 false true =
      some (.between 0 8 .characterwise)
    decide +kernel
  exact ⟨c, t, by decide +kernel, ⟨htakes, rfl, hlone, hnormal, .inl rfl, hresolves⟩,
    operator_agrees_with_selection htakes rfl hlone hnormal .delete c t (.inl rfl) hresolves⟩

end ModalEdit
