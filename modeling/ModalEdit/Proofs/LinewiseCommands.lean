import ModalEdit.Proofs.FeedLines
import ModalEdit.Proofs.InsertTyping
import ModalEdit.Proofs.LinesAtCarets
import ModalEdit.Proofs.OperatorAgreement

/-!
An operator typed twice. Under the default bindings a count, the keys of an operator and its last key
again are the operator's command over the motion over lines (`OperatorKey.Bound.completes`), which
covers as many lines from the caret's on, and fails where there are fewer
(`Operator.range?_counted`). So such keys either do nothing or have the operator act on these lines
(`Session.ReadsCommands.doubled_cancelled`, `doubled_executed`).
-/

set_option autoImplicit false
set_option relaxedAutoImplicit false

namespace ModalEdit

open Resolver (WaitsThrough Completes)

/-! ### The keys -/

namespace OperatorKey

variable {keymap : Keymap} {registry : Registry}

/-- An operator is bound to its keys, and to the last of them in the pending mode, and it and the motion
over lines are there. -/
structure Bound (o : OperatorKey) (keymap : Keymap) (registry : Registry) : Prop where
  keys : keymap.get? .normal o.keys = some (.action o.action) ∧
    (keymap.trie .normal).goesBeyond o.keys = false
  again : keymap.get? .operatorPending [o.again] = some (.action o.action) ∧
    (keymap.trie .operatorPending).goesBeyond [o.again] = false
  action : registry.get? o.action = some (Builtin.operator o.action o.body {})
  lines : registry.get? ActionId.currentLine =
    some (Builtin.motion ActionId.currentLine Motion.currentLine Builtin.linewise)

/-- What is typed before the operator's key is typed again. -/
def opening (o : OperatorKey) (c : TypedCount) : Opening where
  before := c
  operator := o
  register_valid _ h := by cases h

/-- The command of the operator over as many lines. -/
def linesCommand (o : OperatorKey) (c : TypedCount) : Command :=
  (o.opening c).command (linesCall [o.again])

theorem again_ne (o : OperatorKey) : KeyStroke.escape ∉ [o.again] ∧
    ∀ first ∈ [o.again].head?, first.digit? = none ∧ first.typedChar? ≠ some '"' := by
  cases o <;> decide +kernel

/-- After a count and the keys of an operator its target is waited for. -/
theorem Bound.waitsThrough {o : OperatorKey} (h : o.Bound keymap registry) (c : TypedCount) :
    WaitsThrough keymap registry (·.modeOver .normal) (c.strokes ++ o.keys) {} (o.opening c).state := by
  have hcount : WaitsThrough keymap registry (·.modeOver .normal) c.strokes {}
      { pending := { countBefore := c.kept? } } :=
    Resolver.waitsThrough_count rfl c ⟨rfl, rfl, rfl, rfl, rfl⟩ rfl
  have hkeys : WaitsThrough keymap registry (·.modeOver .normal) o.keys
      { pending := { countBefore := c.kept? } } (o.opening c).state := by
    have hne : o.keys ≠ [] := by cases o <;> exact List.cons_ne_nil _ _
    refine Resolver.waitsThrough_of_bound _ rfl rfl rfl (fun _ ↦ rfl) hne
      (.of_first rfl rfl o.keys_first.1 o.keys_first.2) h.keys.1 h.keys.2 ?_ rfl
    rw [Resolver.accept_whole, Resolver.acceptAction_of_operator h.action rfl _ rfl]
    rfl
  exact hcount.append hkeys

/-- A count, the keys of an operator and the last of them again are a command over lines. -/
theorem Bound.completes {o : OperatorKey} (h : o.Bound keymap registry) (c : TypedCount) :
    Completes keymap registry (·.modeOver .normal) (c.strokes ++ o.keys ++ [o.again]) {}
      (.resolved (o.linesCommand c)) {} := by
  have hagain : Completes keymap registry (·.modeOver .normal) [o.again] (o.opening c).state
      (.resolved (o.linesCommand c)) {} := by
    refine Resolver.completes_of_bound _ rfl rfl rfl (fun _ ↦ rfl) (List.cons_ne_nil _ _)
      (.of_first rfl rfl o.again_ne.1 o.again_ne.2) h.again.1 h.again.2 ?_ rfl
    rw [Resolver.accept_whole, Resolver.acceptAction_of_operator h.action rfl _ rfl]
    show (if o.action = o.action then
      Resolver.complete _ ((o.opening c).state.counted _) else _) = _
    rw [if_pos rfl, h.lines, Opening.state_counted]
    rfl
  exact (h.waitsThrough c).completes hagain

end OperatorKey

theorem Session.StandardBindings.bound {s : Session} (h : s.StandardBindings) (o : OperatorKey) :
    o.Bound s.keymap s.registry := by
  have hdefault : ∀ o ∈ OperatorKey.all,
      (Keymap.default.get? .normal o.keys = some (.action o.action) ∧
        (Keymap.default.trie .normal).goesBeyond o.keys = false) ∧
      Keymap.default.get? .operatorPending [o.again] = some (.action o.action) ∧
        (Keymap.default.trie .operatorPending).goesBeyond [o.again] = false := by
    decide +kernel
  have hbeyond : ∀ o ∈ OperatorKey.all,
      (Keymap.standard.trie .operatorPending).goesBeyond [o.again] = false := by
    decide +kernel
  rcases h with ⟨hkeymap, hregistry⟩ | ⟨hkeymap, hregistry⟩
  · rw [hkeymap, hregistry]
    exact ⟨o.keys_bound, ⟨o.again_bound, hbeyond o o.mem_all⟩, o.get?_action, currentLine_registered⟩
  · rw [hkeymap, hregistry]
    obtain ⟨hkeys, hagain⟩ := hdefault o o.mem_all
    refine ⟨hkeys, hagain, ?_, ?_⟩
    · refine Registry.ofList_get?_of_mem (a := Builtin.operator o.action o.body {})
        (by decide +kernel) ?_
      cases o <;> simp [Builtin.actions, Builtin.operators, OperatorKey.action, OperatorKey.body]
    · exact Registry.ofList_get?_of_mem
        (a := Builtin.motion ActionId.currentLine Motion.currentLine Builtin.linewise)
        (by decide +kernel) (by simp [Builtin.actions, Builtin.motions])

namespace TypedCount

/-- The number that is kept of what was typed. -/
def limited (c : TypedCount) : Nat := min c.value maxCount

variable (c : TypedCount)

theorem limited_pos : 0 < c.limited := Nat.lt_min.mpr ⟨c.one_le_value, Nat.succ_pos _⟩

theorem getD_kept? : max (c.kept?.getD 1) 1 = c.limited := by
  have hpos := c.limited_pos
  unfold kept?
  split
  · next hnil =>
    rw [limited, value, if_pos hnil]
    rfl
  · exact Nat.max_eq_left hpos

end TypedCount

/-! ### The lines that are covered -/

namespace Text

/-- The span of some lines, with their line breaks. -/
def linesRange (t : Text) (first n : Nat) : TextRange :=
  .between (t.lineOffset first) (t.lineOffset (first + n)) .linewise

variable {t : Text} {first n : Nat}

theorem linesRange_ends (t : Text) (first n : Nat) :
    (t.linesRange first n).start = t.lineOffset first ∧
      (t.linesRange first n).stop = t.lineOffset (first + n) := by
  have hle := t.lineOffset_mono (Nat.le_add_right first n)
  exact ⟨Nat.min_eq_left hle, Nat.max_eq_right hle⟩

theorem linesRange_stop_le (h : first + n ≤ t.lineCount) : (t.linesRange first n).stop ≤ t.length := by
  rw [(t.linesRange_ends first n).2, ← t.lineOffset_lineCount]
  exact t.lineOffset_mono h

end Text

theorem Span.lines_comm (t : Text) (a b : Nat) : Span.lines t a b = Span.lines t b a := by
  rw [Span.lines, Span.lines, Nat.min_comm, Nat.max_comm]

/-- Where the line feed is the only break, the lines between two are all of their characters. -/
theorem Span.lines_eq_linesRange {t : Text} (hbreaks : t.FeedsOnly) {first n : Nat} (hn : 0 < n)
    (h : first + n ≤ t.lineCount) : Span.lines t first (first + (n - 1)) = t.linesRange first n := by
  rw [Span.lines, Nat.min_eq_left (Nat.le_add_right _ _), Nat.max_eq_right (Nat.le_add_right _ _),
    Span.pastLineFeed_lineEnd hbreaks (by omega), Text.lineStart_eq_lineOffset (by omega),
    Text.linesRange, show first + (n - 1) + 1 = first + n by omega]

/-- The motion over lines covers as many lines as are counted, or none if there are fewer. -/
theorem Operator.range?_counted (ctx : MotionContext) {keys : Keys} {rawCount : Option Nat}
    (hcall : ctx.command = { linesCall keys with rawCount }) (hbreaks : ctx.text.FeedsOnly)
    (operator : ActionId) :
    Operator.range? ctx operator (.motion Motion.currentLine) =
      if ctx.line + ctx.count ≤ ctx.text.lineCount then
        some (ctx.text.linesRange ctx.line ctx.count)
      else none := by
  have hpos : 0 < ctx.count := Nat.lt_of_lt_of_le Nat.one_pos (Nat.le_max_right _ 1)
  have hline : ctx.line < ctx.text.lineCount := ctx.text.lineOf_lt ctx.offset
  have hword : Operator.changesToWordEnd? ctx operator = none := by
    rw [Operator.changesToWordEnd?, hcall]
    exact ite_self _
  rw [Operator.range?, hword]
  by_cases henough : ctx.line + ctx.count ≤ ctx.text.lineCount
  · have hlast : ctx.line + (ctx.count - 1) < ctx.text.lineCount := by omega
    have htarget := Text.lineOf_firstNonBlank hlast
    have hmotion : Motion.currentLine ctx =
        some (ctx.text.firstNonBlank (ctx.line + (ctx.count - 1))) := if_pos hlast
    have hspan : Operator.rangeOfMotion ctx
        (ctx.text.firstNonBlank (ctx.line + (ctx.count - 1))) =
          ctx.text.linesRange ctx.line ctx.count := by
      rw [Operator.rangeOfMotion, hcall]
      show Span.linesOf ctx.text _ _ = _
      rw [Span.linesOf, ← Span.lines_eq_linesRange hbreaks hpos henough]
      rcases Nat.le_total ctx.offset (ctx.text.firstNonBlank (ctx.line + (ctx.count - 1)))
        with hafter | hbefore
      · rw [Nat.min_eq_left hafter, Nat.max_eq_right hafter, htarget, MotionContext.line]
      · rw [Nat.min_eq_right hbefore, Nat.max_eq_left hbefore, htarget, MotionContext.line,
          Span.lines_comm]
    rw [if_pos henough, hmotion, Option.map_some, hspan]
  · have hfails : Motion.currentLine ctx = none := if_neg (by omega)
    rw [if_neg henough, hfails]
    rfl

/-! ### Running the command -/

namespace EditState

variable {s : EditState} {caret : CaretId} {offset : Nat}

theorem guarded_congr {α : Type} {f g : EditState → α × EditState} (h : f s.prepared = g s.prepared) :
    s.guarded f = s.guarded g := by
  show ((f s.prepared).1, (f s.prepared).2.unlock _) = ((g s.prepared).1, (g s.prepared).2.unlock _)
  rw [h]

/-- With one caret, an operator whose target fails is cancelled, and only the bell rings. -/
theorem Lone.compose_none (h : s.Lone caret offset) {registry : Registry} (command : Command)
    (body : Operator) {argument : ActionCall} {spec : ActionSpec}
    (hargument : command.argument = some argument)
    (hget : registry.get? argument.action = some spec)
    (hrange : ∀ state, state.offset = offset →
      Operator.range? (s.pendingContext argument caret state) command.action spec.handler = none) :
    s.compose registry command body = (.cancelled, s.syncCarets.bell) := by
  unfold EditState.compose
  rw [hargument, Option.bind_some, hget]
  dsimp only [Option.map_some]
  rw [h.plannedRanges_eq, hrange _ rfl]
  rfl

variable {keymap : Keymap} {registry : Registry} {o : OperatorKey} (c : TypedCount)

/-- The lines that an operator typed twice covers. -/
theorem range?_doubled (hbreaks : s.text.FeedsOnly) {state : CaretState} (hstate : state.offset = offset)
    (operator : ActionId) :
    Operator.range? (s.pendingContext { linesCall [o.again] with rawCount := (o.opening c).count? } caret
      state) operator (.motion Motion.currentLine) =
      if s.text.lineOf offset + c.limited ≤ s.text.lineCount then
        some (s.text.linesRange (s.text.lineOf offset) c.limited)
      else none := by
  have hcount : max ((o.opening c).count?.getD 1) 1 = c.limited := by
    rw [← c.getD_kept?, ← c.product?_alone.1]
    rfl
  subst hstate
  rw [← hcount]
  exact Operator.range?_counted _ rfl hbreaks operator

section Lines

variable (h : s.Lone caret offset) (hbound : o.Bound keymap registry) (hbreaks : s.text.FeedsOnly)
include h hbound hbreaks

theorem Lone.compose_lines_none (hfew : s.text.lineCount < s.text.lineOf offset + c.limited) :
    s.compose registry (o.linesCommand c) o.body = (.cancelled, s.syncCarets.bell) := by
  refine h.compose_none _ _ rfl hbound.lines fun state hstate ↦ ?_
  exact (range?_doubled c hbreaks hstate _).trans (if_neg (Nat.not_le.mpr hfew))

theorem Lone.compose_lines_some (henough : s.text.lineOf offset + c.limited ≤ s.text.lineCount) :
    s.compose registry (o.linesCommand c) o.body =
      s.syncCarets.operate (o.linesCommand c).toActionCall o.body
        [(caret, s.text.linesRange (s.text.lineOf offset) c.limited)] := by
  refine h.compose _ _ rfl hbound.lines fun state hstate ↦ ?_
  exact (range?_doubled c hbreaks hstate _).trans (if_pos henough)

end Lines

theorem linesCommand_count (o : OperatorKey) (c : TypedCount) :
    (o.linesCommand c).toActionCall.count = c.limited := by
  rw [← c.getD_kept?, ← c.product?_alone.1]
  rfl

section Guarded

variable (h : s.Lone caret offset) (hbound : o.Bound keymap registry) (hbreaks : s.text.FeedsOnly)
include h hbound hbreaks

/-- With too few lines from that of the caret on, nothing is done. -/
theorem Lone.guarded_lines_none (hfew : s.text.lineCount < s.text.lineOf offset + c.limited) :
    s.guarded (fun t ↦ t.compose registry (o.linesCommand c) o.body) =
      (.cancelled, s.prepared.syncCarets.bell.unlock s.lock.1) := by
  have hnone := h.prepared.compose_lines_none c hbound hbreaks hfew
  show ((s.prepared.compose _ _ _).1, (s.prepared.compose _ _ _).2.unlock s.lock.1) = _
  rw [hnone]

/-- With enough lines from that of the caret on, the operator acts on these. -/
theorem Lone.guarded_lines_some (hcoherent : s.modes.Coherent)
    (henough : s.text.lineOf offset + c.limited ≤ s.text.lineCount) :
    ∃ (e : Editor) (after : EditState),
      s.guarded (fun t ↦ t.compose registry (o.linesCommand c) o.body) = (.executed, after) ∧
      after.editor.reported = s.editor.reported ∧ e.text = s.text ∧
      e.registers = s.editor.registers ∧ e.caretOffset? caret = some offset ∧
      let result := o.body e {
        caret, range := s.text.linesRange (s.text.lineOf offset) c.limited, count := c.limited }
      after.text = result.2.text ∧ after.editor.registers = result.2.registers ∧
        after.Lone caret (min result.1.caretOffset result.2.text.length) ∧
        after.mode = result.1.nextMode := by
  obtain ⟨e, htext, hregisters, hstands, hresult⟩ := h.prepared.syncCarets.operate hcoherent
    o.body_rewrites (o.linesCommand c).toActionCall (s.text.linesRange (s.text.lineOf offset) c.limited)
  have horderly := (operate_steps id o.body_rewrites.madeOf s.prepared.syncCarets
    (o.linesCommand c).toActionCall
    [(caret, s.text.linesRange (s.text.lineOf offset) c.limited)]).edits_orderly
  have hwithin : (s.text.linesRange (s.text.lineOf offset) c.limited).within s.prepared.syncCarets.text =
      s.text.linesRange (s.text.lineOf offset) c.limited :=
    TextRange.within_eq_self (Text.linesRange_stop_le henough)
  rw [hwithin, linesCommand_count] at hresult
  refine ⟨e, (s.prepared.syncCarets.operate (o.linesCommand c).toActionCall o.body
    [(caret, s.text.linesRange (s.text.lineOf offset) c.limited)]).2.unlock s.lock.1, ?_,
    horderly.editor.reported s.prepared_isLocked, htext, hregisters, hstands, hresult.1, hresult.2.1,
    hresult.2.2.1.withGuard _, hresult.2.2.2⟩
  have hsome := h.prepared.compose_lines_some c hbound hbreaks henough
  show ((s.prepared.compose _ _ _).1, (s.prepared.compose _ _ _).2.unlock s.lock.1) = _
  rw [hsome]
  rfl

end Guarded

end EditState

namespace Session

/-- Under the default bindings, nothing has been typed of a command or reported, and the mode is the
normal one. -/
structure ReadsCommands (s : Session) : Prop where
  bindings : s.StandardBindings
  idle : s.resolver.hasPending = false
  input : s.resolver.input = []
  reported : s.editor.reported = []
  coherent : s.edit.modes.Coherent
  mode : s.mode = .normal

/-- Neither the text nor the registers nor a caret have changed. -/
structure Untouched (before after : Session) : Prop where
  text : after.editor.text = before.editor.text
  registers : after.editor.registers = before.editor.registers
  carets : ∀ caret, after.editor.caretOffset? caret = before.editor.caretOffset? caret

section WithCaret

/-- A text with one caret in it, under the standard bindings. -/
def withCaret (t : Text) (offset : Nat) : Session where
  keymap := .standard
  registry := .standard
  edit := { editor := .ofMarked ⟨t, [offset], []⟩ }

@[simp] theorem withCaret_text (t : Text) (offset : Nat) : (withCaret t offset).editor.text = t := rfl

theorem withCaret_readsCommands (t : Text) (offset : Nat) : (withCaret t offset).ReadsCommands where
  bindings := by
    unfold withCaret
    exact .inl ⟨by with_reducible rfl, by with_reducible rfl⟩
  idle := rfl
  input := rfl
  reported := rfl
  coherent := rfl
  mode := rfl

theorem withCaret_lone {t : Text} {offset : Nat} (h : offset ≤ t.length) :
    (withCaret t offset).edit.Lone ⟨0⟩ offset where
  editor := Editor.ofMarked_anchored ⟨t, [offset], []⟩
  carets := List.nodup_nil
  ids := rfl
  stands := by
    show some (min offset t.length) = some offset
    rw [Nat.min_eq_left h]

end WithCaret

variable {s : Session} {caret : CaretId} {offset : Nat}

theorem StandardBindings.orderly (h : s.StandardBindings) : s.registry.Orderly := by
  rcases h with ⟨-, hregistry⟩ | ⟨-, hregistry⟩
  · rw [hregistry]
    exact Registry.standard_orderly
  · rw [hregistry]
    exact Registry.builtin_orderly

/-- The command of an operator is run on the editor as it was. -/
theorem ReadsCommands.runs_operator (h : s.ReadsCommands) {o : OperatorKey} {keys : Keys}
    {command : Command} (hread : Completes s.keymap s.registry (·.modeOver .normal) keys {}
      (.resolved command) {}) (haction : command.action = o.action) :
    ∃ modes : ModeMachine, modes.Coherent ∧ modes.mode = .normal ∧
      s.handleAll keys = s.ran {} ({ s.edit with modes }.guarded fun t ↦
        t.compose s.registry command o.body) := by
  have htakes : s.mode.takesOperators := .inl h.mode
  have hread := hread.of_idle h.idle h.input
  rw [← h.mode] at hread
  obtain ⟨modes, hcoherent, hmode, hrun⟩ := handleAll_of_completes htakes h.coherent h.reported
    (Resolver.hasPending_eq_false_iff.mp h.idle).2.1 hread rfl
  refine ⟨modes, hcoherent, hmode.trans h.mode, hrun.trans ?_⟩
  have hget : s.registry.get? command.action = some (Builtin.operator o.action o.body {}) := by
    rw [haction]
    exact (h.bindings.bound o).action
  have hexecute : (EditState.prepared { s.edit with modes }).execute s.registry s.options command =
      (EditState.prepared { s.edit with modes }).compose s.registry command o.body := by
    rw [EditState.execute_of_operator _ hget,
      show (EditState.prepared { s.edit with modes }).mode = .normal from hmode.trans h.mode]
    rfl
  exact congrArg (s.ran {}) (EditState.guarded_congr hexecute)

section Doubled

variable (h : s.ReadsCommands) (o : OperatorKey) (c : TypedCount)
include h

theorem ReadsCommands.runs_doubled : ∃ modes : ModeMachine, modes.Coherent ∧ modes.mode = .normal ∧
    s.handleAll (c.strokes ++ o.keys ++ [o.again]) =
      s.ran {} ({ s.edit with modes }.guarded fun t ↦
        t.compose s.registry (o.linesCommand c) o.body) :=
  h.runs_operator ((h.bindings.bound o).completes c) rfl

/-- With too few lines from that of the caret on, nothing is done. -/
theorem ReadsCommands.doubled_cancelled (hlone : s.edit.Lone caret offset)
    (hbreaks : s.editor.text.FeedsOnly)
    (hfew : s.editor.text.lineCount < s.editor.text.lineOf offset + c.limited) :
    (s.handleAll (c.strokes ++ o.keys ++ [o.again])).1 = .cancelled ∧
      s.Untouched (s.handleAll (c.strokes ++ o.keys ++ [o.again])).2 := by
  obtain ⟨modes, -, -, hrun⟩ := h.runs_doubled o c
  have hnone := (hlone.withModes modes).guarded_lines_none c (h.bindings.bound o) hbreaks hfew
  rw [hrun, hnone]
  exact ⟨rfl, rfl, rfl, fun _ ↦ rfl⟩

/-- With enough lines from that of the caret on, the operator acts on these. -/
theorem ReadsCommands.doubled_executed (hlone : s.edit.Lone caret offset)
    (hbreaks : s.editor.text.FeedsOnly)
    (henough : s.editor.text.lineOf offset + c.limited ≤ s.editor.text.lineCount) :
    ∃ (e : Editor) (after : EditState),
      s.handleAll (c.strokes ++ o.keys ++ [o.again]) =
        (.executed, { s with resolver := {}, edit := after }) ∧
      after.editor.reported = [] ∧ e.text = s.editor.text ∧ e.registers = s.editor.registers ∧
      e.caretOffset? caret = some offset ∧
      let result := o.body e {
        caret, range := s.editor.text.linesRange (s.editor.text.lineOf offset) c.limited
        count := c.limited }
      after.text = result.2.text ∧ after.editor.registers = result.2.registers ∧
        after.Lone caret (min result.1.caretOffset result.2.text.length) ∧
        after.mode = result.1.nextMode := by
  obtain ⟨modes, hcoherent, -, hrun⟩ := h.runs_doubled o c
  obtain ⟨e, after, hdone, hreported, hresult⟩ :=
    (hlone.withModes modes).guarded_lines_some c (h.bindings.bound o) hbreaks hcoherent henough
  refine ⟨e, after, ?_, hreported.trans h.reported, hresult⟩
  rw [hrun, hdone]
  rfl

end Doubled

end Session

end ModalEdit
