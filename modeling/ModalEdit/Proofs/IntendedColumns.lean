import ModalEdit.Proofs.AimedColumns
import ModalEdit.Proofs.ExecutedCommands
import ModalEdit.Proofs.Replay
import ModalEdit.Proofs.VerticalMotions

/-!
How long a caret aims at a column. Motions by lines and to the ends of lines give a caret a column to aim
at, and the other motions make it forget that. A key that runs neither of the former leaves it to aim at
nothing or where it did before (`Session.aim_forgotten_or_kept`), and the next motion by lines goes to that
column, or if there is none to the one that the caret is shown at. So the column is not always the one that
the caret is shown at: operators, typing and the ways between the modes move the caret and keep the column
(`Session.line_end_outlives_deletion`).
-/

set_option autoImplicit false
set_option relaxedAutoImplicit false

namespace ModalEdit

/-- The motions by lines and to the ends of lines, and the special keys that stand for them. -/
def columnActions : List ActionId :=
  [ActionId.up, ActionId.down, ActionId.lineEnd, ActionId.keyUp, ActionId.keyDown, ActionId.keyEnd,
    ActionId.keyShiftUp, ActionId.keyShiftDown, ActionId.keyShiftEnd]

/-- A motion with other flags makes its caret aim at nothing. -/
theorem CommandFlags.leaves_none {flags : CommandFlags} (hvertical : flags.vertical = false)
    (hsticky : flags.stickyEol = false) {Q : Option GoalColumn → Prop} (hnone : Q none) :
    flags.Leaves Q := by
  rintro call rfl goal
  unfold EditState.goalAfter
  rw [if_neg (Bool.eq_false_iff.mp hsticky), if_neg (Bool.eq_false_iff.mp hvertical)]
  exact hnone

namespace Registry

/-- Only the motions by lines and to the ends of lines have flags by which they write a column, and all
other actions but the special keys keep it. -/
structure WritesColumns (registry : Registry) : Prop where
  motions : ∀ a ∈ registry.specs, a.handler.kind = .motion →
    a.flags.vertical = true ∨ a.flags.stickyEol = true → a.id ∈ columnActions
  keeps : ∀ a ∈ registry.specs, a.KeepsColumns

variable {registry : Registry} {command : Command}

theorem WritesColumns.leaves_none (h : registry.WritesColumns) {id : ActionId} {spec : ActionSpec}
    (hget : registry.get? id = some spec) (hkind : spec.handler.kind = .motion) (hid : id ∉ columnActions)
    {Q : Option GoalColumn → Prop} (hnone : Q none) : spec.flags.Leaves Q := by
  have hmem : spec ∈ registry.specs := List.mem_of_find?_eq_some hget
  have hwrites := h.motions spec hmem hkind
  rw [id_of_get? hget] at hwrites
  refine CommandFlags.leaves_none ?_ ?_ hnone
  · exact Bool.eq_false_iff.mpr fun hvertical ↦ hid (hwrites (.inl hvertical))
  · exact Bool.eq_false_iff.mpr fun hsticky ↦ hid (hwrites (.inr hsticky))

end Registry

theorem Registry.motion?_eq_some {registry : Registry} {id : ActionId} {f : Motion} {flags : CommandFlags}
    (h : registry.motion? id = some (f, flags)) :
    ∃ spec, registry.get? id = some spec ∧ spec.handler.kind = .motion ∧ spec.flags = flags := by
  unfold motion? at h
  split at h
  · next hget =>
    cases h
    exact ⟨_, hget, rfl, rfl⟩
  · cases h

namespace Command

/-- An operator, a way into or out of a mode, or typing: no motion, no text object and no special key. -/
def IsPlain (command : Command) : Prop :=
  command.kind = .operator ∨
    command.kind = .other ∧ EditState.specialKeys.lookup command.action = none

instance (command : Command) : Decidable command.IsPlain :=
  inferInstanceAs (Decidable (_ ∨ _ ∧ _))

/-- If a command writes the column that a caret aims at, it writes one of a kind. -/
structure Leaves (registry : Registry) (Q : Option GoalColumn → Prop) (command : Command) : Prop where
  motion : ∀ spec, registry.get? command.action = some spec → spec.handler.kind = .motion →
    command.flags.Leaves Q
  textObject : ∀ spec, registry.get? command.action = some spec → spec.handler.kind = .textObject → Q none
  key : ∀ spec id shifted f flags, registry.get? command.action = some spec →
    spec.handler.kind = .other → EditState.specialKeys.lookup command.action = some (id, shifted) →
    registry.motion? id = some (f, flags) → flags.Leaves Q

variable {registry : Registry} {command : Command} {Q : Option GoalColumn → Prop}

theorem leaves_any (registry : Registry) (command : Command) : command.Leaves registry fun _ ↦ True :=
  ⟨fun _ _ _ _ _ _ ↦ trivial, fun _ _ _ ↦ trivial, fun _ _ _ _ _ _ _ _ _ _ _ _ ↦ trivial⟩

/-- A plain command writes none. -/
theorem IsPlain.leaves (h : command.IsPlain) (hregistered : command.Registered registry)
    (Q : Option GoalColumn → Prop) : command.Leaves registry Q := by
  obtain ⟨registered, hget, hkind, -⟩ := hregistered
  have hsame {spec : ActionSpec} (hspec : registry.get? command.action = some spec) :
      command.kind = spec.handler.kind := by
    obtain rfl := Option.some.inj (hget.symm.trans hspec)
    exact hkind
  refine ⟨fun spec hspec hmotion ↦ ?_, fun spec hspec hobject ↦ ?_,
    fun spec id shifted f flags hspec hother hlookup _ ↦ ?_⟩
  · rcases h with hoperator | ⟨hother, -⟩
    · cases hoperator.symm.trans ((hsame hspec).trans hmotion)
    · cases hother.symm.trans ((hsame hspec).trans hmotion)
  · rcases h with hoperator | ⟨hother, -⟩
    · cases hoperator.symm.trans ((hsame hspec).trans hobject)
    · cases hother.symm.trans ((hsame hspec).trans hobject)
  · rcases h with hoperator | ⟨-, hnone⟩
    · cases hoperator.symm.trans ((hsame hspec).trans hother)
    · cases hnone.symm.trans hlookup

/-- A command that is no motion by lines or to the end of a line makes its caret forget the column, if it
writes it. -/
theorem leaves_none (hregistry : registry.WritesColumns) (hregistered : command.Registered registry)
    (haction : command.action ∉ columnActions) (hnone : Q none) : command.Leaves registry Q := by
  obtain ⟨registered, hget, -, hflags⟩ := hregistered
  refine ⟨fun spec hspec hmotion ↦ ?_, fun _ _ _ ↦ hnone,
    fun _ id shifted f flags _ _ hlookup hmotion ↦ ?_⟩
  · obtain rfl := Option.some.inj (hget.symm.trans hspec)
    rw [hflags]
    exact hregistry.leaves_none hget hmotion haction hnone
  · have hkeys : ∀ entry ∈ EditState.specialKeys, entry.2.1 ∈ columnActions → entry.1 ∈ columnActions := by
      decide
    obtain ⟨before, after, hsplit, -⟩ := List.lookup_eq_some_iff.mp hlookup
    have hmem : (command.action, id, shifted) ∈ EditState.specialKeys := by
      rw [hsplit]
      exact List.mem_append_right _ List.mem_cons_self
    obtain ⟨spec, hspec, hkind, rfl⟩ := Registry.motion?_eq_some hmotion
    exact hregistry.leaves_none hspec hkind (fun hid ↦ haction (hkeys _ hmem hid)) hnone

end Command

namespace EditState.Aims

variable {s : EditState} {caret : CaretId} {Q : Option GoalColumn → Prop} {registry : Registry}

theorem execute (h : s.Aims caret Q) (hregistry : registry.WritesColumns) (options : Options)
    {command : Command} (hcommand : command.Leaves registry Q) :
    (s.execute registry options command).2.Aims caret Q := by
  unfold EditState.execute
  split
  · exact h.bell
  · next spec hget =>
    have hkeeps := hregistry.keeps spec (List.mem_of_find?_eq_some hget)
    unfold ActionSpec.KeepsColumns at hkeeps
    split
    · next f hhandler =>
      have hleaves : command.toActionCall.flags.Leaves Q := hcommand.motion spec hget (by rw [hhandler]; rfl)
      exact h.applyMotion hleaves f
    · next f hhandler =>
      exact h.selectTextObject (hcommand.textObject spec hget (by rw [hhandler]; rfl)) _ f
    · next body hhandler =>
      rw [hhandler] at hkeeps
      split
      · exact h.operateOnSelections hkeeps command
      · exact h.compose hkeeps registry command
    · next f hhandler =>
      rw [hhandler] at hkeeps
      rcases hkeeps with hkeeps | rfl
      · exact hkeeps caret Q _ command s h
      · exact h.specialKey _ command fun id shifted f flags hlookup hmotion ↦
          hcommand.key spec id shifted f flags hget (by rw [hhandler]; rfl) hlookup hmotion

theorem withGuard (h : s.Aims caret Q) (guard : SuppressionGuard) :
    Aims caret Q { s with editor := { s.editor with guard } } :=
  ⟨⟨h.editor.of_buffer rfl rfl rfl, h.carets⟩, h.ids, h.coherent, h.goal⟩

theorem guarded {α : Type} (h : s.Aims caret Q) (f : EditState → α × EditState)
    (hf : s.prepared.Aims caret Q → (f s.prepared).2.Aims caret Q) : (s.guarded f).2.Aims caret Q :=
  (hf (h.withGuard _).syncCarets).withGuard _

theorem syncOperatorMode (h : s.Aims caret Q) (operatorPending : Bool) :
    (s.syncOperatorMode operatorPending).Aims caret Q := by
  have hcoherent := syncOperatorMode_coherent h.coherent operatorPending
  rw [syncOperatorMode_eq] at hcoherent ⊢
  exact h.withModes hcoherent

/-- What is done about an outcome keeps the column, unless a command writes it. -/
theorem apply (h : s.Aims caret Q) (hregistry : registry.WritesColumns) (options : Options)
    (operatorPending : Bool) {outcome : Outcome}
    (hcommand : ∀ command ∈ outcome.command?, command.Leaves registry Q) :
    (s.apply registry options operatorPending outcome).2.Aims caret Q := by
  have hsynced := h.syncOperatorMode operatorPending
  unfold EditState.apply
  generalize s.syncOperatorMode operatorPending = synced at hsynced
  cases outcome with
  | pending => exact hsynced
  | resolved command =>
    exact hsynced.guarded (fun s ↦ s.execute registry options command) fun hprepared ↦
      hprepared.execute hregistry options (hcommand command rfl)
  | cancelled => exact hsynced.guarded (fun s ↦ ((), s.cancel)) fun hprepared ↦ hprepared.cancel
  | unmapped keys =>
    dsimp only
    split
    · exact hsynced.guarded (fun s ↦ s.typeKeys keys) fun hprepared ↦ hprepared.typeKeys keys
    · exact hsynced.bell

/-- A motion that is reported executed has been made, and other than by lines and to the end of a line it
leaves no column to aim at. -/
theorem apply_motion (h : s.Aims caret Q) (hregistry : registry.WritesColumns) {options : Options}
    {operatorPending : Bool} {command : Command} (hregistered : command.Registered registry)
    (hkind : command.kind = .motion) (haction : command.action ∉ columnActions) {t : EditState}
    (hdone : s.apply registry options operatorPending (.resolved command) = (.executed, t)) :
    t.aim caret = none := by
  obtain ⟨spec, hget, hhandler, hflags⟩ := hregistered
  have hmotion : spec.handler.kind = .motion := hhandler.symm.trans hkind
  have hprepared := ((h.syncOperatorMode operatorPending).withGuard
    (s.syncOperatorMode operatorPending).editor.guard.lock.2).syncCarets
  unfold EditState.apply at hdone
  dsimp only at hdone
  generalize s.syncOperatorMode operatorPending = synced at hdone hprepared
  obtain ⟨f, hf⟩ : ∃ f, spec.handler = .motion f := by
    cases hcases : spec.handler with
    | motion f => exact ⟨f, rfl⟩
    | _ =>
      rw [hcases] at hmotion
      cases hmotion
  have hexecute : synced.prepared.execute registry options command =
      synced.prepared.applyMotion command.toActionCall f := by
    unfold EditState.execute
    rw [hget]
    dsimp only
    rw [hf]
  obtain ⟨hreport, rfl⟩ := Prod.mk.inj hdone
  rcases hprepared.applyMotion_cases command.toActionCall f with ⟨hfails, -⟩ | ⟨-, goal, hwritten⟩
  · have hcancelled : (synced.guarded fun s ↦ s.execute registry options command).1 = .cancelled :=
      (congrArg Prod.fst hexecute).trans hfails
    rw [hcancelled] at hreport
    cases hreport
  · have hleaves : command.flags.Leaves (· = none) := by
      rw [hflags]
      exact hregistry.leaves_none hget hmotion haction rfl
    show (synced.prepared.execute registry options command).2.aim caret = none
    rw [hexecute]
    exact hwritten.goal.trans (hleaves command.toActionCall rfl goal)

end EditState.Aims

namespace Session

open EditState (Aims)

theorem StandardBindings.writesColumns {s : Session} (h : s.StandardBindings) :
    s.registry.WritesColumns := by
  have hmotions : ∀ a ∈ Builtin.actions, a.handler.kind = .motion →
      a.flags.vertical = true ∨ a.flags.stickyEol = true → a.id ∈ columnActions := by
    decide +kernel
  have hextensions : ∀ extension ∈ Extension.all, ∀ a ∈ extension.actions,
      (a.handler.kind = .motion ∨ a.handler.kind = .textObject) ∧
        (a.handler.kind = .motion → a.flags.vertical = true ∨ a.flags.stickyEol = true →
          a.id ∈ columnActions) := by
    decide +kernel
  rcases h with ⟨-, hregistry⟩ | ⟨-, hregistry⟩
  · rw [hregistry]
    exact ⟨Registry.forall_mem_standard hmotions fun extension hall a ha ↦ (hextensions extension hall a ha).2,
      Registry.forall_mem_standard Builtin.actions_keepColumns fun extension hall a ha ↦
        ActionSpec.keepsColumns_of_kind (hextensions extension hall a ha).1⟩
  · rw [hregistry]
    exact ⟨fun a ha ↦ hmotions a (Registry.mem_ofList ha),
      fun a ha ↦ Builtin.actions_keepColumns a (Registry.mem_ofList ha)⟩

/-- Under the default bindings there is one caret, nothing is reported, and what waits for more is
registered so. -/
structure Steered (caret : CaretId) (s : Session) : Prop where
  bindings : s.StandardBindings
  reported : s.editor.reported = []
  recalls : s.resolver.Recalls s.registry
  aims : s.edit.Aims caret fun _ ↦ True

variable {s : Session} {caret : CaretId}

theorem ReadsCommands.steered (h : s.ReadsCommands) (hanchored : s.edit.Anchored)
    (hids : s.editor.caretIds = [caret]) : s.Steered caret := by
  obtain ⟨-, hoperator, hawaiting⟩ := Resolver.hasPending_eq_false_iff.mp h.idle
  exact ⟨h.bindings, h.reported, Resolver.recalls_of_none hoperator hawaiting, hanchored, hids, h.coherent,
    trivial⟩

namespace Steered

theorem act (h : s.Steered caret) {result : Outcome × Resolver}
    (hrecalls : Resolver.RecallsIn s.registry result) : (s.act result).2.Steered caret where
  bindings := h.bindings
  reported := (act_reported h.bindings.orderly result).trans h.reported
  recalls := hrecalls.recalls
  aims := h.aims.apply h.bindings.writesColumns s.options _ fun command _ ↦ Command.leaves_any _ command

theorem enqueue (h : s.Steered caret) (stroke : KeyStroke) : (s.enqueue stroke).Steered caret :=
  ⟨h.bindings, h.reported, ⟨h.recalls.operator, h.recalls.awaitingChar⟩, h.aims⟩

theorem call (h : s.Steered caret) (c : KeyCall) : (s.call c).Steered caret := by
  refine call_keeps (P := Steered caret) (fun t c ht ↦ ?_) (fun t ht ↦ ?_) h c
  · cases c with
    | key stroke =>
      show (t.pump.enqueue stroke).Steered caret
      rw [pump_of_reported_nil ht.reported]
      exact ht.enqueue stroke
    | flush => exact ht.act ht.recalls.flush
  · cases hinput : t.resolver.input with
    | nil => rwa [readNext_of_nil hinput]
    | cons stroke rest =>
      rw [readNext_of_answer hinput]
      exact ht.act (answer_recalls ht.recalls stroke)

theorem foldl_call (h : s.Steered caret) (calls : List KeyCall) :
    (calls.foldl Session.call s).Steered caret :=
  List.foldlRecOn (motive := Steered caret) calls Session.call h fun _ ht c _ ↦ ht.call c

/-- The commands that a key runs have been registered so. -/
theorem registered (h : s.Steered caret) (stroke : KeyStroke) :
    ∀ command ∈ s.commandsOf stroke, command.Registered s.registry := by
  unfold commandsOf
  rw [pump_of_reported_nil h.reported]
  exact commandsRead_registered (s := s.enqueue stroke) (h.enqueue stroke).recalls

/-- After a key the caret aims at a column of a kind, if it did before and all the commands that the key
runs leave such a column. -/
theorem handleKey_aims (h : s.Steered caret) (stroke : KeyStroke) {Q : Option GoalColumn → Prop}
    (hbefore : Q (s.edit.aim caret))
    (hcommands : ∀ command ∈ s.commandsOf stroke, command.Leaves s.registry Q) :
    Q ((s.handleKey stroke).2.edit.aim caret) := by
  have hpump : s.pump = s := pump_of_reported_nil h.reported
  unfold commandsOf at hcommands
  rw [hpump] at hcommands
  have haims : (s.enqueue stroke).edit.Aims caret Q := ⟨h.aims.toAnchored, h.aims.ids, h.aims.coherent, hbefore⟩
  have hdrained := drain_keeps_through (s := s.enqueue stroke) (P := Aims caret Q) .pending
    (fun t outcome operatorPending hrun ht ↦ ht.apply h.bindings.writesColumns s.options operatorPending
      fun command hcommand ↦ hcommands command (hrun command hcommand)) haims
  rw [handleKey_snd, hpump]
  exact hdrained.goal

/-- A key that leaves a caret aiming at nothing, the last thing that it has done being a motion. -/
theorem handleKey_aims_none (h : s.Steered caret) {stroke : KeyStroke}
    (hdone : (s.handleKey stroke).1 = .executed)
    (hlast : ∀ command ∈ (s.commandsOf stroke).getLast?,
      command.kind = .motion ∧ command.action ∉ columnActions) :
    (s.handleKey stroke).2.edit.aim caret = none := by
  have hregistered := h.registered stroke
  have hpump : s.pump = s := pump_of_reported_nil h.reported
  have hkey : s.handleKey stroke = (s.enqueue stroke).drain .pending := by
    show (s.pump.enqueue stroke).drain .pending = _
    rw [hpump]
  have hregistry := h.bindings.writesColumns
  unfold commandsOf at hlast hregistered
  rw [hpump] at hlast hregistered
  rw [hkey] at hdone ⊢
  obtain ⟨t, command, operatorPending, ht, hcommand, happly⟩ := drain_executed (s := s.enqueue stroke)
    (P := Aims caret fun _ ↦ True) .pending
    (fun t outcome operatorPending ht ↦ ht.apply hregistry s.options operatorPending fun command _ ↦
      Command.leaves_any _ command) h.aims (by simp [enqueue_input]) hdone
  obtain ⟨hkind, haction⟩ := hlast command hcommand
  exact ht.apply_motion hregistry (hregistered command (List.mem_of_getLast? hcommand)) hkind haction happly

end Steered

/-- By `j` a caret goes to the column that it aims at on the next line, or if it aims at none to the one
that it is shown at. -/
theorem ReadsCommands.down_follows_aim (h : s.ReadsCommands) (hanchored : s.edit.Anchored) {offset : Nat}
    (hoffset : s.editor.caretOffset? caret = some offset)
    (hline : s.editor.text.lineOf offset + 1 < s.editor.text.lineCount) :
    (s.handleKey (.char 'j')).2.editor.caretOffset? caret =
      some (((s.edit.aim caret).getD (.cell (s.editor.text.visualColumn offset))).offsetOn s.editor.text
        (s.editor.text.lineOf offset + 1) false) := by
  let state := CaretTable.placed (s.edit.carets.get? caret) offset
  have hstate : s.edit.remembered caret = some state := by
    rw [EditState.remembered, show s.edit.caretOffset? caret = some offset from hoffset]
    rfl
  have hgoal : state.goal = s.edit.aim caret := by
    show (CaretTable.placed (s.edit.carets.get? caret) offset).goal = _
    unfold EditState.aim
    cases s.edit.carets.get? caret with
    | none => rfl
    | some known => rfl
  obtain ⟨-, -, -, hcarets⟩ := h.moves hanchored .down {}
  have hmoved := EditState.remembered_offset (s.handleKey (.char 'j')).2.edit caret
  rw [show (s.handleKey (.char 'j')).2.edit.remembered caret = _ from hcarets caret, hstate,
    Option.map_some] at hmoved
  rcases VerticalCommand.step_cases (.down {}) s.editor.text caret state with
    ⟨line, -, hplace, -, hstep⟩ | ⟨hfails, -⟩
  · have hnext : line = s.editor.text.lineOf offset + 1 := by
      have hone : (line : Int) = s.editor.text.lineOf offset + 1 := hplace
      omega
    rw [show MotionKey.down.step {} s.editor.text caret state = _ from hstep] at hmoved
    refine hmoved.symm.trans ?_
    rw [Option.map_some, hnext]
    dsimp only
    rw [VerticalCommand.goalOf, hgoal]
    rfl
  · rw [VerticalCommand.motion_eq, Text.vertical, if_neg] at hfails
    · cases hfails
    · show ¬ ((s.editor.text.lineOf offset : Int) + 1 < 0 ∨
        (s.editor.text.lineCount : Int) ≤ s.editor.text.lineOf offset + 1)
      omega

/-- After keys of any kind, a key that runs no motion by lines or to the end of a line leaves its caret to
aim at nothing or at the column that it aimed at before: at that column if the key runs neither motions nor
text objects nor special keys, and at nothing if what it has done last is a motion. Where this ends in the
normal mode with nothing typed of a command, `j` goes to that column, and to the one that the caret is shown
at just if there is none. -/
theorem aim_forgotten_or_kept (h : s.ReadsCommands) (hanchored : s.edit.Anchored)
    (hids : s.editor.caretIds = [caret]) (calls : List KeyCall) (stroke : KeyStroke)
    (hcommands : ∀ command ∈ (calls.foldl call s).commandsOf stroke, command.action ∉ columnActions) :
    let before := calls.foldl call s
    let commands := before.commandsOf stroke
    let after := (before.handleKey stroke).2
    let t := after.editor.text
    let aimed := after.edit.aim caret
    (aimed = none ∨ aimed = before.edit.aim caret) ∧
      ((∀ command ∈ commands, command.IsPlain) → aimed = before.edit.aim caret) ∧
      ((before.handleKey stroke).1 = .executed → (∀ command ∈ commands.getLast?, command.kind = .motion) →
        aimed = none) ∧
      (after.mode = .normal → after.resolver.hasPending = false →
        ∃ offset, after.editor.caretOffset? caret = some offset ∧
          (t.lineOf offset + 1 < t.lineCount →
            (after.handleKey (.char 'j')).2.editor.caretOffset? caret =
              some ((aimed.getD (.cell (t.visualColumn offset))).offsetOn t (t.lineOf offset + 1) false))) := by
  intro before commands after t aimed
  have hsteered : before.Steered caret := (h.steered hanchored hids).foldl_call calls
  have hregistry := hsteered.bindings.writesColumns
  have hregistered := hsteered.registered stroke
  have hafter : after.Steered caret := hsteered.call (.key stroke)
  refine ⟨?_, fun hplain ↦ ?_, fun hdone hlast ↦ ?_, fun hmode hidle ↦ ?_⟩
  · exact hsteered.handleKey_aims (Q := fun goal ↦ goal = none ∨ goal = before.edit.aim caret) stroke
      (.inr rfl) fun command hcommand ↦ Command.leaves_none hregistry (hregistered command hcommand)
        (hcommands command hcommand) (.inl rfl)
  · exact hsteered.handleKey_aims (Q := (· = before.edit.aim caret)) stroke rfl
      fun command hcommand ↦ (hplain command hcommand).leaves (hregistered command hcommand) _
  · exact hsteered.handleKey_aims_none hdone fun command hcommand ↦
      ⟨hlast command hcommand, hcommands command (List.mem_of_getLast? hcommand)⟩
  · obtain ⟨offset, hlone⟩ := hafter.aims.exists_lone
    have hinput : after.resolver.input = [] := before.call_input (.key stroke)
    exact ⟨offset, hlone.stands, ReadsCommands.down_follows_aim
      ⟨hafter.bindings, hidle, hinput, hafter.reported, hafter.aims.coherent, hmode⟩
      hafter.aims.toAnchored hlone.stands⟩

/-- After `$` the deletion that `x` stands for is the one command that it runs, and `j` goes on to the end of
the next line. -/
theorem deletion_at_line_end :
    let before := [KeyCall.key (.char '$')].foldl call (withCaret "ab\ncdef\n".toList 0)
    let after := (before.handleKey (.char 'x')).2
    (∀ command ∈ before.commandsOf (.char 'x'), command.action ∉ columnActions ∧ command.IsPlain) ∧
      (before.edit.aim ⟨0⟩ = some .lineEnd ∧ before.editor.caretOffset? ⟨0⟩ = some 1) ∧
      (after.mode = .normal ∧ after.resolver.hasPending = false ∧
        after.editor.caretOffset? ⟨0⟩ = some 0 ∧ after.editor.text = "a\ncdef\n".toList) ∧
      (after.handleKey (.char 'j')).2.editor.caretOffset? ⟨0⟩ = some 5 := by
  intro before after
  let start := (withCaret "ab\ncdef\n".toList 0).pump.enqueue (.char '$')
  let ready := (takeTurns 1 .pending start).2
  let first := ready.pump.enqueue (.char 'x')
  let deleted := (takeTurns 3 .pending first).2
  let down := deleted.pump.enqueue (.char 'j')
  obtain ⟨⟨hread, hturns, hturn⟩, ⟨hfirst, hsecond, hthird, hlast⟩, hplain, hran⟩ :
      ((takeTurns 1 .pending start).2.resolver.input = [] ∧
        (takeTurns 3 .pending first).2.resolver.input = [] ∧
        (takeTurns 1 .pending down).2.resolver.input = []) ∧
      (first.resolver.input = [.char 'x'] ∧ first.readNext.resolver.input = [.char 'd', .char 'l'] ∧
        first.readNext.readNext.resolver.input = [.char 'l'] ∧
        first.readNext.readNext.readNext.resolver.input = []) ∧
      (∀ command ∈ (first.answer (.char 'x')).1.command?.toList ++
        ((first.readNext.answer (.char 'd')).1.command?.toList ++
          ((first.readNext.readNext.answer (.char 'l')).1.command?.toList ++ [])),
        command.action ∉ columnActions ∧ command.IsPlain) ∧
      (ready.edit.aim ⟨0⟩ = some .lineEnd ∧ ready.editor.caretOffset? ⟨0⟩ = some 1) ∧
      (deleted.mode = .normal ∧ deleted.resolver.hasPending = false ∧
        deleted.editor.caretOffset? ⟨0⟩ = some 0 ∧ deleted.editor.text = "a\ncdef\n".toList) ∧
      (takeTurns 1 .pending down).2.editor.caretOffset? ⟨0⟩ = some 5 := by
    decide +kernel
  have hready : before = ready := congrArg Prod.snd (drain_eq_takeTurns 1 .pending start hread)
  have hdeleted : after = deleted := by
    show (before.handleKey (.char 'x')).2 = deleted
    rw [hready]
    exact congrArg Prod.snd (drain_eq_takeTurns 3 .pending first hturns)
  have hdown : (deleted.handleKey (.char 'j')).2 = (takeTurns 1 .pending down).2 :=
    congrArg Prod.snd (drain_eq_takeTurns 1 .pending down hturn)
  rw [hready, hdeleted, hdown]
  refine ⟨?_, hran⟩
  rw [commandsOf, commandsRead_of_cons hfirst, commandsRead_of_cons hsecond,
    commandsRead_of_cons hthird, commandsRead_of_nil hlast]
  exact hplain

/-- Where the last character of a line has been deleted, the caret aims at the ends of lines still. -/
theorem line_end_aimed_at_after_deletion :
    let s := withCaret "ab\ncdef\n".toList 0
    let before := [KeyCall.key (.char '$')].foldl call s
    let after := (before.handleKey (.char 'x')).2
    (s.ReadsCommands ∧ s.edit.Anchored ∧ s.editor.caretIds = [⟨0⟩] ∧
      ∀ command ∈ before.commandsOf (.char 'x'), command.action ∉ columnActions) ∧
      after.edit.aim ⟨0⟩ = some .lineEnd ∧
      (after.handleKey (.char 'j')).2.editor.caretOffset? ⟨0⟩ = some 5 := by
  intro s before after
  have hlone : s.edit.Lone ⟨0⟩ 0 := withCaret_lone (by decide)
  obtain ⟨hplain, ⟨haimed, -⟩, ⟨hmode, hidle, hstands, htext⟩, -⟩ := deletion_at_line_end
  have hcommands : ∀ command ∈ before.commandsOf (.char 'x'), command.action ∉ columnActions :=
    fun command hcommand ↦ (hplain command hcommand).1
  obtain ⟨-, hkept, -, hdown⟩ := aim_forgotten_or_kept (withCaret_readsCommands _ 0) hlone.toAnchored hlone.ids
    [.key (.char '$')] (.char 'x') hcommands
  have hafter : after.edit.aim ⟨0⟩ = some .lineEnd :=
    (hkept fun command hcommand ↦ (hplain command hcommand).2).trans haimed
  refine ⟨⟨withCaret_readsCommands _ 0, hlone.toAnchored, hlone.ids, hcommands⟩, hafter, ?_⟩
  obtain ⟨offset, hoffset, hgoes⟩ := hdown hmode hidle
  obtain rfl := Option.some.inj (hoffset.symm.trans hstands)
  rw [htext] at hgoes
  refine (hgoes (by decide)).trans ?_
  rw [show ((before.handleKey (.char 'x')).2.edit.aim ⟨0⟩) = some .lineEnd from hafter]
  decide

/-- The column that the caret is shown at after the deletion is not where `j` goes. -/
theorem line_end_outlives_deletion :
    let before := [KeyCall.key (.char '$')].foldl call (withCaret "ab\ncdef\n".toList 0)
    let after := (before.handleKey (.char 'x')).2
    let t := after.editor.text
    (after.mode = .normal ∧ after.resolver.hasPending = false ∧
      before.editor.caretOffset? ⟨0⟩ = some 1 ∧ after.editor.caretOffset? ⟨0⟩ = some 0 ∧
      (∀ command ∈ before.commandsOf (.char 'x'), command.action ∉ columnActions) ∧
      t.lineOf 0 + 1 < t.lineCount) ∧
      t.offsetAtColumn (t.lineOf 0 + 1) (t.visualColumn 0) false = 2 ∧
      (after.handleKey (.char 'j')).2.editor.caretOffset? ⟨0⟩ = some 5 := by
  intro before after t
  obtain ⟨hplain, ⟨-, hstood⟩, ⟨hmode, hidle, hstands, htext⟩, hdown⟩ := deletion_at_line_end
  have ht : t = "a\ncdef\n".toList := htext
  rw [ht]
  exact ⟨⟨hmode, hidle, hstood, hstands, fun command hcommand ↦ (hplain command hcommand).1,
    by decide +kernel⟩, by decide +kernel, hdown⟩

end Session

end ModalEdit
