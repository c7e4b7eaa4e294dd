import ModalEdit.Proofs.LoneCaret
import ModalEdit.Proofs.SessionFrame

/-!
Commands that leave text and registers. A command that is cancelled and strokes that type nothing leave the
text and the registers as they were (`EditState.execute_cancelled`, `typeKeys_cancelled`), since every command
looks for what it acts on before it changes anything; and so does acting on any outcome of the resolver of
which nothing comes (`apply_idle`). An operator that touches no register, like those that map the case,
leaves the registers in whatever it is run on (`apply_registers`).
-/

set_option autoImplicit false
set_option relaxedAutoImplicit false

namespace ModalEdit

/-- Nothing was done: nothing executed and nothing typed. -/
def KeyOutcome.Idle (outcome : KeyOutcome) : Prop := outcome ≠ .executed ∧ outcome ≠ .typed

/-! ### Commands -/

namespace EditState

/-- The text and the registers are the same. -/
structure SameContent (before after : EditState) : Prop where
  text : after.text = before.text
  registers : after.editor.registers = before.editor.registers

theorem SameContent.trans {first middle last : EditState} (h₁ : SameContent first middle)
    (h₂ : SameContent middle last) : SameContent first last :=
  ⟨h₂.text.trans h₁.text, h₂.registers.trans h₁.registers⟩

theorem Moves.sameContent {before after : EditState} (h : Moves before after) :
    SameContent before after :=
  ⟨h.rearranges.editor.text, h.rearranges.editor.registers⟩

variable (s : EditState) {registry : Registry} {command : Command} {options : Options}

theorem compose_cancelled {body : Operator} (h : (s.compose registry command body).1 = .cancelled) :
    SameContent s (s.compose registry command body).2 := by
  unfold compose at h ⊢
  split
  · exact s.bell_moves.sameContent
  · next hargument =>
    rw [hargument] at h
    dsimp only at h ⊢
    split
    · exact ⟨rfl, rfl⟩
    · next hranges =>
      split at h
      · next hnone => exact absurd hnone hranges
      · cases h

theorem operateOnSelections_cancelled {body : Operator}
    (h : (s.operateOnSelections command body).1 = .cancelled) :
    SameContent s (s.operateOnSelections command body).2 := by
  unfold operateOnSelections at h ⊢
  split
  · exact ⟨rfl, rfl⟩
  · next hkind =>
    rw [hkind] at h
    cases h

/-- A command that is cancelled leaves the text and the registers as they were. -/
theorem execute_cancelled (h : (s.execute registry options command).1 = .cancelled) :
    SameContent s (s.execute registry options command).2 := by
  unfold execute at h ⊢
  split at h
  · exact s.bell_moves.sameContent
  · next spec hget =>
    split at h
    · exact (s.applyMotion_moves _ _).sameContent
    · exact (s.selectTextObject_moves _ _).sameContent
    · split at h
      · next hselecting =>
        simp only [hselecting, if_true]
        exact s.operateOnSelections_cancelled h
      · next hselecting =>
        simp only [hselecting]
        exact s.compose_cancelled h
    · cases h

/-- Strokes that type nothing leave the text and the registers as they were. -/
theorem typeKeys_cancelled {keys : Keys} (h : (s.typeKeys keys).1 = .cancelled) :
    SameContent s (s.typeKeys keys).2 := by
  unfold typeKeys at h ⊢
  dsimp only at h ⊢
  split
  · next hremoves =>
    rw [if_pos hremoves] at h
    cases h
  · next hremoves =>
    rw [if_neg hremoves] at h
    split
    · exact s.bell_moves.sameContent
    · next htyped =>
      rw [if_neg htyped] at h
      revert h
      cases s.mode with
      | insert | replace | select _ | commandLine => exact fun h ↦ nomatch h
      | normal | visual _ | operatorPending => exact fun _ ↦ s.bell_moves.sameContent

theorem guarded_idle {f : EditState → Dispatch × EditState} {done : KeyOutcome} (hdone : ¬done.Idle)
    (hf : ∀ t, (f t).1 = .cancelled → SameContent t (f t).2)
    (h : (KeyOutcome.ofDispatch done (s.guarded f).1).Idle) : SameContent s (s.guarded f).2 := by
  have hcancelled : (f s.prepared).1 = .cancelled := by
    cases hrun : (f s.prepared).1 with
    | cancelled => rfl
    | executed =>
      rw [show (s.guarded f).1 = .executed from hrun] at h
      exact absurd h hdone
  exact ⟨(hf s.prepared hcancelled).text, (hf s.prepared hcancelled).registers⟩

theorem syncOperatorMode_sameContent (operatorPending : Bool) :
    SameContent s (s.syncOperatorMode operatorPending) := by
  rw [syncOperatorMode_eq]
  exact ⟨rfl, rfl⟩

/-- What nothing comes of leaves the text and the registers as they were. -/
theorem apply_idle {operatorPending : Bool} {outcome : Outcome}
    (h : (s.apply registry options operatorPending outcome).1.Idle) :
    SameContent s (s.apply registry options operatorPending outcome).2 := by
  refine (s.syncOperatorMode_sameContent operatorPending).trans ?_
  unfold apply at h ⊢
  generalize s.syncOperatorMode operatorPending = synced at h ⊢
  cases outcome with
  | pending => exact ⟨rfl, rfl⟩
  | resolved command =>
    exact synced.guarded_idle (fun h ↦ h.1 rfl) (fun t ↦ t.execute_cancelled) h
  | cancelled =>
    have hcancel := synced.guardedChange_harmless synced.prepared.cancel_moves.rearranges
    exact ⟨hcancel.text, hcancel.registers⟩
  | unmapped keys =>
    dsimp only at h ⊢
    by_cases hentry : synced.mode.isTextEntry = true
    · rw [if_pos hentry] at h ⊢
      exact synced.guarded_idle (fun h ↦ h.2 rfl) (fun t ↦ t.typeKeys_cancelled) h
    · rw [if_neg hentry]
      exact synced.bell_moves.sameContent

end EditState

/-! ### Operators that touch no register -/

namespace Operator

/-- The operator touches no register. -/
def KeepsRegisters (body : Operator) : Prop := ∀ e args, (body e args).2.registers = e.registers

theorem mapChars_registers (f : Char → List Char) (e : Editor) (start stop : Nat) :
    (mapChars f e start stop).registers = e.registers := by
  unfold mapChars
  dsimp only
  split <;> rfl

theorem mapCase_keepsRegisters (f : Char → List Char) : (mapCase f).KeepsRegisters := by
  intro e args
  unfold mapCase
  dsimp only
  split
  · exact List.foldlRecOn (motive := fun after : Editor ↦ after.registers = e.registers) _ _ rfl
      fun before h segment _ ↦ (mapChars_registers f before segment.1 segment.2).trans h
  · exact mapChars_registers f e _ _

end Operator

namespace EditState

theorem Moves.registers {before after : EditState} (h : Moves before after) :
    after.editor.registers = before.editor.registers := h.rearranges.editor.registers

theorem pinAll_registers (s : EditState) (ranges : List (CaretId × TextRange)) :
    (s.pinAll ranges).2.editor.registers = s.editor.registers := by
  induction ranges generalizing s with
  | nil => rfl
  | cons range rest ih => exact ih (s.pin range.1 range.2).2

section KeepsRegisters

variable {body : Operator} (hbody : body.KeepsRegisters) (s : EditState)
include hbody

theorem operateOn_registers (call : ActionCall) (nextMode : Mode) (p : PinnedRange) :
    (operateOn call body nextMode s p).2.editor.registers = s.editor.registers := by
  have hunpinned : (s.unpin p).2.editor.registers = s.editor.registers := rfl
  unfold operateOn
  split
  · next he =>
    rw [he] at hunpinned
    exact hunpinned
  · next range t he =>
    rw [he] at hunpinned
    exact ((moveCaret_moves _ p.caret _).registers.trans (hbody t.editor _)).trans hunpinned

theorem operate_registers (call : ActionCall) (ranges : List (CaretId × TextRange)) :
    (s.operate call body ranges).2.editor.registers = s.editor.registers := by
  refine operate_keeps_editor (P := fun e ↦ e.registers = s.editor.registers)
    (fun hmove h ↦ hmove.repositions.registers.trans h) ?_
  exact List.foldlRecOn
    (motive := fun result : Mode × EditState ↦ result.2.editor.registers = s.editor.registers) _ _
    (s.pinAll_registers ranges) fun result h p _ ↦ (operateOn_registers hbody result.2 call result.1 p).trans h

theorem compose_registers (registry : Registry) (command : Command) :
    (s.compose registry command body).2.editor.registers = s.editor.registers := by
  unfold compose
  split
  · exact s.bell_moves.registers
  · dsimp only
    split
    · rfl
    · exact operate_registers hbody s.syncCarets _ _

theorem operateOnSelections_registers (command : Command) :
    (s.operateOnSelections command body).2.editor.registers = s.editor.registers := by
  unfold operateOnSelections
  split
  · rfl
  · refine (operate_registers hbody _ _ _).trans (Moves.registers ?_)
    exact ((EditState.Step.syncCarets s).steps.trans (EditState.clearSelections_moves _)).trans
      (EditState.setMode_moves _ Mode.noConfusion)

/-- A command of an operator that touches no register leaves the registers. -/
theorem apply_registers {registry : Registry} (options : Options) (operatorPending : Bool)
    {command : Command} {id : ActionId} {flags : CommandFlags}
    (hget : registry.get? command.action = some (Builtin.operator id body flags)) :
    (s.apply registry options operatorPending (.resolved command)).2.editor.registers =
      s.editor.registers := by
  refine Eq.trans ?_ (s.syncOperatorMode_sameContent operatorPending).registers
  generalize hsynced : s.syncOperatorMode operatorPending = synced
  unfold apply
  rw [hsynced]
  show (synced.prepared.execute registry options command).2.editor.registers = _
  rw [execute_of_operator command hget]
  split
  · exact operateOnSelections_registers hbody synced.prepared command
  · exact compose_registers hbody synced.prepared registry command

end KeepsRegisters

end EditState

end ModalEdit
