import ModalEdit.Mode.Machine

/-!
The mode machine stays coherent: in the pending mode it remembers the normal mode or a visual one as the
mode underneath, in every other mode nothing (`ModeMachine.Coherent`). Any transition keeps it so,
whether it is allowed or refused, and a coherent machine always gets back to the normal mode
(`resetToNormal_mode`). A machine outside the pending mode enters it only when it is asked to, so every
other change is `Steady`.
-/

set_option autoImplicit false
set_option relaxedAutoImplicit false

namespace ModalEdit

/-- The modes that the pending mode may lie on. -/
def Mode.takesOperators (mode : Mode) : Prop := mode = .normal ∨ mode.isVisual = true

theorem Mode.takesOperators.ne_operatorPending {mode : Mode} (h : mode.takesOperators) :
    mode ≠ .operatorPending := by
  rintro rfl
  rcases h with h | h <;> cases h

theorem Mode.isLegal_operatorPending {source : Mode} {parent : Option Mode}
    (hne : source ≠ .operatorPending) :
    source.isLegal .operatorPending parent = true ↔ source.takesOperators := by
  cases source <;> simp_all [Mode.isLegal, Mode.takesOperators, Mode.isVisual]

theorem Mode.isLegal_normal {source : Mode} (parent : Option Mode)
    (hne : source ≠ .operatorPending) (hnormal : source ≠ .normal) :
    source.isLegal .normal parent = true := by
  cases source <;> simp_all [Mode.isLegal]

namespace ModeMachine

/-- The mode under the pending mode is known, and it is one that takes operators; under no other mode
does another one lie. -/
def Coherent (m : ModeMachine) : Prop :=
  if m.mode = .operatorPending then ∃ parent, m.parent = some parent ∧ parent.takesOperators
  else m.parent = none

variable {m : ModeMachine}

theorem Coherent.parent_eq_none (h : m.Coherent) (hmode : m.mode ≠ .operatorPending) :
    m.parent = none := by
  simpa only [Coherent, if_neg hmode] using h

theorem Coherent.exists_parent (h : m.Coherent) (hmode : m.mode = .operatorPending) :
    ∃ parent, m.parent = some parent ∧ parent.takesOperators := by
  simpa only [Coherent, if_pos hmode] using h

/-! ### Transitions -/

/-- A transition to another mode that is allowed. -/
def moved (m : ModeMachine) (target : Mode) : ModeMachine :=
  { m with
    mode := target
    parent := if target = .operatorPending then some m.mode else none
    delivered := m.delivered ++ m.observers.map fun o ↦ (o, ⟨m.mode, target⟩) }

@[simp] theorem moved_mode (m : ModeMachine) (target : Mode) : (m.moved target).mode = target := rfl

@[simp] theorem moved_parent (m : ModeMachine) (target : Mode) :
    (m.moved target).parent = if target = .operatorPending then some m.mode else none := rfl

theorem transition_self (m : ModeMachine) : m.transition m.mode = .ok m := if_pos rfl

theorem transition_legal {target : Mode} (hne : m.mode ≠ target)
    (hlegal : m.mode.isLegal target m.parent = true) : m.transition target = .ok (m.moved target) := by
  rw [transition, if_neg hne, if_pos hlegal]
  rfl

theorem transition_illegal {target : Mode} (hne : m.mode ≠ target)
    (hlegal : m.mode.isLegal target m.parent = false) :
    m.transition target = .error (.illegalTransition m.mode target) := by
  rw [transition, if_neg hne, if_neg (Bool.eq_false_iff.mp hlegal)]

/-- What asking for a mode does: nothing, or an allowed move. -/
theorem tryTransition_cases (m : ModeMachine) (target : Mode) :
    (m.tryTransition target = m ∧ (m.mode = target ∨ m.mode.isLegal target m.parent = false)) ∨
      (m.tryTransition target = m.moved target ∧ m.mode ≠ target ∧
        m.mode.isLegal target m.parent = true) := by
  by_cases hsame : m.mode = target
  · subst hsame
    rw [tryTransition, transition_self]
    exact .inl ⟨rfl, .inl rfl⟩
  · cases hlegal : m.mode.isLegal target m.parent with
    | true =>
      rw [tryTransition, transition_legal hsame hlegal]
      exact .inr ⟨rfl, hsame, rfl⟩
    | false =>
      rw [tryTransition, transition_illegal hsame hlegal]
      exact .inl ⟨rfl, .inr rfl⟩

theorem tryTransition_mode_of_legal {target : Mode} (h : m.mode.isLegal target m.parent = true) :
    (m.tryTransition target).mode = target := by
  rcases m.tryTransition_cases target with ⟨heq, hsame | hlegal⟩ | ⟨heq, -, -⟩
  · rw [heq, hsame]
  · rw [h] at hlegal
    cases hlegal
  · rw [heq, moved_mode]

theorem moved_coherent {target : Mode} (hne : m.mode ≠ target)
    (hlegal : m.mode.isLegal target m.parent = true) : (m.moved target).Coherent := by
  by_cases htarget : target = .operatorPending
  · subst htarget
    rw [Coherent, if_pos (moved_mode m _), moved_parent, if_pos rfl]
    exact ⟨m.mode, rfl, (Mode.isLegal_operatorPending hne).mp hlegal⟩
  · rw [Coherent, if_neg (by rwa [moved_mode]), moved_parent, if_neg htarget]

theorem tryTransition_coherent (h : m.Coherent) (target : Mode) : (m.tryTransition target).Coherent := by
  rcases m.tryTransition_cases target with ⟨heq, -⟩ | ⟨heq, hne, hlegal⟩
  · rwa [heq]
  · rw [heq]
    exact moved_coherent hne hlegal

theorem tryTransition_ne_operatorPending {target : Mode} (htarget : target ≠ .operatorPending)
    (hmode : m.mode ≠ .operatorPending) : (m.tryTransition target).mode ≠ .operatorPending := by
  rcases m.tryTransition_cases target with ⟨heq, -⟩ | ⟨heq, -, -⟩
  · rwa [heq]
  · rwa [heq, moved_mode]

/-! ### Leaving the pending mode -/

/-- The machine asked for the mode under the present one, if there is one. -/
def leavePending (m : ModeMachine) : ModeMachine := m.parent.elim m m.tryTransition

theorem leavePending_of_parent {parent : Mode} (hmode : m.mode = .operatorPending)
    (hparent : m.parent = some parent) (hne : parent ≠ .operatorPending) :
    m.leavePending = m.moved parent := by
  have hlegal : m.mode.isLegal parent m.parent = true := by
    rw [hmode, hparent]
    cases parent <;> simp_all [Mode.isLegal]
  have hother : m.mode ≠ parent := by
    rw [hmode]
    exact hne.symm
  rcases m.tryTransition_cases parent with ⟨-, hsame | hrefused⟩ | ⟨heq, -, -⟩
  · exact absurd hsame hother
  · rw [hlegal] at hrefused
    cases hrefused
  · rw [leavePending, hparent]
    exact heq

theorem leavePending_takesOperators (h : m.Coherent) (hmode : m.mode = .operatorPending) :
    m.leavePending.mode.takesOperators := by
  obtain ⟨parent, hparent, htakes⟩ := h.exists_parent hmode
  rw [leavePending_of_parent hmode hparent htakes.ne_operatorPending, moved_mode]
  exact htakes

theorem leavePending_coherent (h : m.Coherent) : m.leavePending.Coherent := by
  unfold leavePending
  cases m.parent with
  | none => exact h
  | some parent => exact tryTransition_coherent h parent

/-- The pending mode can always be left. -/
theorem Coherent.settles (h : m.Coherent) :
    (if m.mode = .operatorPending then m.leavePending else m).mode ≠ .operatorPending ∧
      (if m.mode = .operatorPending then m.leavePending else m).Coherent := by
  by_cases hmode : m.mode = .operatorPending
  · rw [if_pos hmode]
    exact ⟨(leavePending_takesOperators h hmode).ne_operatorPending, leavePending_coherent h⟩
  · rw [if_neg hmode]
    exact ⟨hmode, h⟩

theorem resetToNormal_eq (m : ModeMachine) : m.resetToNormal =
    (if m.mode = .operatorPending then m.leavePending else m).tryTransition .normal := rfl

theorem resetToNormal_of_ne (hmode : m.mode ≠ .operatorPending) :
    m.resetToNormal = m.tryTransition .normal := by
  rw [resetToNormal_eq, if_neg hmode]

theorem tryTransition_normal_mode (hmode : m.mode ≠ .operatorPending) :
    (m.tryTransition .normal).mode = .normal := by
  by_cases hnormal : m.mode = .normal
  · rcases m.tryTransition_cases .normal with ⟨heq, -⟩ | ⟨heq, -, -⟩
    · rw [heq, hnormal]
    · rw [heq, moved_mode]
  · exact tryTransition_mode_of_legal (Mode.isLegal_normal m.parent hmode hnormal)

theorem resetToNormal_coherent (h : m.Coherent) : m.resetToNormal.Coherent := by
  rw [resetToNormal_eq]
  split
  · exact tryTransition_coherent (leavePending_coherent h) .normal
  · exact tryTransition_coherent h .normal

theorem resetToNormal_mode (h : m.Coherent) : m.resetToNormal.mode = .normal := by
  rw [resetToNormal_eq]
  split
  · next hmode =>
    exact tryTransition_normal_mode (leavePending_takesOperators h hmode).ne_operatorPending
  · next hmode => exact tryTransition_normal_mode hmode

/-! ### Steady changes -/

/-- A change that keeps the machine coherent and does not enter the pending mode. -/
structure Steady (before after : ModeMachine) : Prop where
  coherent : before.Coherent → after.Coherent
  settled : before.mode ≠ .operatorPending → after.mode ≠ .operatorPending

theorem Steady.refl (m : ModeMachine) : Steady m m := ⟨id, id⟩

theorem Steady.trans {first middle last : ModeMachine} (h₁ : Steady first middle)
    (h₂ : Steady middle last) : Steady first last :=
  ⟨h₂.coherent ∘ h₁.coherent, h₂.settled ∘ h₁.settled⟩

theorem tryTransition_steady (m : ModeMachine) {target : Mode} (h : target ≠ .operatorPending) :
    Steady m (m.tryTransition target) :=
  ⟨fun hm ↦ tryTransition_coherent hm target, tryTransition_ne_operatorPending h⟩

theorem resetToNormal_steady (m : ModeMachine) : Steady m m.resetToNormal where
  coherent := resetToNormal_coherent
  settled hmode := by
    rw [resetToNormal_of_ne hmode, tryTransition_normal_mode hmode]
    exact Mode.noConfusion

end ModeMachine

end ModalEdit
