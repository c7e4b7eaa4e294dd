import Mathlib.Data.List.Nodup
import ModalEdit.Proofs.ModeCoherence

/-!
A mode machine that is asked for modes and for the way back to the normal one while observers come and
go. What happens to it is told without the observers' logs (`ModeMachine.chronicle`), change by change
(`ModeMachine.Undergoes`): the changes lead from mode to mode (`Undergoes.path`), the pending mode is left
only for the mode that it was entered from, and an observer has heard the changes between the entries
with which it came and went (`Undergoes.received`). All this holds after any calls
(`ModeMachine.foldl_perform_keepsFaith`).
-/

set_option autoImplicit false
set_option relaxedAutoImplicit false

namespace ModalEdit

/-- What a mode machine can be asked for. -/
inductive ModeCall where
  | transition (target : Mode)
  | reset
  | subscribe
  | unsubscribe (o : Subscription)
  deriving DecidableEq, Repr

/-- What can happen to a mode machine. -/
inductive ModeEvent where
  | changed (change : ModeChange)
  | subscribed (o : Subscription)
  | unsubscribed (o : Subscription)
  deriving DecidableEq, Repr

namespace ModeEvent

def change? : ModeEvent → Option ModeChange
  | changed change => some change
  | _ => none

def subscription? : ModeEvent → Option Subscription
  | subscribed o => some o
  | _ => none

/-- The changes before an observer leaves. -/
def beforeLeaving (o : Subscription) (events : List ModeEvent) : List ModeChange :=
  (events.takeWhile (· ≠ unsubscribed o)).filterMap change?

/-- The changes between the coming and the leaving of an observer. -/
def heardBy (o : Subscription) (events : List ModeEvent) : List ModeChange :=
  beforeLeaving o (events.dropWhile (· ≠ subscribed o))

@[simp] theorem beforeLeaving_changed (o : Subscription) (change : ModeChange) (events : List ModeEvent) :
    beforeLeaving o (changed change :: events) = change :: beforeLeaving o events := rfl

@[simp] theorem beforeLeaving_subscribed (o other : Subscription) (events : List ModeEvent) :
    beforeLeaving o (subscribed other :: events) = beforeLeaving o events := rfl

@[simp] theorem beforeLeaving_unsubscribed (o other : Subscription) (events : List ModeEvent) :
    beforeLeaving o (unsubscribed other :: events) = if o = other then [] else beforeLeaving o events := by
  by_cases h : o = other
  · simp [beforeLeaving, h]
  · have hne : unsubscribed other ≠ unsubscribed o := fun heq ↦ h (unsubscribed.inj heq).symm
    rw [if_neg h, beforeLeaving, List.takeWhile_cons_of_pos (by simpa using hne)]
    rfl

@[simp] theorem heardBy_changed (o : Subscription) (change : ModeChange) (events : List ModeEvent) :
    heardBy o (changed change :: events) = heardBy o events := rfl

@[simp] theorem heardBy_subscribed (o other : Subscription) (events : List ModeEvent) :
    heardBy o (subscribed other :: events) =
      if o = other then beforeLeaving o events else heardBy o events := by
  by_cases h : o = other
  · simp [heardBy, h]
  · have hne : subscribed other ≠ subscribed o := fun heq ↦ h (subscribed.inj heq).symm
    rw [if_neg h, heardBy, List.dropWhile_cons_of_pos (by simpa using hne)]
    rfl

@[simp] theorem heardBy_unsubscribed (o other : Subscription) (events : List ModeEvent) :
    heardBy o (unsubscribed other :: events) = heardBy o events := rfl

end ModeEvent

/-- Changes that lead from one mode to another, each to a mode other than the one it begins in. -/
def ModeChange.Path : Mode → List ModeChange → Mode → Prop
  | source, [], target => source = target
  | source, change :: changes, target =>
    change.source = source ∧ change.source ≠ change.target ∧ Path change.target changes target

namespace ModeMachine

def perform (m : ModeMachine) : ModeCall → ModeMachine
  | .transition target => m.tryTransition target
  | .reset => m.resetToNormal
  | .subscribe => m.subscribe.2
  | .unsubscribe o => m.unsubscribe o

/-- The change that asking for a mode makes: none if it is refused or the machine is in that mode. -/
def accepted (m : ModeMachine) (target : Mode) : List ModeChange :=
  match m.transition target with
  | .ok _ => if m.mode = target then [] else [⟨m.mode, target⟩]
  | .error _ => []

/-- The changes that a call makes, one request after the other. -/
def changes (m : ModeMachine) : ModeCall → List ModeChange
  | .transition target => m.accepted target
  | .reset =>
    if m.mode = .operatorPending then
      m.parent.elim [] m.accepted ++ m.leavePending.accepted .normal
    else m.accepted .normal
  | .subscribe | .unsubscribe _ => []

def events (m : ModeMachine) : ModeCall → List ModeEvent
  | .subscribe => [.subscribed m.subscribe.1]
  | .unsubscribe o => [.unsubscribed o]
  | call => (m.changes call).map .changed

/-- What happens to a machine in the course of calls. -/
def chronicle : ModeMachine → List ModeCall → List ModeEvent
  | _, [] => []
  | m, call :: calls => m.events call ++ chronicle (m.perform call) calls

/-- What an observer was told, oldest first. -/
def received (m : ModeMachine) (o : Subscription) : List ModeChange :=
  (m.delivered.filter (·.1 = o)).map (·.2)

/-- What happens to a machine one by one, each time as the machine is then. -/
inductive Undergoes : ModeMachine → List ModeEvent → ModeMachine → Prop where
  | done (m : ModeMachine) : Undergoes m [] m
  | changed {m last : ModeMachine} {target : Mode} {events : List ModeEvent} (hne : m.mode ≠ target)
      (hlegal : m.mode.isLegal target m.parent = true) (h : Undergoes (m.moved target) events last) :
      Undergoes m (.changed ⟨m.mode, target⟩ :: events) last
  | subscribed {m last : ModeMachine} {events : List ModeEvent} (h : Undergoes m.subscribe.2 events last) :
      Undergoes m (.subscribed m.subscribe.1 :: events) last
  | unsubscribed {m last : ModeMachine} {events : List ModeEvent} (o : Subscription)
      (h : Undergoes (m.unsubscribe o) events last) : Undergoes m (.unsubscribed o :: events) last

variable {m last : ModeMachine} {events : List ModeEvent}

/-! ### What a call makes happen -/

theorem accepted_legal {target : Mode} (hne : m.mode ≠ target)
    (hlegal : m.mode.isLegal target m.parent = true) : m.accepted target = [⟨m.mode, target⟩] := by
  rw [accepted, transition_legal hne hlegal]
  exact if_neg hne

theorem accepted_of_not_legal {target : Mode}
    (h : m.mode = target ∨ m.mode.isLegal target m.parent = false) : m.accepted target = [] := by
  by_cases hsame : m.mode = target
  · subst hsame
    rw [accepted, transition_self]
    exact if_pos rfl
  · rw [accepted, transition_illegal hsame (h.resolve_left hsame)]

theorem mem_accepted {target : Mode} {change : ModeChange} (h : change ∈ m.accepted target) :
    change = ⟨m.mode, target⟩ ∧ m.mode.isLegal target m.parent = true := by
  rcases m.tryTransition_cases target with ⟨-, hkept⟩ | ⟨-, hne, hlegal⟩
  · rw [accepted_of_not_legal hkept] at h
    cases h
  · rw [accepted_legal hne hlegal] at h
    exact ⟨List.mem_singleton.mp h, hlegal⟩

theorem Undergoes.accepted_append {target : Mode} (h : Undergoes (m.tryTransition target) events last) :
    Undergoes m ((m.accepted target).map .changed ++ events) last := by
  rcases m.tryTransition_cases target with ⟨heq, hkept⟩ | ⟨heq, hne, hlegal⟩
  · rwa [accepted_of_not_legal hkept, ← heq]
  · rw [accepted_legal hne hlegal]
    exact .changed hne hlegal (heq ▸ h)

theorem Undergoes.leavePending_append (h : Undergoes m.leavePending events last) :
    Undergoes m ((m.parent.elim [] m.accepted).map .changed ++ events) last := by
  unfold leavePending at h
  cases hparent : m.parent with
  | none => rwa [hparent] at h
  | some parent =>
    rw [hparent] at h
    exact h.accepted_append

theorem Undergoes.events_append {call : ModeCall} (h : Undergoes (m.perform call) events last) :
    Undergoes m (m.events call ++ events) last := by
  cases call with
  | transition target => exact h.accepted_append
  | subscribe => exact .subscribed h
  | unsubscribe o => exact .unsubscribed o h
  | reset =>
    rw [perform, resetToNormal_eq] at h
    change Undergoes m ((m.changes .reset).map .changed ++ events) last
    rw [changes]
    split
    · next hmode =>
      rw [if_pos hmode] at h
      rw [List.map_append, List.append_assoc]
      exact h.accepted_append.leavePending_append
    · next hmode =>
      rw [if_neg hmode] at h
      exact h.accepted_append

theorem undergoes_chronicle (m : ModeMachine) (calls : List ModeCall) :
    Undergoes m (m.chronicle calls) (calls.foldl perform m) := by
  induction calls generalizing m with
  | nil => exact .done m
  | cons call calls ih => exact (ih (m.perform call)).events_append

/-! ### The modes -/

theorem Undergoes.coherent (h : Undergoes m events last) (hm : m.Coherent) : last.Coherent := by
  induction h with
  | done => exact hm
  | changed hne hlegal _ ih => exact ih (moved_coherent hne hlegal)
  | subscribed _ ih => exact ih hm
  | unsubscribed _ _ ih => exact ih hm

/-- The changes lead from the mode before to the mode after. -/
theorem Undergoes.path (h : Undergoes m events last) :
    ModeChange.Path m.mode (events.filterMap ModeEvent.change?) last.mode := by
  induction h with
  | done => exact rfl
  | changed hne _ _ ih => exact ⟨rfl, hne, ih⟩
  | subscribed _ ih => exact ih
  | unsubscribed _ _ ih => exact ih

/-- Whatever is asked for, the pending mode is left for the mode underneath. -/
theorem Coherent.parent_of_change {call : ModeCall} {change : ModeChange} (hm : m.Coherent)
    (hmem : change ∈ m.changes call) (hsource : change.source = .operatorPending) :
    m.parent = some change.target := by
  have hleft : ∀ {m : ModeMachine} {target : Mode}, change ∈ m.accepted target →
      m.mode = .operatorPending ∧ m.parent = some change.target := by
    intro m target hmem
    obtain ⟨rfl, hlegal⟩ := mem_accepted hmem
    dsimp only at hsource ⊢
    rw [hsource] at hlegal
    exact ⟨hsource, beq_iff_eq.mp hlegal⟩
  cases call with
  | transition target => exact (hleft hmem).2
  | subscribe => cases hmem
  | unsubscribe => cases hmem
  | reset =>
    rw [changes] at hmem
    split at hmem
    · next hmode =>
      obtain ⟨parent, hparent, -⟩ := hm.exists_parent hmode
      rcases List.mem_append.mp hmem with hmem | hmem
      · rw [hparent] at hmem
        exact (hleft hmem).2
      · exact absurd (hleft hmem).1 (leavePending_takesOperators hm hmode).ne_operatorPending
    · exact (hleft hmem).2

/-! ### The observers -/

/-- Each observer is registered once, and under a number that has been given. -/
structure Enrolled (m : ModeMachine) : Prop where
  nodup : m.observers.Nodup
  serial_lt : ∀ o ∈ m.observers, o.serial < m.nextObserver

theorem Enrolled.new (h : m.Enrolled) : m.subscribe.1 ∉ m.observers :=
  fun hmem ↦ Nat.lt_irrefl _ (h.serial_lt _ hmem)

theorem Enrolled.subscribe (h : m.Enrolled) : m.subscribe.2.Enrolled where
  nodup := by
    rw [ModeMachine.subscribe, ← List.concat_eq_append]
    exact h.nodup.concat h.new
  serial_lt o hmem := by
    rcases List.mem_append.mp hmem with hmem | hmem
    · exact Nat.lt_succ_of_lt (h.serial_lt o hmem)
    · rw [List.mem_singleton.mp hmem]
      exact Nat.lt_succ_self _

theorem Enrolled.unsubscribe (h : m.Enrolled) (o : Subscription) : (m.unsubscribe o).Enrolled :=
  ⟨h.nodup.filter _, fun _ hmem ↦ h.serial_lt _ (List.mem_filter.mp hmem).1⟩

theorem Enrolled.moved (h : m.Enrolled) (target : Mode) : (m.moved target).Enrolled :=
  ⟨h.nodup, h.serial_lt⟩

theorem mem_observers_unsubscribe {o other : Subscription} :
    o ∈ (m.unsubscribe other).observers ↔ o ∈ m.observers ∧ o ≠ other := by
  simp [ModeMachine.unsubscribe]

theorem mem_observers_subscribe {o : Subscription} :
    o ∈ m.subscribe.2.observers ↔ o ∈ m.observers ∨ o = m.subscribe.1 := by
  simp [ModeMachine.subscribe]

/-- A change is told to each observer once. -/
theorem Enrolled.received_moved (h : m.Enrolled) (target : Mode) (o : Subscription) :
    (m.moved target).received o =
      m.received o ++ if o ∈ m.observers then [⟨m.mode, target⟩] else [] := by
  have htold : ∀ observers : List Subscription, observers.Nodup →
      ((observers.map fun o ↦ (o, ModeChange.mk m.mode target)).filter (·.1 = o)).map (·.2) =
        if o ∈ observers then [⟨m.mode, target⟩] else [] := by
    intro observers hnodup
    rw [List.filter_map, List.map_map]
    simp only [Function.comp_def, List.filter_eq, List.map_replicate, hnodup.count]
    split <;> rfl
  rw [received, ModeMachine.moved, List.filter_append, List.map_append, htold _ h.nodup]
  rfl

/-- What an observer has yet to hear: the changes before it leaves if it is there, none if it has left,
and else those between its coming and its leaving. -/
def yetToHear (m : ModeMachine) (o : Subscription) (events : List ModeEvent) : List ModeChange :=
  if o ∈ m.observers then ModeEvent.beforeLeaving o events
  else if o.serial < m.nextObserver then [] else ModeEvent.heardBy o events

section YetToHear

variable {o : Subscription} (events)

theorem yetToHear_of_mem (h : o ∈ m.observers) : m.yetToHear o events = ModeEvent.beforeLeaving o events :=
  if_pos h

theorem yetToHear_of_left (h : o ∉ m.observers) (hlt : o.serial < m.nextObserver) :
    m.yetToHear o events = [] := by
  rw [yetToHear, if_neg h, if_pos hlt]

theorem yetToHear_of_new (h : o ∉ m.observers) (hge : ¬ o.serial < m.nextObserver) :
    m.yetToHear o events = ModeEvent.heardBy o events := by
  rw [yetToHear, if_neg h, if_neg hge]

theorem yetToHear_changed (target : Mode) :
    m.yetToHear o (.changed ⟨m.mode, target⟩ :: events) =
      (if o ∈ m.observers then [⟨m.mode, target⟩] else []) ++ (m.moved target).yetToHear o events := by
  change _ = _ ++ m.yetToHear o events
  by_cases hmem : o ∈ m.observers
  · rw [yetToHear_of_mem _ hmem, yetToHear_of_mem _ hmem, if_pos hmem, ModeEvent.beforeLeaving_changed]
    rfl
  · rw [if_neg hmem, List.nil_append]
    by_cases hlt : o.serial < m.nextObserver
    · rw [yetToHear_of_left _ hmem hlt, yetToHear_of_left _ hmem hlt]
    · rw [yetToHear_of_new _ hmem hlt, yetToHear_of_new _ hmem hlt, ModeEvent.heardBy_changed]

theorem yetToHear_subscribed :
    m.yetToHear o (.subscribed m.subscribe.1 :: events) = m.subscribe.2.yetToHear o events := by
  by_cases hmem : o ∈ m.observers
  · rw [yetToHear_of_mem _ hmem, yetToHear_of_mem _ (mem_observers_subscribe.mpr (.inl hmem)),
      ModeEvent.beforeLeaving_subscribed]
  by_cases hnew : o = m.subscribe.1
  · have hge : ¬ o.serial < m.nextObserver := by
      rw [hnew]
      exact Nat.lt_irrefl _
    rw [yetToHear_of_new _ hmem hge, yetToHear_of_mem _ (mem_observers_subscribe.mpr (.inr hnew)),
      ModeEvent.heardBy_subscribed, if_pos hnew]
  have hmem' : o ∉ m.subscribe.2.observers := fun h ↦ (mem_observers_subscribe.mp h).elim hmem hnew
  by_cases hlt : o.serial < m.nextObserver
  · rw [yetToHear_of_left _ hmem hlt, yetToHear_of_left _ hmem' (Nat.lt_succ_of_lt hlt)]
  · have hge : ¬ o.serial < m.subscribe.2.nextObserver := fun hlt' ↦
      hnew (congrArg Subscription.mk (Nat.eq_of_lt_succ_of_not_lt hlt' hlt))
    rw [yetToHear_of_new _ hmem hlt, yetToHear_of_new _ hmem' hge, ModeEvent.heardBy_subscribed,
      if_neg hnew]

theorem Enrolled.yetToHear_unsubscribed (hm : m.Enrolled) (other : Subscription) :
    m.yetToHear o (.unsubscribed other :: events) = (m.unsubscribe other).yetToHear o events := by
  by_cases hmem : o ∈ m.observers
  · rw [yetToHear_of_mem _ hmem, ModeEvent.beforeLeaving_unsubscribed]
    split
    · next heq =>
      have hleft : o ∉ (m.unsubscribe other).observers := fun h ↦ (mem_observers_unsubscribe.mp h).2 heq
      rw [yetToHear_of_left _ hleft (hm.serial_lt o hmem)]
    · next hne => rw [yetToHear_of_mem _ (mem_observers_unsubscribe.mpr ⟨hmem, hne⟩)]
  have hmem' : o ∉ (m.unsubscribe other).observers := fun h ↦ hmem (mem_observers_unsubscribe.mp h).1
  by_cases hlt : o.serial < m.nextObserver
  · rw [yetToHear_of_left _ hmem hlt, yetToHear_of_left _ hmem' hlt]
  · rw [yetToHear_of_new _ hmem hlt, yetToHear_of_new _ hmem' hlt, ModeEvent.heardBy_unsubscribed]

end YetToHear

/-- What an observer has been told in the end is what it had been told, and what it had yet to hear. -/
theorem Undergoes.received (h : Undergoes m events last) (hm : m.Enrolled) (o : Subscription) :
    last.received o = m.received o ++ m.yetToHear o events := by
  induction h with
  | done m => simp [yetToHear, ModeEvent.heardBy, ModeEvent.beforeLeaving]
  | changed _ _ _ ih =>
    rw [ih (hm.moved _), hm.received_moved, List.append_assoc, yetToHear_changed]
  | subscribed _ ih =>
    rw [ih hm.subscribe, yetToHear_subscribed]
    rfl
  | unsubscribed other _ ih =>
    rw [ih (hm.unsubscribe other), hm.yetToHear_unsubscribed]
    rfl

/-- No two observers come under one number. -/
theorem Undergoes.nodup_subscription (h : Undergoes m events last) :
    (events.filterMap ModeEvent.subscription?).Nodup ∧
      ∀ o ∈ events.filterMap ModeEvent.subscription?, m.nextObserver ≤ o.serial := by
  induction h with
  | done => exact ⟨List.nodup_nil, nofun⟩
  | changed _ _ _ ih => exact ih
  | unsubscribed _ _ ih => exact ih
  | subscribed _ ih =>
    obtain ⟨hnodup, hge⟩ := ih
    refine ⟨List.nodup_cons.mpr ⟨fun hmem ↦ ?_, hnodup⟩, List.forall_mem_cons.mpr ⟨Nat.le_refl _, ?_⟩⟩
    · exact Nat.not_succ_le_self _ (hge _ hmem)
    · exact fun o hmem ↦ Nat.le_of_succ_le (hge o hmem)

/-! ### Any calls -/

/-- A machine that keeps faith with what is told of it: in the pending mode, and in no other, it
remembers a mode that takes operators, and whatever it is asked for next it leaves the pending mode only
for that one; a request that is refused leaves everything as it is, and the way back to the normal mode
is open; the changes so far lead from the normal mode to the present one; and under each number one
observer at most has come, which was told what was changed while it was there. -/
structure KeepsFaith (m : ModeMachine) (events : List ModeEvent) : Prop where
  parent_isSome : m.parent.isSome = true ↔ m.mode = .operatorPending
  parent_takes : ∀ parent ∈ m.parent, parent = .normal ∨ parent.isVisual = true
  leaves : ∀ call, ∀ change ∈ m.changes call, change.source = .operatorPending →
    m.parent = some change.target
  refused : ∀ target error, m.transition target = .error error →
    m.perform (.transition target) = m ∧ m.changes (.transition target) = []
  returns : (m.perform .reset).mode = .normal
  path : ModeChange.Path .normal (events.filterMap ModeEvent.change?) m.mode
  nodup : (events.filterMap ModeEvent.subscription?).Nodup
  received : ∀ o, m.received o = ModeEvent.heardBy o events

theorem foldl_perform_keepsFaith (calls : List ModeCall) :
    (calls.foldl perform {}).KeepsFaith (chronicle {} calls) := by
  have hundergoes := undergoes_chronicle {} calls
  have hcoherent : (calls.foldl perform {}).Coherent := hundergoes.coherent rfl
  set m := calls.foldl perform {}
  refine ⟨?_, ?_, fun _ _ ↦ hcoherent.parent_of_change, ?_, resetToNormal_mode hcoherent, hundergoes.path,
    hundergoes.nodup_subscription.1, fun o ↦ ?_⟩
  · by_cases hmode : m.mode = .operatorPending
    · obtain ⟨parent, hparent, -⟩ := hcoherent.exists_parent hmode
      simp [hmode, hparent]
    · simp [hmode, hcoherent.parent_eq_none hmode]
  · intro parent hparent
    have hmode : m.mode = .operatorPending := by
      by_contra hmode
      rw [hcoherent.parent_eq_none hmode] at hparent
      cases hparent
    obtain ⟨known, hknown, htakes⟩ := hcoherent.exists_parent hmode
    cases hknown.symm.trans hparent
    exact htakes
  · intro target error hrefused
    rw [perform, tryTransition, changes, accepted, hrefused]
    exact ⟨rfl, rfl⟩
  · exact hundergoes.received ⟨List.nodup_nil, fun _ h ↦ absurd h List.not_mem_nil⟩ o

example : ([.subscribe, .transition .insert, .transition (.visual .block), .subscribe, .unsubscribe ⟨0⟩,
      .reset].foldl perform {}).delivered =
    [(⟨0⟩, ⟨.normal, .insert⟩), (⟨1⟩, ⟨.insert, .normal⟩)] := by decide

end ModeMachine

end ModalEdit
