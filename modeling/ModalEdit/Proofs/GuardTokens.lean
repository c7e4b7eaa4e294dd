import Mathlib.Data.List.Induction
import ModalEdit.Suppression

/-!
Guards that share their counters, and the tokens of their locks. A guard that is made anew counts for
itself and a clone with the guard that it is of; a token knows the counter of its guard and whether it has
given its lock back. All that a call can come to is said once (`GuardStore.Performs`): a lock is taken and
a token given out, a lock is given back and the token spent, or by hand without a token, or nothing is
counted. So as long as nothing is given back by hand a counter is the number of tokens that have a lock to
give back, in whatever order they are released and let go of, and none of them meets a counter at zero;
and by hand too a call moves a counter by one at most (`GuardStore.after_accounts`).
-/

set_option autoImplicit false
set_option relaxedAutoImplicit false

namespace ModalEdit

namespace SuppressionGuard

theorem unlock_eq (g : SuppressionGuard) :
    g.unlock = (if g.depth = 0 then .unbalanced else .balanced, ⟨g.depth - 1⟩) := by
  obtain ⟨depth⟩ := g
  cases depth with
  | zero => rfl
  | succ => rfl

theorem release_of_released (g : SuppressionGuard) {token : SuppressionToken}
    (h : token.released = true) : g.release token = (.balanced, token, g) := if_pos h

end SuppressionGuard

/-- A token and the counter of the guard that it came from. -/
structure HeldToken where
  counter : Nat
  token : SuppressionToken
  deriving DecidableEq, Repr

/-- The counter that the token has a lock to give back to. -/
def HeldToken.pending? (held : HeldToken) : Option Nat :=
  if held.token.released then none else some held.counter

theorem HeldToken.pending?_eq_some_iff {held : HeldToken} {counter : Nat} :
    held.pending? = some counter ↔ held.token.released = false ∧ held.counter = counter := by
  rw [pending?]
  cases held.token.released <;> simp

/-- What can be asked of guards and tokens, which go by the order in which they came. -/
inductive GuardCall where
  | create
  | clone (guard : Nat)
  | lock (guard : Nat)
  | release (token : Nat)
  | drop (token : Nat)
  | unlock (guard : Nat)
  deriving DecidableEq, Repr

/-- The guards and tokens in use. -/
structure GuardStore where
  /-- The guard of each counter, open until it is locked. -/
  counters : Nat → SuppressionGuard := fun _ ↦ {}
  /-- The counter of each guard. -/
  guards : List Nat := []
  /-- The tokens, but for those that were let go of. -/
  tokens : List (Option HeldToken) := []

namespace GuardStore

variable {s : GuardStore} {call : GuardCall} {counter place : Nat} {held : HeldToken}

def held? (s : GuardStore) (token : Nat) : Option HeldToken := s.tokens[token]?.join

def lock (s : GuardStore) (counter : Nat) : GuardStore :=
  let (token, guard) := (s.counters counter).lock
  { s with
    counters := Function.update s.counters counter guard
    tokens := s.tokens ++ [some { counter, token }] }

def unlock (s : GuardStore) (counter : Nat) : Unlocking × GuardStore :=
  let (outcome, guard) := (s.counters counter).unlock
  (outcome, { s with counters := Function.update s.counters counter guard })

def release (s : GuardStore) (place : Nat) (held : HeldToken) : Unlocking × GuardStore :=
  let (outcome, token, guard) := (s.counters held.counter).release held.token
  (outcome, { s with
    counters := Function.update s.counters held.counter guard
    tokens := s.tokens.set place (some { held with token }) })

/-- Whoever lets go of a token releases it. -/
def drop (s : GuardStore) (place : Nat) (held : HeldToken) : Unlocking × GuardStore :=
  let (outcome, s) := s.release place held
  (outcome, { s with tokens := s.tokens.set place none })

/-- A call that names no guard or token in use does nothing. -/
def perform (s : GuardStore) : GuardCall → Unlocking × GuardStore
  -- the guards before it have the counters of their own places or of earlier ones
  | .create => (.balanced, { s with guards := s.guards ++ [s.guards.length] })
  | .clone guard => (.balanced, { s with guards := s.guards ++ s.guards[guard]?.toList })
  | .lock guard =>
    match s.guards[guard]? with
    | some counter => (.balanced, s.lock counter)
    | none => (.balanced, s)
  | .release token =>
    match s.held? token with
    | some held => s.release token held
    | none => (.balanced, s)
  | .drop token =>
    match s.held? token with
    | some held => s.drop token held
    | none => (.balanced, s)
  | .unlock guard =>
    match s.guards[guard]? with
    | some counter => s.unlock counter
    | none => (.balanced, s)

def after (calls : List GuardCall) : GuardStore := calls.foldl (fun s call ↦ (s.perform call).2) {}

/-- The counter that a call gives a lock back to. -/
def givesBack? (s : GuardStore) : GuardCall → Option Nat
  | .release token | .drop token => (s.held? token).bind HeldToken.pending?
  | .unlock guard => s.guards[guard]?
  | _ => none

/-! ### What one call does -/

theorem unlock_eq (s : GuardStore) (counter : Nat) :
    s.unlock counter =
      (if (s.counters counter).depth = 0 then .unbalanced else .balanced,
        { s with counters := Function.update s.counters counter ⟨(s.counters counter).depth - 1⟩ }) := by
  rw [unlock, SuppressionGuard.unlock_eq]

/-- What a token does to the counters once it is released. -/
def giveBack (s : GuardStore) (held : HeldToken) : Unlocking × GuardStore :=
  match held.pending? with
  | some counter => s.unlock counter
  | none => (.balanced, s)

theorem release_eq (s : GuardStore) (place : Nat) (held : HeldToken) :
    s.release place held =
      ((s.giveBack held).1, { (s.giveBack held).2 with
        tokens := s.tokens.set place (some { held with token := { released := true } }) }) := by
  obtain ⟨own, ⟨released⟩⟩ := held
  cases released with
  | true =>
    rw [release, SuppressionGuard.release_of_released _ rfl]
    dsimp only
    rw [Function.update_eq_self]
    rfl
  | false => rfl

theorem drop_eq (s : GuardStore) (place : Nat) (held : HeldToken) :
    s.drop place held =
      ((s.giveBack held).1, { (s.giveBack held).2 with tokens := s.tokens.set place none }) := by
  rw [drop, release_eq]
  dsimp only
  rw [List.set_set]

/-- A call to a token gives back what it has to, and leaves it with nothing to give back. -/
theorem perform_of_held (hcall : call = .release place ∨ call = .drop place) (h : s.held? place = some held) :
    ∃ left : Option HeldToken, left.bind HeldToken.pending? = none ∧
      s.perform call =
        ((s.giveBack held).1, { (s.giveBack held).2 with tokens := s.tokens.set place left }) := by
  rcases hcall with rfl | rfl
  · refine ⟨some { held with token := { released := true } }, rfl, ?_⟩
    rw [perform, h]
    exact release_eq s place held
  · refine ⟨none, rfl, ?_⟩
    rw [perform, h]
    exact drop_eq s place held

/-- What a call can come to: a lock is taken, or given back by hand or by a token, or a token is spent
already, or only the guards change. -/
inductive Performs (s : GuardStore) (call : GuardCall) : Unlocking × GuardStore → Prop where
  | taken (counter : Nat) (hgives : s.givesBack? call = none) : Performs s call (.balanced, s.lock counter)
  | byHand {guard counter : Nat} (hcall : call = .unlock guard) (hgives : s.givesBack? call = some counter) :
    Performs s call (s.unlock counter)
  | byToken {place counter : Nat} {held : HeldToken} {left : Option HeldToken}
    (hgives : s.givesBack? call = some counter) (hheld : s.held? place = some held)
    (hpending : held.pending? = some counter) (hleft : left.bind HeldToken.pending? = none) :
    Performs s call
      ((s.unlock counter).1, { (s.unlock counter).2 with tokens := s.tokens.set place left })
  | spent {place : Nat} {held : HeldToken} {left : Option HeldToken}
    (hgives : s.givesBack? call = none) (hheld : s.held? place = some held)
    (hpending : held.pending? = none) (hleft : left.bind HeldToken.pending? = none) :
    Performs s call (.balanced, { s with tokens := s.tokens.set place left })
  | other (guards : List Nat) (hgives : s.givesBack? call = none) :
    Performs s call (.balanced, { s with guards })

theorem performs_of_token (hcall : call = .release place ∨ call = .drop place) :
    s.Performs call (s.perform call) := by
  have hgives : s.givesBack? call = (s.held? place).bind HeldToken.pending? := by
    rcases hcall with rfl | rfl
    · rfl
    · rfl
  cases hheld : s.held? place with
  | none =>
    have hperform : s.perform call = (.balanced, s) := by
      rcases hcall with rfl | rfl
      · rw [perform, hheld]
      · rw [perform, hheld]
    rw [hperform]
    exact .other s.guards (by rw [hgives, hheld]; rfl)
  | some held =>
    rw [hheld, Option.bind_some] at hgives
    obtain ⟨left, hleft, hperform⟩ := perform_of_held hcall hheld
    rw [hperform, giveBack]
    cases hpending : held.pending? with
    | none => exact .spent (hgives.trans hpending) hheld hpending hleft
    | some counter => exact .byToken (hgives.trans hpending) hheld hpending hleft

theorem performs (s : GuardStore) (call : GuardCall) : s.Performs call (s.perform call) := by
  cases call with
  | create => exact .other _ rfl
  | clone guard => exact .other _ rfl
  | lock guard =>
    rw [perform]
    split
    case h_1 counter _ => exact .taken counter rfl
    case h_2 => exact .other s.guards rfl
  | release place => exact performs_of_token (.inl rfl)
  | drop place => exact performs_of_token (.inr rfl)
  | unlock guard =>
    rw [perform]
    split
    case h_1 counter hguard => exact .byHand rfl hguard
    case h_2 hguard => exact .other s.guards hguard

/-! ### Counters -/

theorem depth_lock (s : GuardStore) (counter other : Nat) :
    ((s.lock counter).counters other).depth =
      (s.counters other).depth + if other = counter then 1 else 0 := by
  show (Function.update s.counters counter _ other).depth = _
  rw [Function.update_apply]
  split
  case isTrue h => rw [h]
  case isFalse => rfl

theorem depth_unlock (s : GuardStore) (counter other : Nat) :
    ((s.unlock counter).2.counters other).depth =
      (s.counters other).depth - if other = counter then 1 else 0 := by
  rw [unlock_eq]
  dsimp only
  rw [Function.update_apply]
  split
  case isTrue h => rw [h]
  case isFalse => rfl

theorem unlock_fst_eq_unbalanced_iff (s : GuardStore) (counter : Nat) :
    (s.unlock counter).1 = .unbalanced ↔ (s.counters counter).depth = 0 := by
  rw [unlock_eq]
  by_cases h : (s.counters counter).depth = 0
  · simp [h]
  · simp [h]

section Step

variable {result : Unlocking × GuardStore}

theorem Performs.near (h : s.Performs call result) (counter : Nat) :
    (result.2.counters counter).depth ≤ (s.counters counter).depth + 1 ∧
      (s.counters counter).depth ≤ (result.2.counters counter).depth + 1 := by
  have hunlock (own : Nat) : ((s.unlock own).2.counters counter).depth ≤ (s.counters counter).depth + 1 ∧
      (s.counters counter).depth ≤ ((s.unlock own).2.counters counter).depth + 1 := by
    rw [depth_unlock]
    split <;> omega
  cases h with
  | taken own =>
    dsimp only
    rw [depth_lock]
    split <;> omega
  | byHand => exact hunlock _
  | byToken => exact hunlock _
  | spent => exact ⟨Nat.le_succ _, Nat.le_succ _⟩
  | other => exact ⟨Nat.le_succ _, Nat.le_succ _⟩

theorem Performs.givesBack (h : s.Performs call result) (hgives : s.givesBack? call = some counter) :
    (result.2.counters counter).depth = (s.counters counter).depth - 1 := by
  have hunlock {own : Nat} (hown : s.givesBack? call = some own) :
      ((s.unlock own).2.counters counter).depth = (s.counters counter).depth - 1 := by
    rw [depth_unlock, if_pos (Option.some.inj (hgives.symm.trans hown))]
  have hnever (hnone : s.givesBack? call = none) : False := by
    rw [hgives] at hnone
    cases hnone
  cases h with
  | taken _ hother => exact (hnever hother).elim
  | byHand _ hown => exact hunlock hown
  | byToken hown => exact hunlock hown
  | spent hother => exact (hnever hother).elim
  | other _ hother => exact (hnever hother).elim

theorem Performs.unbalanced_iff (h : s.Performs call result) :
    result.1 = .unbalanced ↔
      ∃ counter, s.givesBack? call = some counter ∧ (s.counters counter).depth = 0 := by
  have hbalanced (hgives : s.givesBack? call = none) : Unlocking.balanced = .unbalanced ↔
      ∃ counter, s.givesBack? call = some counter ∧ (s.counters counter).depth = 0 := by
    simp [hgives]
  have hunlock {own : Nat} (hgives : s.givesBack? call = some own) : (s.unlock own).1 = .unbalanced ↔
      ∃ counter, s.givesBack? call = some counter ∧ (s.counters counter).depth = 0 := by
    simp [hgives, unlock_fst_eq_unbalanced_iff]
  cases h with
  | taken _ hgives => exact hbalanced hgives
  | byHand _ hgives => exact hunlock hgives
  | byToken hgives => exact hunlock hgives
  | spent hgives => exact hbalanced hgives
  | other _ hgives => exact hbalanced hgives

/-! ### Tokens -/

/-- The number of tokens that have a lock of a counter to give back. -/
def outstanding (s : GuardStore) (counter : Nat) : Nat :=
  s.tokens.countP (·.bind HeldToken.pending? = some counter)

theorem outstanding_lock (s : GuardStore) (counter other : Nat) :
    (s.lock counter).outstanding other = s.outstanding other + if other = counter then 1 else 0 := by
  have htokens : (s.lock counter).tokens = s.tokens ++ [some ⟨counter, {}⟩] := rfl
  rw [outstanding, htokens, List.countP_append, ← outstanding, List.countP_singleton]
  refine congrArg (s.outstanding other + ·) (if_congr ?_ rfl rfl)
  rw [decide_eq_true_iff]
  exact ⟨fun hown ↦ (Option.some.inj hown).symm, fun h ↦ congrArg some h.symm⟩

theorem countP_set (h : s.held? place = some held) {left : Option HeldToken}
    (hleft : left.bind HeldToken.pending? = none) (counter : Nat) :
    (s.tokens.set place left).countP (·.bind HeldToken.pending? = some counter) =
      s.outstanding counter - if held.pending? = some counter then 1 else 0 := by
  obtain ⟨hlt, hentry⟩ := List.getElem?_eq_some_iff.mp (Option.join_eq_some_iff.mp h)
  rw [List.countP_set hlt, hentry, hleft, outstanding]
  simp

theorem outstanding_pos_of_pending (h : s.held? place = some held) (hpending : held.pending? = some counter) :
    0 < s.outstanding counter := by
  refine List.countP_pos_iff.mpr ⟨some held, ?_, decide_eq_true hpending⟩
  exact List.mem_of_getElem? (Option.join_eq_some_iff.mp h)

/-- Every lock is that of a token. -/
def Matched (s : GuardStore) : Prop := ∀ counter, (s.counters counter).depth = s.outstanding counter

theorem Performs.balanced (hs : s.Matched) (hcall : ∀ guard, call ≠ .unlock guard)
    (h : s.Performs call result) : result.1 = .balanced := by
  cases h with
  | taken => rfl
  | byHand hunlock => exact absurd hunlock (hcall _)
  | byToken _ hheld hpending =>
    have hpos := outstanding_pos_of_pending hheld hpending
    rw [← hs] at hpos
    dsimp only
    rw [unlock_eq, if_neg (Nat.ne_of_gt hpos)]
  | spent => rfl
  | other => rfl

theorem Performs.matched (hs : s.Matched) (hcall : ∀ guard, call ≠ .unlock guard)
    (h : s.Performs call result) : result.2.Matched := by
  intro counter
  cases h with
  | taken own =>
    dsimp only
    rw [depth_lock, outstanding_lock, hs]
  | byHand hunlock => exact absurd hunlock (hcall _)
  | byToken _ hheld hpending hleft =>
    refine (depth_unlock s _ counter).trans ?_
    refine Eq.trans ?_ (countP_set hheld hleft counter).symm
    simp only [hpending, hs counter, Option.some.injEq, @eq_comm _ counter]
  | spent _ hheld hpending hleft =>
    refine (hs counter).trans ?_
    refine Eq.trans ?_ (countP_set hheld hleft counter).symm
    simp [hpending]
  | other => exact hs counter

end Step

/-- What tokens and guards show where no lock was given back by hand: a counter is the number of tokens that
have a lock of it to give back, it is open exactly if there are none, and no call but an unlock by hand can
be unbalanced. -/
structure Accounts (s : GuardStore) : Prop where
  depth : ∀ counter, (s.counters counter).depth = s.outstanding counter
  isLocked_eq_false_iff : ∀ counter, (s.counters counter).isLocked = false ↔
    ∀ held, some held ∈ s.tokens → held.counter = counter → held.token.released = true
  balanced : ∀ call, (∀ guard, call ≠ .unlock guard) → (s.perform call).1 = .balanced

theorem Matched.accounts (hs : s.Matched) : s.Accounts := by
  refine ⟨hs, fun counter ↦ ?_, fun call hcall ↦ (s.performs call).balanced hs hcall⟩
  rw [SuppressionGuard.isLocked, decide_eq_false_iff_not, hs, outstanding, List.countP_pos_iff]
  constructor
  · intro hnone held hmem hcounter
    by_contra hreleased
    have hpending : held.pending? = some counter :=
      HeldToken.pending?_eq_some_iff.mpr ⟨(Bool.not_eq_true _).mp hreleased, hcounter⟩
    exact hnone ⟨some held, hmem, decide_eq_true hpending⟩
  · rintro hall ⟨entry, hmem, hentry⟩
    obtain ⟨held, rfl, hpending⟩ := Option.bind_eq_some_iff.mp (of_decide_eq_true hentry)
    obtain ⟨hreleased, hcounter⟩ := HeldToken.pending?_eq_some_iff.mp hpending
    rw [hall held hmem hcounter] at hreleased
    cases hreleased

/-- A call moves no counter by more than one. One that gives a lock back to a counter moves it down, but
for a counter at zero, which stays there; just then the call is unbalanced. -/
structure StepsByOne (s : GuardStore) (call : GuardCall) : Prop where
  near : ∀ counter, ((s.perform call).2.counters counter).depth ≤ (s.counters counter).depth + 1 ∧
    (s.counters counter).depth ≤ ((s.perform call).2.counters counter).depth + 1
  givesBack : ∀ counter, s.givesBack? call = some counter →
    ((s.perform call).2.counters counter).depth = (s.counters counter).depth - 1
  unbalanced_iff : (s.perform call).1 = .unbalanced ↔
    ∃ counter, s.givesBack? call = some counter ∧ (s.counters counter).depth = 0

/-! ### Any calls -/

theorem after_concat (calls : List GuardCall) (call : GuardCall) :
    after (calls ++ [call]) = ((after calls).perform call).2 := List.foldl_append

theorem matched_after {calls : List GuardCall} (h : ∀ guard, GuardCall.unlock guard ∉ calls) :
    (after calls).Matched := by
  induction calls using List.reverseRecOn with
  | nil => exact fun _ ↦ rfl
  | append_singleton calls call ih =>
    have hbefore : (after calls).Matched := ih fun guard hmem ↦ h guard (List.mem_append_left _ hmem)
    have hcall (guard : Nat) : call ≠ .unlock guard := by
      rintro rfl
      exact h guard (List.mem_append_right _ List.mem_cons_self)
    rw [after_concat]
    exact ((after calls).performs call).matched hbefore hcall

/-- In any order of calls without an unlock by hand the tokens account for the locks, and whatever is called
the counters move step by step. -/
theorem after_accounts (calls : List GuardCall) :
    ((∀ guard, GuardCall.unlock guard ∉ calls) → (after calls).Accounts) ∧
      ∀ call, (after calls).StepsByOne call :=
  ⟨fun h ↦ (matched_after h).accounts, fun call ↦
    have hperforms := (after calls).performs call
    ⟨hperforms.near, fun _ ↦ hperforms.givesBack, hperforms.unbalanced_iff⟩⟩

/-- Of three locks, one through a clone, the first is released twice and the second let go of. -/
theorem released_out_of_order :
    let calls : List GuardCall :=
      [.create, .clone 0, .lock 0, .lock 1, .lock 0, .release 0, .release 0, .drop 1]
    (∀ guard, GuardCall.unlock guard ∉ calls) ∧ (after calls).outstanding 0 = 1 ∧
      ((after calls).counters 0).depth = 1 ∧ ((after calls).counters 0).isLocked = true ∧
      ((after calls).perform (.release 2)).1 = .balanced := by
  intro calls
  have hcalls (guard : Nat) : GuardCall.unlock guard ∉ calls := by simp [calls]
  have haccounts := (after_accounts calls).1 hcalls
  have houtstanding : (after calls).outstanding 0 = 1 := by decide
  refine ⟨hcalls, houtstanding, (haccounts.depth 0).trans houtstanding, by decide, ?_⟩
  exact haccounts.balanced _ nofun

/-- A lock given back by hand is not there for its token. -/
example : ((after [.create, .lock 0, .unlock 0]).perform (.release 0)).1 = .unbalanced := by decide

end GuardStore

end ModalEdit
