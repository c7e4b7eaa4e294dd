import Mathlib.Data.Finset.Dedup
import Mathlib.Data.Finset.Order
import Mathlib.Order.WellFounded
import Mathlib.Tactic.Choose
import ModalEdit.Proofs.ResolverStep

/-!
The strokes that a resolver reads come to an end, and so do the replacements it makes. A turn of the
reading loop feeds the first stroke of the input, in whatever mode (`readNext`). Every turn brings the
input nearer to its end in the order of `Closer`, which is well founded (`wellFounded_closer`), and
there are finitely many modes, so one number of turns is enough for all the ways to choose them
(`exists_turns_read`).

Between two strokes from outside the resolver may be called in any order: fed, flushed, reset, cleared,
read from. The calls that have a bound sequence replaced are told by what is bound and buffered
(`Call.replacement?`). Each of them uses up one of the replacements that are left, and no other call
gives one back (`run_of_replacement`, `run_of_no_replacement`).
-/

set_option autoImplicit false
set_option relaxedAutoImplicit false

namespace ModalEdit

theorem Mode.mem_all (mode : Mode) : mode ∈ Mode.all := by
  cases mode with
  | visual kind => cases kind <;> decide
  | select kind => cases kind <;> decide
  | _ => decide

namespace Resolver

/-! ### The reading loop -/

/-- One turn of the loop that reads the input; with nothing to read nothing happens. -/
def readNext (keymap : Keymap) (registry : Registry) (r : Resolver) (mode : Mode) : Resolver :=
  match r.input with
  | [] => r
  | stroke :: _ => (r.afterRead.feed stroke mode keymap registry).2

theorem readNext_of_nil {r : Resolver} (keymap : Keymap) (registry : Registry) (mode : Mode)
    (h : r.input = []) : r.readNext keymap registry mode = r := by
  simp only [readNext, h]

theorem readNext_closer {r : Resolver} (keymap : Keymap) (registry : Registry) (mode : Mode)
    (h : r.input ≠ []) : Closer (r.readNext keymap registry mode) r := by
  unfold readNext
  split
  · next hnil => exact absurd hnil h
  · next stroke rest hcons =>
    exact feed_closer stroke mode keymap registry (by simp [hcons])

theorem wellFounded_closer : WellFounded Closer := by
  have lex : WellFounded (Prod.Lex (· < ·) (Prod.Lex (· < ·) (· < ·)) : ℕ × ℕ × ℕ → ℕ × ℕ × ℕ → Prop) :=
    wellFounded_lt.prod_lex (wellFounded_lt.prod_lex wellFounded_lt)
  refine Subrelation.wf ?_ (InvImage.wf
    (fun r : Resolver ↦ (r.mapsLeft, r.strokesHeld, r.input.length)) lex)
  intro after before h
  rcases h with h | ⟨hmaps, h | ⟨hheld, h⟩⟩
  · exact Prod.Lex.left _ _ h
  · exact Prod.Lex.right' _ hmaps.le (Prod.Lex.left _ _ h)
  · exact Prod.Lex.right' _ hmaps.le (Prod.Lex.right' _ hheld.le h)

theorem foldl_readNext_of_nil {r : Resolver} (keymap : Keymap) (registry : Registry)
    (modes : List Mode) (h : r.input = []) : modes.foldl (readNext keymap registry) r = r := by
  induction modes with
  | nil => rfl
  | cons mode rest ih => rw [List.foldl_cons, readNext_of_nil keymap registry mode h, ih]

/-- Some number of turns reads the whole input, whatever mode each of them is taken in. -/
theorem exists_turns_read (keymap : Keymap) (registry : Registry) (r : Resolver) :
    ∃ turns, ∀ modes : List Mode, turns ≤ modes.length →
      (modes.foldl (readNext keymap registry) r).input = [] := by
  induction r using wellFounded_closer.induction with
  | _ r ih =>
    by_cases hinput : r.input = []
    · refine ⟨0, fun modes _ ↦ ?_⟩
      rw [foldl_readNext_of_nil keymap registry modes hinput]
      exact hinput
    · have hnext (mode : Mode) := ih _ (readNext_closer keymap registry mode hinput)
      choose turns hturns using hnext
      obtain ⟨bound, hbound⟩ := (Mode.all.map turns).toFinset.exists_le
      refine ⟨bound + 1, fun modes hlength ↦ ?_⟩
      cases modes with
      | nil => simp at hlength
      | cons mode rest =>
        have hmode : turns mode ≤ bound :=
          hbound _ (List.mem_toFinset.mpr (List.mem_map_of_mem mode.mem_all))
        rw [List.length_cons] at hlength
        exact hturns mode rest (by omega)

/-! ### Replacements -/

/-- What the resolver may be asked to do between two strokes from outside. -/
inductive Call where
  | feed (stroke : KeyStroke) (mode : Mode)
  | flush (mode : Mode)
  | read
  | reset
  | clear
  deriving DecidableEq, Repr

/-- The strokes that the buffered ones are to be replaced by, if the sequence they begin with is bound
to some and the limit allows it. A sequence that could still become a longer one has to be forced. -/
def bufferReplacement? (r : Resolver) (mode : Mode) (keymap : Keymap) (forced : Bool) :
    Option Keys :=
  match keymap.resolve (.ofMode mode) r.pending.keys with
  | .matched _ (.remap keys) ambiguous =>
    if (forced || !ambiguous) && r.mapDepth < maxMapDepth then some keys else none
  | _ => none

namespace Call

def run (keymap : Keymap) (registry : Registry) (r : Resolver) : Call → Resolver
  | feed stroke mode => (r.feed stroke mode keymap registry).2
  | flush mode => (r.flush mode keymap registry).2
  | read => r.afterRead
  | reset => r.reset
  | clear => r.clear

/-- The replacement that a call puts before the input. -/
def replacement? (keymap : Keymap) (r : Resolver) : Call → Option Keys
  | feed stroke mode =>
    if r.buffers stroke mode then (r.push stroke).bufferReplacement? mode keymap false else none
  | flush mode => if r.pending.keys = [] then none else r.bufferReplacement? mode keymap true
  | _ => none

/-- The strokes that a call finds buffered, the one it feeds included. -/
def buffered (r : Resolver) : Call → Keys
  | feed stroke _ => r.pending.keys ++ [stroke]
  | _ => r.pending.keys

end Call

/-- The replacements made in the course of some calls, in order. -/
def replacements (keymap : Keymap) (registry : Registry) : Resolver → List Call → List Keys
  | _, [] => []
  | r, call :: rest =>
    (call.replacement? keymap r).toList ++ replacements keymap registry (call.run keymap registry r) rest

theorem bufferReplacement?_eq_some {r : Resolver} {mode : Mode} {keymap : Keymap} {forced : Bool}
    {keys : Keys} (h : r.bufferReplacement? mode keymap forced = some keys) :
    ∃ consumed ambiguous, keymap.resolve (.ofMode mode) r.pending.keys =
        .matched consumed (.remap keys) ambiguous ∧
      (forced = true ∨ ambiguous = false) ∧ r.mapDepth < maxMapDepth := by
  unfold bufferReplacement? at h
  split at h
  · next consumed replacement ambiguous hresolve =>
    split at h
    · next hallowed =>
      obtain rfl := Option.some.inj h
      refine ⟨consumed, ambiguous, hresolve, ?_⟩
      simpa using hallowed
    · exact absurd h (by simp)
  · exact absurd h (by simp)

theorem bufferReplacement?_of_matched {r : Resolver} {mode : Mode} {keymap : Keymap} {forced : Bool}
    {keys : Keys} {consumed : ℕ} {ambiguous : Bool}
    (hresolve : keymap.resolve (.ofMode mode) r.pending.keys =
      .matched consumed (.remap keys) ambiguous)
    (hforced : forced = true ∨ ambiguous = false) (hdepth : r.mapDepth < maxMapDepth) :
    r.bufferReplacement? mode keymap forced = some keys := by
  simp only [bufferReplacement?, hresolve]
  exact if_pos (by simpa using ⟨hforced, hdepth⟩)

theorem accept_remap {r : Resolver} (consumed : ℕ) (keys : Keys) (mode : Mode) (registry : Registry)
    (h : r.mapDepth < maxMapDepth) :
    r.accept consumed (.remap keys) mode registry =
      (.pending, { r.takeKeys consumed with mapDepth := r.mapDepth + 1 }.replay keys) := by
  refine accept_cases (motive := fun result ↦ result = _) r mode registry consumed (.remap keys)
    ?expand ?overflow ?action
  case expand =>
    intro replacement hreplacement _
    rw [Target.remap.inj hreplacement]
  case overflow =>
    intro replacement _ hover
    exact absurd h (Nat.not_lt.mpr hover)
  case action =>
    intro id hid
    cases hid

theorem Call.run_feed {keymap : Keymap} {registry : Registry} {r : Resolver} {stroke : KeyStroke}
    {mode : Mode} {consumed : ℕ} {target : Target} (hbuffers : r.buffers stroke mode = true)
    (hresolve : keymap.resolve (.ofMode mode) (r.push stroke).pending.keys =
      .matched consumed target false) :
    (feed stroke mode).run keymap registry r =
      ((r.push stroke).accept consumed target mode registry).2 := by
  rw [run, feed_of_buffers keymap registry hbuffers, buffer_of_matched registry hresolve]

theorem Call.run_flush {keymap : Keymap} {registry : Registry} {r : Resolver} {mode : Mode}
    {consumed : ℕ} {target : Target} {ambiguous : Bool} (hkeys : r.pending.keys ≠ [])
    (hresolve : keymap.resolve (.ofMode mode) r.pending.keys = .matched consumed target ambiguous) :
    (flush mode).run keymap registry r = (r.accept consumed target mode registry).2 := by
  simp only [run, Resolver.flush, hresolve]
  rw [if_neg (mt List.isEmpty_iff.mp hkeys)]

/-- A call with a replacement puts it before the input, with what was left of the buffer between them,
and uses up one of the replacements that are left. -/
theorem Call.run_of_replacement {keymap : Keymap} {r : Resolver} {call : Call} {keys : Keys}
    (registry : Registry) (h : call.replacement? keymap r = some keys) :
    r.mapDepth < maxMapDepth ∧ (call.run keymap registry r).mapDepth = r.mapDepth + 1 ∧
      ∃ leftover, leftover <:+ call.buffered r ∧
        (call.run keymap registry r).input = keys ++ (leftover ++ r.input) := by
  cases call with
  | feed stroke mode =>
    simp only [replacement?] at h
    split at h
    · next hbuffers =>
      obtain ⟨consumed, ambiguous, hresolve, hforced, hdepth⟩ := bufferReplacement?_eq_some h
      obtain rfl : ambiguous = false := hforced.resolve_left Bool.false_ne_true
      rw [run_feed hbuffers hresolve, accept_remap consumed keys mode registry hdepth]
      exact ⟨hdepth, rfl, _, List.drop_suffix consumed _, rfl⟩
    · exact absurd h (by simp)
  | flush mode =>
    simp only [replacement?] at h
    split at h
    · exact absurd h (by simp)
    · next hkeys =>
      obtain ⟨consumed, ambiguous, hresolve, -, hdepth⟩ := bufferReplacement?_eq_some h
      rw [run_flush hkeys hresolve, accept_remap consumed keys mode registry hdepth]
      exact ⟨hdepth, rfl, _, List.drop_suffix consumed _, rfl⟩
  | _ => simp [replacement?] at h

/-! ### Calls without a replacement -/

/-- What a step leaves that replaces nothing: no replacement is given back, and to the input are put
back at most strokes from the end of the buffer. -/
def ReadsOn (buffered : Keys) (before after : Resolver) : Prop :=
  before.mapDepth ≤ after.mapDepth ∧ after.input <:+ buffered ++ before.input

theorem ReadsOn.of_eq {buffered : Keys} {before after : Resolver}
    (hdepth : after.mapDepth = before.mapDepth) (hinput : after.input = before.input) :
    ReadsOn buffered before after :=
  ⟨hdepth.ge, hinput ▸ List.suffix_append buffered before.input⟩

theorem acceptAction_readsOn (r : Resolver) (id : ActionId) (keys buffered : Keys) (mode : Mode)
    (registry : Registry) : ReadsOn buffered r (r.acceptAction id keys mode registry).2 := by
  refine acceptAction_cases (motive := fun result ↦ ReadsOn buffered r result.2) r mode registry id
    keys ?_ ?_ ?_ ?_ ?_ ?_ ?_ ?_ ?_ <;> intros <;> exact .of_eq rfl rfl

theorem accept_readsOn {r : Resolver} {consumed : ℕ} {target : Target} {mode : Mode}
    (registry : Registry) (h : ∀ keys, target = .remap keys → maxMapDepth ≤ r.mapDepth) :
    ReadsOn r.pending.keys r (r.accept consumed target mode registry).2 := by
  refine accept_cases (motive := fun result ↦ ReadsOn r.pending.keys r result.2) r mode registry
    consumed target ?expand ?overflow ?action
  case expand =>
    intro replacement htarget hdepth
    exact absurd hdepth (Nat.not_lt.mpr (h replacement htarget))
  case overflow =>
    intro replacement _ _
    exact ⟨Nat.le_succ _, List.nil_suffix⟩
  case action =>
    intro id _
    obtain ⟨hdepth, hinput⟩ := acceptAction_readsOn (r.takeKeys consumed) id
      (r.pending.keys.take consumed) [] mode registry
    refine ⟨hdepth, hinput.trans ?_⟩
    obtain ⟨front, hfront⟩ := List.drop_suffix consumed r.pending.keys
    exact ⟨front, by rw [List.nil_append, takeKeys_input, ← List.append_assoc, hfront]⟩

theorem giveUp_readsOn (r : Resolver) (mode : Mode) :
    ReadsOn r.pending.keys r (r.giveUp mode).2 := by
  refine giveUp_cases (motive := fun result ↦ ReadsOn r.pending.keys r result.2) r mode ?typed ?dropped
  case typed =>
    intro first rest hkeys _ _
    exact ⟨le_rfl, [first], by simp [hkeys, replay, modifyPending]⟩
  case dropped => exact .of_eq rfl rfl

theorem buffer_readsOn {r : Resolver} {stroke : KeyStroke} {mode : Mode} {keymap : Keymap}
    (registry : Registry) (h : (r.push stroke).bufferReplacement? mode keymap false = none) :
    ReadsOn (r.pending.keys ++ [stroke]) r (r.buffer stroke mode keymap registry).2 := by
  refine buffer_cases (motive := fun result ↦ ReadsOn (r.pending.keys ++ [stroke]) r result.2) r mode
    keymap registry stroke ?wait ?take ?leave
  case wait => exact fun _ ↦ .of_eq rfl rfl
  case take =>
    intro consumed target hresolve
    refine accept_readsOn (r := r.push stroke) registry fun keys htarget ↦ ?_
    by_contra hdepth
    rw [htarget] at hresolve
    rw [bufferReplacement?_of_matched hresolve (.inr rfl) (Nat.lt_of_not_le hdepth)] at h
    cases h
  case leave => exact fun _ ↦ giveUp_readsOn (r.push stroke) mode

/-- A call without a replacement gives back none that was made, and puts back before the input at most
strokes from the end of the buffer. -/
theorem Call.run_of_no_replacement {keymap : Keymap} {r : Resolver} {call : Call}
    (registry : Registry) (h : call.replacement? keymap r = none) :
    ReadsOn (call.buffered r) r (call.run keymap registry r) := by
  cases call with
  | feed stroke mode =>
    refine feed_cases (motive := fun result ↦ ReadsOn ((feed stroke mode).buffered r) r result.2) r mode
      keymap registry stroke ?cancel ?argument ?refused ?named ?digit ?mark ?buffered
    case buffered =>
      intro hbuffers
      simp only [replacement?, if_pos hbuffers] at h
      exact buffer_readsOn registry h
    all_goals intros; exact .of_eq rfl rfl
  | flush mode =>
    refine flush_cases (motive := fun result ↦ ReadsOn r.pending.keys r result.2) r mode keymap registry
      ?idle ?take ?leave
    case idle => exact fun _ ↦ .of_eq rfl rfl
    case take =>
      intro consumed target ambiguous hresolve
      refine accept_readsOn registry fun keys htarget ↦ ?_
      by_contra hdepth
      have hkeys : r.pending.keys ≠ [] := by
        intro hnil
        rw [hnil] at hresolve
        cases hresolve
      rw [htarget] at hresolve
      simp only [replacement?, if_neg hkeys] at h
      rw [bufferReplacement?_of_matched hresolve (.inl rfl) (Nat.lt_of_not_le hdepth)] at h
      cases h
    case leave => exact fun _ _ ↦ giveUp_readsOn r mode
  | read => exact ⟨le_rfl, (List.tail_suffix r.input).trans (List.suffix_append _ _)⟩
  | reset => exact .of_eq rfl rfl
  | clear => exact ⟨le_rfl, List.nil_suffix⟩

/-! ### The bound -/

theorem length_replacements_le_mapsLeft (keymap : Keymap) (registry : Registry) (calls : List Call) :
    ∀ r : Resolver, (replacements keymap registry r calls).length ≤ r.mapsLeft := by
  induction calls with
  | nil => intro r; exact Nat.zero_le _
  | cons call rest ih =>
    intro r
    have hrest := ih (call.run keymap registry r)
    rw [replacements, List.length_append]
    cases hcall : call.replacement? keymap r with
    | none =>
      obtain ⟨hdepth, -⟩ := Call.run_of_no_replacement registry hcall
      simp only [Option.toList_none, List.length_nil, mapsLeft] at hrest ⊢
      omega
    | some keys =>
      obtain ⟨hleft, hdepth, -⟩ := Call.run_of_replacement registry hcall
      simp only [Option.toList_some, List.length_singleton, mapsLeft, hdepth] at hrest ⊢
      omega

/-- Reading ends after finitely many turns, however the bindings lead to one another and whatever mode
each stroke is fed in. No more than `maxMapDepth` replacements are made between two strokes from outside;
a call makes one when its replacement then stands before the input, and otherwise puts back at most
strokes from the end of the buffer. -/
theorem reading_ends_within_map_depth (keymap : Keymap) (registry : Registry) (r : Resolver) :
    (∃ turns, ∀ modes : List Mode, turns ≤ modes.length →
      (modes.foldl (readNext keymap registry) r).input = []) ∧
    (∀ stroke calls, (replacements keymap registry (r.enqueue stroke) calls).length ≤ maxMapDepth) ∧
    ∀ call : Call, match call.replacement? keymap r with
      | some keys => ∃ leftover, leftover <:+ call.buffered r ∧
          (call.run keymap registry r).input = keys ++ (leftover ++ r.input)
      | none => (call.run keymap registry r).input <:+ call.buffered r ++ r.input := by
  refine ⟨exists_turns_read keymap registry r, fun stroke calls ↦
    length_replacements_le_mapsLeft keymap registry calls (r.enqueue stroke), fun call ↦ ?_⟩
  cases hcall : call.replacement? keymap r with
  | some keys => exact (Call.run_of_replacement registry hcall).2.2
  | none => exact (Call.run_of_no_replacement registry hcall).2

end Resolver

end ModalEdit
