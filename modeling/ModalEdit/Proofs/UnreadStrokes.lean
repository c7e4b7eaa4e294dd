import ModalEdit.Proofs.LinewiseCommands

/-!
What a stroke leaves to be read. Among the standard bindings no bound sequence begins with another one of
the same mode, and where strokes are text no sequence of several is bound. So as long as the buffered
strokes go on in the mode, a stroke hands nothing back to the input, but for one that is read alone in the
normal mode and stands for others (`Resolver.feed_leavesOnly`): `~`, or the short form of an operator and
one stroke more (`Keymap.get?_remap`).
-/

set_option autoImplicit false
set_option relaxedAutoImplicit false

namespace ModalEdit

/-! ### The standard bindings -/

namespace Keymap

/-- No sequence is bound that begins with another one. -/
theorem standardBindings_prefix_free : ∀ longer ∈ standardBindings, 1 < longer.keys.length →
    ∀ b ∈ standardBindings, b.keys <+: longer.keys → b.keys = longer.keys ∨
      ∀ mode ∈ b.modes, mode ∉ longer.modes := by
  decide +kernel

/-- Where strokes are text, no sequence of several is bound. -/
theorem standardBindings_short : ∀ b ∈ standardBindings,
    b.keys.length = 1 ∨ ∀ mode ∈ [MapMode.insert, .select, .commandLine], mode ∉ b.modes := by
  decide +kernel

/-- The strokes that `~` stands for. -/
def toggledStrokes : Keys := OperatorKey.toggleCase.keys ++ [.char 'l', .char 'l']

/-- Only single strokes stand for others, in the normal mode. They stand for an operator and one stroke
more, but for `~`, which stands for a whole command on a character and a motion after it. -/
theorem remaps_replace : ∀ b ∈ Default.remaps, b.modes = [.normal] ∧ b.keys.length = 1 ∧
    (b.keys = [.char '~'] ∧ b.target = .remap toggledStrokes ∨ ∃ o ∈ OperatorKey.all, o.keys = [o.again] ∧
      ∃ next ∈ [KeyStroke.char 'l', .char 'h', .char '$', .char 'y'],
        b.target = .remap [o.again, next]) := by
  decide +kernel

theorem standardBindings_remaps {b : Binding} (hb : b ∈ standardBindings) {replacement : Keys}
    (htarget : b.target = .remap replacement) : b ∈ Default.remaps := by
  have hall : ∀ b ∈ standardBindings, b ∈ Default.remaps ∨
      b.target ∈ (Builtin.actions ++ Extension.all.flatMap (·.actions)).map fun a ↦ .action a.id := by
    decide +kernel
  refine (hall b hb).resolve_right fun haction ↦ ?_
  obtain ⟨a, -, hid⟩ := List.mem_map.mp haction
  cases hid.trans htarget

section Bound

variable {bindings : List Binding} (hsub : bindings ⊆ standardBindings) {mode : MapMode} {keys : Keys}
include hsub

theorem goesBeyond_of_bound {target : Target}
    (hget : (bindAll {} bindings).get? mode keys = some target) :
    ((bindAll {} bindings).trie mode).goesBeyond keys = false := by
  refine bindAll_goesBeyond_eq_false fun more hmore ↦ ?_
  by_contra hlonger
  obtain ⟨found, hfound⟩ := Option.ne_none_iff_exists'.mp hlonger
  obtain ⟨b, hb, hmode, hkeys, -⟩ := exists_binding_of_get? hget
  obtain ⟨longer, hlonger, hmode', hkeys', -⟩ := exists_binding_of_get? hfound
  have hpos : keys ≠ [] := by
    rintro rfl
    cases (Trie.get?_nil _).symm.trans hget
  have hlength : 1 < longer.keys.length := by
    rw [hkeys', List.length_append]
    have := List.length_pos_of_ne_nil hpos
    have := List.length_pos_of_ne_nil hmore
    omega
  have hbegins : b.keys <+: longer.keys := by
    rw [hkeys, hkeys']
    exact List.prefix_append keys more
  have hfree := standardBindings_prefix_free longer (hsub hlonger) hlength b (hsub hb) hbegins
  rcases hfree with hsame | hapart
  · rw [hkeys, hkeys'] at hsame
    exact hmore (List.self_eq_append_right.mp hsame)
  · exact hapart mode hmode hmode'

theorem goesBeyond_of_textEntry (hmode : mode ∈ [MapMode.insert, .select, .commandLine])
    (hne : keys ≠ []) : ((bindAll {} bindings).trie mode).goesBeyond keys = false := by
  refine bindAll_goesBeyond_eq_false fun more hmore ↦ ?_
  by_contra hlonger
  obtain ⟨found, hfound⟩ := Option.ne_none_iff_exists'.mp hlonger
  obtain ⟨b, hb, hbound, hkeys, -⟩ := exists_binding_of_get? hfound
  rcases standardBindings_short b (hsub hb) with hshort | hnone
  · rw [hkeys, List.length_append] at hshort
    have := List.length_pos_of_ne_nil hne
    have := List.length_pos_of_ne_nil hmore
    omega
  · exact hnone mode hmode hbound

/-- What is matched by strokes of which all but the last go on is matched whole. -/
theorem resolve_whole {stroke : KeyStroke} {consumed : Nat} {target : Target} {ambiguous : Bool}
    (hgoes : keys ≠ [] → ((bindAll {} bindings).trie mode).goesBeyond keys = true)
    (h : (bindAll {} bindings).resolve mode (keys ++ [stroke]) = .matched consumed target ambiguous) :
    consumed = (keys ++ [stroke]).length ∧
      (bindAll {} bindings).get? mode (keys ++ [stroke]) = some target := by
  obtain ⟨hle, htake, -⟩ := Trie.longest?_spec (Trie.resolve_eq_matched h).1
  by_cases hwhole : consumed = (keys ++ [stroke]).length
  · rw [hwhole, List.take_length] at htake
    exact ⟨hwhole, htake⟩
  · rw [List.length_append, List.length_singleton] at hle hwhole
    have hwithin : consumed ≤ keys.length := by omega
    rw [List.take_append_of_le_length hwithin] at htake
    have hne : keys ≠ [] := by
      rintro rfl
      rw [List.take_nil, Trie.get?_nil] at htake
      cases htake
    obtain ⟨more, found, hmore, hfound⟩ :=
      Trie.exists_get?_of_goesBeyond (bindAll_noDeadEnds bindings mode) (hgoes hne)
    have hbeyond := goesBeyond_of_bound hsub htake
    rw [← List.take_append_drop consumed keys, List.append_assoc] at hfound
    rw [Trie.goesBeyond_of_get? (List.append_ne_nil_of_right_ne_nil _ hmore) hfound] at hbeyond
    cases hbeyond

theorem exists_remap_of_get? {replacement : Keys}
    (h : (bindAll {} bindings).get? mode keys = some (.remap replacement)) :
    ∃ b ∈ Default.remaps, mode ∈ b.modes ∧ b.keys = keys ∧ b.target = .remap replacement := by
  obtain ⟨b, hb, hmode, hkeys, htarget⟩ := exists_binding_of_get? h
  exact ⟨b, standardBindings_remaps (hsub hb) htarget, hmode, hkeys, htarget⟩

/-- What stands for others is one stroke of the normal mode: `~`, or the short form of an operator and one
stroke more. -/
theorem get?_remap {replacement : Keys}
    (h : (bindAll {} bindings).get? mode keys = some (.remap replacement)) :
    mode = .normal ∧ keys.length = 1 ∧ (keys = [.char '~'] ∧ replacement = toggledStrokes ∨
      ∃ (o : OperatorKey) (next : KeyStroke), o.keys = [o.again] ∧ replacement = [o.again, next]) := by
  obtain ⟨b, hb, hmode, rfl, htarget⟩ := exists_remap_of_get? hsub h
  obtain ⟨hmodes, hlength, hstands⟩ := remaps_replace b hb
  rw [hmodes, List.mem_singleton] at hmode
  refine ⟨hmode, hlength, ?_⟩
  rcases hstands with ⟨htilde, hreplaced⟩ | ⟨o, -, hkeys, next, -, hreplaced⟩
  · exact .inl ⟨htilde, Target.remap.inj (htarget.symm.trans hreplaced)⟩
  · exact .inr ⟨o, next, hkeys, Target.remap.inj (htarget.symm.trans hreplaced)⟩

end Bound

end Keymap

/-! ### Reading a stroke -/

namespace Resolver

variable {r : Resolver} {registry : Registry}

/-- Nothing is buffered, and no character and no register's name is awaited. -/
structure Unbuffered (r : Resolver) : Prop where
  keys : r.pending.keys = []
  awaitingChar : r.awaitingChar = none
  awaitingRegister : r.pending.awaitingRegister = false

/-- A stroke that is read in the normal mode as the whole of a sequence that stands for others. -/
structure Replaces (r : Resolver) (keymap : Keymap) (mode : Mode) (stroke : KeyStroke)
    (replacement : Keys) : Prop extends Unbuffered r where
  mode : mode = .normal
  bound : keymap.get? .normal [stroke] = some (.remap replacement)

/-- The state once a stroke is read for which others stand to be read. -/
def replaced (r : Resolver) (replacement : Keys) : Resolver :=
  { r with mapDepth := r.mapDepth + 1 }.replay replacement

/-- After a stroke there is nothing left to read but what it stands for. -/
def LeavesOnly (r : Resolver) (keymap : Keymap) (mode : Mode) (stroke : KeyStroke)
    (result : Outcome × Resolver) : Prop :=
  result.2.input = [] ∨ ∃ replacement, r.Replaces keymap mode stroke replacement ∧
    result = (.pending, r.replaced replacement)

theorem acceptAction_input (r : Resolver) (id : ActionId) (keys : Keys) (mode : Mode) :
    (r.acceptAction id keys mode registry).2.input = r.input :=
  acceptAction_cases (motive := fun result ↦ result.2.input = r.input) r mode registry id keys
    (fun _ ↦ rfl) (fun _ _ _ _ ↦ rfl) (fun _ _ _ _ _ ↦ rfl) (fun _ _ _ _ _ _ _ _ ↦ rfl)
    (fun _ _ _ _ _ _ ↦ rfl) (fun _ _ _ ↦ rfl) (fun _ _ _ ↦ rfl) (fun _ _ _ _ ↦ rfl)
    (fun _ _ _ _ ↦ rfl)

section Feed

variable {bindings : List Binding} (hsub : bindings ⊆ Keymap.standardBindings) {mode : Mode}
  {stroke : KeyStroke}
  (hgoes : r.pending.keys ≠ [] →
    ((Keymap.bindAll {} bindings).trie (.ofMode mode)).goesBeyond r.pending.keys = true)
  (hinput : r.input = [])
include hsub hgoes hinput

theorem accept_leavesOnly (hchar : r.awaitingChar = none)
    (hregister : r.pending.awaitingRegister = false) {consumed : Nat} {target : Target}
    {ambiguous : Bool} (hresolve : (Keymap.bindAll {} bindings).resolve (.ofMode mode)
      (r.pending.keys ++ [stroke]) = .matched consumed target ambiguous) :
    r.LeavesOnly (.bindAll {} bindings) mode stroke
      ((r.push stroke).accept consumed target mode registry) := by
  obtain ⟨rfl, hget⟩ := Keymap.resolve_whole hsub hgoes hresolve
  refine accept_cases (motive := r.LeavesOnly (.bindAll {} bindings) mode stroke) (r.push stroke)
    mode registry _ target ?expand ?overflow ?action
  case expand =>
    rintro replacement rfl _
    obtain ⟨hnormal, hlength, -⟩ := Keymap.get?_remap hsub hget
    have hkeys : r.pending.keys = [] := by
      rw [List.length_append, List.length_singleton] at hlength
      exact List.length_eq_zero_iff.mp (Nat.succ_inj.mp hlength)
    have hmode : mode = .normal := by
      cases mode <;> first | rfl | cases hnormal
    have hagain : { (r.push stroke).takeKeys (r.pending.keys ++ [stroke]).length with
        mapDepth := r.mapDepth + 1 } = { r with mapDepth := r.mapDepth + 1 } := by
      simp only [takeKeys, push, modifyPending, replay, List.drop_length, List.nil_append]
      rw [← hkeys]
    rw [hkeys, hnormal] at hget
    refine .inr ⟨replacement, ⟨⟨hkeys, hchar, hregister⟩, hmode, hget⟩, ?_⟩
    exact congrArg (fun after : Resolver ↦ (Outcome.pending, after.replay replacement)) hagain
  case overflow => exact fun _ _ _ ↦ .inl rfl
  case action =>
    intro id _
    refine .inl ((acceptAction_input _ id _ mode).trans ?_)
    rw [takeKeys_input, push_pending, List.drop_length, List.nil_append]
    exact hinput

theorem giveUp_leavesOnly : r.LeavesOnly (.bindAll {} bindings) mode stroke
    ((r.push stroke).giveUp mode) := by
  refine giveUp_cases (motive := r.LeavesOnly (.bindAll {} bindings) mode stroke) (r.push stroke)
    mode ?typed ?dropped
  case typed =>
    intro first rest hkeys hentry _
    have hshort : MapMode.ofMode mode ∈ [MapMode.insert, .select, .commandLine] := by
      cases mode with
      | insert | replace | select _ | commandLine => simp [MapMode.ofMode]
      | normal | visual _ | operatorPending => cases hentry
    have hnone : r.pending.keys = [] := by
      by_contra hne
      cases (Keymap.goesBeyond_of_textEntry hsub hshort hne).symm.trans (hgoes hne)
    rw [push_pending, hnone] at hkeys
    obtain ⟨-, rfl⟩ := List.cons.inj hkeys
    exact .inl hinput
  case dropped => exact .inl hinput

/-- A stroke that stands for no others leaves nothing to read. -/
theorem feed_leavesOnly : r.LeavesOnly (.bindAll {} bindings) mode stroke
    (r.feed stroke mode (.bindAll {} bindings) registry) := by
  refine feed_cases (motive := r.LeavesOnly (.bindAll {} bindings) mode stroke) r mode
    (.bindAll {} bindings) registry stroke ?cancel ?argument ?refused ?named ?digit ?mark ?buffered
  case cancel => exact fun _ _ ↦ .inl hinput
  case argument => exact fun _ _ _ _ ↦ .inl hinput
  case refused => exact fun _ ↦ .inl hinput
  case named => exact fun _ _ _ _ ↦ .inl hinput
  case digit => exact fun _ _ _ _ _ ↦ .inl hinput
  case mark => exact fun _ _ _ _ ↦ .inl hinput
  case buffered =>
    intro hbuffers
    simp only [buffers, Bool.and_eq_true, Bool.not_eq_true', Option.isNone_iff_eq_none] at hbuffers
    obtain ⟨⟨⟨-, hchar⟩, hregister⟩, -⟩ := hbuffers
    refine buffer_cases (motive := r.LeavesOnly (.bindAll {} bindings) mode stroke) r mode
      (.bindAll {} bindings) registry stroke ?wait ?take ?leave
    case wait => exact fun _ ↦ .inl hinput
    case take => exact fun _ _ ↦ accept_leavesOnly hsub hgoes hinput hchar hregister
    case leave => exact fun _ ↦ giveUp_leavesOnly hsub hgoes hinput

end Feed

end Resolver

namespace Resolver

variable {r : Resolver} {keymap : Keymap} {registry : Registry} {o : OperatorKey} {front : Keys}
  {next stroke : KeyStroke}

section Operator

variable (h : r.Unbuffered)
include h

/-- The first of two keys of an operator waits for the other. -/
theorem feed_operator_first (hbound : o.Bound keymap registry) (hpair : o.keys = [stroke, next]) :
    r.feed stroke .normal keymap registry = (.pending, r.withKeys [stroke]) := by
  have hget := hbound.keys.1
  rw [hpair] at hget
  have hfirst := o.keys_first
  rw [hpair] at hfirst
  have hbuffers : r.Buffers ([] ++ stroke :: [next]) :=
    .of_first h.awaitingChar h.awaitingRegister hfirst.1 hfirst.2
  have hfeed : (r.withKeys []).feed stroke .normal keymap registry =
      (.pending, r.withKeys ([] ++ [stroke])) :=
    feed_of_prefix registry hbuffers (List.cons_ne_nil next []) hget
  rwa [withKeys_of_eq h.keys] at hfeed

/-- The last key of an operator waits for what the operator acts on. -/
theorem feed_operator (hbound : o.Bound keymap registry) (hlast : o.keys = front ++ [o.again])
    (hnone : r.operator = none) : ∃ call : ActionCall, call.action = o.action ∧
      (r.withKeys front).feed o.again .normal keymap registry =
        (.pending, { r with operator := some call }) := by
  obtain ⟨hget, hbeyond⟩ := hbound.keys
  have hfirst := o.keys_first
  rw [hlast] at hget hbeyond hfirst
  have hbuffers : r.Buffers (front ++ [o.again]) :=
    .of_first h.awaitingChar h.awaitingRegister hfirst.1 hfirst.2
  have hfeed : (r.withKeys front).feed o.again .normal keymap registry =
      (r.withKeys (front ++ [o.again])).accept (front ++ [o.again]).length (.action o.action) .normal
        registry := feed_of_bound registry hbuffers hget hbeyond
  rw [accept_whole, acceptAction_of_operator hbound.action rfl _ rfl, withKeys_of_eq h.keys,
    hnone] at hfeed
  exact ⟨_, rfl, hfeed⟩

/-- A motion that is typed with one key after an operator gives the command of that. -/
theorem feed_motion {id : ActionId} {spec : ActionSpec} {call : ActionCall}
    (hfirst : KeyStroke.escape ∉ [stroke] ∧
      ∀ first ∈ [stroke].head?, first.digit? = none ∧ first.typedChar? ≠ some '"')
    (hget : keymap.get? .operatorPending [stroke] = some (.action id))
    (hbeyond : (keymap.trie .operatorPending).goesBeyond [stroke] = false)
    (hspec : registry.get? id = some spec) (hkind : spec.handler.kind = .motion)
    (hplain : spec.flags.expectsChar = false) (hoperator : r.operator = some call) :
    ∃ command : Command, command.action = call.action ∧
      r.feed stroke .operatorPending keymap registry = (.resolved command, r.reset) := by
  have hbuffers : r.Buffers ([] ++ [stroke]) :=
    .of_first h.awaitingChar h.awaitingRegister hfirst.1 hfirst.2
  have hfeed : (r.withKeys []).feed stroke .operatorPending keymap registry =
      (r.withKeys [stroke]).accept [stroke].length (.action id) .operatorPending registry :=
    feed_of_bound registry hbuffers hget hbeyond
  rw [withKeys_of_eq h.keys, accept_whole, acceptAction_of_target hspec (.inl hkind), hplain,
    if_neg Bool.false_ne_true, withKeys_of_eq h.keys, complete] at hfeed
  have hkept : (r.modifyPending (·.clearCounts)).operator = some call := hoperator
  rw [hkept] at hfeed
  exact ⟨_, rfl, hfeed⟩

end Operator

end Resolver

end ModalEdit
