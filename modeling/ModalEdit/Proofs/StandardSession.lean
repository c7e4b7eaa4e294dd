import ModalEdit.Proofs.EditFrame
import ModalEdit.Proofs.KeymapTargets
import ModalEdit.Session.Basic

/-!
Sessions with the default bindings and actions, both extensions, and any other strokes put in the place
of some (`Session.opened`). All their actions are made of steps (`Registry.standard_madeOfSteps`), and so
orderly. Operators are
reached from the normal, the visual and the pending modes only, whatever strokes are put in the place of
others (`opened_placesOperators`), and if none of those begins with Escape, then Escape is still bound
to what leaves the mode (`opened_resolve_escape`).
-/

set_option autoImplicit false
set_option relaxedAutoImplicit false

namespace ModalEdit

/-! ### The actions -/

namespace Registry

theorem register_get? (r : Registry) (a : ActionSpec) (id : ActionId) :
    (r.register a).2.get? id = (r.get? id).or (if a.id == id then some a else none) := by
  unfold register
  by_cases hname : r.contains a.id = true
  · rw [if_pos hname]
    by_cases hid : a.id = id
    · rw [contains, hid] at hname
      obtain ⟨spec, hspec⟩ := Option.isSome_iff_exists.mp hname
      rw [hspec, Option.some_or]
    · rw [if_neg (by simpa using hid), Option.or_none]
  · rw [if_neg hname]
    show (r.specs ++ [a]).find? _ = _
    rw [List.find?_append, List.find?_singleton]
    rfl

theorem registerAll_get? (r : Registry) (specs : List ActionSpec) (id : ActionId) :
    (specs.foldl (fun r a ↦ (r.register a).2) r).get? id =
      (r.get? id).or (specs.find? (·.id == id)) := by
  induction specs generalizing r with
  | nil => rw [List.foldl_nil, List.find?_nil, Option.or_none]
  | cons a rest ih =>
    rw [List.foldl_cons, ih, register_get?, Option.or_assoc, List.find?_cons]
    cases a.id == id <;> rfl

/-- Where no two actions have the same name, each is found by its own. -/
theorem ofList_get?_of_mem {specs : List ActionSpec} (hnodup : (specs.map (·.id)).Nodup)
    {a : ActionSpec} (ha : a ∈ specs) : (ofList specs).get? a.id = some a := by
  rw [ofList, registerAll_get?]
  show specs.find? (·.id == a.id) = some a
  obtain ⟨before, after, rfl⟩ := List.append_of_mem ha
  refine List.find?_eq_some_iff_append.mpr ⟨beq_self_eq_true a.id, before, after, rfl, fun b hb ↦ ?_⟩
  rw [List.map_append, List.map_cons] at hnodup
  have hne := (List.nodup_append.mp hnodup).2.2 _ (List.mem_map_of_mem hb) a.id List.mem_cons_self
  simpa using hne

end Registry

theorem ActionHandler.madeOfSteps_of_kind {handler : ActionHandler}
    (h : handler.kind = .motion ∨ handler.kind = .textObject) : handler.MadeOfSteps := by
  cases handler with
  | motion f => trivial
  | textObject f => trivial
  | operator body => rcases h with h | h <;> cases h
  | other f => rcases h with h | h <;> cases h

namespace Builtin

theorem forall_operators {Q : Operator → Prop} (hdelete : Q .delete) (hchange : ∀ toEnds, Q (.changeWith toEnds))
    (hyank : Q .yank) (hcase : ∀ f, Q (.mapCase f)) :
    ∀ a ∈ operators, ∀ body, a.handler = .operator body → Q body := by
  have hbody {f : Operator} (hf : Q f) (id : ActionId) (flags : CommandFlags) :
      ∀ body, (operator id f flags).handler = .operator body → Q body := by
    rintro body ⟨⟩
    exact hf
  simp only [operators, List.forall_mem_cons, List.not_mem_nil, false_imp_iff, implies_true, and_true]
  exact ⟨hbody hdelete _ _, hbody (hchange false) _ _, hbody hyank _ _, hbody (hcase _) _ _, hbody (hcase _) _ _,
    hbody (hcase _) _ _, hbody hdelete _ _, hbody (hchange false) _ _, hbody (hchange true) _ _, hbody hyank _ _⟩

theorem operators_rewrite : ∀ a ∈ operators, ∀ body, a.handler = .operator body → body.Rewrites :=
  forall_operators Operator.delete_rewrites Operator.changeWith_rewrites Operator.yank_rewrites
    Operator.mapCase_rewrites

theorem operators_madeOfSteps : ∀ a ∈ operators, a.handler.MadeOfSteps := by
  have hkinds : ∀ a ∈ operators, a.handler.kind = .operator := by decide +kernel
  intro a ha
  have hrewrite := operators_rewrite a ha
  have hkind := hkinds a ha
  generalize a.handler = handler at hrewrite hkind
  cases handler with
  | operator body => exact (hrewrite body rfl).madeOf
  | motion f => trivial
  | textObject f => trivial
  | other f => cases hkind

theorem change_madeOfSteps {f : EditState → EditState} (hf : ∀ s, EditState.Edits s (f s)) (id : ActionId) :
    (change id f).handler.MadeOfSteps := fun _ _ s ↦ hf s

theorem selecting_madeOfSteps {f : EditState → SelectionKind → EditState}
    (hf : ∀ s kind, EditState.Moves s (f s kind)) (id : ActionId) :
    (selecting id f).handler.MadeOfSteps := fun _ _ s ↦ (hf s _).edits

theorem modeChanges_madeOfSteps : ∀ a ∈ modeChanges, a.handler.MadeOfSteps := by
  have changes {f : EditState → EditState} (hf : ∀ s, EditState.Moves s (f s)) (id : ActionId) :=
    change_madeOfSteps (fun s ↦ (hf s).edits) id
  simp only [modeChanges, List.forall_mem_cons, List.not_mem_nil, false_imp_iff, implies_true, and_true]
  exact ⟨changes (·.enterInsert_moves Mode.noConfusion) _, changes EditState.append_moves _,
    changes EditState.insertAtIndent_moves _, changes EditState.appendAtLineEnd_moves _,
    change_madeOfSteps (·.openLine_edits true) _, change_madeOfSteps (·.openLine_edits false) _,
    changes (·.enterInsert_moves Mode.noConfusion) _,
    selecting_madeOfSteps EditState.toggleVisual_moves _,
    selecting_madeOfSteps EditState.toggleVisual_moves _,
    selecting_madeOfSteps EditState.toggleVisual_moves _,
    selecting_madeOfSteps EditState.startSelect_moves _,
    selecting_madeOfSteps EditState.startSelect_moves _,
    selecting_madeOfSteps EditState.startSelect_moves _,
    changes EditState.toggleVisualSelect_moves _,
    changes EditState.openCommandLine_moves _, changes EditState.escape_moves _⟩

theorem typing_madeOfSteps : ∀ a ∈ typing, a.handler.MadeOfSteps := by
  have changes {f : EditState → EditState} (hf : ∀ s, EditState.Moves s (f s)) (id : ActionId) :=
    change_madeOfSteps (fun s ↦ (hf s).edits) id
  simp only [typing, List.forall_mem_cons, List.not_mem_nil, false_imp_iff, implies_true, and_true]
  exact ⟨changes EditState.leaveInsert_moves _, change_madeOfSteps EditState.backspace_edits _,
    change_madeOfSteps (·.insertAtCarets_edits _) _, change_madeOfSteps EditState.typeTab_edits _,
    changes EditState.closeCommandLine_moves _, changes EditState.closeCommandLine_moves _,
    changes EditState.commandLineBackspace_moves _⟩

theorem specialKeys_madeOfSteps : ∀ a ∈ specialKeys, a.handler.MadeOfSteps := by
  have hspecial (id : ActionId) : (special id).handler.MadeOfSteps :=
    fun around command s ↦ (s.specialKey_moves around command).edits
  simp only [specialKeys, List.forall_mem_cons, List.not_mem_nil, false_imp_iff, implies_true, and_true,
    hspecial]

theorem actions_madeOfSteps : ∀ a ∈ actions, a.handler.MadeOfSteps := by
  have hmotions : ∀ a ∈ motions, a.handler.kind = .motion := by decide +kernel
  have hobjects : ∀ a ∈ textObjects, a.handler.kind = .textObject := by decide +kernel
  simp only [actions, List.forall_mem_append]
  exact ⟨⟨⟨⟨⟨fun a ha ↦ ActionHandler.madeOfSteps_of_kind (.inl (hmotions a ha)),
    fun a ha ↦ ActionHandler.madeOfSteps_of_kind (.inr (hobjects a ha))⟩,
    operators_madeOfSteps⟩, modeChanges_madeOfSteps⟩, typing_madeOfSteps⟩, specialKeys_madeOfSteps⟩

end Builtin

namespace Extension

theorem actions_madeOfSteps : ∀ extension ∈ all, ∀ a ∈ extension.actions, a.handler.MadeOfSteps := by
  have hkinds : ∀ extension ∈ all, ∀ a ∈ extension.actions,
      a.handler.kind = .motion ∨ a.handler.kind = .textObject := by decide +kernel
  exact fun extension hextension a ha ↦
    ActionHandler.madeOfSteps_of_kind (hkinds extension hextension a ha)

end Extension

namespace Registry

/-- The built-in actions and those of both extensions. -/
def standard : Registry := .ofList (Builtin.actions ++ Extension.all.flatMap (·.actions))

theorem mem_ofList {specs : List ActionSpec} {a : ActionSpec} (h : a ∈ (ofList specs).specs) : a ∈ specs := by
  refine List.foldlRecOn (motive := fun r : Registry ↦ ∀ a ∈ r.specs, a ∈ specs) specs _
    (fun _ hnone ↦ absurd hnone List.not_mem_nil) ?_ a h
  intro r hr added hadded a ha
  unfold register at ha
  split at ha
  · exact hr a ha
  · exact (List.mem_append.mp ha).elim (hr a) fun ha ↦ List.mem_singleton.mp ha ▸ hadded

theorem ofList_madeOfSteps {specs : List ActionSpec} (hspecs : ∀ a ∈ specs, a.handler.MadeOfSteps) :
    (ofList specs).MadeOfSteps := fun a ha ↦ hspecs a (mem_ofList ha)

theorem builtin_orderly : Builtin.registry.Orderly :=
  (ofList_madeOfSteps Builtin.actions_madeOfSteps).orderly

theorem forall_mem_standard {P : ActionSpec → Prop} (hbuiltin : ∀ a ∈ Builtin.actions, P a)
    (hextensions : ∀ extension ∈ Extension.all, ∀ a ∈ extension.actions, P a) : ∀ a ∈ standard.specs, P a := by
  intro a ha
  rcases List.mem_append.mp (mem_ofList ha) with ha | ha
  · exact hbuiltin a ha
  · obtain ⟨extension, hall, hmem⟩ := List.mem_flatMap.mp ha
    exact hextensions extension hall a hmem

theorem standard_madeOfSteps : standard.MadeOfSteps :=
  forall_mem_standard Builtin.actions_madeOfSteps Extension.actions_madeOfSteps

theorem standard_orderly : standard.Orderly := standard_madeOfSteps.orderly

/-- Every built-in action is found by its name. -/
theorem standard_get?_of_mem {a : ActionSpec} (ha : a ∈ Builtin.actions) :
    standard.get? a.id = some a := by
  refine ofList_get?_of_mem ?_ (List.mem_append_left _ ha)
  decide +kernel

end Registry

namespace Keymap

/-- The default bindings and those of both extensions. -/
def standardBindings : List Binding := Default.bindings ++ Extension.all.flatMap (·.bindings)

def standard : Keymap := bindAll {} standardBindings

end Keymap

/-! ### The session -/

namespace ExtensionHost

theorem foldl_install (extensions : List Extension) (registry : Registry) (keymap : Keymap) :
    extensions.foldl (fun (r, k) extension ↦ install r k extension) (registry, keymap) =
      ((extensions.flatMap (·.actions)).foldl (fun r a ↦ (r.register a).2) registry,
        keymap.bindAll (extensions.flatMap (·.bindings))) := by
  induction extensions generalizing registry keymap with
  | nil => rfl
  | cons extension rest ih =>
    rw [List.foldl_cons, List.flatMap_cons, List.flatMap_cons, List.foldl_append,
      Keymap.bindAll_append]
    exact ih _ _

/-- With nothing loaded before, every extension is installed. -/
theorem load_eq (extensions : List Extension) (registry : Registry) (keymap : Keymap) :
    ({ extensions } : ExtensionHost).load registry keymap =
      ({ extensions, loaded := extensions.map (·.name) },
        (extensions.flatMap (·.actions)).foldl (fun r a ↦ (r.register a).2) registry,
        keymap.bindAll (extensions.flatMap (·.bindings))) := by
  have hfresh : extensions.filter (fun extension ↦
      !isLoaded { extensions, loaded := [] } extension.name) = extensions :=
    List.filter_eq_self.mpr fun _ _ ↦ rfl
  simp only [load, hfresh, foldl_install, List.nil_append]

end ExtensionHost

/-- Strokes to be read in the place of others, in some modes. -/
structure Remap where
  modes : List MapMode
  keys : Keys
  replacement : Keys
  deriving DecidableEq, Repr

def Remap.binding (r : Remap) : Binding :=
  { modes := r.modes, keys := r.keys, target := .remap r.replacement }

namespace Session

def remap (s : Session) (r : Remap) : Session := (s.bind r.modes r.keys (.remap r.replacement)).2

/-- A session over an editor, just opened, with both extensions. Some strokes have been put in the place
of others before the extensions were loaded, and some after. -/
def opened (options : Options) (editor : Editor) (early late : List Remap) : Session :=
  let fresh : Session := { options, edit := { editor } }
  late.foldl remap ((early.foldl remap fresh).loadExtensions { extensions := Extension.all }).2

theorem foldl_remap (s : Session) (remaps : List Remap) :
    remaps.foldl remap s = { s with keymap := s.keymap.bindAll (remaps.map Remap.binding) } := by
  induction remaps generalizing s with
  | nil => rfl
  | cons r rest ih =>
    rw [List.foldl_cons, ih]
    rfl

theorem loadExtensions_eq (s : Session) (extensions : List Extension) :
    (s.loadExtensions { extensions }).2 = { s with
      registry := (extensions.flatMap (·.actions)).foldl (fun r a ↦ (r.register a).2) s.registry
      keymap := s.keymap.bindAll (extensions.flatMap (·.bindings)) } := by
  unfold loadExtensions
  rw [ExtensionHost.load_eq]

/-- What is bound in a session besides the default bindings. -/
def addedBindings (early late : List Remap) : List Binding :=
  early.map Remap.binding ++ Extension.all.flatMap (·.bindings) ++ late.map Remap.binding

theorem opened_eq (options : Options) (editor : Editor) (early late : List Remap) :
    opened options editor early late = {
      options, edit := { editor }, registry := .standard
      keymap := Keymap.default.bindAll (addedBindings early late) } := by
  have hregistry : (Extension.all.flatMap (·.actions)).foldl (fun r a ↦ (r.register a).2)
      Builtin.registry = Registry.standard := by
    rw [Registry.standard, Registry.ofList, List.foldl_append]
    rfl
  simp only [opened, foldl_remap, loadExtensions_eq, hregistry, addedBindings, Keymap.bindAll_append]

section Opened

variable (options : Options) (editor : Editor) (early late : List Remap)

theorem opened_registry : (opened options editor early late).registry = .standard := by rw [opened_eq]

/-- With no strokes put in the place of others, just the standard bindings are there. -/
theorem opened_keymap : (opened options editor [] []).keymap = .standard := by
  rw [opened_eq, Keymap.standard, Keymap.standardBindings, Keymap.bindAll_append, Keymap.default]
  simp [addedBindings]

theorem opened_resolver : (opened options editor early late).resolver = {} := by rw [opened_eq]

theorem opened_edit : (opened options editor early late).edit = { editor } := by rw [opened_eq]

end Opened

end Session

/-! ### Where operators are bound -/

/-- Whether a target is an operator. -/
def Target.operates (registry : Registry) : Target → Bool
  | .action id => (registry.get? id).any (·.handler.kind == .operator)
  | .remap _ => false

/-- Operators are looked up only in the modes that take them and in the pending mode. -/
def Keymap.PlacesOperators (keymap : Keymap) (registry : Registry) : Prop :=
  ∀ mode buffer consumed id ambiguous spec,
    keymap.resolve (.ofMode mode) buffer = .matched consumed (.action id) ambiguous →
      registry.get? id = some spec → spec.handler.kind = .operator →
        mode.takesOperators ∨ mode = .operatorPending

theorem standardBindings_operate :
    ∀ b ∈ Keymap.standardBindings, ∀ mode ∈ b.modes,
      b.target.operates .standard = true →
        mode = .normal ∨ mode = .visual ∨ mode = .operatorPending := by
  decide +kernel

namespace Session

variable (options : Options) (editor : Editor) (early late : List Remap)

theorem opened_trie_targets {mode : MapMode}
    (hmode : ¬ (mode = .normal ∨ mode = .visual ∨ mode = .operatorPending)) :
    ((opened options editor early late).keymap.trie mode).Targets
      (·.operates .standard = false) := by
  have hstandard {b : Binding} (hmem : mode ∈ b.modes)
      (hb : b ∈ Keymap.Default.bindings ++ Extension.all.flatMap (·.bindings)) (t : Trie)
      (ht : t.Targets (·.operates .standard = false)) :
      (t.insert b.keys b.target).2.Targets (·.operates .standard = false) :=
    Trie.insert_targets (Bool.eq_false_iff.mpr fun h ↦
      hmode (standardBindings_operate b hb mode hmem h)) ht b.keys
  have hremap {remaps : List Remap} {b : Binding} (hb : b ∈ remaps.map Remap.binding) (t : Trie)
      (ht : t.Targets (·.operates .standard = false)) :
      (t.insert b.keys b.target).2.Targets (·.operates .standard = false) := by
    obtain ⟨r, -, rfl⟩ := List.mem_map.mp hb
    refine Trie.insert_targets ?_ ht r.keys
    rfl
  rw [opened_eq]
  refine Keymap.bindAll_trie_keeps (Keymap.bindAll_trie_keeps ?_ ?_) ?_
  · cases mode <;> trivial
  · exact fun b hb hmem ↦ hstandard hmem (List.mem_append_left _ hb)
  · intro b hb hmem
    rcases List.mem_append.mp hb with hb | hb
    · rcases List.mem_append.mp hb with hb | hb
      · exact hremap hb
      · exact hstandard hmem (List.mem_append_right _ hb)
    · exact hremap hb

/-- Putting strokes in the place of others brings no operator into another mode. -/
theorem opened_placesOperators :
    (opened options editor early late).keymap.PlacesOperators .standard := by
  intro mode buffer consumed id ambiguous spec hresolve hget hkind
  by_cases hplace : MapMode.ofMode mode = .normal ∨ MapMode.ofMode mode = .visual ∨
      MapMode.ofMode mode = .operatorPending
  · cases mode <;> simp_all [MapMode.ofMode, Mode.takesOperators, Mode.isVisual]
  · have htargets := opened_trie_targets options editor early late hplace
    have hoperates := Trie.resolve_target htargets hresolve
    simp [Target.operates, hget, hkind] at hoperates

end Session

/-! ### Escape -/

/-- The action that Escape is bound to. In the pending mode it is bound to none. -/
def MapMode.escapeAction? : MapMode → Option ActionId
  | normal | visual | select => some ActionId.escape
  | insert => some ActionId.insertEscape
  | commandLine => some ActionId.commandLineCancel
  | operatorPending => none

theorem default_follow_escape {mode : MapMode} {id : ActionId} (h : mode.escapeAction? = some id) :
    (Keymap.default.trie mode).follow .escape = some (some (.action id), .nil) := by
  have hall : ∀ mode ∈ MapMode.all, ∀ id ∈ mode.escapeAction?,
      (Keymap.default.trie mode).follow .escape = some (some (.action id), .nil) := by
    decide +kernel
  exact hall mode (by cases mode <;> decide) id h

namespace Session

/-- Escape is taken at once for what it is bound to by default. -/
theorem opened_resolve_escape (options : Options) (editor : Editor) {early late : List Remap}
    (hremaps : ∀ r ∈ early ++ late, r.keys.head? ≠ some .escape) {mode : MapMode} {id : ActionId}
    (h : mode.escapeAction? = some id) :
    (opened options editor early late).keymap.resolve mode [.escape] =
      .matched 1 (.action id) false := by
  have hextensions : ∀ b ∈ Extension.all.flatMap (·.bindings), b.keys.head? ≠ some .escape := by
    decide +kernel
  have hadded : ∀ b ∈ addedBindings early late, b.keys.head? ≠ some .escape := by
    intro b hb
    rcases List.mem_append.mp hb with hb | hb
    · rcases List.mem_append.mp hb with hb | hb
      · obtain ⟨r, hr, rfl⟩ := List.mem_map.mp hb
        exact hremaps r (List.mem_append_left _ hr)
      · exact hextensions b hb
    · obtain ⟨r, hr, rfl⟩ := List.mem_map.mp hb
      exact hremaps r (List.mem_append_right _ hr)
  rw [opened_eq]
  refine Trie.resolve_of_follow ?_
  refine Keymap.bindAll_trie_keeps
    (P := fun t ↦ t.follow .escape = some (some (.action id), .nil)) (default_follow_escape h) ?_
  intro b hb _ t ht
  rw [Trie.follow_insert_of_ne (hadded b hb)]
  exact ht

end Session

end ModalEdit
