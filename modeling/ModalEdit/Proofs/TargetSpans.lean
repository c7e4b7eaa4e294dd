import ModalEdit.Proofs.LineEnds
import ModalEdit.Proofs.LoneCaret
import ModalEdit.Proofs.StandardSession

/-!
What an operator is given of its target. The text objects look at nothing but the text, the offset
and the count, and cover a span of characters; the motions to the end of a word and to a character
forward end on a character (`Motion.EndsOnCharacter`), which the operator takes in. A selection
takes in the character under its caret too, so what is selected by way of the target is what the
operator is given of it (`Span.selection_of_textObject`, `Span.selection_of_motion`). Of a span of
characters the operators heed only the text and the registers (`Operator.Heeds`).
-/

set_option autoImplicit false
set_option relaxedAutoImplicit false

namespace ModalEdit

open Text (Direction)

/-! ### The end of a word -/

namespace Text

/-- Steps that are repeated leave an offset where it is, or end with one that has moved it. -/
theorem iterate_cases (step : Nat → Nat) (count offset : Nat) :
    iterate step count offset = offset ∨ ∃ place,
    iterate step count offset = step place ∧ step place ≠ place := by
  induction count generalizing offset with
  | zero => exact .inl rfl
  | succ count ih =>
    rw [iterate]
    split
    · exact .inl rfl
    · next hmoved =>
      rcases ih (step offset) with heq | hlast
      · exact .inr ⟨offset, heq, hmoved⟩
      · exact .inr hlast

theorem le_iterate {step : Nat → Nat} (hstep : ∀ offset, offset ≤ step offset)
    (count offset : Nat) :
    offset ≤ iterate step count offset := by
  induction count generalizing offset with
  | zero => exact Nat.le_refl _
  | succ count ih =>
    rw [iterate]
    split
    · exact Nat.le_refl _
    · exact Nat.le_trans (hstep offset) (ih _)

/-- The end of a word is no blank. -/
theorem exists_of_nextWordEndDistance {big : Bool} {ahead : List Char} {distance : Nat}
    (h : nextWordEndDistance big ahead = distance + 1) :
    ∃ c, ahead[distance]? = some c ∧ CharClass.ofChar big c ≠ .blank := by
  fun_induction nextWordEndDistance big ahead generalizing distance with
  | case1 => cases h
  | case2 c rest hblank hzero ih => cases h
  | case3 c rest hblank reached hreached ih =>
    obtain rfl : reached + 1 = distance := Nat.succ.inj h
    exact ih hreached
  | case4 c rest hword =>
    obtain rfl : (rest.takeWhile (sameClass big c)).length = distance := Nat.succ.inj h
    have hsame : ∀ d ∈ rest.takeWhile (sameClass big c), sameClass big c d = true :=
      List.all_eq_true.mp List.all_takeWhile
    have hprefix := List.prefix_iff_getElem?.mp
      (List.takeWhile_prefix (sameClass big c) (l := rest))
    generalize rest.takeWhile (sameClass big c) = run at hsame hprefix
    cases hlength : run.length with
    | zero => exact ⟨c, rfl, hword⟩
    | succ last =>
      have hlast : last < run.length := by omega
      refine ⟨run[last], hprefix last hlast, ?_⟩
      rw [eq_of_beq (hsame _ (List.getElem_mem hlast))]
      exact hword

end Text

/-! ### Motions -/

/-- Two looks at the same text, from the same place and with the same typed. -/
structure MotionContext.Alike (a b : MotionContext) : Prop where
  text : a.text = b.text
  offset : a.offset = b.offset
  command : a.command = b.command

theorem MotionContext.Alike.count {a b : MotionContext} (h : a.Alike b) : a.count = b.count :=
  congrArg ActionCall.count h.command

namespace Motion

/-- Nothing else is looked at. -/
def Local (f : Motion) : Prop := ∀ a b : MotionContext, a.Alike b → f a = f b

/-- From where a caret may be in the normal mode, the motion goes forward, to a character of a line.
-/
def EndsOnCharacter (f : Motion) : Prop :=
  ∀ (ctx : MotionContext) (destination : Nat), ctx.text.normalize ctx.offset false = ctx.offset →
    f ctx = some destination →
      ctx.offset ≤ destination ∧ destination < ctx.text.lineEnd (ctx.text.lineOf destination)

theorem wordEnd_local (big : Bool) : (wordEnd big).Local := by
  intro a b h
  simp only [wordEnd, MotionContext.moved, h.text, h.offset, h.count]

theorem find_local (direction : Direction) (till : Bool) : (find direction till).Local := by
  intro a b h
  simp only [find, h.text, h.offset, h.count, h.command]

theorem wordEnd_endsOnCharacter (big : Bool) : (wordEnd big).EndsOnCharacter := by
  intro ctx destination hnormal hf
  have hsteps : ctx.text.wordEnd ctx.offset ctx.count big false =
      Text.iterate (ctx.text.nextWordEnd big) (max ctx.count 1) ctx.offset := by
    simp only [Text.wordEnd, Nat.min_eq_left (Text.le_length_sub_one hnormal), Bool.false_and,
      Bool.false_eq_true, if_false]
  unfold wordEnd MotionContext.moved at hf
  rw [hsteps] at hf
  split at hf
  · cases hf
  · next hmoved =>
    obtain rfl := Option.some.inj hf
    obtain ⟨place, hlast, hplace⟩ := (Text.iterate_cases _ _ _).resolve_left hmoved
    refine ⟨Text.le_iterate (fun _ ↦ Nat.le_add_right _ _) _ _, ?_⟩
    rw [hlast]
    obtain ⟨distance, hdistance⟩ : ∃ distance,
        Text.nextWordEndDistance big (ctx.text.drop (place + 1)) = distance + 1 :=
      Nat.exists_eq_succ_of_ne_zero fun hzero ↦
        hplace (by rw [Text.nextWordEnd, hzero, Nat.add_zero])
    obtain ⟨c, hc, hword⟩ := Text.exists_of_nextWordEndDistance hdistance
    refine Text.lt_lineEnd_iff.mpr ⟨c, ?_, fun hfeed ↦ hword ?_⟩
    · rw [Text.nextWordEnd, hdistance, Text.charAt, ← hc, List.getElem?_drop]
      congr 1
      omega
    · subst hfeed
      cases big <;> decide +kernel

theorem indexOfNth?_lt {target : Char} {count index : Nat} {ahead : List Char}
    (h : Text.indexOfNth? target count ahead = some index) : index < ahead.length := by
  fun_induction Text.indexOfNth? target count ahead generalizing index with
  | case1 => cases h
  | case2 =>
    obtain rfl := Option.some.inj h
    exact Nat.succ_pos _
  | case3 _ _ _ ih | case4 _ _ _ _ ih =>
    obtain ⟨before, hbefore, rfl⟩ := Option.map_eq_some_iff.mp h
    exact Nat.succ_lt_succ (ih hbefore)

theorem find_endsOnCharacter (till : Bool) : (find .forward till).EndsOnCharacter := by
  intro ctx destination _ hf
  obtain ⟨target, -, hfound⟩ := Option.bind_eq_some_iff.mp hf
  obtain ⟨index, hindex, hdestination⟩ := Option.map_eq_some_iff.mp hfound
  have hlt := indexOfNth?_lt hindex
  rw [List.length_drop, List.length_take] at hlt
  have hends : ctx.offset ≤ destination ∧ destination <
      ctx.text.lineEnd (ctx.text.lineOf ctx.offset) := by
    split at hdestination <;> omega
  rw [Text.lineOf_eq_of_lt_lineEnd hends.1 hends.2]
  exact hends

end Motion

/-! ### Text objects -/

namespace TextObject

def Local (f : TextObject) : Prop := ∀ a b : MotionContext, a.Alike b → f a = f b

/-- Only spans of characters are covered. -/
def Characterwise (f : TextObject) : Prop := ∀ ctx r, f ctx = some r → r.kind = .characterwise

theorem word_local (big around : Bool) : (word big around).Local := by
  intro a b h
  simp only [word, h.text, h.offset, h.count]

theorem hump_local (around : Bool) : (hump around).Local := by
  intro a b h
  simp only [hump, h.text, h.offset, h.count]

theorem argument_local (inner : Bool) : (argument inner).Local := by
  intro a b h
  simp only [argument, h.text, h.offset, h.count]

theorem word_characterwise (big around : Bool) : (word big around).Characterwise := by
  intro ctx r h
  unfold word wordRange at h
  split at h
  · cases h
  · dsimp only at h
    split at h
    · exact congrArg TextRange.kind (Option.some.inj h).symm
    · exact congrArg TextRange.kind (Option.some.inj h).symm

theorem hump_characterwise (around : Bool) : (hump around).Characterwise := by
  intro ctx r h
  obtain ⟨c, -, h⟩ := Option.bind_eq_some_iff.mp h
  have hspan {start stop : Nat} (h : some (TextRange.between start stop .characterwise) = some r) :
      r.kind = .characterwise := congrArg TextRange.kind (Option.some.inj h).symm
  split at h
  · exact hspan h
  · obtain ⟨count, -, h⟩ := Option.bind_eq_some_iff.mp h
    dsimp only at h
    have hends {start? stop? : Option Nat}
        (h : (start?.bind fun start ↦ stop?.bind fun stop ↦
          some (.between (ctx.text.normalize start false)
          (if around = true then ctx.text.normalize stop false +
            1 else ctx.text.normalize stop false)
          .characterwise)) = some r) : r.kind = .characterwise := by
      obtain ⟨start, -, h⟩ := Option.bind_eq_some_iff.mp h
      obtain ⟨stop, -, h⟩ := Option.bind_eq_some_iff.mp h
      exact hspan h
    split at h <;> split at h <;> exact hends h

theorem argument_characterwise (inner : Bool) : (argument inner).Characterwise := by
  intro ctx r h
  obtain ⟨bounds, -, h⟩ := Option.bind_eq_some_iff.mp h
  obtain ⟨stop, -, h⟩ := Option.bind_eq_some_iff.mp h
  split at h
  · cases h
  · exact congrArg TextRange.kind (Option.some.inj h).symm

end TextObject

/-- Text objects look at nothing else than what they are typed for, and cover characters. -/
def ActionSpec.CoversCharacters (a : ActionSpec) : Prop :=
  ∀ f, a.handler = .textObject f →
    f.Local ∧ f.Characterwise ∧ a.flags.linewise = false ∧ a.flags.inclusive = false

theorem ActionSpec.coversCharacters_of_kind {a : ActionSpec} (h : a.handler.kind ≠ .textObject) :
    a.CoversCharacters := fun f hf ↦ absurd (by rw [hf]; rfl) h

theorem ActionSpec.coversCharacters_of_handler {a : ActionSpec} {f : TextObject}
    (hf : a.handler = .textObject f) (hlocal : f.Local) (hkind : f.Characterwise)
    (hlines : a.flags.linewise = false) (hinclusive : a.flags.inclusive = false) :
    a.CoversCharacters := by
  intro g hg
  obtain rfl : f = g := ActionHandler.textObject.inj (hf.symm.trans hg)
  exact ⟨hlocal, hkind, hlines, hinclusive⟩

theorem Builtin.actions_coverCharacters : ∀ a ∈ actions, a.CoversCharacters := by
  have hothers {specs : List ActionSpec} (h : ∀ a ∈ specs, a.handler.kind ≠ .textObject) :
      ∀ a ∈ specs, a.CoversCharacters := fun a ha ↦ ActionSpec.coversCharacters_of_kind (h a ha)
  have hword (id : ActionId) (big around : Bool) :
      (textObject id (.word big around)).CoversCharacters :=
    ActionSpec.coversCharacters_of_handler rfl (TextObject.word_local big around)
      (TextObject.word_characterwise big around)
      rfl rfl
  have hobjects : ∀ a ∈ textObjects, a.CoversCharacters := by
    simp only [textObjects, List.forall_mem_cons, List.not_mem_nil, false_imp_iff, implies_true,
      and_true, hword]
  simp only [actions, List.forall_mem_append]
  exact ⟨⟨⟨⟨⟨hothers (by decide +kernel), hobjects⟩, hothers (by decide +kernel)⟩,
    hothers (by decide +kernel)⟩,
    hothers (by decide +kernel)⟩, hothers (by decide +kernel)⟩

theorem Extension.actions_coverCharacters :
    ∀ extension ∈ all, ∀ a ∈ extension.actions, a.CoversCharacters := by
  have hmotion (id : ActionId) (f : Motion) (flags : CommandFlags) :
      ActionSpec.CoversCharacters { id, handler := .motion f, flags } :=
    ActionSpec.coversCharacters_of_kind CommandKind.noConfusion
  have hobject (id : ActionId) {f : TextObject} (hlocal : f.Local) (hkind : f.Characterwise) :
      ActionSpec.CoversCharacters
        { id, handler := .textObject f, flags := { characterwise := true } } :=
    ActionSpec.coversCharacters_of_handler rfl hlocal hkind rfl rfl
  simp only [all, humps, arguments, List.forall_mem_cons, List.not_mem_nil, false_imp_iff,
    implies_true, and_true, hmotion, hobject, TextObject.hump_local, TextObject.hump_characterwise,
    TextObject.argument_local,
    TextObject.argument_characterwise]

namespace Registry

def CoversCharacters (r : Registry) : Prop := ∀ a ∈ r.specs, a.CoversCharacters

theorem CoversCharacters.of_get? {r : Registry} (h : r.CoversCharacters) {id : ActionId}
    {a : ActionSpec} (hget : r.get? id = some a) :
    a.CoversCharacters := h a (List.mem_of_find?_eq_some hget)

theorem standard_coversCharacters : standard.CoversCharacters :=
  forall_mem_standard Builtin.actions_coverCharacters Extension.actions_coverCharacters

end Registry

/-! ### Spans and selections -/

namespace Span

variable {t : Text}

/-- What a text object selects is what it covers. -/
theorem selection_of_textObject {r : TextRange} (hkind : r.kind = .characterwise)
    (hne : r.isEmpty = false) (t : Text) :
    selection t r.start (min (max (r.stop - 1) r.start) t.length) .character false false =
      r.within t := by
  obtain ⟨start, stop, kind, hle⟩ := r
  obtain rfl : kind = .characterwise := hkind
  have hlt : start ≠ stop := fun heq ↦ by simp [TextRange.isEmpty, heq] at hne
  simp only [selection, TextRange.within, TextRange.between, Bool.false_eq_true, if_false,
    TextRange.mk.injEq, and_true]
  omega

/-- What a motion selects, if it goes forward to a character, takes in that character. -/
theorem selection_of_motion {offset destination : Nat} (hle : offset ≤ destination)
    (hlt : destination < t.lineEnd (t.lineOf destination)) :
    selection t offset destination .character false false =
      (TextRange.between offset (destination + 1) .characterwise).within t := by
  have hend := Text.lineEnd_le_length (t.lineOf_lt destination)
  simp only [selection, TextRange.within, TextRange.between, Bool.false_eq_true, if_false,
    TextRange.mk.injEq, and_true]
  omega

end Span

namespace Operator

variable {ctx : MotionContext}

theorem range?_of_textObject {f : TextObject} {r : TextRange}
    (hlines : ctx.command.flags.linewise = false) (hinclusive : ctx.command.flags.inclusive = false)
    (hf : f ctx = some r) (operator : ActionId) :
    range? ctx operator (.textObject f) = some r := by
  rw [range?, hf, Option.map_some, rangeOfTextObject, hlines, hinclusive]
  rfl

theorem range?_of_motion {f : Motion} {destination : Nat}
    (hid : wordMotion? ctx.command.action = none) (hlines : ctx.command.flags.linewise = false)
    (hinclusive : ctx.command.flags.inclusive = true) (hf : f ctx = some destination)
    (hle : ctx.offset ≤ destination) (hlt : destination <
      ctx.text.lineEnd (ctx.text.lineOf destination)) (operator : ActionId) :
    range? ctx operator (.motion f) = some (.between ctx.offset
      (destination + 1) .characterwise) := by
  have hword : changesToWordEnd? ctx operator = none := by
    rw [changesToWordEnd?, hid]
    exact ite_self _
  rw [range?, hword, hf, Option.map_some, rangeOfMotion, hlines, hinclusive,
    if_neg Bool.false_ne_true, if_pos rfl, Nat.min_eq_left hle, Nat.max_eq_right hle,
    Span.inclusiveEnd_of_lt_lineEnd hlt]

/-! ### What operators heed -/

/-- Of a span of characters, nothing is heeded but the text, the registers and the register that is
meant. -/
def Heeds (body : Operator) : Prop :=
  ∃ edit : Text → Registers → TextRange → Option Char → OperatorEffect × Text × Registers,
    ∀ (e : Editor) (args : OperatorArgs), args.range.kind = .characterwise →
      ((body e args).1, (body e args).2.text, (body e args).2.registers) =
        edit e.text e.registers args.range args.register

theorem delete_heeds : delete.Heeds := by
  refine ⟨fun t registers r register ↦ (⟨(t.erase r.start r.stop).normalize r.start false, .normal⟩,
    t.erase r.start r.stop, registers.recordDelete register
      ⟨t.slice r.start r.stop, .characterwise⟩), ?_⟩
  rintro e ⟨caret, ⟨start, stop, kind, hle⟩, register, count⟩ hkind
  obtain rfl : kind = .characterwise := hkind
  rfl

theorem change_heeds : change.Heeds := by
  refine ⟨fun t registers r register ↦ (⟨(t.erase r.start r.stop).normalize r.start true, .insert⟩,
    t.erase r.start r.stop, registers.recordDelete register
      ⟨t.slice r.start r.stop, .characterwise⟩), ?_⟩
  rintro e ⟨caret, ⟨start, stop, kind, hle⟩, register, count⟩ hkind
  obtain rfl : kind = .characterwise := hkind
  rfl

theorem yank_heeds : yank.Heeds := by
  refine ⟨fun t registers r register ↦ (⟨t.normalize r.start false, .normal⟩, t,
    registers.recordYank register ⟨t.slice r.start r.stop, .characterwise⟩), ?_⟩
  rintro e ⟨caret, ⟨start, stop, kind, hle⟩, register, count⟩ hkind
  obtain rfl : kind = .characterwise := hkind
  rfl

theorem mapCase_heeds (f : Char → List Char) : (mapCase f).Heeds := by
  refine ⟨fun t registers r _ ↦
    let mapped := if (t.slice r.start r.stop).flatMap f = t.slice r.start r.stop then t
      else (t.erase r.start r.stop).insert r.start ((t.slice r.start r.stop).flatMap f)
    (⟨mapped.normalize r.start false, .normal⟩, mapped, registers), ?_⟩
  rintro e ⟨caret, ⟨start, stop, kind, hle⟩, register, count⟩ hkind
  obtain rfl : kind = .characterwise := hkind
  have hmapped : (mapChars f e start stop).text =
      (if (e.text.slice start stop).flatMap f = e.text.slice start stop then e.text
        else (e.text.erase start stop).insert start ((e.text.slice start stop).flatMap f)) ∧
      (mapChars f e start stop).registers = e.registers := by
    unfold mapChars
    dsimp only
    split <;> exact ⟨rfl, rfl⟩
  dsimp only
  rw [← hmapped.1, ← hmapped.2]
  rfl

end Operator

end ModalEdit
