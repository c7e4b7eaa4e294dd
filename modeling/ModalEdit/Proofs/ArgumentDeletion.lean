import ModalEdit.Proofs.CallArguments
import ModalEdit.Proofs.ObjectCommands

/-!
Deleting around the arguments of a call. An argument behind others is taken with the comma before it and
the first one with the comma behind it, so what is left of the list joins up. Further arguments that are
counted are all taken with the comma before them, which for the second one has gone with the first: from
the first argument on, a count above one leaves the comma behind the last one that it takes
(`TextObject.Call.IsWritten.around_later`, `TextObject.Call.IsWritten.around_first`). Typed behind `d` this
leaves the other arguments, and an empty one before them in just that case
(`Session.around_arguments_deleted`).
-/

set_option autoImplicit false
set_option relaxedAutoImplicit false

namespace ModalEdit

/-- A part taken out of the middle. -/
theorem Text.erase_middle (u v w : Text) :
    (u ++ (v ++ w)).erase u.length (u.length + v.length) = u ++ w := by
  have hle : u.length ≤ u.length + v.length := Nat.le_add_right _ _
  rw [erase, Nat.min_eq_left hle, Nat.max_eq_right hle, List.take_left, ← List.drop_drop, List.drop_left,
    List.drop_left]

/-- A span can be deleted, and this is what it leaves. -/
structure TextRange.Leaves (r : TextRange) (t rest : Text) : Prop where
  kind : r.kind = .characterwise
  within : r.stop ≤ t.length
  erase : t.erase r.start r.stop = rest

/-- An object that covers the middle of a text leaves the parts on its sides. -/
theorem TextObject.exists_argumentRange {t u v w : Text} {offset m first : Nat} {b : ArgumentBounds}
    (htext : t = u ++ (v ++ w)) (hbounds : boundsAt? t offset = some b)
    (houter : b.outer t = ((u.length : Int), (first : Int)))
    (hstop : lastArgumentEnd? t false m first = some ((u.length + v.length : Nat) : Int)) :
    ∃ r, argumentRange t offset (m + 1) false = some r ∧ r.Leaves t (u ++ w) := by
  have hcount : max (m + 1) 1 - 1 = m := Nat.sub_eq_of_eq_add (Nat.max_eq_left (Nat.succ_pos m))
  have hle : u.length ≤ u.length + v.length := Nat.le_add_right _ _
  refine ⟨_, argumentRange_of_bounds hbounds houter (hcount.symm ▸ hstop) hle, rfl, ?_, ?_⟩
  · rw [htext]
    simp only [TextRange.between, List.length_append]
    omega
  · show t.erase (min u.length (u.length + v.length)) (max u.length (u.length + v.length)) = u ++ w
    rw [Nat.min_eq_left hle, Nat.max_eq_right hle, htext, Text.erase_middle]

namespace TextObject.Call

/-! ### The span -/

section Span

variable {c : Call} {a : CallArgument} {front back : List CallArgument}

theorem backText_append (back others : List CallArgument) :
    backText (back ++ others) = backText back ++ backText others := List.flatMap_append

theorem listText_append_of_ne_nil (hne : front ≠ []) (back : List CallArgument) :
    listText (front ++ back) = listText front ++ backText back := by
  obtain ⟨first, rest, rfl⟩ := List.exists_cons_of_ne_nil hne
  rw [List.cons_append, listText_cons, listText_cons, backText_append, List.append_assoc]

theorem frontText_of_ne_nil (hne : front ≠ []) : frontText front = listText front ++ [','] := by
  induction front with
  | nil => exact absurd rfl hne
  | cons first rest ih =>
    rw [frontText_cons, listText_cons]
    cases rest with
    | nil => rw [backText, List.flatMap_nil, List.append_nil]; rfl
    | cons next rest =>
      rw [ih (List.cons_ne_nil _ _), listText_cons, backText_cons]
      simp only [List.append_assoc, List.cons_append]

/-- What comes before the list. -/
def opening (c : Call) : Text := c.before ++ (c.name ++ ['('])

/-- The text with something else between the brackets. -/
def withList (c : Call) (list : Text) : Text := c.opening ++ (list ++ ')' :: c.after)

theorem text_eq (c : Call) : c.text = c.withList (listText c.args) := by
  simp only [text, withList, opening, List.append_assoc, List.cons_append, List.nil_append]

theorem length_opening (c : Call) : c.opening.length = c.bracket + 1 := by
  simp only [opening, bracket, List.length_append, List.length_singleton]
  omega

/-- Where the last of some arguments that follow each other ends. -/
theorem argumentStop_last (hargs : c.args = front ++ a :: back) (m : Nat) :
    c.argumentStop (min (front.length + m) (front.length + back.length)) =
      c.bracket + 1 + (listText (front ++ a :: back.take m)).length := by
  have hmin : min (front.length + m) (front.length + back.length) + 1 - front.length =
      min m back.length + 1 := by omega
  rw [argumentStop, hargs, List.take_append, List.take_of_length_le (by omega), hmin,
    List.take_succ_cons, ← List.take_eq_take_min]

variable (hc : c.IsWritten)
include hc

/-- From an argument behind others on, the arguments are taken with the commas before them. -/
theorem IsWritten.around_later (hargs : c.args = front ++ a :: back) (hfront : front ≠ []) {j : Nat}
    (hj : j < a.head.length) (m : Nat) :
    ∃ r, argumentRange c.text (c.argumentStart front.length + j : Nat) (m + 1) false = some r ∧
      r.Leaves c.text (c.withList (listText (front ++ back.drop m))) := by
  have hcomma : charAtInt c.text (c.bracket + (frontText front).length) = ',' := by
    rw [(hc.callAt_cut hargs (List.append_nil a.written).symm).charAtInt_left
      (isFront_frontText (hc.split hargs).1), if_neg]
    rw [frontText_of_ne_nil hfront]
    exact List.append_ne_nil_of_right_ne_nil _ (List.cons_ne_nil _ _)
  have hstart : (c.bracket + (frontText front).length : Int) = (c.opening ++ listText front).length := by
    rw [frontText_of_ne_nil hfront, List.length_append, List.length_append, length_opening]
    push_cast
    rw [List.length_singleton]
    omega
  have hend : c.argumentStop (min (front.length + m) (front.length + back.length)) =
      (c.opening ++ listText front).length + (backText (a :: back.take m)).length := by
    rw [argumentStop_last hargs, listText_append_of_ne_nil hfront, List.length_append,
      List.length_append, length_opening]
    omega
  have hback : backText (a :: back) = backText (a :: back.take m) ++ backText (back.drop m) := by
    rw [← backText_append, List.cons_append, List.take_append_drop]
  have htext : c.text = (c.opening ++ listText front) ++ (backText (a :: back.take m) ++
      (backText (back.drop m) ++ ')' :: c.after)) := by
    rw [text_eq, hargs, listText_append_of_ne_nil hfront, hback]
    simp only [withList, List.append_assoc]
  have hleft : c.withList (listText (front ++ back.drop m)) =
      (c.opening ++ listText front) ++ (backText (back.drop m) ++ ')' :: c.after) := by
    rw [listText_append_of_ne_nil hfront]
    simp only [withList, List.append_assoc]
  have hstop := hc.lastArgumentEnd? hargs false m
  rw [hend] at hstop
  rw [hleft]
  exact exists_argumentRange htext (hc.boundsAt?_head hargs hj)
    ((if_pos hcomma).trans (Prod.ext hstart rfl)) hstop

section First

variable {b : CallArgument} {others : List CallArgument} {j : Nat}

omit hc in
theorem argumentStop_zero (hargs : c.args = a :: back) :
    c.argumentStop 0 = c.opening.length + a.written.length := by
  have hfirst : c.args = [] ++ a :: back := hargs
  rw [length_opening]
  exact argumentStop_eq hfirst

/-- The bracket is no comma, and the list begins behind it. -/
theorem IsWritten.opening_bounds (hargs : c.args = a :: back) (hj : j < a.head.length) :
    ∃ left, TextObject.boundsAt? c.text (c.argumentStart 0 + j : Nat) =
        some ⟨left, c.argumentStop 0, c.argumentStop 0 + (backText back).length⟩ ∧
      charAtInt c.text left ≠ ',' ∧ left + 1 = c.opening.length := by
  have hfirst : c.args = [] ++ a :: back := hargs
  have hbounds := hc.boundsAt?_head hfirst hj
  refine ⟨_, hbounds, ?_, ?_⟩
  · rw [(hc.callAt_cut hfirst (List.append_nil a.written).symm).charAtInt_left
      (isFront_frontText (hc.split hfirst).1), if_pos (show frontText [] = [] from rfl)]
    decide
  · rw [length_opening]
    rfl

theorem IsWritten.around_only (hargs : c.args = [a]) (hj : j < a.head.length) (m : Nat) :
    ∃ r, argumentRange c.text (c.argumentStart 0 + j : Nat) (m + 1) false = some r ∧
      r.Leaves c.text (c.withList []) := by
  have hfirst : c.args = [] ++ [a] := hargs
  obtain ⟨left, hbounds, hleft, hstart⟩ := hc.opening_bounds hargs hj
  have htext : c.text = c.opening ++ (a.written ++ ')' :: c.after) := by
    rw [text_eq, hargs, listText_cons, withList, List.append_assoc]
    rfl
  have hlast : ¬((c.argumentStop 0 + 1 : Int) < c.argumentStop 0 + (backText []).length) := by
    show ¬((c.argumentStop 0 + 1 : Int) < c.argumentStop 0 + (0 : Nat))
    omega
  have hstop : TextObject.lastArgumentEnd? c.text false m (c.argumentStop 0) =
      some ((c.argumentStop (min (0 + m) 0) : Nat) : Int) := hc.lastArgumentEnd? hfirst false m
  rw [Nat.min_zero, argumentStop_zero hargs] at hstop
  refine exists_argumentRange htext hbounds ?_ hstop
  rw [ArgumentBounds.outer, if_neg hleft, if_neg fun hmore ↦ hlast hmore.1]
  exact Prod.ext hstart (congrArg Nat.cast (argumentStop_zero hargs))

variable (hargs : c.args = a :: b :: others)
include hargs

omit hc in
theorem argumentStop_zero_eq : c.argumentStop 0 = c.bracket + (frontText [a]).length :=
  argumentStop_eq_add_frontText (show c.args = [] ++ a :: b :: others from hargs)

omit hc in
theorem argumentStart_one : c.argumentStart 1 = c.argumentStop 0 + 1 + b.blanks := by
  have hstart : c.argumentStart 1 = c.bracket + 1 + (frontText [a]).length + b.blanks :=
    argumentStart_eq (show c.args = [a] ++ b :: others from hargs)
  have hstop := argumentStop_zero_eq hargs
  omega

theorem IsWritten.first_comma : charAtInt c.text (c.argumentStop 0) = ',' := by
  have hcomma := hc.charAtInt_comma (show c.args = [] ++ a :: b :: others from hargs)
  exact hcomma

/-- The first of several arguments is taken with its comma and the blanks behind that. -/
theorem IsWritten.outer_first {left : Int} (hleft : charAtInt c.text left ≠ ',')
    (hstart : left + 1 = c.opening.length) :
    ArgumentBounds.outer c.text
        ⟨left, c.argumentStop 0, c.argumentStop 0 + (backText (b :: others)).length⟩ =
      ((c.opening.length : Int), (c.argumentStart 1 : Int)) := by
  have hsecond : c.args = [a] ++ b :: others := hargs
  have hblanks := argumentStart_one hargs
  have hlength : (backText (b :: others)).length =
      1 + b.blanks + b.text.length + (backText others).length := by
    rw [backText_cons, CallArgument.written]
    simp only [List.length_cons, List.length_append, List.length_replicate]
    omega
  have hpos := List.length_pos_of_ne_nil (hc.split hsecond).2.1.text_ne_nil
  have hscan := hc.scanAhead_blanks hsecond
    (show (c.argumentStart 1 : Int) ≤ c.argumentStop 0 + (backText (b :: others)).length - 1 by omega)
  rw [← Int.natCast_add, ← argumentStop_zero_eq hargs] at hscan
  have hmore : (c.argumentStop 0 + 1 : Int) < c.argumentStop 0 + (backText (b :: others)).length := by
    omega
  rw [ArgumentBounds.outer, if_neg hleft, if_pos ⟨hmore, hc.first_comma hargs⟩, hscan]
  exact Prod.ext hstart rfl

theorem IsWritten.around_first_alone (hj : j < a.head.length) :
    ∃ r, argumentRange c.text (c.argumentStart 0 + j : Nat) 1 false = some r ∧
      r.Leaves c.text (c.withList (listText ({ b with blanks := 0 } :: others))) := by
  obtain ⟨left, hbounds, hleft, hstart⟩ := hc.opening_bounds hargs hj
  have htext : c.text = c.opening ++ ((a.written ++ ',' :: List.replicate b.blanks ' ') ++
      (listText ({ b with blanks := 0 } :: others) ++ ')' :: c.after)) := by
    rw [text_eq, hargs, listText_cons, backText_cons, listText_cons]
    simp only [withList, CallArgument.written, List.replicate_zero, List.nil_append, List.append_assoc,
      List.cons_append]
    rfl
  refine exists_argumentRange htext hbounds (hc.outer_first hargs hleft hstart)
    (congrArg (some ∘ Nat.cast) ?_)
  rw [argumentStart_one hargs, argumentStop_zero hargs]
  simp only [List.length_append, List.length_cons, List.length_replicate]
  omega

/-- Further arguments leave the comma behind the last of them. -/
theorem IsWritten.around_first_further (hj : j < a.head.length) (m : Nat) :
    ∃ r, argumentRange c.text (c.argumentStart 0 + j : Nat) (m + 2) false = some r ∧
      r.Leaves c.text (c.withList (backText (others.drop m))) := by
  have hsecond : c.args = [a] ++ b :: others := hargs
  obtain ⟨left, hbounds, hleft, hstart⟩ := hc.opening_bounds hargs hj
  have hback : backText (b :: others) = backText (b :: others.take m) ++ backText (others.drop m) := by
    rw [← backText_append, List.cons_append, List.take_append_drop]
  have htext : c.text = c.opening ++ ((a.written ++ backText (b :: others.take m)) ++
      (backText (others.drop m) ++ ')' :: c.after)) := by
    rw [text_eq, hargs, listText_cons, hback]
    simp only [withList, List.append_assoc]
  have hend := argumentStop_last hsecond m
  rw [List.singleton_append, listText_cons, ← length_opening c] at hend
  have hcomma := hc.first_comma hargs
  rw [argumentStop_zero_eq hargs, Int.natCast_add] at hcomma
  have hturn := hc.boundsAt?_head hsecond (List.length_pos_of_ne_nil (hc.split hsecond).2.1.head.ne_nil)
  rw [Nat.add_zero, List.length_singleton] at hturn
  have hstop : TextObject.lastArgumentEnd? c.text false m (c.argumentStop 1) =
      some ((c.argumentStop (min (1 + m) (1 + others.length)) : Nat) : Int) :=
    hc.lastArgumentEnd? hsecond false m
  refine exists_argumentRange htext hbounds (hc.outer_first hargs hleft hstart) ?_
  rw [lastArgumentEnd?_succ hturn (.inl hcomma), hstop]
  exact congrArg (some ∘ Nat.cast) hend

end First

end Span

/-! ### Lists with a blank behind each comma -/

/-- Behind each comma of the list there is one blank. -/
def IsSpaced : List CallArgument → Prop
  | [] => True
  | a :: back => a.blanks = 0 ∧ ∀ b ∈ back, b.blanks = 1

/-- The text with such a list. -/
def joined (c : Call) (args : List Text) : Text := c.withList ([',', ' '].intercalate args)

section Spaced

variable {c : Call} {a : CallArgument} {front back : List CallArgument}

theorem backText_spaced (h : ∀ b ∈ back, b.blanks = 1) (first : Text) :
    first ++ backText back = [',', ' '].intercalate (first :: back.map CallArgument.text) := by
  induction back generalizing first with
  | nil => rw [List.map_nil, List.intercalate_singleton, backText, List.flatMap_nil, List.append_nil]
  | cons b back ih =>
    obtain ⟨hblank, hback⟩ := List.forall_mem_cons.mp h
    rw [List.map_cons, List.intercalate_cons_cons, ← ih hback, backText_cons, CallArgument.written, hblank]
    simp only [List.replicate_one, List.append_assoc, List.cons_append, List.nil_append]

theorem listText_spaced {args : List CallArgument} (h : IsSpaced args) :
    listText args = [',', ' '].intercalate (args.map CallArgument.text) := by
  cases args with
  | nil => rfl
  | cons a back =>
    rw [listText_cons, CallArgument.written, h.1, List.replicate_zero, List.nil_append, backText_spaced h.2,
      List.map_cons]

theorem IsSpaced.text (h : IsSpaced c.args) : c.text = c.joined (c.args.map CallArgument.text) := by
  rw [text_eq, listText_spaced h, joined]

theorem length_joined_cons_nil (c : Call) {args : List Text} (hne : args ≠ []) :
    (c.joined ([] :: args)).length = (c.joined args).length + 2 := by
  obtain ⟨first, rest, rfl⟩ := List.exists_cons_of_ne_nil hne
  simp only [joined, withList, List.intercalate_cons_cons, List.length_append, List.length_cons,
    List.length_nil]
  omega

/-- The arguments that are left when some are taken, from one on. -/
def argumentsLeft (c : Call) (i n : Nat) : List Text :=
  (c.args.take i ++ c.args.drop (i + n)).map CallArgument.text

/-- Several arguments but not all are taken, from the first one on. -/
def Dangles (c : Call) (i n : Nat) : Prop := i = 0 ∧ 1 < n ∧ n < c.args.length

instance (c : Call) (i n : Nat) : Decidable (c.Dangles i n) := inferInstanceAs (Decidable (_ ∧ _ ∧ _))

/-- What counted arguments leave, when they are taken with the delimiters of the object: the others, behind
an empty one if the count dangles. -/
def aroundLeft (c : Call) (i n : Nat) : List Text :=
  if c.Dangles i n then [] :: c.argumentsLeft i n else c.argumentsLeft i n

theorem joined_aroundLeft_iff (c : Call) (i n : Nat) :
    c.joined (c.aroundLeft i n) = c.joined (c.argumentsLeft i n) ↔ ¬c.Dangles i n := by
  by_cases hdangles : c.Dangles i n
  · have hne : c.argumentsLeft i n ≠ [] := by
      refine List.ne_nil_of_length_pos ?_
      obtain ⟨rfl, -, hlt⟩ := hdangles
      rw [argumentsLeft, List.length_map, List.take_zero, List.nil_append, List.length_drop]
      omega
    rw [aroundLeft, if_pos hdangles]
    refine iff_of_false (fun heq ↦ ?_) (not_not_intro hdangles)
    have hlength := length_joined_cons_nil c hne
    rw [heq] at hlength
    omega
  · rw [aroundLeft, if_neg hdangles]
    exact iff_of_true rfl hdangles

variable (hc : c.IsWritten) (hspaced : IsSpaced c.args)
include hc hspaced

theorem IsWritten.around_first_spaced (hargs : c.args = a :: back) {j : Nat} (hj : j < a.head.length)
    (m : Nat) :
    ∃ r, argumentRange c.text (c.argumentStart 0 + j : Nat) (m + 1) false = some r ∧
      r.Leaves c.text (c.joined (c.aroundLeft 0 (m + 1))) := by
  have hblanks : ∀ b ∈ back, b.blanks = 1 := by
    rw [hargs] at hspaced
    exact hspaced.2
  have hleft : c.argumentsLeft 0 (m + 1) = (back.drop m).map CallArgument.text := by
    rw [argumentsLeft, hargs, List.take_zero, List.nil_append, Nat.zero_add, List.drop_succ_cons]
  rw [aroundLeft, hleft]
  cases back with
  | nil =>
    rw [if_neg fun h ↦ absurd h.2.2 (by rw [hargs, List.length_singleton]; omega), List.drop_nil]
    exact hc.around_only hargs hj m
  | cons b others =>
    obtain ⟨-, hothers⟩ := List.forall_mem_cons.mp hblanks
    cases m with
    | zero =>
      have hlist : listText ({ b with blanks := 0 } :: others) = _ := listText_spaced ⟨rfl, hothers⟩
      rw [if_neg fun h ↦ absurd h.2.1 (Nat.lt_irrefl 1), joined, List.drop_zero]
      have hrange := hc.around_first_alone hargs hj
      rw [hlist] at hrange
      exact hrange
    | succ m =>
      have hrange := hc.around_first_further hargs hj m
      have hlist := backText_spaced (fun b hb ↦ hothers b (List.mem_of_mem_drop (i := m) hb)) []
      rw [List.nil_append] at hlist
      have hdangles : c.Dangles 0 (m + 2) ↔ m < others.length := by
        rw [Dangles, hargs, List.length_cons, List.length_cons]
        omega
      rw [List.drop_succ_cons]
      split
      case isTrue => rwa [hlist] at hrange
      case isFalse hnone =>
        rw [List.drop_eq_nil_of_le (Nat.le_of_not_lt (mt hdangles.mpr hnone))] at hrange ⊢
        exact hrange

theorem IsWritten.around_spaced {i j : Nat} (ha : c.args[i]? = some a) (hj : j < a.head.length) (m : Nat) :
    ∃ r, argumentRange c.text (c.argumentStart i + j : Nat) (m + 1) false = some r ∧
      r.Leaves c.text (c.joined (c.aroundLeft i (m + 1))) := by
  obtain ⟨hi, hget⟩ := List.getElem?_eq_some_iff.mp ha
  have hargs : c.args = c.args.take i ++ a :: c.args.drop (i + 1) := by
    rw [← hget, ← List.drop_eq_getElem_cons hi, List.take_append_drop]
  cases i with
  | zero => exact hc.around_first_spaced hspaced hargs hj m
  | succ i =>
    have hfront : (c.args.take (i + 1)).length = i + 1 := List.length_take_of_le (Nat.le_of_lt hi)
    have hrange := hc.around_later hargs (List.ne_nil_of_length_pos (by omega)) hj m
    have hleft : IsSpaced (c.args.take (i + 1) ++ c.args.drop (i + 1 + (m + 1))) := by
      cases hcut : c.args with
      | nil => rw [hcut] at hi; cases hi
      | cons first rest =>
        rw [hcut] at hspaced
        refine ⟨hspaced.1, fun b hb ↦ hspaced.2 b ?_⟩
        rw [show i + 1 + (m + 1) = (i + (m + 1)) + 1 by omega, List.drop_succ_cons] at hb
        exact (List.mem_append.mp hb).elim List.mem_of_mem_take List.mem_of_mem_drop
    have hdrop : (c.args.drop (i + 1 + 1)).drop m = c.args.drop (i + 1 + (m + 1)) := by
      rw [List.drop_drop]
      congr 1
      omega
    rw [hfront, hdrop, listText_spaced hleft] at hrange
    rw [aroundLeft, if_neg fun h ↦ Nat.succ_ne_zero i h.1]
    exact hrange

end Spaced

end TextObject.Call

namespace Session

open Keymap.Default (typed)
open TextObject (Call CallArgument)

variable {s : Session} {caret : CaretId} {c : Call} {a : CallArgument} {i j : Nat}

theorem arguments_bound (hkeymap : s.keymap = .standard) (hregistry : s.registry = .standard) :
    (TextObject.argument false).Bound (typed "aa") "argument.around" s.keymap s.registry := by
  have hmem : Builtin.textObject "argument.around" (TextObject.argument false) ∈
      Extension.arguments.actions :=
    List.mem_cons_of_mem _ List.mem_cons_self
  have hall : Builtin.textObject "argument.around" (TextObject.argument false) ∈
      Builtin.actions ++ Extension.all.flatMap (·.actions) :=
    List.mem_append_right _ (List.mem_flatMap.mpr ⟨_, List.mem_cons_of_mem _ List.mem_cons_self, hmem⟩)
  have hget : Registry.standard.get? "argument.around" =
      some (Builtin.textObject "argument.around" (TextObject.argument false)) :=
    Registry.ofList_get?_of_mem (a := Builtin.textObject "argument.around" (TextObject.argument false))
      (by decide +kernel) hall
  rw [hkeymap, hregistry]
  exact ⟨by decide +kernel, by decide +kernel, by decide +kernel, hget⟩

section Deletion

variable (h : s.ReadsCommands) (hkeymap : s.keymap = .standard) (hregistry : s.registry = .standard)
  (hc : c.IsWritten) (hspaced : Call.IsSpaced c.args)
  (hjoined : s.editor.text = c.joined (c.args.map CallArgument.text))
  (ha : c.args[i]? = some a) (hj : j < a.head.length) (hlone : s.edit.Lone caret (c.argumentStart i + j))
include h hkeymap hregistry hc hspaced hjoined ha hj hlone

theorem exists_arguments_deleted (count : TypedCount) :
    ∃ after : Session, s.handleAll (count.strokes ++ typed "daa") = (.executed, after) ∧
      after.editor.text = c.joined (c.aroundLeft i count.limited) := by
  obtain ⟨m, hm⟩ : ∃ m, count.limited = m + 1 := Nat.exists_eq_add_one.mpr count.limited_pos
  have htext : s.editor.text = c.text := hjoined.trans hspaced.text.symm
  obtain ⟨r, hrange, hleaves⟩ := hc.around_spaced hspaced ha hj m
  have hcovers (ctx : MotionContext) (hctx : ctx.text = s.editor.text)
      (hoffset : ctx.offset = c.argumentStart i + j) (hcount : ctx.count = count.limited) :
      TextObject.argument false ctx = some r := by
    rw [TextObject.argument, hctx, htext, hoffset, hcount, hm, hrange]
  obtain ⟨after, hrun, hafter⟩ := h.deletes_object hlone (arguments_bound hkeymap hregistry) count
    hcovers hleaves.kind (htext ▸ hleaves.within)
  refine ⟨{ s with resolver := {}, edit := after }, ?_, ?_⟩
  · rw [← hrun, List.append_assoc]
    rfl
  · rw [hm, ← hleaves.erase, ← htext]
    exact hafter

/-- With one caret on the name of an argument, deleting around arguments takes as many as are counted from
the list. The others are left as a list, behind an empty argument if the count dangles. -/
theorem around_arguments_deleted (count : TypedCount) :
    let n := count.limited
    ∃ after : Session, s.handleAll (count.strokes ++ typed "daa") = (.executed, after) ∧
      after.editor.text = c.joined (c.aroundLeft i n) ∧
      (after.editor.text = c.joined (c.argumentsLeft i n) ↔ ¬c.Dangles i n) := by
  intro n
  obtain ⟨after, hrun, hafter⟩ :=
    exists_arguments_deleted h hkeymap hregistry hc hspaced hjoined ha hj hlone count
  exact ⟨after, hrun, hafter, by rw [hafter, Call.joined_aroundLeft_iff]⟩

end Deletion

theorem withCaret_bindings (t : Text) (offset : Nat) :
    (withCaret t offset).keymap = .standard ∧ (withCaret t offset).registry = .standard := by
  unfold withCaret
  exact ⟨by with_reducible rfl, by with_reducible rfl⟩

/-- A call of names behind a line feed. -/
def calledWith (names : List String) : Call where
  before := ['\n']
  name := ['f']
  args := names.mapIdx fun i name ↦ ⟨min i 1, name.toList, none⟩
  after := ['\n']

theorem calledWith_written {names : List String} (hnames : ∀ name ∈ names, TextObject.IsName name.toList) :
    (calledWith names).IsWritten where
  before_feed := rfl
  before_unquoted := List.forall_mem_singleton.mpr (by decide)
  name := show TextObject.IsName ['f'] by decide
  args b hb := by
    obtain ⟨i, hi, rfl⟩ := List.mem_mapIdx.mp hb
    exact ⟨hnames _ (List.getElem_mem hi), fun inner hinner ↦ nomatch hinner⟩
  after := List.cons_ne_nil _ _

theorem calledWith_spaced (names : List String) : Call.IsSpaced (calledWith names).args := by
  cases names with
  | nil => trivial
  | cons first rest =>
    rw [calledWith, List.mapIdx_cons]
    refine ⟨rfl, fun b hb ↦ ?_⟩
    obtain ⟨i, -, rfl⟩ := List.mem_mapIdx.mp hb
    exact Nat.min_eq_right (Nat.succ_pos i)

/-- The second and the third of four arguments. -/
theorem inner_arguments_deleted :
    let c := calledWith ["a", "bc", "d", "e"]
    let s := withCaret c.text 7
    let count : TypedCount := { digits := [2] }
    s.ReadsCommands ∧ s.keymap = .standard ∧ s.registry = .standard ∧ c.IsWritten ∧
      Call.IsSpaced c.args ∧ s.editor.text = c.joined (c.args.map CallArgument.text) ∧
      c.args[1]? = some ⟨1, "bc".toList, none⟩ ∧
      1 < "bc".toList.length ∧ s.edit.Lone ⟨0⟩ (c.argumentStart 1 + 1) ∧
      c.text = "\nf(a, bc, d, e)\n".toList ∧
      ∃ after : Session, s.handleAll (count.strokes ++ typed "daa") = (.executed, after) ∧
        after.editor.text = "\nf(a, e)\n".toList := by
  intro c s count
  have hreads : s.ReadsCommands := withCaret_readsCommands c.text 7
  have hwritten : c.IsWritten := calledWith_written (by decide)
  have hspaced : Call.IsSpaced c.args := calledWith_spaced _
  have hlone : s.edit.Lone ⟨0⟩ (c.argumentStart 1 + 1) := withCaret_lone (by decide)
  obtain ⟨hkeymap, hregistry⟩ := withCaret_bindings c.text 7
  obtain ⟨after, hrun, hafter, -⟩ := around_arguments_deleted hreads hkeymap hregistry hwritten
    hspaced hspaced.text (a := ⟨1, "bc".toList, none⟩) rfl (by decide) hlone count
  exact ⟨hreads, hkeymap, hregistry, hwritten, hspaced, hspaced.text, rfl, by decide, hlone,
    by decide +kernel, after, hrun, hafter.trans (by decide +kernel)⟩

/-- From the first argument on, a count that leaves the third leaves the comma before it too. -/
theorem first_arguments_leave_comma :
    let c := calledWith ["a", "b", "c"]
    let count : TypedCount := { digits := [2] }
    c.text = "\nf(a, b, c)\n".toList ∧ c.joined (c.argumentsLeft 0 2) = "\nf(c)\n".toList ∧
      ∃ after : Session,
        (withCaret c.text 3).handleAll (count.strokes ++ typed "daa") = (.executed, after) ∧
        after.editor.text = "\nf(, c)\n".toList ∧
        after.editor.text ≠ c.joined (c.argumentsLeft 0 2) := by
  intro c count
  have hwritten : c.IsWritten := calledWith_written (by decide)
  have hspaced : Call.IsSpaced c.args := calledWith_spaced _
  have hlone : (withCaret c.text 3).edit.Lone ⟨0⟩ (c.argumentStart 0 + 0) := withCaret_lone (by decide)
  obtain ⟨hkeymap, hregistry⟩ := withCaret_bindings c.text 3
  obtain ⟨after, hrun, hafter⟩ := exists_arguments_deleted (withCaret_readsCommands c.text 3) hkeymap
    hregistry hwritten hspaced hspaced.text (a := ⟨0, "a".toList, none⟩) rfl (by decide) hlone count
  have hcomma : after.editor.text = "\nf(, c)\n".toList := hafter.trans (by decide +kernel)
  exact ⟨by decide +kernel, by decide +kernel, after, hrun, hcomma, hcomma ▸ by decide +kernel⟩

end Session

end ModalEdit
