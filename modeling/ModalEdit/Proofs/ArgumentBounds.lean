import ModalEdit.Proofs.BracketScans

/-!
The argument around two positions in the list of a call (`TextObject.CallAt`). Wherever an argument is cut
between them, the search finds the brackets of the list and the delimiters of that argument, and as a name
is before the list it ends there (`TextObject.CallAt.boundsAround?`). Without quotes up to the list it
begins at the position that it is asked for (`TextObject.CallAt.boundsAt?_eq`).
-/

set_option autoImplicit false
set_option relaxedAutoImplicit false

namespace ModalEdit.TextObject

/-! ### Scans over characters of one kind -/

section Scan

variable {t s : Text} {test : Char → Bool} {i limit floor : Int}

theorem scanAhead_of_stop (h : i < limit → test (charAtInt t i) = false) :
    scanAhead t test i limit = i := by
  rw [scanAhead, if_neg fun hgo ↦ Bool.false_ne_true ((h hgo.1).symm.trans hgo.2)]

theorem scanBack_of_stop (h : floor < i → test (charAtInt t i) = false) :
    scanBack t test i floor = i := by
  rw [scanBack, if_neg fun hgo ↦ Bool.false_ne_true ((h hgo.1).symm.trans hgo.2)]

theorem scanAhead_pass (hs : ∀ c ∈ s, test c = true) (h : Reads t i s) (hlimit : i + s.length ≤ limit) :
    scanAhead t test i limit = scanAhead t test (i + s.length) limit := by
  induction s generalizing i with
  | nil => rw [List.length_nil, Int.natCast_zero, Int.add_zero]
  | cons c s ih =>
    obtain ⟨hc, hs⟩ := List.forall_mem_cons.mp hs
    rw [behind_cons] at hlimit ⊢
    rw [scanAhead, if_pos ⟨by omega, h.head.symm ▸ hc⟩, ih hs h.tail hlimit]

theorem scanBack_pass (hs : ∀ c ∈ s, test c = true) (h : Reads t i s) (hfloor : floor < i) :
    scanBack t test (i + s.length - 1) floor = scanBack t test (i - 1) floor := by
  induction s generalizing i with
  | nil => rw [List.length_nil, Int.natCast_zero, Int.add_zero]
  | cons c s ih =>
    obtain ⟨hc, hs⟩ := List.forall_mem_cons.mp hs
    rw [behind_cons, ih hs h.tail (by omega), Int.add_sub_cancel, scanBack,
      if_pos ⟨hfloor, h.head.symm ▸ hc⟩]

end Scan

/-- Behind something else a name is found, right before a position. -/
theorem nameBefore_of_reads {t name : Text} {first : Char} {i : Int} (h : Reads t i (first :: name))
    (hfirst : isNameStart first = true)
    (hname : ∀ c ∈ first :: name, isNamePart c = true ∧ Unicode.isWhiteSpace c = false) (hi : 0 < i)
    (hbefore : isNamePart (charAtInt t (i - 1)) = false) :
    nameBefore t (i + (first :: name).length) = true := by
  have hlast : scanBack t Unicode.isWhiteSpace (i + (first :: name).length - 1) 0 =
      i + (first :: name).length - 1 := by
    refine scanBack_of_stop fun _ ↦ ?_
    have hat := h name.length (by rw [List.length_cons]; omega)
    rw [List.length_cons, Int.natCast_succ,
      show i + (name.length + 1 : Int) - 1 = i + name.length by omega, hat]
    exact (hname _ (List.getElem_mem _)).2
  have hscan : scanBack t isNamePart (i + (first :: name).length - 1) 0 = i - 1 := by
    rw [scanBack_pass (fun c hc ↦ (hname c hc).1) h hi, scanBack_of_stop fun _ ↦ hbefore]
  rw [nameBefore, hlast, hscan, Int.sub_add_cancel, h.head, hfirst, Bool.and_true, decide_eq_true_eq,
    List.length_cons]
  omega

/-- Where there are no quotes none is around. -/
theorem quotedAround?_eq_none {t : Text} {lineEnd position i : Int}
    (h : ∀ j, i ≤ j → j ≤ position → isQuote (charAtInt t j) = false) :
    quotedAround? t lineEnd position i = none := by
  fun_induction quotedAround? t lineEnd position i with
  | case1 => rfl
  | case2 i hle hquote | case3 i hle hquote =>
    cases hquote.symm.trans (h i (Int.le_refl i) (Int.not_lt.mp hle))
  | case4 i _ _ ih => exact ih fun j hj hle ↦ h j (by omega) hle

/-! ### The list of a call -/

/-- What stands in brackets, from an opening one on, is the list of a call: a name is before it, something
is behind it, and there are no quotes up to its end. -/
structure CallAt (t : Text) (opening : Int) (inside : Text) : Prop where
  reads : Reads t opening ('(' :: (inside ++ [')']))
  opening_pos : 1 ≤ opening
  close_lt : opening + 1 + inside.length + 1 < t.length
  named : nameBefore t opening = true
  unquoted : ∀ j : Int, 0 ≤ j → j ≤ opening + 1 + inside.length → isQuote (charAtInt t j) = false

/-- Some arguments with the commas behind them. -/
structure IsFront (front : Text) : Prop where
  balanced : Balanced front
  comma : ∀ c ∈ front.getLast?, c = ','

/-- Some arguments with the commas before them. -/
structure IsBack (back : Text) : Prop where
  balanced : Balanced back
  comma : ∀ c ∈ back.head?, c = ','

/-- An argument cut in two, in its list: how long the list is. -/
theorem length_cut (front u v back : Text) : (front ++ (u ++ (v ++ back))).length =
    front.length + u.length + v.length + back.length := by
  simp only [List.length_append]
  omega

namespace CallAt

variable {t inside front u v back : Text} {opening : Int}

section Cut

variable (h : CallAt t opening (front ++ (u ++ (v ++ back)))) (hfront : IsFront front) (hu : Segment u)
  (hv : Segment v) (hback : IsBack back)
include h

theorem reads_front : Reads t (opening + 1) front := by
  have hreads := h.reads.tail
  rw [List.append_assoc] at hreads
  exact hreads.left

theorem reads_u : Reads t (opening + 1 + front.length) u := by
  have hreads := h.reads.tail
  rw [List.append_assoc, List.append_assoc] at hreads
  exact hreads.right.left

theorem reads_v : Reads t (opening + 1 + front.length + u.length) (v ++ (back ++ [')'])) := by
  have hreads := h.reads.tail
  rw [List.append_assoc, List.append_assoc, List.append_assoc] at hreads
  exact hreads.right.right

theorem charAtInt_close :
    charAtInt t (opening + 1 + front.length + u.length + v.length + back.length) = ')' :=
  h.reads_v.right.right.head

include hfront

/-- Right before the argument is a comma, or the bracket of the list. -/
theorem charAtInt_left : charAtInt t (opening + front.length) = if front = [] then '(' else ',' := by
  cases List.eq_nil_or_concat front with
  | inl hnil =>
    subst hnil
    rw [if_pos rfl, List.length_nil, Int.natCast_zero, Int.add_zero]
    exact h.reads.head
  | inr hconcat =>
    obtain ⟨others, last, rfl⟩ := hconcat
    rw [List.concat_eq_append] at h hfront ⊢
    have hcomma := hfront.comma last List.getLast?_concat
    have hreads : Reads t (opening + 1 + others.length) [last] := h.reads_front.right
    rw [if_neg (List.append_ne_nil_of_right_ne_nil _ (List.cons_ne_nil _ _)), List.length_append,
      List.length_singleton, ← hcomma, ← hreads.head]
    congr 1
    omega

include hu hv hback

/-- The brackets around two positions next to each other, between which an argument is cut. -/
theorem outerBrackets? : TextObject.outerBrackets? t (opening + front.length + u.length)
    (opening + 1 + front.length + u.length) =
      some (opening, opening + 1 + front.length + u.length + v.length + back.length) := by
  have hpos := h.opening_pos
  have hlt := h.close_lt
  rw [length_cut] at hlt
  have hopen : openBefore? t 0 (opening + front.length + u.length) = some (.round, opening) := by
    rw [show opening + front.length + u.length = opening + 1 + front.length + u.length - 1 by omega,
      hu.balanced.openBefore? h.reads_u (by omega), hfront.balanced.openBefore? h.reads_front (by omega),
      Int.add_sub_cancel, openBefore?_opening h.reads.head (by omega)]
  have hclose : closeAfter? t (t.length - 1) (opening + 1 + front.length + u.length) =
      some (.round, opening + 1 + front.length + u.length + v.length + back.length) := by
    rw [hv.balanced.closeAfter? h.reads_v.left (by omega),
      hback.balanced.closeAfter? h.reads_v.right.left (by omega),
      closeAfter?_closing h.charAtInt_close (by omega)]
  rw [TextObject.outerBrackets?, hopen, hclose]
  show matchBrackets? t 0 _ _ _ = _
  rw [matchBrackets?, if_pos rfl]

omit hv hback in
theorem leftDelimiter :
    TextObject.leftDelimiter t opening (opening + front.length + u.length) = opening + front.length := by
  rw [show opening + front.length + u.length = opening + 1 + front.length + u.length - 1 by omega,
    hu.leftDelimiter h.reads_u (by omega),
    show opening + 1 + front.length - 1 = opening + front.length by omega]
  refine leftDelimiter_of_stop fun hlt ↦ ?_
  rw [h.charAtInt_left hfront, if_neg]
  rintro rfl
  exact absurd hlt (by simp only [List.length_nil]; omega)

omit hfront hu in
theorem rightDelimiter :
    TextObject.rightDelimiter t (opening + 1 + front.length + u.length + v.length + back.length)
      (opening + 1 + front.length + u.length) = opening + 1 + front.length + u.length + v.length := by
  rw [hv.rightDelimiter h.reads_v.left (by omega)]
  refine rightDelimiter_of_stop fun hlt ↦ ?_
  cases back with
  | nil => exact absurd hlt (by simp only [List.length_nil]; omega)
  | cons c back => rw [← hback.comma c rfl]; exact h.reads_v.right.head

/-- The delimiters of a non-empty argument, found from where it is cut. -/
theorem boundsAround? (hne : u ++ v ≠ []) :
    TextObject.boundsAround? t (opening + front.length + u.length)
        (opening + 1 + front.length + u.length) =
      some ⟨opening + front.length, opening + 1 + front.length + u.length + v.length,
        opening + 1 + front.length + u.length + v.length + back.length⟩ := by
  have hpos := h.opening_pos
  have hlt := h.close_lt
  rw [length_cut] at hlt
  have hlength : 0 < u.length + v.length := by
    rw [← List.length_append]
    exact List.length_pos_of_ne_nil hne
  have hcall : charAtInt t (opening + front.length) = ',' ∨
      nameBefore t (opening + front.length) = true := by
    rw [h.charAtInt_left hfront]
    split
    case isTrue hnil =>
      rw [hnil, List.length_nil, Int.natCast_zero, Int.add_zero]
      exact .inr h.named
    case isFalse => exact .inl rfl
  rw [TextObject.boundsAround?, h.outerBrackets? hfront hu hv hback]
  dsimp only
  rw [h.leftDelimiter hfront hu, h.rightDelimiter hv hback, if_neg (by omega), if_neg]
  rintro hwiden
  obtain hcomma | hnamed := hcall
  · rw [hcomma] at hwiden
    exact Bool.false_ne_true hwiden
  · rw [hnamed, Bool.not_true, Bool.and_false] at hwiden
    exact Bool.false_ne_true hwiden

end Cut

/-- The search in the list begins at the position that it is asked for, or right before it at a closing
bracket. -/
theorem boundsAt?_eq (h : CallAt t opening inside) {i : Nat}
    (hi : (i : Int) ≤ opening + 1 + inside.length) :
    TextObject.boundsAt? t i =
      if Bracket.ofClosing? (charAtInt t i) = none then TextObject.boundsAround? t i (i + 1)
      else TextObject.boundsAround? t (i - 1) i := by
  have hquoted : quotedAround? t (t.lineEnd (t.lineOf i)) i (t.lineStart (t.lineOf i)) = none :=
    quotedAround?_eq_none fun j hj hle ↦ h.unquoted j (by omega) (by omega)
  simp only [TextObject.boundsAt?, Int.toNat_natCast, hquoted]
  cases Bracket.ofClosing? (charAtInt t i) with
  | none => rw [if_pos rfl]
  | some => rw [if_neg (Option.some_ne_none _)]

end CallAt

end ModalEdit.TextObject
