import ModalEdit.Proofs.BracketScans

/-!
How far a scan may go. A scan towards the start takes a floor, one towards the end a limit. Of quoted text
that is skipped the two are told apart at its end only (`TextObject.openingQuote_raise`,
`TextObject.closingQuote_lower`). What is closed within a floor is closed within a higher one, if the
character in between opens nothing (`TextObject.closeBack?_raise`), and so an open bracket is found, or
none, within both (`TextObject.openBefore?_raise`). Towards the end it is the characters that close nothing
which a limit may leave out (`TextObject.closeAhead?_lower`, `TextObject.closeAfter?_lower`).
-/

set_option autoImplicit false
set_option relaxedAutoImplicit false

namespace ModalEdit.TextObject

/-! ### Scans over characters of one kind -/

section Scan

variable {t : Text} {floor floor' i : Int}

theorem scanBack_le (t : Text) (test : Char → Bool) (i floor : Int) : scanBack t test i floor ≤ i := by
  fun_induction scanBack t test i floor <;> omega

theorem le_scanBack (t : Text) (test : Char → Bool) (hi : floor ≤ i) : floor ≤ scanBack t test i floor := by
  fun_induction scanBack t test i floor with
  | case1 i hgo ih => exact ih (by omega)
  | case2 => exact hi

/-- Every character that is passed is of the kind. -/
theorem test_of_scanBack_lt (t : Text) (test : Char → Bool) (i floor : Int) :
    ∀ j, scanBack t test i floor < j → j ≤ i → test (charAtInt t j) = true := by
  fun_induction scanBack t test i floor with
  | case1 i hgo ih =>
    intro j hlt hle
    obtain rfl | hbelow : j = i ∨ j ≤ i - 1 := by omega
    · exact hgo.2
    · exact ih j hlt hbelow
  | case2 i => exact fun j hlt hle ↦ absurd hlt (Int.not_lt.mpr hle)

/-- With a higher floor the scan goes on as far, or to that floor. -/
theorem scanBack_raise (test : Char → Bool) (hfloor : floor ≤ floor') (hi : floor' ≤ i) :
    scanBack t test i floor' = max floor' (scanBack t test i floor) := by
  fun_induction scanBack t test i floor with
  | case1 i hgo ih =>
    by_cases hlt : floor' < i
    · rw [scanBack, if_pos ⟨hlt, hgo.2⟩, ih (by omega)]
    · have hle := scanBack_le t test (i - 1) floor
      rw [scanBack, if_neg fun h ↦ hlt h.1]
      omega
  | case2 i hstop =>
    rw [scanBack, if_neg fun h ↦ hstop ⟨by omega, h.2⟩]
    omega

theorem le_scanAhead (t : Text) (test : Char → Bool) (i limit : Int) : i ≤ scanAhead t test i limit := by
  fun_induction scanAhead t test i limit <;> omega

theorem scanAhead_le {limit : Int} (t : Text) (test : Char → Bool) (hi : i ≤ limit) :
    scanAhead t test i limit ≤ limit := by
  fun_induction scanAhead t test i limit with
  | case1 i hgo ih => exact ih (by omega)
  | case2 => exact hi

end Scan

/-! ### Quoted text -/

section Quotes

variable {t : Text} {quote : Char} {escaped : Bool} {floor floor' limit limit' i : Int}

theorem openingQuote_raise (hfloor : floor ≤ floor') (hi : floor' ≤ i) :
    openingQuote t quote i floor' = max floor' (openingQuote t quote i floor) := by
  fun_induction openingQuote t quote i floor with
  | case1 i hgo ih =>
    by_cases hlt : floor' < i
    · rw [openingQuote, if_pos ⟨hlt, hgo.2⟩, ih (by omega)]
    · have hle := openingQuote_le t quote (i - 1) floor
      rw [openingQuote, if_neg fun h ↦ hlt h.1]
      omega
  | case2 i hstop =>
    rw [openingQuote, if_neg fun h ↦ hstop ⟨by omega, h.2⟩]
    omega

theorem closingQuote_lower (hlimit : limit' ≤ limit) (hi : i ≤ limit') :
    closingQuote t quote escaped i limit' = min limit' (closingQuote t quote escaped i limit) := by
  fun_induction closingQuote t quote escaped i limit with
  | case1 escaped i hgo ih =>
    by_cases hlt : i < limit'
    · rw [closingQuote, if_pos ⟨hlt, hgo.2⟩, ih (by omega)]
    · have hle := le_closingQuote t quote (charAtInt t i == '\\' && !escaped) (i + 1) limit
      rw [closingQuote, if_neg fun h ↦ hlt h.1]
      omega
  | case2 escaped i hstop =>
    rw [closingQuote, if_neg fun h ↦ hstop ⟨by omega, h.2⟩]
    omega

theorem skipQuotedBack_raise (hfloor : floor ≤ floor') (hi : floor' < i) :
    skipQuotedBack t i floor' = max floor' (skipQuotedBack t i floor) :=
  openingQuote_raise hfloor (by omega)

theorem skipQuotedAhead_lower (hlimit : limit' ≤ limit) (hi : i < limit') :
    skipQuotedAhead t i limit' = min limit' (skipQuotedAhead t i limit) :=
  closingQuote_lower hlimit (by omega)

end Quotes

/-! ### One step over open brackets -/

section Moves

/-- What a character does to the open brackets of a scan: how far the scan goes on, and what is open then.
A quote is left to be skipped. -/
def move? (opens closes : Option Bracket) (quote : Bool) (top : Bracket) (others : List Bracket) :
    Option (Int × List Bracket) :=
  match opens, closes with
  | some b, _ => some (1, b :: top :: others)
  | none, some b =>
    if b = top then some (1, others)
    else if b.rank < top.rank then some (0, others)
    else some (1, top :: others)
  | none, none => if quote then none else some (1, top :: others)

variable {opens closes : Option Bracket} {quote : Bool} {top : Bracket} {others opened : List Bracket}
  {n : Int}

theorem quote_of_move?_eq_none (h : move? opens closes quote top others = none) :
    opens = none ∧ closes = none ∧ quote = true := by
  unfold move? at h
  split at h
  · cases h
  · split at h
    · cases h
    · split at h <;> cases h
  · split at h
    · next hquote => exact ⟨rfl, rfl, hquote⟩
    · cases h

/-- A scan steps over its character, but where a bracket ends another one. -/
theorem move?_step (h : move? opens closes quote top others = some (n, opened)) :
    n = 1 ∨ n = 0 ∧ opened = others := by
  unfold move? at h
  split at h
  · cases h
    exact .inl rfl
  · split at h
    · cases h
      exact .inl rfl
    · split at h <;> cases h
      · exact .inr ⟨rfl, rfl⟩
      · exact .inl rfl
  · split at h <;> cases h
    exact .inl rfl

/-- If nothing is closed, something is open still. -/
theorem move?_of_closes_eq_none (h : move? opens none quote top others = some (n, opened)) :
    n = 1 ∧ ∃ top' others', opened = top' :: others' := by
  unfold move? at h
  split at h
  · cases h
    exact ⟨rfl, _, _, rfl⟩
  · next hsome => cases hsome
  · split at h <;> cases h
    exact ⟨rfl, _, _, rfl⟩

end Moves

/-! ### Out of open brackets -/

section Close

variable {t : Text} {floor limit i n : Int} {top : Bracket} {opened others : List Bracket}

/-- What the character at a position does to a scan towards the end. -/
def moveAhead? (t : Text) (i : Int) : Bracket → List Bracket → Option (Int × List Bracket) :=
  move? (Bracket.ofOpening? (charAtInt t i)) (Bracket.ofClosing? (charAtInt t i)) (isQuote (charAtInt t i))

/-- What the character at a position does to a scan towards the start. -/
def moveBack? (t : Text) (i : Int) : Bracket → List Bracket → Option (Int × List Bracket) :=
  move? (Bracket.ofClosing? (charAtInt t i)) (Bracket.ofOpening? (charAtInt t i)) (isQuote (charAtInt t i))

theorem closeBack?_of_le (hle : i ≤ floor) : closeBack? t floor i (top :: others) = none := by
  rw [closeBack?, if_neg (by omega)]

theorem closeAhead?_of_le (hle : limit ≤ i) : closeAhead? t limit i (top :: others) = none := by
  rw [closeAhead?, if_neg (by omega)]

theorem closeBack?_move (hlt : floor < i) (h : moveBack? t i top others = some (n, opened)) :
    closeBack? t floor i (top :: others) = closeBack? t floor (i - n) opened := by
  unfold moveBack? move? at h
  rw [closeBack?, if_pos hlt]
  cases hclosing : Bracket.ofClosing? (charAtInt t i) with
  | some b =>
    rw [hclosing] at h
    cases h
    rfl
  | none =>
    rw [hclosing] at h
    cases hopening : Bracket.ofOpening? (charAtInt t i) with
    | some b =>
      rw [hopening] at h
      dsimp only at h ⊢
      by_cases heq : b = top
      · rw [if_pos heq] at h ⊢
        cases h
        rfl
      · rw [if_neg heq] at h ⊢
        by_cases hlower : b.rank < top.rank
        · rw [if_pos hlower] at h ⊢
          cases h
          rw [Int.sub_zero]
        · rw [if_neg hlower] at h ⊢
          cases h
          rfl
    | none =>
      rw [hopening] at h
      dsimp only at h ⊢
      by_cases hquote : isQuote (charAtInt t i) = true
      · rw [if_pos hquote] at h
        cases h
      · rw [if_neg hquote] at h ⊢
        cases h
        rfl

theorem closeBack?_quote (hlt : floor < i) (h : moveBack? t i top others = none) :
    closeBack? t floor i (top :: others) =
      closeBack? t floor (skipQuotedBack t i floor - 1) (top :: others) := by
  obtain ⟨hclosing, hopening, hquote⟩ := quote_of_move?_eq_none h
  rw [closeBack?, if_pos hlt, hclosing, hopening]
  exact if_pos hquote

/-- A scan towards the start, step by step. -/
theorem closeBack?_induction (t : Text) (floor : Int) {motive : Int → List Bracket → Prop}
    (nil : ∀ i, motive i [])
    (stop : ∀ i top others, i ≤ floor → motive i (top :: others))
    (move : ∀ i top others n opened, floor < i → moveBack? t i top others = some (n, opened) →
      motive (i - n) opened → motive i (top :: others))
    (quote : ∀ i top others, floor < i → moveBack? t i top others = none →
      motive (skipQuotedBack t i floor - 1) (top :: others) → motive i (top :: others))
    (i : Int) (opened : List Bracket) : motive i opened := by
  match opened with
  | [] => exact nil i
  | top :: others =>
    by_cases hlt : floor < i
    · cases hmove : moveBack? t i top others with
      | none => exact quote i top others hlt hmove (closeBack?_induction t floor nil stop move quote _ _)
      | some next =>
        obtain ⟨n, opened⟩ := next
        exact move i top others n opened hlt hmove (closeBack?_induction t floor nil stop move quote _ _)
    · exact stop i top others (by omega)
termination_by ((i - floor).toNat, opened.length)
decreasing_by
  · have := skipQuotedBack_lt t i floor
    apply Prod.Lex.left
    omega
  · rcases move?_step hmove with rfl | ⟨rfl, rfl⟩
    · apply Prod.Lex.left
      omega
    · rw [Int.sub_zero]
      exact Prod.Lex.right _ (Nat.lt_succ_self _)

theorem closeAhead?_move (hlt : i < limit) (h : moveAhead? t i top others = some (n, opened)) :
    closeAhead? t limit i (top :: others) = closeAhead? t limit (i + n) opened := by
  unfold moveAhead? move? at h
  rw [closeAhead?, if_pos hlt]
  cases hopening : Bracket.ofOpening? (charAtInt t i) with
  | some b =>
    rw [hopening] at h
    cases h
    rfl
  | none =>
    rw [hopening] at h
    cases hclosing : Bracket.ofClosing? (charAtInt t i) with
    | some b =>
      rw [hclosing] at h
      dsimp only at h ⊢
      by_cases heq : b = top
      · rw [if_pos heq] at h ⊢
        cases h
        rfl
      · rw [if_neg heq] at h ⊢
        by_cases hlower : b.rank < top.rank
        · rw [if_pos hlower] at h ⊢
          cases h
          rw [Int.add_zero]
        · rw [if_neg hlower] at h ⊢
          cases h
          rfl
    | none =>
      rw [hclosing] at h
      dsimp only at h ⊢
      by_cases hquote : isQuote (charAtInt t i) = true
      · rw [if_pos hquote] at h
        cases h
      · rw [if_neg hquote] at h ⊢
        cases h
        rfl

theorem closeAhead?_quote (hlt : i < limit) (h : moveAhead? t i top others = none) :
    closeAhead? t limit i (top :: others) =
      closeAhead? t limit (skipQuotedAhead t i limit + 1) (top :: others) := by
  obtain ⟨hopening, hclosing, hquote⟩ := quote_of_move?_eq_none h
  rw [closeAhead?, if_pos hlt, hopening, hclosing]
  exact if_pos hquote

/-- A scan towards the end, step by step. -/
theorem closeAhead?_induction (t : Text) (limit : Int) {motive : Int → List Bracket → Prop}
    (nil : ∀ i, motive i [])
    (stop : ∀ i top others, limit ≤ i → motive i (top :: others))
    (move : ∀ i top others n opened, i < limit → moveAhead? t i top others = some (n, opened) →
      motive (i + n) opened → motive i (top :: others))
    (quote : ∀ i top others, i < limit → moveAhead? t i top others = none →
      motive (skipQuotedAhead t i limit + 1) (top :: others) → motive i (top :: others))
    (i : Int) (opened : List Bracket) : motive i opened := by
  match opened with
  | [] => exact nil i
  | top :: others =>
    by_cases hlt : i < limit
    · cases hmove : moveAhead? t i top others with
      | none => exact quote i top others hlt hmove (closeAhead?_induction t limit nil stop move quote _ _)
      | some next =>
        obtain ⟨n, opened⟩ := next
        exact move i top others n opened hlt hmove (closeAhead?_induction t limit nil stop move quote _ _)
    · exact stop i top others (by omega)
termination_by ((limit - i).toNat, opened.length)
decreasing_by
  · have := lt_skipQuotedAhead t i limit
    apply Prod.Lex.left
    omega
  · rcases move?_step hmove with rfl | ⟨rfl, rfl⟩
    · apply Prod.Lex.left
      omega
    · rw [Int.add_zero]
      exact Prod.Lex.right _ (Nat.lt_succ_self _)

/-- A character just above the floor that opens nothing does not matter to what is closed. -/
theorem closeBack?_raise (h : Bracket.ofOpening? (charAtInt t (floor + 1)) = none) (i : Int)
    (opened : List Bracket) : closeBack? t floor i opened = closeBack? t (floor + 1) i opened := by
  refine closeBack?_induction t floor
    (motive := fun i opened ↦ closeBack? t floor i opened = closeBack? t (floor + 1) i opened)
    ?nil ?stop ?move ?quote i opened
  case nil => exact fun i ↦ by rw [closeBack?_nil, closeBack?_nil]
  case stop => exact fun i top others hle ↦ by rw [closeBack?_of_le hle, closeBack?_of_le (by omega)]
  case move =>
    intro i top others n opened hlt hmove ih
    rw [closeBack?_move hlt hmove, ih]
    by_cases hlt' : floor + 1 < i
    · rw [closeBack?_move hlt' hmove]
    · obtain rfl : i = floor + 1 := by omega
      rw [moveBack?, h] at hmove
      obtain ⟨rfl, top', others', rfl⟩ := move?_of_closes_eq_none hmove
      rw [closeBack?_of_le (by omega), closeBack?_of_le (by omega)]
  case quote =>
    intro i top others hlt hmove ih
    rw [closeBack?_quote hlt hmove, ih]
    by_cases hlt' : floor + 1 < i
    · rw [closeBack?_quote hlt' hmove, skipQuotedBack_raise (show floor ≤ floor + 1 by omega) hlt']
      rcases Int.le_total (skipQuotedBack t i floor) floor with hle | hle
      · rw [closeBack?_of_le (by omega), closeBack?_of_le (by omega)]
      · rcases Int.le_total (floor + 1) (skipQuotedBack t i floor) with hge | hge
        · rw [Int.max_eq_right hge]
        · rw [closeBack?_of_le (by omega), closeBack?_of_le (by omega)]
    · have := skipQuotedBack_lt t i floor
      rw [closeBack?_of_le (by omega), closeBack?_of_le (by omega)]

/-- A character at the limit that closes nothing does not matter to what is closed before it. -/
theorem closeAhead?_lower (h : Bracket.ofClosing? (charAtInt t limit) = none) (i : Int)
    (opened : List Bracket) : closeAhead? t (limit + 1) i opened = closeAhead? t limit i opened := by
  refine closeAhead?_induction t (limit + 1)
    (motive := fun i opened ↦ closeAhead? t (limit + 1) i opened = closeAhead? t limit i opened)
    ?nil ?stop ?move ?quote i opened
  case nil => exact fun i ↦ by rw [closeAhead?_nil, closeAhead?_nil]
  case stop => exact fun i top others hle ↦ by rw [closeAhead?_of_le hle, closeAhead?_of_le (by omega)]
  case move =>
    intro i top others n opened hlt hmove ih
    rw [closeAhead?_move hlt hmove, ih]
    by_cases hlt' : i < limit
    · rw [closeAhead?_move hlt' hmove]
    · obtain rfl : i = limit := by omega
      rw [moveAhead?, h] at hmove
      obtain ⟨rfl, top', others', rfl⟩ := move?_of_closes_eq_none hmove
      rw [closeAhead?_of_le (by omega), closeAhead?_of_le (by omega)]
  case quote =>
    intro i top others hlt hmove ih
    rw [closeAhead?_quote hlt hmove, ih]
    by_cases hlt' : i < limit
    · rw [closeAhead?_quote hlt' hmove, skipQuotedAhead_lower (show limit ≤ limit + 1 by omega) hlt']
      rcases Int.le_total (skipQuotedAhead t i (limit + 1)) limit with hle | hge
      · rw [Int.min_eq_right hle]
      · rw [closeAhead?_of_le (by omega), closeAhead?_of_le (by omega)]
    · have := lt_skipQuotedAhead t i (limit + 1)
      rw [closeAhead?_of_le (by omega), closeAhead?_of_le (by omega)]

end Close

/-! ### To the brackets around -/

section Around

variable {t : Text} {floor limit i : Int}

theorem skipBracketedBack_raise (h : Bracket.ofOpening? (charAtInt t (floor + 1)) = none) (b : Bracket)
    (i : Int) : skipBracketedBack t b i floor = skipBracketedBack t b i (floor + 1) := by
  rw [skipBracketedBack, skipBracketedBack, closeBack?_raise h]

theorem skipBracketedAhead_lower (h : Bracket.ofClosing? (charAtInt t limit) = none) (b : Bracket)
    (i : Int) : skipBracketedAhead t b i (limit + 1) = skipBracketedAhead t b i limit := by
  rw [skipBracketedAhead, skipBracketedAhead, closeAhead?_lower h]

theorem openBefore?_of_lt (hlt : i < floor) : openBefore? t floor i = none := by
  rw [openBefore?, if_pos hlt]

theorem closeAfter?_of_lt (hlt : limit < i) : closeAfter? t limit i = none := by
  rw [closeAfter?, if_pos hlt]

/-- At the floor itself only an opening bracket is found. -/
theorem openBefore?_self (h : Bracket.ofOpening? (charAtInt t floor) = none) :
    openBefore? t floor floor = none := by
  rw [openBefore?, if_neg (Int.lt_irrefl _), h]
  split
  · next heq => cases heq
  · exact openBefore?_of_lt (skipBracketedBack_lt t _ floor floor)
  · have := skipQuotedBack_lt t floor floor
    rw [openBefore?_of_lt (by omega), if_pos rfl, ite_self]

theorem closeAfter?_self (h : Bracket.ofClosing? (charAtInt t limit) = none) :
    closeAfter? t limit limit = none := by
  rw [closeAfter?, if_neg (Int.lt_irrefl _), h]
  split
  · next heq => cases heq
  · exact closeAfter?_of_lt (lt_skipBracketedAhead t _ limit limit)
  · have := lt_skipQuotedAhead t limit limit
    rw [closeAfter?_of_lt (show limit < skipQuotedAhead t limit limit + 1 by omega),
      closeAfter?_of_lt (show limit < limit + 1 by omega), ite_self, ite_self]

/-- Two characters that open nothing, the lower at the floor, do not matter to what is found. -/
theorem openBefore?_raise (hfloor : Bracket.ofOpening? (charAtInt t floor) = none)
    (hnext : Bracket.ofOpening? (charAtInt t (floor + 1)) = none) (i : Int) :
    openBefore? t floor i = openBefore? t (floor + 1) i := by
  fun_induction openBefore? t floor i with
  | case1 i hlt => rw [openBefore?_of_lt (by omega)]
  | case2 i hge b hopening =>
    have hi : i ≠ floor := fun heq ↦ Option.some_ne_none b (hopening.symm.trans (heq ▸ hfloor))
    rw [openBefore?, if_neg (by omega), hopening]
  | case3 i hge b hclosing hopening ih =>
    rw [ih, skipBracketedBack_raise hnext]
    by_cases hlt : i < floor + 1
    · have := skipBracketedBack_lt t b i (floor + 1)
      rw [openBefore?_of_lt hlt, openBefore?_of_lt (by omega)]
    · rw [openBefore?.eq_def t (floor + 1) i, if_neg hlt, hopening, hclosing]
  | case4 i hge hopening hclosing hquote ih =>
    have hback := skipQuotedBack_lt t i floor
    rw [ih]
    rcases Int.lt_or_le (floor + 1) i with hlt | hle
    · rw [openBefore?.eq_def t (floor + 1) i, if_neg (by omega), hopening, hclosing]
      dsimp only
      rw [if_pos hquote, skipQuotedBack_raise (show floor ≤ floor + 1 by omega) hlt]
      rcases Int.le_total (floor + 1) (skipQuotedBack t i floor) with habove | hbelow
      · rw [Int.max_eq_right habove]
      · rw [openBefore?_of_lt (by omega), openBefore?_of_lt (by omega)]
    · rw [openBefore?_of_lt (by omega)]
      obtain rfl | hlt : i = floor + 1 ∨ i < floor + 1 := by omega
      · exact (openBefore?_self hnext).symm
      · exact (openBefore?_of_lt hlt).symm
  | case5 hge hopening hclosing hquote => rw [openBefore?_of_lt (by omega)]
  | case6 i hge hopening hclosing hquote hne ih =>
    rw [ih]
    obtain rfl | hlt : i = floor + 1 ∨ floor + 1 < i := by omega
    · rw [openBefore?_self hnext, openBefore?_of_lt (by omega)]
    · rw [openBefore?.eq_def t (floor + 1) i, if_neg (by omega), hopening, hclosing]
      dsimp only
      rw [if_neg hquote, if_neg (by omega)]

/-- Two characters that close nothing, the upper at the limit, do not matter to what is found. -/
theorem closeAfter?_lower (hlimit : Bracket.ofClosing? (charAtInt t (limit + 1)) = none)
    (hlast : Bracket.ofClosing? (charAtInt t limit) = none) (i : Int) :
    closeAfter? t (limit + 1) i = closeAfter? t limit i := by
  fun_induction closeAfter? t (limit + 1) i with
  | case1 i hlt => rw [closeAfter?_of_lt (by omega)]
  | case2 i hge b hclosing =>
    have hi : i ≠ limit + 1 := fun heq ↦ Option.some_ne_none b (hclosing.symm.trans (heq ▸ hlimit))
    rw [closeAfter?, if_neg (by omega), hclosing]
  | case3 i hge b hopening hclosing ih =>
    rw [ih, skipBracketedAhead_lower hlast]
    by_cases hlt : limit < i
    · have := lt_skipBracketedAhead t b i limit
      rw [closeAfter?_of_lt hlt, closeAfter?_of_lt (by omega)]
    · rw [closeAfter?.eq_def t limit i, if_neg hlt, hclosing, hopening]
  | case4 i hge hclosing hopening hquote ih =>
    have hahead := lt_skipQuotedAhead t i (limit + 1)
    rw [ih]
    rcases Int.lt_or_le i limit with hlt | hle
    · rw [closeAfter?.eq_def t limit i, if_neg (by omega), hclosing, hopening]
      dsimp only
      rw [if_pos hquote, skipQuotedAhead_lower (show limit ≤ limit + 1 by omega) hlt]
      rcases Int.le_total (skipQuotedAhead t i (limit + 1)) limit with hbelow | habove
      · rw [Int.min_eq_right hbelow]
      · rw [closeAfter?_of_lt (by omega), closeAfter?_of_lt (by omega)]
    · rw [closeAfter?_of_lt (by omega)]
      obtain rfl | hlt : i = limit ∨ limit < i := by omega
      · exact (closeAfter?_self hlast).symm
      · exact (closeAfter?_of_lt hlt).symm
  | case5 i hge hclosing hopening hquote heq =>
    obtain rfl : i = limit := by omega
    exact (closeAfter?_self hlast).symm
  | case6 i hge hclosing hopening hquote hne ih =>
    rw [ih]
    obtain rfl | hlt : i = limit + 1 ∨ i < limit := by omega
    · rw [closeAfter?_of_lt (by omega), closeAfter?_of_lt (by omega)]
    · rw [closeAfter?.eq_def t limit i, if_neg (by omega), hclosing, hopening]
      dsimp only
      rw [if_neg hquote]
      split
      · next heq => rw [← heq, closeAfter?_self (heq ▸ hlast)]
      · rfl

end Around

end ModalEdit.TextObject
