import ModalEdit.Proofs.DisplayColumns
import ModalEdit.Proofs.MotionCommands

/-!
Motions by lines. The column that a caret aims at is fixed by the first motion by lines that succeeds, and
every further one keeps it (`VerticalCommand.step_eq`). So after any run of them the caret stands at that
column of the line that the motions which succeeded lead to together, whatever lines it has passed
(`VerticalCommand.run_eq`), and back on the line where it began it stands where it stood.
-/

set_option autoImplicit false
set_option relaxedAutoImplicit false

namespace ModalEdit

namespace Text

variable {t : Text} {line offset : Nat}

/-- What a caret may take of a line is on that line, and a caret may rest there. -/
theorem rests_on_line (h : line < t.lineCount) (hstart : t.lineStart line ≤ offset)
    (hlast : offset ≤ t.lastCaretOffset line false) :
    t.lineOf offset = line ∧ t.normalize offset false = offset := by
  rw [lastCaretOffset, if_neg Bool.false_ne_true] at hlast
  by_cases hcontent : offset < t.lineEnd line
  · have hline := lineOf_eq_of_content h hstart hcontent
    exact ⟨hline, normalize_of_lt_lineEnd (by rwa [hline])⟩
  · have hfirst : offset = t.lineStart line := by omega
    have hline : t.lineOf offset = line := by
      rw [hfirst, lineStart_eq_lineOffset h, lineOf_eq_iff h]
      refine ⟨Nat.le_refl _, fun hnext ↦ lineOffset_lt_succ ?_ h⟩
      rintro rfl
      exact absurd hnext (Nat.not_lt.mpr (Nat.succ_le_succ (Nat.zero_le line)))
    exact ⟨hline, normalize_eq_self_iff.mpr (.inr (by rw [hline, hfirst]))⟩

theorem offsetAtColumn_le_lastCaretOffset (h : line < t.lineCount) (column : Nat) :
    t.offsetAtColumn line column false ≤ t.lastCaretOffset line false := by
  cases hfound : charsBefore? column 0 (t.lineText line) with
  | some n =>
    have hn := charsBefore?_lt hfound
    rw [length_lineText h] at hn
    rw [offsetAtColumn_eq_of_some hfound, lastCaretOffset, if_neg Bool.false_ne_true]
    omega
  | none => exact Nat.le_of_eq (offsetAtColumn_eq_of_none hfound)

theorem offsetAtColumn_of_empty (h : line < t.lineCount) (hempty : t.lineEnd line = t.lineStart line)
    (column : Nat) : t.offsetAtColumn line column false = t.lineStart line := by
  have hstart := t.lineStart_le_offsetAtColumn line column false
  have hend := t.offsetAtColumn_le_lineEnd h column false
  omega

end Text

/-- The place of a column on a line is on that line, and a caret may rest there. -/
theorem GoalColumn.offsetOn_rests (goal : GoalColumn) {t : Text} {line : Nat} (h : line < t.lineCount) :
    t.lineOf (goal.offsetOn t line false) = line ∧
      t.normalize (goal.offsetOn t line false) false = goal.offsetOn t line false := by
  have hstart : t.lineStart line ≤ t.lastCaretOffset line false := Nat.le_max_left _ _
  cases goal with
  | cell column =>
    exact Text.rests_on_line h (t.lineStart_le_offsetAtColumn line column false)
      (Text.offsetAtColumn_le_lastCaretOffset h column)
  | lineEnd => exact Text.rests_on_line h hstart (Nat.le_refl _)

/-- A motion by lines as it is typed, with its count. -/
inductive VerticalCommand where
  | down (count : TypedCount)
  | up (count : TypedCount)

namespace VerticalCommand

def key : VerticalCommand → MotionKey
  | down _ => .down
  | up _ => .up

def count : VerticalCommand → TypedCount
  | down count | up count => count

def keys (v : VerticalCommand) : Keys := v.count.strokes ++ v.key.keys

/-- How many lines down the motion leads, or up where negative. -/
def displacement : VerticalCommand → Int
  | down count => count.limited
  | up count => -count.limited

/-- The column that a caret aims at: one kept from before, or that where it is shown. -/
def goalOf (t : Text) (state : CaretState) : GoalColumn :=
  state.goal.getD (.cell (t.visualColumn state.offset))

variable {t : Text} {caret : CaretId} {state : CaretState}

/-- What is known of a caret after some motions. -/
def run (t : Text) (caret : CaretId) (state : CaretState) (vs : List VerticalCommand) : CaretState :=
  vs.foldl (fun state v ↦ v.key.step v.count t caret state) state

/-- Those of some motions, made one after the other, that do not fail. -/
def successful (t : Text) (caret : CaretId) : CaretState → List VerticalCommand → List VerticalCommand
  | _, [] => []
  | state, v :: rest =>
    let later := successful t caret (v.key.step v.count t caret state) rest
    if (v.key.motion (v.key.context v.count t caret state)).isSome then v :: later else later

/-- How far down some motions lead together. -/
def net (vs : List VerticalCommand) : Int := (vs.map displacement).sum

theorem net_cons (v : VerticalCommand) (vs : List VerticalCommand) :
    net (v :: vs) = v.displacement + net vs := List.sum_cons

/-- The motion goes to the column that the caret aims at. -/
theorem motion_eq (v : VerticalCommand) (t : Text) (caret : CaretId) (state : CaretState) :
    v.key.motion (v.key.context v.count t caret state) =
      t.vertical state.offset v.displacement (goalOf t state) false := by
  cases v with
  | down c =>
    have hcount : (MotionKey.down.context c t caret state).count = c.limited := MotionKey.call_count _ c
    show t.vertical state.offset ((MotionKey.down.context c t caret state).count : Int) _ false = _
    rw [hcount]
    rfl
  | up c =>
    have hcount : (MotionKey.up.context c t caret state).count = c.limited := MotionKey.call_count _ c
    show t.vertical state.offset (-((MotionKey.up.context c t caret state).count : Int)) _ false = _
    rw [hcount]
    rfl

/-- The motion fails where there is no such line, and else goes to the column that is aimed at on it and
keeps that column. -/
theorem step_cases (v : VerticalCommand) (t : Text) (caret : CaretId) (state : CaretState) :
    (∃ line < t.lineCount, (line : Int) = t.lineOf state.offset + v.displacement ∧
      (v.key.motion (v.key.context v.count t caret state)).isSome = true ∧
      v.key.step v.count t caret state = { state with
        offset := (goalOf t state).offsetOn t line false, goal := some (goalOf t state) }) ∨
    (v.key.motion (v.key.context v.count t caret state)).isSome = false ∧
      v.key.step v.count t caret state = state := by
  have hvertical : v.key.isVertical = true := by cases v <;> rfl
  have hgoal : (v.key.context v.count t caret state).goal = goalOf t state := by
    unfold MotionKey.context goalOf
    rw [hvertical]
    rfl
  unfold MotionKey.step
  rw [motion_eq, Text.vertical, hgoal]
  by_cases hnone : (t.lineOf state.offset : Int) + v.displacement < 0 ∨
      (t.lineCount : Int) ≤ t.lineOf state.offset + v.displacement
  · rw [if_pos hnone]
    exact .inr ⟨rfl, rfl⟩
  · rw [if_neg hnone]
    obtain ⟨line, hline⟩ :=
      Int.eq_ofNat_of_zero_le (show 0 ≤ (t.lineOf state.offset : Int) + v.displacement by omega)
    have hlt : line < t.lineCount := by omega
    refine .inl ⟨line, hlt, hline.symm, rfl, ?_⟩
    rw [hline, Int.toNat_natCast, hvertical]
    dsimp only
    rw [((goalOf t state).offsetOn_rests hlt).2]
    rfl

/-- Motions that all fail change nothing. -/
theorem run_of_none {vs : List VerticalCommand} (h : successful t caret state vs = []) :
    run t caret state vs = state := by
  induction vs with
  | nil => rfl
  | cons v rest ih =>
    unfold successful at h
    dsimp only at h
    rw [run, List.foldl_cons]
    rcases step_cases v t caret state with ⟨-, -, -, hdone, -⟩ | ⟨hfails, hstep⟩
    · rw [if_pos hdone] at h
      cases h
    · rw [hfails, if_neg Bool.false_ne_true, hstep] at h
      rw [hstep]
      exact ih h

/-- After some motions of which one did not fail, a caret stands at the column that it aimed at, of the
line that those which did not fail lead to, and still aims at it. -/
theorem run_eq (t : Text) (caret : CaretId) (state : CaretState) (vs : List VerticalCommand)
    (hsome : successful t caret state vs ≠ []) :
    ∃ line < t.lineCount,
      (line : Int) = t.lineOf state.offset + net (successful t caret state vs) ∧
      run t caret state vs = { state with
        offset := (goalOf t state).offsetOn t line false, goal := some (goalOf t state) } := by
  induction vs generalizing state with
  | nil => exact absurd rfl hsome
  | cons v rest ih =>
    rw [run, List.foldl_cons]
    unfold successful at hsome ⊢
    dsimp only at hsome ⊢
    rcases step_cases v t caret state with ⟨line, hlt, hline, hdone, hstep⟩ | ⟨hfails, hstep⟩
    · rw [if_pos hdone, hstep, net_cons]
      by_cases hlater : successful t caret { state with
          offset := (goalOf t state).offsetOn t line false, goal := some (goalOf t state) } rest = []
      · refine ⟨line, hlt, ?_, ?_⟩
        · rw [hlater, hline]
          exact congrArg _ (Int.add_zero _).symm
        · exact run_of_none hlater
      · obtain ⟨last, hlast, hsum, hrun⟩ := ih _ hlater
        refine ⟨last, hlast, ?_, hrun⟩
        rw [hsum]
        dsimp only
        rw [((goalOf t state).offsetOn_rests hlt).1, hline, Int.add_assoc]
    · rw [hfails, if_neg Bool.false_ne_true, hstep] at hsome ⊢
      exact ih state hsome

end VerticalCommand

namespace Session

open VerticalCommand

variable {s : Session} {caret : CaretId} {state : CaretState}

/-- Typed motions by lines make of each caret what they make of it one after the other. -/
theorem ReadsCommands.moves_vertically (h : s.ReadsCommands) (hanchored : s.edit.Anchored)
    (hstate : s.edit.remembered caret = some state) (vs : List VerticalCommand) :
    (s.handleAll (vs.flatMap keys)).2.edit.remembered caret =
      some (run s.editor.text caret state vs) := by
  induction vs generalizing s state with
  | nil => exact hstate
  | cons v rest ih =>
    obtain ⟨hreads, hanchors, htext, hcarets⟩ := h.moves hanchored v.key v.count
    have hnext := hcarets caret
    rw [hstate, Option.map_some] at hnext
    rw [List.flatMap_cons, handleAll_append]
    refine (ih hreads hanchors hnext).trans ?_
    rw [htext]
    rfl

/-- After any run of motions by lines, with counts, of which one at least does not fail, a caret stands at
the column that it aimed at, of the line that those which did not fail lead to, and aims at that column.
If it aimed at none before, and the run ends on the line where it began, it is back where it was, unless
the character there takes no cell. -/
theorem vertical_motions_path_independent (h : s.ReadsCommands) (hanchored : s.edit.Anchored)
    (hstate : s.edit.remembered caret = some state)
    (hnormal : s.editor.text.normalize state.offset false = state.offset) (vs : List VerticalCommand)
    (hsome : successful s.editor.text caret state vs ≠ []) :
    let t := s.editor.text
    let goal := state.goal.getD (.cell (t.visualColumn state.offset))
    let after := (s.handleAll (vs.flatMap keys)).2
    ∃ line < t.lineCount,
      (line : Int) = t.lineOf state.offset + net (successful t caret state vs) ∧
      after.edit.remembered caret =
        some { state with offset := goal.offsetOn t line false, goal := some goal } ∧
      after.editor.caretOffset? caret = some (goal.offsetOn t line false) ∧
      (state.goal = none → line = t.lineOf state.offset →
        t.visualColumn state.offset < t.endColumn state.offset ∨
          t.lineEnd line = t.lineStart line →
        after.editor.caretOffset? caret = some state.offset) := by
  intro t goal after
  obtain ⟨line, hlt, hline, hrun⟩ := run_eq t caret state vs hsome
  have hremembered : after.edit.remembered caret =
      some { state with offset := goal.offsetOn t line false, goal := some goal } :=
    (h.moves_vertically hanchored hstate vs).trans (congrArg some hrun)
  have hstands : after.editor.caretOffset? caret = some (goal.offsetOn t line false) := by
    have hoffset := EditState.remembered_offset after.edit caret
    rw [hremembered] at hoffset
    exact hoffset.symm
  refine ⟨line, hlt, hline, hremembered, hstands, fun hnone hsame hshown ↦ ?_⟩
  have hgoal : goal = .cell (t.visualColumn state.offset) := by
    show state.goal.getD _ = _
    rw [hnone]
    rfl
  rw [hstands, hgoal]
  refine congrArg some ?_
  show t.offsetAtColumn line (t.visualColumn state.offset) false = state.offset
  have hplace := Text.normalize_eq_self_iff.mp hnormal
  rcases Nat.lt_or_ge state.offset (t.lineEnd line) with hcontent | hend
  · rcases hshown with hwide | hempty
    · rw [hsame] at hcontent ⊢
      exact Text.offsetAtColumn_visualColumn hcontent hwide false
    · have hstart := t.lineStart_lineOf_le state.offset
      rw [← hsame] at hstart
      omega
  · rw [← hsame] at hplace
    have hfirst : state.offset = t.lineStart line := hplace.resolve_left (Nat.not_lt.mpr hend)
    have hempty := t.lineStart_le_lineEnd line
    rw [Text.offsetAtColumn_of_empty hlt (by omega), hfirst]

/-- From a wide character down over shorter lines, once too far and in vain, and back up. -/
theorem back_on_wide_character :
    let s : Session := withCaret "\t漢字\nab\n\nx".toList 2
    let state : CaretState := { offset := 2 }
    let vs : List VerticalCommand := [.down {}, .down { digits := [9] }, .down { digits := [2] },
      .up { digits := [3] }]
    s.edit.remembered ⟨0⟩ = some state ∧ net (successful s.editor.text ⟨0⟩ state vs) = 0 ∧
      (s.handleAll (vs.flatMap keys)).2.editor.caretOffset? ⟨0⟩ = some 2 := by
  intro s state vs
  have hlone : s.edit.Lone ⟨0⟩ 2 := withCaret_lone (by decide)
  have hsuccessful : (successful s.editor.text ⟨0⟩ state vs).map displacement = [1, 2, -3] := by
    decide +kernel
  have hsome : successful s.editor.text ⟨0⟩ state vs ≠ [] := by
    intro hnil
    rw [hnil] at hsuccessful
    cases hsuccessful
  have hnet : net (successful s.editor.text ⟨0⟩ state vs) = 0 := by
    rw [net, hsuccessful]
    rfl
  obtain ⟨line, -, hline, -, -, hback⟩ := vertical_motions_path_independent
    (withCaret_readsCommands _ 2) hlone.toAnchored rfl (by decide +kernel) vs hsome
  refine ⟨rfl, hnet, hback rfl ?_ (.inl (by decide +kernel))⟩
  rw [hnet] at hline
  omega

end Session

end ModalEdit
