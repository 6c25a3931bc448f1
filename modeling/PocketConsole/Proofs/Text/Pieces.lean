import PocketConsole.Text.Lines

namespace PocketConsole.Text

theorem splitAt_eq_splitOn (mark : Char) (cs : List Char) : splitAt mark cs = cs.splitOn mark := by
  induction cs with
  | nil => rfl
  | cons c cs ih =>
    rw [splitAt_cons, List.splitOn_cons_eq_if_modifyHead, ih]
    by_cases here : c = mark
    · rw [if_pos here, if_pos (beq_iff_eq.2 here)]
    · rw [if_neg here, if_neg (mt beq_iff_eq.1 here)]
      cases split : cs.splitOn mark with
      | nil => exact absurd split (List.splitOn_ne_nil _ cs)
      | cons piece more => rfl

/-- A mark ends a piece and begins the next. -/
theorem splitAt_append (mark : Char) (before after : List Char) :
    splitAt mark (before ++ mark :: after) = splitAt mark before ++ splitAt mark after := by
  simp only [splitAt_eq_splitOn]
  exact List.splitOnP_append_cons (p := fun c => c == mark) _ _ (beq_self_eq_true mark)

theorem splitAt_of_not_mem {mark : Char} {cs : List Char} (single : mark ∉ cs) : splitAt mark cs = [cs] := by
  rw [splitAt_eq_splitOn]
  refine List.splitOnP_eq_singleton fun c inside => ?_
  exact beq_eq_false_iff_ne.2 fun here => single (here ▸ inside)

end PocketConsole.Text
