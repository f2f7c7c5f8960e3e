import CodeIndex.Text.Bytes
import CodeIndex.Text.Whitespace

set_option autoImplicit false

namespace CodeIndex.Text

theorem join_cons (separator piece : List Char) (rest : List (List Char)) (more : rest ≠ []) :
    join separator (piece :: rest) = piece ++ separator ++ join separator rest := by
  cases rest with
  | nil => exact absurd rfl more
  | cons next others => rfl

theorem join_append (separator : List Char) (front back : List (List Char)) (some : front ≠ []) (more : back ≠ []) :
    join separator (front ++ back) = join separator front ++ separator ++ join separator back := by
  induction front with
  | nil => exact absurd rfl some
  | cons piece rest ih =>
      by_cases last : rest = []
      · subst last
        exact join_cons separator piece back more
      · rw [List.cons_append, join_cons separator piece _ (List.append_ne_nil_of_left_ne_nil last back), ih last,
          join_cons separator piece rest last]
        simp only [List.append_assoc]

theorem mem_join (separator piece : List Char) (pieces : List (List Char)) (member : piece ∈ pieces) (c : Char)
    (inside : c ∈ piece) : c ∈ join separator pieces := by
  induction pieces with
  | nil => cases member
  | cons first rest ih =>
      by_cases last : rest = []
      · subst last
        exact List.mem_singleton.mp member ▸ inside
      · rw [join_cons separator first rest last]
        rcases List.mem_cons.mp member with rfl | later
        · exact List.mem_append_left _ (List.mem_append_left _ inside)
        · exact List.mem_append_right _ (ih later)

theorem join_mem (separator : List Char) (pieces : List (List Char)) (c : Char) (inside : c ∈ join separator pieces) :
    c ∈ separator ∨ ∃ piece ∈ pieces, c ∈ piece := by
  induction pieces with
  | nil => cases inside
  | cons first rest ih =>
      by_cases last : rest = []
      · subst last
        exact .inr ⟨first, List.mem_cons_self, inside⟩
      · rw [join_cons separator first rest last, List.append_assoc, List.mem_append, List.mem_append] at inside
        rcases inside with here | between | later
        · exact .inr ⟨first, List.mem_cons_self, here⟩
        · exact .inl between
        · rcases ih later with between | ⟨piece, member, there⟩
          · exact .inl between
          · exact .inr ⟨piece, List.mem_cons_of_mem _ member, there⟩

theorem split_nonempty (p : Char → Bool) (cs : List Char) : splitWhere p cs ≠ [] := by
  cases cs with
  | nil => exact List.cons_ne_nil _ _
  | cons c cs =>
      rw [splitWhere]
      split
      · exact List.cons_ne_nil _ _
      · split <;> exact List.cons_ne_nil _ _

theorem split_keep (p : Char → Bool) (c : Char) (cs : List Char) (keeps : p c = false) :
    ∃ piece rest, splitWhere p cs = piece :: rest ∧ splitWhere p (c :: cs) = (c :: piece) :: rest := by
  cases pieces : splitWhere p cs with
  | nil => exact absurd pieces (split_nonempty p cs)
  | cons piece rest =>
      refine ⟨piece, rest, rfl, ?_⟩
      rw [splitWhere, if_neg (by simp [keeps]), pieces]

theorem split_cut (p : Char → Bool) (c : Char) (cs : List Char) (cuts : p c = true) :
    splitWhere p (c :: cs) = [] :: splitWhere p cs := by
  rw [splitWhere, if_pos cuts]

theorem join_split (mark : Char) (cs : List Char) : join [mark] (splitWhere (· = mark) cs) = cs := by
  induction cs with
  | nil => rfl
  | cons c cs ih =>
      by_cases cuts : c = mark
      · rw [split_cut _ c cs (decide_eq_true cuts), join_cons _ _ _ (split_nonempty _ cs), ih, cuts]
        rfl
      · obtain ⟨piece, rest, before, after⟩ := split_keep (· = mark) c cs (decide_eq_false cuts)
        rw [before] at ih
        rw [after]
        cases rest with
        | nil => exact congrArg (c :: ·) ih
        | cons next others => exact congrArg (c :: ·) ih

theorem split_unmarked (p : Char → Bool) (cs : List Char) : ∀ piece ∈ splitWhere p cs, ∀ c ∈ piece, p c = false := by
  induction cs with
  | nil => simp [splitWhere]
  | cons c cs ih =>
      by_cases cuts : p c = true
      · rw [split_cut p c cs cuts]
        simpa using ih
      · have keeps : p c = false := by simpa using cuts
        obtain ⟨piece, rest, before, after⟩ := split_keep p c cs keeps
        rw [before] at ih
        rw [after]
        simpa [keeps] using ih

theorem byte_length_append (front back : List Char) : byteLength (front ++ back) = byteLength front + byteLength back := by
  induction front with
  | nil => exact (Nat.zero_add _).symm
  | cons c rest ih => rw [List.cons_append, byteLength, byteLength, ih, Nat.add_assoc]

theorem split_length (p : Char → Bool) (cs : List Char) : (splitWhere p cs).length ≤ byteLength cs + 1 := by
  induction cs with
  | nil => simp [splitWhere]
  | cons c cs ih =>
      have size := c.utf8Size_pos
      rw [byteLength]
      by_cases cuts : p c = true
      · rw [split_cut p c cs cuts, List.length_cons]
        omega
      · obtain ⟨piece, rest, before, after⟩ := split_keep p c cs (by simpa using cuts)
        rw [before, List.length_cons] at ih
        rw [after, List.length_cons]
        omega

end CodeIndex.Text
