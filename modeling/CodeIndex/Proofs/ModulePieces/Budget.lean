import CodeIndex.Proofs.ModulePieces

set_option autoImplicit false

namespace CodeIndex.ModulePieces

def runCost : List (List Char) → Nat
  | [] => 0
  | line :: rest => lineCost line + runCost rest

def Admissible (budget : Nat) (run : List (List Char)) : Prop := run.length = 1 ∨ runCost run ≤ budget

instance (budget : Nat) (run : List (List Char)) : Decidable (Admissible budget run) :=
  inferInstanceAs (Decidable (_ ∨ _))

structure Cut (budget : Nat) (lines : List (List Char)) (runs : List (List (List Char))) : Prop where
  joined : runs.flatten = lines
  admissible : ∀ run ∈ runs, Admissible budget run

theorem run_cost_append (front back : List (List Char)) : runCost (front ++ back) = runCost front + runCost back := by
  induction front with
  | nil => exact (Nat.zero_add _).symm
  | cons line rest ih => rw [List.cons_append, runCost, runCost, ih, Nat.add_assoc]

theorem run_cost_snoc (run : List (List Char)) (line : List Char) : runCost (run ++ [line]) = runCost run + lineCost line := by
  rw [run_cost_append, runCost, runCost, Nat.add_zero]

theorem admissible_larger (budget larger : Nat) (more : budget ≤ larger) (run : List (List Char))
    (admissible : Admissible budget run) : Admissible larger run :=
  admissible.imp_right (Nat.le_trans · more)

-- The text of a run leaves out the end of its last line, which the budget counts.
theorem joined_bytes (run : List (List Char)) (some : run ≠ []) : Text.byteLength (Text.join ['\n'] run) + 1 = runCost run := by
  induction run with
  | nil => exact absurd rfl some
  | cons line rest ih =>
      by_cases last : rest = []
      · subst last
        rfl
      · have later := ih last
        have newline : Text.byteLength ['\n'] = 1 := by decide
        rw [Text.join_cons _ _ _ last, Text.byte_length_append, Text.byte_length_append, runCost, lineCost, newline]
        omega

theorem tiles_joined {start : Nat} {pieces : List Piece} {lines : List (List Char)} (tiles : Tiles start pieces lines) :
    (pieces.map (·.lines)).flatten = lines := by
  induction tiles with
  | none start => rfl
  | next start piece pieces rest here some later ih => rw [List.map_cons, List.flatten_cons, ih]

theorem fill_admissible (budget start : Nat) (current rest : List (List Char))
    (admissible : Admissible budget current.reverse) :
    ∀ piece ∈ fill budget start (runCost current.reverse) current rest, Admissible budget piece.lines := by
  induction rest generalizing start current with
  | nil =>
      intro piece member
      by_cases idle : current.isEmpty
      · rw [fill, if_pos idle] at member
        cases member
      · rw [fill, if_neg idle] at member
        exact List.mem_singleton.mp member ▸ admissible
  | cons line rest ih =>
      intro piece member
      by_cases flush : budget < runCost current.reverse + lineCost line ∧ current ≠ []
      · rw [fill, if_pos flush] at member
        rcases List.mem_cons.mp member with rfl | later
        · exact admissible
        · exact ih (start + current.length) [line] (.inl rfl) piece later
      · rw [fill, if_neg flush, ← run_cost_snoc, ← List.reverse_cons] at member
        refine ih start (line :: current) ?_ piece member
        by_cases idle : current = []
        · exact .inl (by rw [idle]; rfl)
        · refine .inr ?_
          rw [List.reverse_cons, run_cost_snoc]
          exact Nat.not_lt.mp fun exceeds => flush ⟨exceeds, idle⟩

theorem overfull_inadmissible (budget : Nat) (extra run more : List (List Char)) (line : List Char) (some : run ≠ [])
    (exceeds : budget < runCost run + lineCost line) : ¬ Admissible budget (extra ++ run ++ line :: more) := by
  have size := List.length_pos_iff.mpr some
  rintro (single | cheap)
  · simp only [List.length_append, List.length_cons] at single
    omega
  · rw [run_cost_append, run_cost_append, runCost] at cheap
    omega

-- The pieces stay ahead. Another cut has come no further than the pieces that are closed, so what it
-- has left starts with lines, `extra`, that stand in closed pieces; then no run of it can reach
-- beyond the next piece.
theorem fill_fewest (budget start : Nat) (extra current rest : List (List Char)) (runs : List (List (List Char)))
    (cut : Cut budget (extra ++ current.reverse ++ rest) runs) :
    (fill budget start (runCost current.reverse) current rest).length ≤ runs.length := by
  induction rest generalizing start extra current runs with
  | nil =>
      by_cases idle : current = []
      · rw [idle, fill, if_pos (by rfl)]
        exact Nat.zero_le _
      · rw [fill, if_neg (by simpa using idle)]
        apply List.length_pos_iff.mpr
        rintro rfl
        have none : extra = [] ∧ current = [] := by simpa using cut.joined
        exact idle none.2
  | cons line rest ih =>
      by_cases flush : budget < runCost current.reverse + lineCost line ∧ current ≠ []
      · rw [fill, if_pos flush]
        cases runs with
        | nil => exact absurd cut.joined.symm (by simp)
        | cons run runs =>
            have joined := cut.joined
            rw [List.flatten_cons, List.append_eq_append_iff] at joined
            have stops : ∃ left, runs.flatten = left ++ line :: rest := by
              obtain ⟨left, _, after⟩ | ⟨beyond, reaches, after⟩ := joined
              · exact ⟨left, after⟩
              · cases beyond with
                | nil => exact ⟨[], after.symm⟩
                | cons next beyond =>
                    obtain ⟨rfl, _⟩ := List.cons.inj after
                    refine absurd (cut.admissible run List.mem_cons_self) ?_
                    rw [reaches]
                    exact overfull_inadmissible budget extra _ beyond line (by simpa using flush.2) flush.1
            obtain ⟨left, after⟩ := stops
            apply Nat.succ_le_succ
            refine ih (start + current.length) left [line] runs ⟨?_, fun other later => ?_⟩
            · rw [after, List.append_assoc]
              rfl
            · exact cut.admissible other (List.mem_cons_of_mem _ later)
      · rw [fill, if_neg flush, ← run_cost_snoc, ← List.reverse_cons]
        refine ih start extra (line :: current) runs ⟨?_, cut.admissible⟩
        rw [cut.joined, List.reverse_cons]
        simp only [List.append_assoc, List.singleton_append]

section Split

variable (source : String) (budget : Nat)

theorem pieces_cut : Cut budget (Text.lines source.toList) ((pieces budget source.toList).map (·.lines)) := by
  refine ⟨tiles_joined (pieces_tile source budget), fun run member => ?_⟩
  obtain ⟨piece, formed, rfl⟩ := List.mem_map.mp member
  exact fill_admissible budget 0 [] _ (.inr (Nat.zero_le _)) piece formed

theorem pieces_fewest (runs : List (List (List Char))) (cut : Cut budget (Text.lines source.toList) runs) :
    (pieces budget source.toList).length ≤ runs.length :=
  fill_fewest budget 0 [] [] (Text.lines source.toList) runs cut

theorem element_within_budget (element : Element) (member : element ∈ split source budget) :
    Text.byteLength element.sourceText.toList < budget ∨
      element.sourceText.toList ∈ Text.lines source.toList ∧ element.startLine = element.endLine := by
  obtain ⟨position, listed⟩ := List.mem_iff_getElem?.mp member
  obtain ⟨piece, here, rfl⟩ := (split_at source budget position element).mp listed
  have formed := ((kept_mem source budget piece).mp (List.mem_of_getElem? here)).1
  have some := List.length_pos_iff.mp (tiles_bounds (pieces_tile source budget) piece formed).2.2
  have text : (piece.toElement position).sourceText.toList = Text.join ['\n'] piece.lines := String.toList_ofList
  have whole := pieces_cut source budget
  have run : piece.lines ∈ (pieces budget source.toList).map (·.lines) := List.mem_map_of_mem formed
  rw [text]
  rcases whole.admissible piece.lines run with single | cheap
  · obtain ⟨line, alone⟩ := List.length_eq_one_iff.mp single
    refine .inr ⟨?_, ?_⟩
    · rw [← whole.joined, alone]
      exact List.mem_flatten.mpr ⟨piece.lines, run, by rw [alone]; exact List.mem_singleton.mpr rfl⟩
    · simp [Piece.toElement, single]
  · have bytes := joined_bytes piece.lines some
    exact .inl (by omega)

-- What is left out is told by the characters of the lines, so that nothing but blank lines is.
def worded (piece : Piece) : Bool := (Text.join ['\n'] piece.lines).any fun c => ! Text.isBlank c

structure Stands (piece : Piece) (element : Element) : Prop where
  kind : element.kind = .module
  text : element.sourceText.toList = Text.join ['\n'] piece.lines
  startLine : element.startLine = .ofNat piece.start
  endLine : element.endLine = .ofNat (piece.start + piece.lines.length - 1)

theorem piece_stands (piece : Piece) (position : Nat) : Stands piece (piece.toElement position) :=
  ⟨rfl, String.toList_ofList, rfl, rfl⟩

theorem kept_worded : kept source budget = (pieces budget source.toList).filter worded := by
  refine List.filter_congr fun piece _ => ?_
  rw [Piece.blank, List.not_all_eq_any_not]
  rfl

theorem split_stands : List.Forall₂ Stands ((pieces budget source.toList).filter worded) (split source budget) := by
  rw [← kept_worded]
  exact numbered_follow _ _ _ fun position _ => piece_stands _ position

end Split

theorem splitting_is_frugal (source : String) (budget : Nat) :
    Text.join ['\n'] (Text.lines source.toList) = source.toList ∧ (∀ line ∈ Text.lines source.toList, '\n' ∉ line) ∧
    Tiles 0 (pieces budget source.toList) (Text.lines source.toList) ∧
    List.Forall₂ Stands ((pieces budget source.toList).filter worded) (split source budget) ∧
    (∀ piece ∈ pieces budget source.toList, piece.lines ≠ [] ∧ Admissible budget piece.lines) ∧
    (∀ element ∈ split source budget, Text.byteLength element.sourceText.toList < budget ∨
      element.sourceText.toList ∈ Text.lines source.toList ∧ element.startLine = element.endLine) ∧
    Cut budget (Text.lines source.toList) ((pieces budget source.toList).map (·.lines)) ∧
    (∀ runs, Cut budget (Text.lines source.toList) runs → (pieces budget source.toList).length ≤ runs.length) ∧
    ∀ larger, budget ≤ larger → (pieces larger source.toList).length ≤ (pieces budget source.toList).length := by
  have whole := pieces_cut source budget
  refine ⟨Text.join_split '\n' source.toList, lines_unmarked source, pieces_tile source budget,
    split_stands source budget, fun piece formed => ⟨?_, ?_⟩, element_within_budget source budget, whole,
    pieces_fewest source budget, ?_⟩
  · exact List.length_pos_iff.mp (tiles_bounds (pieces_tile source budget) piece formed).2.2
  · exact whole.admissible piece.lines (List.mem_map_of_mem formed)
  · intro larger more
    have fewest := pieces_fewest source larger ((pieces budget source.toList).map (·.lines))
      ⟨whole.joined, fun run member => admissible_larger budget larger more run (whole.admissible run member)⟩
    rwa [List.length_map] at fewest

def accented : String := "é\nab\nabcdef\nx\n"

-- The third line alone exceeds the budget; the first costs three bytes with its end.
theorem accented_cut_frugally :
    pieces 6 accented.toList = [⟨0, [['é'], "ab".toList]⟩, ⟨2, ["abcdef".toList]⟩, ⟨3, [['x'], []]⟩] ∧
    List.Forall₂ Stands [⟨0, [['é'], "ab".toList]⟩, ⟨2, ["abcdef".toList]⟩, ⟨3, [['x'], []]⟩] (split accented 6) ∧
    (pieces 6 accented.toList).length ≤ [[['é']], ["ab".toList], ["abcdef".toList], [['x'], []]].length ∧
    (pieces 13 accented.toList).length ≤ (pieces 6 accented.toList).length := by
  have formed : pieces 6 accented.toList = [⟨0, [['é'], "ab".toList]⟩, ⟨2, ["abcdef".toList]⟩, ⟨3, [['x'], []]⟩] := by
    decide +kernel
  obtain ⟨_, _, _, stands, _, _, _, fewest, grows⟩ := splitting_is_frugal accented 6
  rw [formed] at stands
  exact ⟨formed, stands, fewest _ ⟨by decide +kernel, by decide +kernel⟩, grows 13 (by decide)⟩

end CodeIndex.ModulePieces
