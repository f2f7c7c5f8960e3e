import Mathlib.Data.List.Forall2
import Mathlib.Logic.ExistsUnique
import CodeIndex.ModulePieces
import CodeIndex.Proofs.Text.Lines

set_option autoImplicit false

namespace CodeIndex

theorem numbered_follow {α β : Type} (number : Nat → α → β) (items : List α) (related : α → β → Prop)
    (each : ∀ (position : Nat) (inside : position < items.length), related items[position] (number position items[position])) :
    List.Forall₂ related items (items.mapIdx number) := by
  rw [List.forall₂_iff_get]
  refine ⟨List.length_mapIdx.symm, fun position inside _ => ?_⟩
  simpa using each position inside

namespace ModulePieces

inductive Tiles : Nat → List Piece → List (List Char) → Prop where
  | none (start : Nat) : Tiles start [] []
  | next (start : Nat) (piece : Piece) (pieces : List Piece) (rest : List (List Char)) (here : piece.start = start)
      (some : piece.lines ≠ []) (later : Tiles (start + piece.lines.length) pieces rest) :
      Tiles start (piece :: pieces) (piece.lines ++ rest)

-- The lines of the open run and those to come are what the pieces will hold.
theorem fill_tiles (budget start spent : Nat) (current rest : List (List Char)) :
    Tiles start (fill budget start spent current rest) (current.reverse ++ rest) := by
  induction rest generalizing start spent current with
  | nil =>
      by_cases idle : current = []
      · subst idle
        exact .none start
      · rw [fill, if_neg (by simpa using idle)]
        exact .next start ⟨start, current.reverse⟩ [] [] rfl (by simpa using idle) (.none _)
  | cons line rest ih =>
      rw [fill]
      split
      · rename_i flushed
        refine .next start ⟨start, current.reverse⟩ _ (line :: rest) rfl (by simpa using flushed.2) ?_
        simpa using ih (start + current.length) (lineCost line) [line]
      · simpa using ih start (spent + lineCost line) (line :: current)

section Tiling

variable {start : Nat} {pieces : List Piece} {lines : List (List Char)} (tiles : Tiles start pieces lines)

include tiles

theorem tiles_bounds (piece : Piece) (member : piece ∈ pieces) :
    start ≤ piece.start ∧ piece.start + piece.lines.length ≤ start + lines.length ∧ 0 < piece.lines.length := by
  induction tiles with
  | none start => cases member
  | next start first pieces rest here some later ih =>
      have size := List.length_pos_iff.mpr some
      rw [List.length_append]
      rcases List.mem_cons.mp member with rfl | there
      · omega
      · have bounds := ih there
        omega

theorem tiles_lines (piece : Piece) (member : piece ∈ pieces) :
    (lines.drop (piece.start - start)).take piece.lines.length = piece.lines := by
  induction tiles with
  | none start => cases member
  | next start first pieces rest here some later ih =>
      rcases List.mem_cons.mp member with rfl | there
      · simp [here]
      · have bounds := tiles_bounds later piece there
        have skip : piece.start - start = first.lines.length + (piece.start - (start + first.lines.length)) := by omega
        rw [skip, List.drop_append, List.drop_eq_nil_of_le (Nat.le_add_right _ _), List.nil_append, Nat.add_sub_cancel_left]
        exact ih there

theorem tiles_ordered : pieces.Pairwise fun early late => early.start + early.lines.length ≤ late.start := by
  induction tiles with
  | none start => exact .nil
  | next start first pieces rest here some later ih =>
      exact .cons (fun piece member => here ▸ (tiles_bounds later piece member).1) ih

theorem tiles_cover (number : Nat) (within : number < lines.length) :
    ∃ piece ∈ pieces, piece.start ≤ start + number ∧ start + number < piece.start + piece.lines.length := by
  induction tiles generalizing number with
  | none start => cases within
  | next start first pieces rest here some later ih =>
      rw [List.length_append] at within
      by_cases early : number < first.lines.length
      · exact ⟨first, List.mem_cons_self, by omega, by omega⟩
      · obtain ⟨piece, member, below, above⟩ := ih (number - first.lines.length) (by omega)
        exact ⟨piece, List.mem_cons_of_mem _ member, by omega, by omega⟩

theorem tiles_text : Text.join ['\n'] (pieces.map (·.text)) = Text.join ['\n'] lines := by
  induction tiles with
  | none start => rfl
  | next start first pieces rest here some later ih =>
      cases later with
      | none => simp [Text.join, Piece.text]
      | next _ second others tail _ filled last =>
          have left : (second :: others).map (·.text) ≠ [] := List.cons_ne_nil _ _
          have more : second.lines ++ tail ≠ [] := List.append_ne_nil_of_left_ne_nil filled tail
          rw [List.map_cons, Text.join_cons _ _ _ left, ih, Text.join_append _ _ _ some more]
          rfl

end Tiling

structure Describes (lines : List (List Char)) (position : Nat) (element : Element) : Prop where
  kind : element.kind = .module
  name : element.name = "module_" ++ Text.decimalText position
  docstring : element.docstring = none
  comments : element.comments = []
  parentClass : element.parentClass = none
  ordered : element.startLine ≤ element.endLine
  within : element.endLine.toNat < lines.length
  text : element.sourceText.toList =
    Text.join ['\n'] (lines.extract element.startLine.toNat (element.endLine.toNat + 1))
  unblank : ∃ c ∈ element.sourceText.toList, Text.isBlank c = false

def covers (element : Element) (number : Nat) : Prop :=
  element.startLine.toNat ≤ number ∧ number ≤ element.endLine.toNat

section Split

variable (source : String) (budget : Nat)

omit budget in
theorem lines_unmarked : ∀ line ∈ Text.lines source.toList, '\n' ∉ line := by
  intro line member inside
  simpa using Text.split_unmarked (· = '\n') source.toList line member '\n' inside

theorem pieces_tile : Tiles 0 (pieces budget source.toList) (Text.lines source.toList) :=
  fill_tiles budget 0 0 [] (Text.lines source.toList)

def kept : List Piece := (pieces budget source.toList).filter (! ·.blank)

theorem kept_mem (piece : Piece) : piece ∈ kept source budget ↔ piece ∈ pieces budget source.toList ∧ piece.blank = false := by
  simp [kept]

theorem kept_ordered (i j : Nat) (early late : Piece) (before : i < j) (first : (kept source budget)[i]? = some early)
    (second : (kept source budget)[j]? = some late) : early.start + early.lines.length ≤ late.start := by
  have ordered : (kept source budget).Pairwise fun early late => early.start + early.lines.length ≤ late.start :=
    (tiles_ordered (pieces_tile source budget)).sublist List.filter_sublist
  obtain ⟨iBound, rfl⟩ := List.getElem?_eq_some_iff.mp first
  obtain ⟨jBound, rfl⟩ := List.getElem?_eq_some_iff.mp second
  exact List.pairwise_iff_getElem.mp ordered i j iBound jBound before

theorem split_at (position : Nat) (element : Element) : (split source budget)[position]? = some element ↔
    ∃ piece, (kept source budget)[position]? = some piece ∧ piece.toElement position = element := by
  rw [split, List.getElem?_mapIdx, Option.map_eq_some_iff]
  rfl

variable (fits : Text.byteLength source.toList < UInt64.size)

include fits

-- A text has no more lines than there are words, so their numbers are kept as they are.
theorem piece_numbers (piece : Piece) (member : piece ∈ pieces budget source.toList) (position : Nat) :
    (piece.toElement position).startLine.toNat = piece.start ∧
      (piece.toElement position).endLine.toNat + 1 = piece.start + piece.lines.length := by
  have bounds := tiles_bounds (pieces_tile source budget) piece member
  have count := Text.split_length (· = '\n') source.toList
  change (Text.lines source.toList).length ≤ _ at count
  have first : (UInt64.ofNat piece.start).toNat = piece.start := UInt64.toNat_ofNat_of_lt' (by omega)
  have last : (UInt64.ofNat (piece.start + piece.lines.length - 1)).toNat = piece.start + piece.lines.length - 1 :=
    UInt64.toNat_ofNat_of_lt' (by omega)
  refine ⟨first, ?_⟩
  change (UInt64.ofNat (piece.start + piece.lines.length - 1)).toNat + 1 = _
  omega

theorem piece_covers (piece : Piece) (member : piece ∈ pieces budget source.toList) (position number : Nat) :
    covers (piece.toElement position) number ↔ piece.start ≤ number ∧ number < piece.start + piece.lines.length := by
  obtain ⟨first, last⟩ := piece_numbers source budget fits piece member position
  rw [covers, first]
  omega

theorem element_described (position : Nat) (element : Element) (listed : (split source budget)[position]? = some element) :
    Describes (Text.lines source.toList) position element := by
  obtain ⟨piece, here, rfl⟩ := (split_at source budget position element).mp listed
  obtain ⟨member, unblank⟩ := (kept_mem source budget piece).mp (List.mem_of_getElem? here)
  have tiles := pieces_tile source budget
  have bounds := tiles_bounds tiles piece member
  have lines := tiles_lines tiles piece member
  obtain ⟨first, last⟩ := piece_numbers source budget fits piece member position
  refine ⟨rfl, ?_, rfl, rfl, rfl, ?_, by omega, ?_, ?_⟩
  · rw [Text.decimalText, ← String.ofList_toList (s := "module_"), ← String.ofList_append]
    rfl
  · exact UInt64.le_iff_toNat_le.mpr (by omega)
  · rw [first, last, List.extract, Nat.add_sub_cancel_left]
    rw [Nat.sub_zero] at lines
    rw [lines]
    exact String.toList_ofList
  · have text : (piece.toElement position).sourceText.toList = piece.text := String.toList_ofList
    rw [text]
    simpa [Piece.blank] using unblank

omit fits in
theorem line_of_piece (piece : Piece) (member : piece ∈ pieces budget source.toList) (number : Nat) (line : List Char)
    (here : (Text.lines source.toList)[number]? = some line)
    (inside : piece.start ≤ number ∧ number < piece.start + piece.lines.length) : line ∈ piece.lines := by
  have lines := tiles_lines (pieces_tile source budget) piece member
  apply List.mem_of_getElem? (i := number - piece.start)
  rw [← lines, List.getElem?_take_of_lt (by omega), List.getElem?_drop, Nat.sub_zero, Nat.add_sub_cancel' inside.1, here]

theorem unblank_line_covered (number : Nat) (line : List Char) (here : (Text.lines source.toList)[number]? = some line)
    (unblank : ∃ c ∈ line, Text.isBlank c = false) :
    ∃ position : Nat, ∃ element, (split source budget)[position]? = some element ∧ covers element number := by
  obtain ⟨within, _⟩ := List.getElem?_eq_some_iff.mp here
  obtain ⟨piece, member, below, above⟩ := tiles_cover (pieces_tile source budget) number within
  rw [Nat.zero_add] at below above
  obtain ⟨c, inside, dark⟩ := unblank
  have text : c ∈ piece.text :=
    Text.mem_join ['\n'] line piece.lines (line_of_piece source budget piece member number line here ⟨below, above⟩) c inside
  have stays : piece.blank = false := by
    rw [Piece.blank, List.all_eq_false]
    exact ⟨c, text, by simp [dark]⟩
  obtain ⟨position, found⟩ := List.mem_iff_getElem?.mp ((kept_mem source budget piece).mpr ⟨member, stays⟩)
  exact ⟨position, piece.toElement position, (split_at source budget position _).mpr ⟨piece, found, rfl⟩,
    (piece_covers source budget fits piece member position number).mpr ⟨below, above⟩⟩

theorem split_ordered (i j : Nat) (early late : Element) (before : i < j) (first : (split source budget)[i]? = some early)
    (second : (split source budget)[j]? = some late) : early.endLine < late.startLine := by
  obtain ⟨front, frontListed, rfl⟩ := (split_at source budget i early).mp first
  obtain ⟨back, backListed, rfl⟩ := (split_at source budget j late).mp second
  have order := kept_ordered source budget i j front back before frontListed backListed
  have frontMember := ((kept_mem source budget front).mp (List.mem_of_getElem? frontListed)).1
  have backMember := ((kept_mem source budget back).mp (List.mem_of_getElem? backListed)).1
  obtain ⟨_, frontLast⟩ := piece_numbers source budget fits front frontMember i
  obtain ⟨backFirst, _⟩ := piece_numbers source budget fits back backMember j
  exact UInt64.lt_iff_toNat_lt.mpr (by omega)

theorem covered_once (number i j : Nat) (one other : Element) (first : (split source budget)[i]? = some one)
    (second : (split source budget)[j]? = some other) (here : covers one number) (there : covers other number) : i = j := by
  have apart (i j : Nat) (early late : Element) (before : i < j) (first : (split source budget)[i]? = some early)
      (second : (split source budget)[j]? = some late) : ¬ (covers early number ∧ covers late number) := by
    have order := UInt64.lt_iff_toNat_lt.mp (split_ordered source budget fits i j early late before first second)
    rintro ⟨here, there⟩
    have upper := here.2
    have lower := there.1
    omega
  rcases Nat.lt_trichotomy i j with less | same | more
  · exact absurd ⟨here, there⟩ (apart i j one other less first second)
  · exact same
  · exact absurd ⟨there, here⟩ (apart j i other one more second first)

omit fits in
theorem split_joined (unblank : ∀ piece ∈ pieces budget source.toList, piece.blank = false) :
    Text.join ['\n'] ((split source budget).map (·.sourceText.toList)) = source.toList := by
  have all : (pieces budget source.toList).filter (! ·.blank) = pieces budget source.toList := by
    apply List.filter_eq_self.mpr
    intro piece member
    simp [unblank piece member]
  have texts : (split source budget).map (·.sourceText.toList) = (pieces budget source.toList).map (·.text) := by
    rw [split, all]
    apply List.ext_getElem?
    intro position
    simp [Piece.toElement, Function.comp_def]
  rw [texts, tiles_text (pieces_tile source budget)]
  exact Text.join_split '\n' source.toList

end Split

theorem splitting_loses_nothing (source : String) (budget : Nat) (fits : Text.byteLength source.toList < UInt64.size) :
    Text.join ['\n'] (Text.lines source.toList) = source.toList ∧
    (∀ line ∈ Text.lines source.toList, '\n' ∉ line) ∧
    (∀ (position : Nat) (element : Element), (split source budget)[position]? = some element →
      Describes (Text.lines source.toList) position element ∧
      ∀ next, (split source budget)[position + 1]? = some next → element.endLine < next.startLine) ∧
    (∀ (number : Nat) (line : List Char), (Text.lines source.toList)[number]? = some line →
      ((∀ element ∈ split source budget, ¬ covers element number) → ∀ c ∈ line, Text.isBlank c = true) ∧
      ((∃ c ∈ line, Text.isBlank c = false) →
        ∃! position : Nat, ∃ element, (split source budget)[position]? = some element ∧ covers element number)) ∧
    ((∀ piece ∈ pieces budget source.toList, piece.blank = false) →
      Text.join ['\n'] ((split source budget).map (·.sourceText.toList)) = source.toList) := by
  refine ⟨Text.join_split '\n' source.toList, lines_unmarked source, ?_, ?_, split_joined source budget⟩
  · intro position element listed
    exact ⟨element_described source budget fits position element listed,
      fun next following => split_ordered source budget fits position (position + 1) element next (Nat.lt_succ_self _) listed following⟩
  · intro number line here
    constructor
    · intro uncovered c inside
      cases dark : Text.isBlank c with
      | true => rfl
      | false =>
          obtain ⟨position, element, listed, covered⟩ := unblank_line_covered source budget fits number line here ⟨c, inside, dark⟩
          exact absurd covered (uncovered element (List.mem_of_getElem? listed))
    · intro unblank
      obtain ⟨position, element, listed, covered⟩ := unblank_line_covered source budget fits number line here unblank
      refine ⟨position, ⟨element, listed, covered⟩, ?_⟩
      rintro other ⟨twin, twinListed, twinCovered⟩
      exact covered_once source budget fits number other position twin element twinListed listed twinCovered covered

def spaced : String := "a\n \n\nb\n"

-- The two lines in the middle make a piece that is left out; the line after them keeps its number.
theorem spaced_lines_kept :
    ∃ first second, split spaced 3 = [first, second] ∧ first.endLine < second.startLine ∧
      Describes (Text.lines spaced.toList) 1 second ∧ second.startLine = 3 ∧ second.endLine = 4 ∧
      ∃! position : Nat, ∃ element, (split spaced 3)[position]? = some element ∧ covers element 3 := by
  have pieces : split spaced 3 = [⟨.module, "module_0", "a", none, [], none, 0, 0⟩,
      ⟨.module, "module_1", "b\n", none, [], none, 3, 4⟩] := by
    decide +kernel
  obtain ⟨_, _, each, lines, _⟩ := splitting_loses_nothing spaced 3 (by decide +kernel)
  refine ⟨_, _, pieces, ?_, ?_, rfl, rfl, ?_⟩
  · exact (each 0 _ (by rw [pieces]; rfl)).2 _ (by rw [pieces]; rfl)
  · exact (each 1 _ (by rw [pieces]; rfl)).1
  · exact (lines 3 ['b'] (by decide +kernel)).2 ⟨'b', List.mem_singleton.mpr rfl, by decide⟩

end ModulePieces

end CodeIndex
