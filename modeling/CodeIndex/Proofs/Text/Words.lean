import CodeIndex.Proofs.Text.Lines
import CodeIndex.Proofs.Text.Trim

set_option autoImplicit false

namespace CodeIndex.Text

def Word (cs : List Char) : Prop := cs ≠ [] ∧ ∀ c ∈ cs, isBlank c = false

instance (cs : List Char) : Decidable (Word cs) :=
  decidable_of_iff (cs ≠ [] ∧ cs.all (isBlank · = false)) (and_congr_right fun _ => by simp)

inductive LaidOut : List (List Char) → List Char → Prop where
  | blank (gap : List Char) (blank : Blank gap) : LaidOut [] gap
  | word (gap word rest : List Char) (words : List (List Char)) (blank : Blank gap) (proper : Word word)
      (ends : ∀ c more, rest = c :: more → isBlank c = true) (later : LaidOut words rest) :
      LaidOut (word :: words) (gap ++ word ++ rest)

theorem split_at_mark (p : Char → Bool) (front back : List Char) (mark : Char) (cuts : p mark = true) :
    splitWhere p (front ++ mark :: back) = splitWhere p front ++ splitWhere p back := by
  induction front with
  | nil => exact split_cut p mark back cuts
  | cons c front ih =>
      by_cases here : p c = true
      · rw [List.cons_append, split_cut p c _ here, split_cut p c front here, ih, List.cons_append]
      · have keeps : p c = false := by simpa using here
        obtain ⟨piece, rest, before, after⟩ := split_keep p c front keeps
        obtain ⟨first, others, whole, longer⟩ := split_keep p c (front ++ mark :: back) keeps
        rw [ih, before, List.cons_append, List.cons.injEq] at whole
        rw [List.cons_append, longer, after, ← whole.1, ← whole.2, List.cons_append]

theorem split_unbroken (p : Char → Bool) (cs : List Char) (whole : ∀ c ∈ cs, p c = false) : splitWhere p cs = [cs] := by
  induction cs with
  | nil => rfl
  | cons c cs ih =>
      obtain ⟨piece, rest, before, after⟩ := split_keep p c cs (whole c List.mem_cons_self)
      rw [ih fun d member => whole d (List.mem_cons_of_mem c member), List.cons.injEq] at before
      rw [after, ← before.1, ← before.2]

theorem words_at_blank (front back : List Char) (mark : Char) (blank : isBlank mark = true) :
    words (front ++ mark :: back) = words front ++ words back := by
  rw [words, split_at_mark isBlank front back mark blank, List.filter_append, ← words, ← words]

theorem words_of_word (cs : List Char) (proper : Word cs) : words cs = [cs] := by
  rw [words, split_unbroken isBlank cs proper.2]
  simp [proper.1]

theorem words_after_gap (gap cs : List Char) (blank : Blank gap) : words (gap ++ cs) = words cs := by
  induction gap with
  | nil => rfl
  | cons c gap ih =>
      have later := ih fun d member => blank d (List.mem_cons_of_mem c member)
      rw [← later]
      exact words_at_blank [] (gap ++ cs) c (blank c List.mem_cons_self)

theorem words_of_layout (ws : List (List Char)) (text : List Char) (laid : LaidOut ws text) : words text = ws := by
  induction laid with
  | blank gap blank => simpa [words, splitWhere] using words_after_gap gap [] blank
  | word gap word rest ws blank proper ends later ih =>
      rw [List.append_assoc, words_after_gap gap _ blank]
      cases rest with
      | nil =>
          rw [List.append_nil, words_of_word word proper, ← ih]
          rfl
      | cons c more =>
          have parted := ends c more rfl
          rw [words_at_blank word more c parted, words_of_word word proper, ← ih]
          exact congrArg (word :: ·) (words_at_blank [] more c parted).symm

theorem laid_out_after_blank (ws : List (List Char)) (text : List Char) (c : Char) (blank : isBlank c = true)
    (laid : LaidOut ws text) : LaidOut ws (c :: text) := by
  have longer (gap : List Char) (gapBlank : Blank gap) : Blank (c :: gap) := List.forall_mem_cons.mpr ⟨blank, gapBlank⟩
  cases laid with
  | blank _ gapBlank => exact .blank (c :: text) (longer text gapBlank)
  | word gap word rest ws gapBlank proper ends later =>
      exact .word (c :: gap) word rest ws (longer gap gapBlank) proper ends later

theorem laid_out_some (text : List Char) : ∃ ws, LaidOut ws text := by
  induction text with
  | nil => exact ⟨[], .blank [] nofun⟩
  | cons c text ih =>
      obtain ⟨ws, laid⟩ := ih
      by_cases blank : isBlank c = true
      · exact ⟨ws, laid_out_after_blank ws text c blank laid⟩
      · have unblank : isBlank c = false := by simpa using blank
        have alone : Word [c] := ⟨List.cons_ne_nil c [], by simpa using unblank⟩
        cases laid with
        | blank _ gapBlank =>
            refine ⟨[[c]], .word [] [c] text [] nofun alone ?_ (.blank text gapBlank)⟩
            rintro d more rfl
            exact gapBlank d List.mem_cons_self
        | word gap word rest ws gapBlank proper ends later =>
            cases gap with
            | nil =>
                have grown : Word (c :: word) := ⟨List.cons_ne_nil c word, List.forall_mem_cons.mpr ⟨unblank, proper.2⟩⟩
                exact ⟨(c :: word) :: ws, .word [] (c :: word) rest ws nofun grown ends later⟩
            | cons d gap =>
                have onward := LaidOut.word (d :: gap) word rest ws gapBlank proper ends later
                refine ⟨[c] :: word :: ws, .word [] [c] _ _ nofun alone ?_ onward⟩
                rintro e more same
                exact (List.cons.inj same).1 ▸ gapBlank d List.mem_cons_self

theorem words_iff (text : List Char) (ws : List (List Char)) : words text = ws ↔ LaidOut ws text := by
  constructor
  · rintro rfl
    obtain ⟨ws, laid⟩ := laid_out_some text
    exact words_of_layout ws text laid ▸ laid
  · exact words_of_layout ws text

theorem laid_out_words (text : List Char) : LaidOut (words text) text := (words_iff text _).mp rfl

theorem laid_out_proper (ws : List (List Char)) (text : List Char) (laid : LaidOut ws text) : ∀ word ∈ ws, Word word := by
  induction laid with
  | blank gap blank => exact nofun
  | word gap word rest ws blank proper ends later ih => exact List.forall_mem_cons.mpr ⟨proper, ih⟩

theorem join_laid_out (ws : List (List Char)) (proper : ∀ word ∈ ws, Word word) : LaidOut ws (join [' '] ws) := by
  induction ws with
  | nil => exact .blank [] nofun
  | cons word ws ih =>
      have here := proper word List.mem_cons_self
      have later := ih fun next member => proper next (List.mem_cons_of_mem word member)
      by_cases last : ws = []
      · subst last
        simpa [join] using LaidOut.word [] word [] [] nofun here nofun (.blank [] nofun)
      · rw [join_cons _ _ _ last, List.append_assoc]
        refine .word [] word _ ws nofun here ?_ (laid_out_after_blank ws _ ' ' (by decide) later)
        intro c more same
        exact (List.cons.inj same).1 ▸ (by decide)

theorem words_joined (text : List Char) : words (join [' '] (words text)) = words text :=
  words_of_layout _ _ (join_laid_out _ (laid_out_proper _ _ (laid_out_words text)))

end CodeIndex.Text
