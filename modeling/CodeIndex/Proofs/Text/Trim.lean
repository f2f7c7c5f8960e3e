import Mathlib.Data.List.TakeWhile
import CodeIndex.Text.Whitespace

set_option autoImplicit false

namespace CodeIndex.Text

def Blank (cs : List Char) : Prop := ∀ c ∈ cs, isBlank c = true

instance (cs : List Char) : Decidable (Blank cs) := decidable_of_iff (cs.all isBlank = true) List.all_eq_true

theorem drop_blank (cs rest : List Char) (blank : Blank cs) : (cs ++ rest).dropWhile isBlank = rest.dropWhile isBlank :=
  List.dropWhile_append_of_pos blank

theorem trim_end_blank (cs right : List Char) (blank : Blank right) : trimEnd (cs ++ right) = trimEnd cs := by
  have reversed : Blank right.reverse := fun c member => blank c (List.mem_reverse.mp member)
  rw [trimEnd, List.reverse_append, drop_blank _ _ reversed, ← trimEnd]

theorem trim_between (left text right : List Char) (leftBlank : Blank left) (rightBlank : Blank right) :
    trim (left ++ text ++ right) = trim text := by
  rw [trim, trim, List.append_assoc, drop_blank left _ leftBlank, List.dropWhile_append]
  split
  · rename_i none
    have nothing : right.dropWhile isBlank = [] := List.dropWhile_eq_nil_iff.mpr rightBlank
    rw [nothing, List.isEmpty_iff.mp none]
  · exact trim_end_blank _ right rightBlank

theorem trim_inside (text : List Char) :
    ∃ left right, text = left ++ trim text ++ right ∧ Blank left ∧ Blank right := by
  have taken (cs : List Char) : Blank (cs.takeWhile isBlank) := fun c member => List.mem_takeWhile_imp member
  refine ⟨text.takeWhile isBlank, ((text.dropWhile isBlank).reverse.takeWhile isBlank).reverse, ?_, taken text, ?_⟩
  · rw [List.append_assoc, trim, trimEnd, ← List.reverse_append, List.takeWhile_append_dropWhile, List.reverse_reverse,
      List.takeWhile_append_dropWhile]
  · exact fun c member => taken _ c (List.mem_reverse.mp member)

structure Trimmed (cs : List Char) : Prop where
  first : ∀ c rest, cs = c :: rest → isBlank c = false
  last : ∀ front c, cs = front ++ [c] → isBlank c = false

theorem drop_blank_first (cs rest : List Char) (c : Char) (left : cs.dropWhile isBlank = c :: rest) : isBlank c = false := by
  have stopped := List.head?_dropWhile_not isBlank cs
  rw [left] at stopped
  exact stopped

theorem trim_end_first (cs rest : List Char) (c : Char) (left : trimEnd cs = c :: rest) : ∃ more, cs = c :: more := by
  have whole : cs = trimEnd cs ++ (cs.reverse.takeWhile isBlank).reverse := by
    rw [trimEnd, ← List.reverse_append, List.takeWhile_append_dropWhile, List.reverse_reverse]
  rw [left] at whole
  exact ⟨_, whole⟩

theorem trim_trimmed (text : List Char) : Trimmed (trim text) := by
  constructor
  · intro c rest begins
    obtain ⟨more, same⟩ := trim_end_first _ rest c begins
    exact drop_blank_first text more c same
  · intro front c ends
    apply drop_blank_first (text.dropWhile isBlank).reverse front.reverse c
    rw [← List.reverse_reverse (List.dropWhile _ _), ← trimEnd, ← trim, ends, List.reverse_append]
    rfl

theorem trimmed_between (first last : Char) (inner : List Char) (firstUnblank : isBlank first = false)
    (lastUnblank : isBlank last = false) : Trimmed (first :: (inner ++ [last])) := by
  constructor
  · intro c rest begins
    exact (List.cons.inj begins).1 ▸ firstUnblank
  · intro front c ends
    rw [← List.cons_append] at ends
    exact List.singleton_inj.mp (List.append_inj_right' ends rfl) ▸ lastUnblank

theorem trim_of_trimmed (text : List Char) (trimmed : Trimmed text) : trim text = text := by
  have dropNone (cs : List Char) (unblank : ∀ c rest, cs = c :: rest → isBlank c = false) : cs.dropWhile isBlank = cs := by
    cases cs with
    | nil => rfl
    | cons c rest => exact List.dropWhile_cons_of_neg (by simp [unblank c rest rfl])
  rw [trim, dropNone text trimmed.first, trimEnd, dropNone text.reverse, List.reverse_reverse]
  intro c rest backwards
  apply trimmed.last rest.reverse c
  rw [← List.reverse_reverse text, backwards, List.reverse_cons]

theorem trim_unblank (cs : List Char) (unblank : ∀ c ∈ cs, isBlank c = false) : trim cs = cs := by
  apply trim_of_trimmed
  constructor
  · rintro c rest rfl
    exact unblank c List.mem_cons_self
  · rintro front c rfl
    exact unblank c (List.mem_append_right front List.mem_cons_self)

theorem trim_infix (text : List Char) : trim text <:+: text := by
  obtain ⟨left, right, whole, -, -⟩ := trim_inside text
  exact ⟨left, right, whole.symm⟩

end CodeIndex.Text
