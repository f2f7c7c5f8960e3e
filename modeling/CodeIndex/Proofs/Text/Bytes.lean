import CodeIndex.Proofs.Text.Lines

set_option autoImplicit false

namespace CodeIndex.Text

def LiesAt (source : String) (start stop : Nat) (text : String) : Prop := ∃ before after : String,
  source = before ++ text ++ after ∧ before.utf8ByteSize = start ∧ (before ++ text).utf8ByteSize = stop

def CutAt (source : String) (offset : Nat) : Prop :=
  ∃ before after : String, source = before ++ after ∧ before.utf8ByteSize = offset

def InsideCharacter (source : String) (offset : Nat) : Prop := ∃ (before after : String) (c : Char),
  source = before ++ String.singleton c ++ after ∧ before.utf8ByteSize < offset ∧
    offset < (before ++ String.singleton c).utf8ByteSize

theorem byte_length_string (text : String) : byteLength text.toList = text.utf8ByteSize := by
  have listed : ∀ cs : List Char, byteLength cs = (String.ofList cs).utf8ByteSize := by
    intro cs
    induction cs with
    | nil => rfl
    | cons c rest ih => rw [byteLength, ih, String.ofList_cons, String.utf8ByteSize_append, String.utf8ByteSize_singleton]
  rw [listed, String.ofList_toList]

theorem byte_length_zero (cs : List Char) (none : byteLength cs = 0) : cs = [] := by
  cases cs with
  | nil => rfl
  | cons c rest =>
      have size := c.utf8Size_pos
      rw [byteLength] at none
      omega

theorem bytes_step (c : Char) (cs : List Char) (n : Nat) : dropBytes (c :: cs) (c.utf8Size + n) = dropBytes cs n ∧
    takeBytes (c :: cs) (c.utf8Size + n) = (takeBytes cs n).map (c :: ·) := by
  obtain ⟨k, size⟩ := Nat.exists_eq_succ_of_ne_zero (Nat.ne_of_gt c.utf8Size_pos)
  have total : c.utf8Size + n = (k + n) + 1 := by omega
  have fits : c.utf8Size ≤ (k + n) + 1 := by omega
  rw [total, dropBytes, takeBytes, if_pos fits, if_pos fits, ← total, Nat.add_sub_cancel_left]
  exact ⟨rfl, rfl⟩

theorem drop_bytes_iff (cs rest : List Char) (n : Nat) :
    dropBytes cs n = some rest ↔ ∃ before, cs = before ++ rest ∧ byteLength before = n := by
  constructor
  · intro found
    fun_induction dropBytes cs n with
    | case1 cs =>
        cases found
        exact ⟨[], rfl, rfl⟩
    | case2 => cases found
    | case3 c cs n fits ih =>
        obtain ⟨before, rfl, size⟩ := ih found
        refine ⟨c :: before, rfl, ?_⟩
        rw [byteLength]
        omega
    | case4 => cases found
  · rintro ⟨before, rfl, rfl⟩
    induction before with
    | nil => rw [byteLength, List.nil_append, dropBytes]
    | cons c before ih => rw [List.cons_append, byteLength, (bytes_step c _ _).1, ih]

theorem take_bytes_iff (cs text : List Char) (n : Nat) :
    takeBytes cs n = some text ↔ ∃ after, cs = text ++ after ∧ byteLength text = n := by
  constructor
  · intro found
    fun_induction takeBytes cs n generalizing text with
    | case1 cs =>
        cases found
        exact ⟨cs, rfl, rfl⟩
    | case2 => cases found
    | case3 c cs n fits ih =>
        obtain ⟨rest, taken, rfl⟩ := Option.map_eq_some_iff.mp found
        obtain ⟨after, rfl, size⟩ := ih rest taken
        refine ⟨after, rfl, ?_⟩
        rw [byteLength]
        omega
    | case4 => cases found
  · rintro ⟨after, rfl, rfl⟩
    induction text with
    | nil => rw [byteLength, takeBytes]
    | cons c text ih => rw [List.cons_append, byteLength, (bytes_step c _ _).2, ih, Option.map_some]

theorem slice_iff (cs text : List Char) (start stop : Nat) : slice? cs start stop = some text ↔
    ∃ before after, cs = before ++ text ++ after ∧ byteLength before = start ∧ byteLength (before ++ text) = stop := by
  constructor
  · intro found
    rw [slice?] at found
    split at found
    · obtain ⟨rest, dropped, taken⟩ := Option.bind_eq_some_iff.mp found
      obtain ⟨before, rfl, front⟩ := (drop_bytes_iff cs rest start).mp dropped
      obtain ⟨after, rfl, size⟩ := (take_bytes_iff rest text _).mp taken
      refine ⟨before, after, (List.append_assoc _ _ _).symm, front, ?_⟩
      rw [byte_length_append]
      omega
    · cases found
  · rintro ⟨before, after, rfl, rfl, rfl⟩
    have size : byteLength (before ++ text) - byteLength before = byteLength text := by
      rw [byte_length_append, Nat.add_sub_cancel_left]
    have dropped := (drop_bytes_iff (before ++ text ++ after) (text ++ after) _).mpr ⟨before, List.append_assoc _ _ _, rfl⟩
    have taken := (take_bytes_iff (text ++ after) text _).mpr ⟨after, rfl, rfl⟩
    rw [slice?, if_pos (by rw [byte_length_append]; omega), dropped, Option.bind_some, size, taken]

theorem lies_at_iff (source text : String) (start stop : Nat) :
    LiesAt source start stop text ↔ slice? source.toList start stop = some text.toList := by
  rw [slice_iff]
  constructor
  · rintro ⟨before, after, rfl, rfl, rfl⟩
    refine ⟨before.toList, after.toList, ?_, byte_length_string before, ?_⟩
    · rw [String.toList_append, String.toList_append]
    · rw [← String.toList_append, byte_length_string]
  · rintro ⟨before, after, same, rfl, rfl⟩
    refine ⟨.ofList before, .ofList after, ?_, ?_, ?_⟩
    · rw [← String.toList_inj, same, String.toList_append, String.toList_append, String.toList_ofList, String.toList_ofList]
    · rw [← byte_length_string, String.toList_ofList]
    · rw [← byte_length_string, String.toList_append, String.toList_ofList]

instance (source text : String) (start stop : Nat) : Decidable (LiesAt source start stop text) :=
  decidable_of_iff _ (lies_at_iff source text start stop).symm

theorem cuts_ordered (front back before after : String) (same : front ++ back = before ++ after)
    (order : front.utf8ByteSize ≤ before.utf8ByteSize) : ∃ between, before = front ++ between ∧ back = between ++ after := by
  rw [← String.toList_inj, String.toList_append, String.toList_append] at same
  rcases List.append_eq_append_iff.mp same with ⟨between, later, rest⟩ | ⟨between, later, rest⟩
  · refine ⟨.ofList between, ?_, ?_⟩
    · rw [← String.toList_inj, later, String.toList_append, String.toList_ofList]
    · rw [← String.toList_inj, rest, String.toList_append, String.toList_ofList]
  · have size := congrArg byteLength later
    rw [byte_length_append, byte_length_string, byte_length_string] at size
    have none := byte_length_zero between (by omega)
    subst none
    refine ⟨"", ?_, ?_⟩
    · rw [← String.toList_inj, String.append_empty, later, List.append_nil]
    · rw [← String.toList_inj, String.empty_append, rest, List.nil_append]

theorem lies_within (source outer inner : String) (start stop first last : Nat) (around : LiesAt source start stop outer)
    (inside : LiesAt source first last inner) (left : start ≤ first) (right : last ≤ stop) :
    LiesAt outer (first - start) (last - start) inner := by
  obtain ⟨before, after, rfl, rfl, rfl⟩ := around
  obtain ⟨front, back, same, rfl, rfl⟩ := inside
  rw [String.append_assoc, String.append_assoc] at same
  obtain ⟨between, rfl, rest⟩ := cuts_ordered before (outer ++ after) front (inner ++ back) same left
  simp only [String.utf8ByteSize_append] at right
  rw [← String.append_assoc] at rest
  obtain ⟨ending, rfl, _⟩ := cuts_ordered (between ++ inner) back outer after rest.symm
    (by rw [String.utf8ByteSize_append]; omega)
  refine ⟨between, ending, rfl, ?_, ?_⟩
  · rw [String.utf8ByteSize_append, Nat.add_sub_cancel_left]
  · simp only [String.utf8ByteSize_append]
    omega

theorem cut_or_inside (cs : List Char) (offset : Nat) (within : offset ≤ (String.ofList cs).utf8ByteSize) :
    CutAt (.ofList cs) offset ∨ InsideCharacter (.ofList cs) offset := by
  induction cs generalizing offset with
  | nil => exact .inl ⟨"", "", rfl, (Nat.le_zero.mp within).symm⟩
  | cons c rest ih =>
      rw [String.ofList_cons] at within ⊢
      rw [String.utf8ByteSize_append, String.utf8ByteSize_singleton] at within
      by_cases start : offset = 0
      · exact .inl ⟨"", _, String.empty_append.symm, start.symm⟩
      · by_cases early : offset < c.utf8Size
        · refine .inr ⟨"", _, c, by rw [String.empty_append], Nat.pos_of_ne_zero start, ?_⟩
          rwa [String.empty_append, String.utf8ByteSize_singleton]
        · rcases ih (offset - c.utf8Size) (by omega) with ⟨before, after, same, size⟩ | ⟨before, after, d, same, left, right⟩
          · refine .inl ⟨.singleton c ++ before, after, by rw [same, String.append_assoc], ?_⟩
            rw [String.utf8ByteSize_append, String.utf8ByteSize_singleton]
            omega
          · refine .inr ⟨.singleton c ++ before, after, d, by rw [same]; simp only [String.append_assoc], ?_, ?_⟩
            · rw [String.utf8ByteSize_append, String.utf8ByteSize_singleton]
              omega
            · simp only [String.utf8ByteSize_append, String.utf8ByteSize_singleton] at right ⊢
              omega

theorem cut_not_inside (source : String) (offset : Nat) (cut : CutAt source offset) : ¬ InsideCharacter source offset := by
  obtain ⟨front, back, same, rfl⟩ := cut
  rintro ⟨before, after, c, rfl, left, right⟩
  rw [String.append_assoc] at same
  obtain ⟨between, rfl, rest⟩ := cuts_ordered before _ front back same (Nat.le_of_lt left)
  simp only [String.utf8ByteSize_append] at left right
  obtain ⟨ending, whole, _⟩ := cuts_ordered between back (.singleton c) after rest.symm (by omega)
  rw [← String.toList_inj, String.toList_singleton, String.toList_append, eq_comm, List.append_eq_singleton_iff] at whole
  rcases whole with ⟨none, _⟩ | ⟨all, _⟩
  · rw [← byte_length_string between, none, byteLength] at left
    omega
  · rw [← byte_length_string between, all, byteLength, byteLength, String.utf8ByteSize_singleton] at right
    omega

theorem cut_at_iff (source : String) (offset : Nat) :
    CutAt source offset ↔ offset ≤ source.utf8ByteSize ∧ ¬ InsideCharacter source offset := by
  constructor
  · intro cut
    refine ⟨?_, cut_not_inside source offset cut⟩
    obtain ⟨before, after, rfl, rfl⟩ := cut
    rw [String.utf8ByteSize_append]
    omega
  · rintro ⟨within, outside⟩
    have split := cut_or_inside source.toList offset
    rw [String.ofList_toList] at split
    exact (split within).resolve_right outside

theorem some_text_iff (source : String) (start stop : Nat) :
    (∃ text, LiesAt source start stop text) ↔ start ≤ stop ∧ CutAt source start ∧ CutAt source stop := by
  constructor
  · rintro ⟨text, before, after, rfl, rfl, rfl⟩
    refine ⟨?_, ⟨before, text ++ after, String.append_assoc, rfl⟩, ⟨before ++ text, after, rfl, rfl⟩⟩
    rw [String.utf8ByteSize_append]
    omega
  · rintro ⟨order, ⟨before, rest, rfl, rfl⟩, ⟨front, after, same, rfl⟩⟩
    obtain ⟨text, rfl, rfl⟩ := cuts_ordered before rest front after same order
    exact ⟨text, before, after, String.append_assoc.symm, rfl, rfl⟩

theorem no_text_iff (source : String) (start stop : Nat) : (¬ ∃ text, LiesAt source start stop text) ↔
    stop < start ∨ source.utf8ByteSize < stop ∨ InsideCharacter source start ∨ InsideCharacter source stop := by
  rw [some_text_iff, cut_at_iff, cut_at_iff]
  grind

end CodeIndex.Text
