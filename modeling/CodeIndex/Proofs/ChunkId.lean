import CodeIndex.ChunkId
import CodeIndex.Proofs.Digits

set_option autoImplicit false

namespace CodeIndex.ChunkId

theorem digits_length (id : ChunkId) : id.digits.length = 32 := Text.hex_length 32 _

theorem digit_char_unhyphened : ∀ d, d < 16 → Text.digitChar d ≠ '-' := by
  decide

theorem digits_unhyphened (id : ChunkId) (c : Char) (member : c ∈ id.digits) : c ≠ '-' := by
  obtain ⟨d, bound, rfl⟩ := Text.hex_digits 32 _ c member
  exact digit_char_unhyphened d bound

theorem hyphenate_length (digits : List Char) (length : digits.length = 32) : (hyphenate digits).length = 36 := by
  simp [hyphenate, length]

theorem hyphenate_unhyphened (digits : List Char) (plain : ∀ c ∈ digits, c ≠ '-') :
    (hyphenate digits).filter (· ≠ '-') = digits := by
  have keep (part : List Char) (sub : part ⊆ digits) : part.filter (· ≠ '-') = part :=
    List.filter_eq_self.mpr fun c member => by simpa using plain c (sub member)
  have group (start size : Nat) : ((digits.drop start).take size).filter (· ≠ '-') = (digits.drop start).take size :=
    keep _ fun _ member => List.mem_of_mem_drop (List.mem_of_mem_take member)
  have hyphen : List.filter (· ≠ '-') ['-'] = [] := by decide
  have parts : hyphenate digits = (digits.drop 0).take 8 ++ ['-'] ++ (digits.drop 8).take 4 ++ ['-'] ++
      (digits.drop 12).take 4 ++ ['-'] ++ (digits.drop 16).take 4 ++ ['-'] ++ digits.drop 20 := by
    simp [hyphenate]
  simp only [parts, List.filter_append, group, hyphen, List.append_nil, keep _ (List.drop_subset 20 digits)]
  have join (start size : Nat) : (digits.drop start).take size ++ digits.drop (start + size) = digits.drop start := by
    rw [← List.drop_drop, List.take_append_drop]
  rw [List.append_assoc, List.append_assoc, List.append_assoc, join 16 4, join 12 4, join 8 4, join 0 8, List.drop_zero]

def scheme : List Char := "urn:uuid:".toList

def forms (named digits : List Char) : List (List Char) :=
  [digits, hyphenate digits, '\x7b' :: (hyphenate digits ++ ['\x7d']), named ++ hyphenate digits]

theorem of_digits_iff (cs : List Char) (id : ChunkId) : ofDigits? cs = some id ↔ Text.lowerAscii cs = id.digits := by
  have bound : id.value.toNat < 16 ^ 32 := lt_of_lt_of_eq id.value.isLt (by decide)
  rw [ofDigits?]
  split
  · rename_i size
    rw [Option.map_eq_some_iff]
    constructor
    · rintro ⟨n, read, rfl⟩
      obtain ⟨small, same⟩ := (Text.read_hex_iff cs n).mp read
      rw [size] at small same
      rw [same, digits, BitVec.toNat_ofNat, Nat.mod_eq_of_lt (lt_of_lt_of_eq small (by decide))]
    · intro same
      refine ⟨id.value.toNat, (Text.read_hex_iff cs _).mpr ⟨size ▸ bound, size ▸ same⟩, ?_⟩
      rw [BitVec.ofNat_toNat, BitVec.setWidth_eq]
  · rename_i size
    refine ⟨nofun, fun same => absurd ?_ size⟩
    have lengths := congrArg List.length same
    rwa [Text.lowerAscii, List.length_map, digits_length] at lengths

theorem spelled_length (digits : List Char) (id : ChunkId) (spells : Text.lowerAscii digits = id.digits) :
    digits.length = 32 := by
  rw [← digits_length id, ← spells, Text.lowerAscii, List.length_map]

theorem spelled_unhyphened (digits : List Char) (id : ChunkId) (spells : Text.lowerAscii digits = id.digits) (c : Char)
    (member : c ∈ digits) : c ≠ '-' := by
  rintro rfl
  have small : '-'.toLower ∈ Text.lowerAscii digits := List.mem_map_of_mem member
  exact digits_unhyphened id _ (spells ▸ small) rfl

theorem of_hyphenated_iff (cs : List Char) (id : ChunkId) :
    ofHyphenated? cs = some id ↔ ∃ digits, Text.lowerAscii digits = id.digits ∧ cs = hyphenate digits := by
  simp only [ofHyphenated?]
  constructor
  · intro found
    split at found
    · rename_i grouped
      exact ⟨_, (of_digits_iff _ id).mp found, grouped.2.symm⟩
    · cases found
  · rintro ⟨digits, spells, rfl⟩
    have plain := hyphenate_unhyphened digits (spelled_unhyphened digits id spells)
    rw [plain, if_pos ⟨hyphenate_length digits (spelled_length digits id spells), rfl⟩]
    exact (of_digits_iff digits id).mpr spells

theorem of_hyphenated_length (cs : List Char) (id : ChunkId) (found : ofHyphenated? cs = some id) : cs.length = 36 := by
  obtain ⟨digits, spells, rfl⟩ := (of_hyphenated_iff cs id).mp found
  exact hyphenate_length digits (spelled_length digits id spells)

theorem braces_around (cs : List Char) (opened : cs.head? = some '\x7b') (closed : cs.getLast? = some '\x7d')
    (long : cs.tail.dropLast ≠ []) : cs = '\x7b' :: (cs.tail.dropLast ++ ['\x7d']) := by
  obtain ⟨rest, rfl⟩ := List.head?_eq_some_iff.mp opened
  obtain ⟨front, same⟩ := List.getLast?_eq_some_iff.mp closed
  cases front with
  | nil => simp_all
  | cons c front =>
      rw [List.cons_append, List.cons.injEq] at same
      rw [List.tail_cons, same.2, List.dropLast_concat]

theorem scheme_unbraced (named rest : List Char) (spells : Text.lowerAscii named = scheme) :
    (named ++ rest).head? ≠ some '\x7b' := by
  cases named with
  | nil => exact absurd spells (by decide)
  | cons c named =>
      intro opened
      have brace : c = '\x7b' := by simpa using opened
      have first : c.toLower = 'u' := (List.cons.inj spells).1
      rw [brace] at first
      exact absurd first (by decide)

theorem of_text_forms (text : String) (id : ChunkId) (found : ofText? text = some id) :
    ∃ named digits, Text.lowerAscii named = scheme ∧ Text.lowerAscii digits = id.digits ∧ text.toList ∈ forms named digits := by
  simp only [ofText?] at found
  generalize text.toList = cs at found ⊢
  split_ifs at found with bare grouped braced named
  · exact ⟨scheme, cs, by decide, (of_digits_iff cs id).mp found, List.mem_cons_self⟩
  · obtain ⟨digits, spells, rfl⟩ := (of_hyphenated_iff cs id).mp found
    exact ⟨scheme, digits, by decide, spells, by simp [forms]⟩
  · have long : cs.tail.dropLast ≠ [] := List.ne_nil_of_length_pos (by rw [of_hyphenated_length _ id found]; decide)
    have whole := braces_around cs braced.1 braced.2 long
    obtain ⟨digits, spells, inner⟩ := (of_hyphenated_iff _ id).mp found
    rw [inner] at whole
    exact ⟨scheme, digits, by decide, spells, by simp [forms, whole]⟩
  · obtain ⟨digits, spells, rest⟩ := (of_hyphenated_iff _ id).mp found
    refine ⟨cs.take 9, digits, named, spells, ?_⟩
    rw [forms, ← rest, List.take_append_drop]
    simp

theorem forms_of_text (text : String) (id : ChunkId) (named digits : List Char) (schemed : Text.lowerAscii named = scheme)
    (spells : Text.lowerAscii digits = id.digits) (formed : text.toList ∈ forms named digits) : ofText? text = some id := by
  have size := spelled_length digits id spells
  have grouped := hyphenate_length digits size
  have inner : ofHyphenated? (hyphenate digits) = some id := (of_hyphenated_iff _ id).mpr ⟨digits, spells, rfl⟩
  have nine : named.length = 9 := by
    have lengths := congrArg List.length schemed
    rwa [Text.lowerAscii, List.length_map] at lengths
  simp only [ofText?]
  generalize text.toList = cs at formed ⊢
  simp only [forms, List.mem_cons, List.not_mem_nil, or_false] at formed
  rcases formed with rfl | rfl | rfl | rfl
  · rw [if_pos size]
    exact (of_digits_iff cs id).mpr spells
  · rw [if_neg (by omega), if_pos grouped, inner]
  · have long : ('\x7b' :: (hyphenate digits ++ ['\x7d'])).length = 38 := by simp [grouped]
    have closed : ('\x7b' :: (hyphenate digits ++ ['\x7d'])).getLast? = some '\x7d' := by
      rw [← List.cons_append, List.getLast?_concat]
    rw [if_neg (by omega), if_neg (by omega), if_pos ⟨rfl, closed⟩, List.tail_cons, List.dropLast_concat, inner]
  · have long : (named ++ hyphenate digits).length = 45 := by simp [grouped, nine]
    rw [if_neg (by omega), if_neg (by omega), if_neg fun braced => scheme_unbraced named _ schemed braced.1,
      List.take_left' nine, List.drop_left' nine]
    exact (if_pos schemed).trans inner

theorem of_text_iff (text : String) (id : ChunkId) : ofText? text = some id ↔
    ∃ named digits, Text.lowerAscii named = scheme ∧ Text.lowerAscii digits = id.digits ∧ text.toList ∈ forms named digits :=
  ⟨of_text_forms text id, fun ⟨named, digits, schemed, spells, formed⟩ => forms_of_text text id named digits schemed spells formed⟩

theorem of_text_text (id : ChunkId) : ofText? id.text = some id :=
  (of_text_iff id.text id).mpr ⟨scheme, id.digits, by decide, Text.hex_small 32 _, by simp [forms, text]⟩

theorem text_injective (a b : ChunkId) (same : a.text = b.text) : a = b := by
  have read := congrArg ofText? same
  rw [of_text_text, of_text_text] at read
  exact Option.some.inj read

def HexDigit (c : Char) : Prop := ('0' ≤ c ∧ c ≤ '9') ∨ ('a' ≤ c ∧ c ≤ 'f') ∨ ('A' ≤ c ∧ c ≤ 'F')

theorem hex_digit_iff (c : Char) : HexDigit c ↔ ∃ d, Text.hexValue? c = some d := by
  simp only [HexDigit, Text.hexValue?, Bool.and_eq_true, decide_eq_true_eq]
  split_ifs <;> simp_all

theorem read_hex_some (cs : List Char) (hex : ∀ c ∈ cs, HexDigit c) (n : Nat) : ∃ value, Text.readHex.go n cs = some value := by
  induction cs generalizing n with
  | nil => exact ⟨n, rfl⟩
  | cons c cs ih =>
      obtain ⟨d, value⟩ := (hex_digit_iff c).mp (hex c List.mem_cons_self)
      rw [Text.readHex.go, value]
      exact ih (fun next member => hex next (List.mem_cons_of_mem c member)) (16 * n + d)

theorem spelled_iff (digits : List Char) :
    (∃ id : ChunkId, Text.lowerAscii digits = id.digits) ↔ digits.length = 32 ∧ ∀ c ∈ digits, HexDigit c := by
  constructor
  · rintro ⟨id, spells⟩
    refine ⟨spelled_length digits id spells, fun c member => ?_⟩
    have small : c.toLower ∈ id.digits := spells ▸ List.mem_map_of_mem member
    obtain ⟨d, bound, same⟩ := Text.hex_digits 32 _ _ small
    exact (hex_digit_iff c).mpr ⟨d, (Text.hex_value_iff c d).mpr ⟨bound, same⟩⟩
  · rintro ⟨size, hex⟩
    obtain ⟨value, read⟩ := read_hex_some digits hex 0
    refine ⟨⟨.ofNat 128 value⟩, (of_digits_iff digits _).mp ?_⟩
    rw [ofDigits?, if_pos size, Text.readHex, read]
    rfl

theorem digit_char_small : ∀ d, d < 16 →
    ('0' ≤ Text.digitChar d ∧ Text.digitChar d ≤ '9') ∨ ('a' ≤ Text.digitChar d ∧ Text.digitChar d ≤ 'f') := by
  decide

theorem digits_small (id : ChunkId) (c : Char) (member : c ∈ id.digits) : ('0' ≤ c ∧ c ≤ '9') ∨ ('a' ≤ c ∧ c ≤ 'f') := by
  obtain ⟨d, bound, rfl⟩ := Text.hex_digits 32 _ c member
  exact digit_char_small d bound

theorem accepted_iff (text : String) : (∃ id, ofText? text = some id) ↔
    ∃ named digits, Text.lowerAscii named = scheme ∧ digits.length = 32 ∧ (∀ c ∈ digits, HexDigit c) ∧
      text.toList ∈ forms named digits := by
  simp only [of_text_iff]
  constructor
  · rintro ⟨id, named, digits, schemed, spells, formed⟩
    obtain ⟨size, hex⟩ := (spelled_iff digits).mp ⟨id, spells⟩
    exact ⟨named, digits, schemed, size, hex, formed⟩
  · rintro ⟨named, digits, schemed, size, hex, formed⟩
    obtain ⟨id, spells⟩ := (spelled_iff digits).mpr ⟨size, hex⟩
    exact ⟨id, named, digits, schemed, spells, formed⟩

end CodeIndex.ChunkId
