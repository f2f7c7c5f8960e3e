import CodeIndex.Proofs.Digits
import CodeIndex.Proofs.Text.Trim
import CodeIndex.Store.Width

set_option autoImplicit false

namespace CodeIndex.Width

section Search

-- The first letter of the mark does not come again in it, so the text before an occurrence cannot run
-- into it and be an earlier one.
theorem mark_apart (first : Char) (rest front tail : List Char) (once : first ∉ rest) (filled : front ≠ [])
    (starts : first :: rest <+: front ++ (first :: rest ++ tail)) : first :: rest <+: front := by
  by_cases within : (first :: rest).length ≤ front.length
  · exact List.prefix_of_prefix_length_le starts (List.prefix_append _ _) within
  · have runs : front <+: first :: rest :=
      List.prefix_of_prefix_length_le (List.prefix_append _ _) starts (Nat.le_of_not_le within)
    obtain ⟨more, parts⟩ := runs
    obtain ⟨beyond, joined⟩ := starts
    rw [← parts, List.append_assoc] at joined
    have overlap : more ++ beyond = first :: rest ++ tail := by
      have same := List.append_cancel_left joined
      rwa [parts] at same
    cases front with
    | nil => exact absurd rfl filled
    | cons c front =>
        obtain ⟨rfl, behind⟩ := List.cons.inj parts
        cases more with
        | nil => exact absurd (by simpa using (congrArg List.length behind).ge) within
        | cons d more =>
            obtain ⟨rfl, -⟩ := List.cons.inj overlap
            exact absurd (behind ▸ List.mem_append_right front List.mem_cons_self) once

theorem after_found (first : Char) (rest front tail : List Char) (once : first ∉ rest)
    (none : ¬ first :: rest <:+: front) : after? (first :: rest) (front ++ (first :: rest ++ tail)) = some tail := by
  induction front with
  | nil => simp [after?]
  | cons c front ih =>
      rw [List.infix_cons_iff, not_or] at none
      have later : ¬ (first :: rest).isPrefixOf (c :: (front ++ (first :: rest ++ tail))) = true := by
        rw [List.isPrefixOf_iff_prefix, ← List.cons_append]
        exact fun starts => none.1 (mark_apart first rest (c :: front) tail once (List.cons_ne_nil c front) starts)
      rw [List.cons_append, after?, if_neg later]
      exact ih none.2

theorem after_cases (first : Char) (rest cs tail : List Char) (found : after? (first :: rest) cs = some tail) :
    ∃ front, cs = front ++ (first :: rest ++ tail) ∧ ¬ first :: rest <:+: front := by
  induction cs with
  | nil => simp [after?] at found
  | cons c cs ih =>
      rw [after?] at found
      split at found
      · rename_i here
        obtain ⟨behind, parts⟩ := List.isPrefixOf_iff_prefix.mp here
        refine ⟨[], ?_, by simp⟩
        rw [← parts, List.drop_left, Option.some.injEq] at found
        rw [List.nil_append, ← parts, found]
      · rename_i later
        obtain ⟨front, parts, none⟩ := ih found
        refine ⟨c :: front, congrArg (c :: ·) parts, ?_⟩
        rw [List.infix_cons_iff, not_or]
        refine ⟨fun starts => later (List.isPrefixOf_iff_prefix.mpr ?_), none⟩
        rw [parts, ← List.cons_append]
        exact starts.trans (List.prefix_append _ _)

theorem before_found (c : Char) (inside rest : List Char) (absent : c ∉ inside) :
    before? c (inside ++ c :: rest) = some inside := by
  have others : ∀ d ∈ inside, decide (d ≠ c) = true := by
    intro d member
    rw [decide_eq_true_eq]
    rintro rfl
    exact absent member
  rw [before?, if_pos (by simp), List.takeWhile_append_of_pos others]
  simp

theorem before_cases (c : Char) (cs inside : List Char) (found : before? c cs = some inside) :
    ∃ rest, cs = inside ++ c :: rest := by
  rw [before?] at found
  split at found
  · rename_i present
    obtain ⟨front, rest, rfl, absent⟩ := List.eq_append_cons_of_mem (List.contains_iff_mem.mp present)
    have same := before_found c front rest absent
    rw [before?, if_pos present] at same
    rw [same, Option.some.injEq] at found
    exact ⟨rest, by rw [found]⟩
  · cases found

end Search

section Letters

def isPlain (c : Char) : Bool := Text.isBlank c || Text.isDigit c || c = '+' || c = ']'

theorem plain_code (c : Char) (plain : isPlain c = true) : ¬ (65 ≤ c.toNat ∧ c.toNat ≤ 90) ∧ ¬ (97 ≤ c.toNat ∧ c.toNat ≤ 122) := by
  simp only [isPlain, Bool.or_eq_true, decide_eq_true_eq] at plain
  rcases plain with ((blank | digit) | rfl) | rfl
  · simp only [Text.isBlank, Bool.or_eq_true, Bool.and_eq_true, decide_eq_true_eq] at blank
    omega
  · have within := Text.digit_code c digit
    omega
  · decide
  · decide

theorem lower_plain (c : Char) (plain : isPlain c = true ∨ isPlain c.toLower = true) : c.toLower = c := by
  rcases Text.lower_cases c with ⟨same, -⟩ | ⟨low, high, shifted⟩
  · exact same
  · rcases plain with before | after
    · exact absurd ⟨low, high⟩ (plain_code c before).1
    · exact absurd (by omega) (plain_code c.toLower after).2

theorem lower_all_plain (cs : List Char) (plain : ∀ c ∈ cs, isPlain c = true ∨ isPlain c.toLower = true) :
    Text.lowerAscii cs = cs := by
  rw [Text.lowerAscii, List.map_congr_left fun c member => lower_plain c (plain c member)]
  exact List.map_id cs

end Letters

structure Clause where
  front : List Char
  mark : List Char
  left : List Char
  sign : List Char
  digits : List Char
  right : List Char
  rest : List Char
  first : ¬ "float[".toList <:+: Text.lowerAscii front
  opening : Text.lowerAscii mark = "float[".toList
  leftBlank : Text.Blank left
  signed : Text.Signed sign
  numeral : Text.Digits digits
  rightBlank : Text.Blank right

namespace Clause

def inside (clause : Clause) : List Char := clause.left ++ (clause.sign ++ clause.digits) ++ clause.right

def text (clause : Clause) : String :=
  .ofList (clause.front ++ clause.mark ++ (clause.inside ++ ']' :: clause.rest))

def width (clause : Clause) : Nat := Text.digitsValue clause.digits

theorem number_chars (clause : Clause) (c : Char) (member : c ∈ clause.sign ++ clause.digits) :
    c = '+' ∨ Text.isDigit c = true := by
  rcases List.mem_append.mp member with sign | digit
  · rcases clause.signed with none | plus
    · rw [none] at sign
      cases sign
    · rw [plus, List.mem_singleton] at sign
      exact .inl sign
  · exact .inr (clause.numeral.2 c digit)

theorem trim_inside (clause : Clause) : Text.trim clause.inside = clause.sign ++ clause.digits := by
  rw [inside, Text.trim_between _ _ _ clause.leftBlank clause.rightBlank, Text.trim_unblank]
  intro c member
  rcases clause.number_chars c member with rfl | digit
  · decide
  · exact Text.digit_unblank c digit

theorem inside_chars (clause : Clause) (c : Char) (member : c ∈ clause.inside) :
    Text.isBlank c = true ∨ c = '+' ∨ Text.isDigit c = true := by
  rcases List.mem_append.mp member with early | right
  · rcases List.mem_append.mp early with left | number
    · exact .inl (clause.leftBlank c left)
    · exact .inr (clause.number_chars c number)
  · exact .inl (clause.rightBlank c right)

theorem inside_plain (clause : Clause) (c : Char) (member : c ∈ clause.inside) : isPlain c = true := by
  rcases clause.inside_chars c member with blank | rfl | digit <;> simp_all [isPlain]

theorem inside_open (clause : Clause) : ']' ∉ clause.inside := by
  intro member
  rcases clause.inside_chars ']' member with blank | same | digit
  · exact absurd blank (by decide)
  · exact absurd same (by decide)
  · exact absurd digit (by decide)

theorem lowered (clause : Clause) : Text.lowerAscii clause.text.toList =
    Text.lowerAscii clause.front ++ ('f' :: "loat[".toList ++ (clause.inside ++ ']' :: Text.lowerAscii clause.rest)) := by
  have kept : Text.lowerAscii clause.inside = clause.inside :=
    lower_all_plain clause.inside fun c member => .inl (clause.inside_plain c member)
  have opening : Text.lowerAscii clause.mark = 'f' :: "loat[".toList := clause.opening
  rw [text, String.toList_ofList]
  simp only [Text.lowerAscii, List.map_append, List.map_cons] at kept opening ⊢
  rw [kept, opening, List.append_assoc]
  rfl

theorem parse_text (clause : Clause) :
    parse? clause.text = if clause.width < UInt64.size then some clause.width else none := by
  have found : after? "float[".toList (Text.lowerAscii clause.text.toList) =
      some (clause.inside ++ ']' :: Text.lowerAscii clause.rest) := by
    rw [lowered]
    exact after_found 'f' "loat[".toList _ _ (by decide) clause.first
  rw [parse?, found, Option.bind_eq_bind, Option.bind_some, before_found ']' _ _ clause.inside_open,
    Option.bind_some, trim_inside, Text.read_word_signed _ _ clause.signed clause.numeral, width]

end Clause

theorem parse_cases (text : String) (n : Nat) (found : parse? text = some n) : ∃ clause : Clause, clause.text = text := by
  simp only [parse?, Option.bind_eq_bind, Option.bind_eq_some_iff] at found
  obtain ⟨tail, opened, inside, closed, number⟩ := found
  obtain ⟨lowFront, parts, first⟩ := after_cases 'f' "loat[".toList _ tail opened
  obtain ⟨lowRest, rfl⟩ := before_cases ']' tail inside closed
  obtain ⟨sign, digits, written, signed, numeral⟩ := Text.read_word_cases _ n number
  obtain ⟨left, right, wrapped, leftBlank, rightBlank⟩ := Text.trim_inside inside
  obtain ⟨front, behind, cut, rfl, lowBehind⟩ := List.map_eq_append_iff.mp parts
  obtain ⟨mark, beyond, rfl, opening, lowBeyond⟩ := List.map_eq_append_iff.mp lowBehind
  obtain ⟨within, closing, rfl, lowWithin, lowClosing⟩ := List.map_eq_append_iff.mp lowBeyond
  obtain ⟨bracket, rest, rfl, lowBracket, -⟩ := List.map_eq_cons_iff.mp lowClosing
  let clause : Clause := {
    front := front
    mark := mark
    left := left
    sign := sign
    digits := digits
    right := right
    rest := rest
    first := first
    opening := opening
    leftBlank := leftBlank
    signed := signed
    numeral := numeral
    rightBlank := rightBlank }
  have around : clause.inside = inside := by rw [Clause.inside, ← written, ← wrapped]
  have letters : within = inside := by
    refine (lower_all_plain within fun c member => .inr (clause.inside_plain _ ?_)).symm.trans lowWithin
    rw [around, ← lowWithin]
    exact List.mem_map_of_mem member
  have closes : bracket = ']' := by
    have kept := lower_plain bracket (.inr (by rw [lowBracket]; rfl))
    rwa [lowBracket, eq_comm] at kept
  refine ⟨clause, ?_⟩
  rw [← String.ofList_toList (s := text), cut, letters, closes, Clause.text, around, List.append_assoc]

def plainClause (front back : List Char) (n : Nat) (first : ¬ "float[".toList <:+: Text.lowerAscii front) : Clause where
  front := front
  mark := "FLOAT[".toList
  left := []
  sign := []
  digits := Text.decimal n
  right := []
  rest := back
  first := first
  opening := by decide
  leftBlank := nofun
  signed := .inl rfl
  numeral := Text.decimal_digits n
  rightBlank := nofun

theorem parse_plain (front opened closed back : String) (n : Nat) (bound : n < UInt64.size)
    (first : ¬ "float[".toList <:+: Text.lowerAscii front.toList) (opens : opened = front ++ "FLOAT[")
    (closes : closed = "]" ++ back) : parse? (opened ++ Text.decimalText n ++ closed) = some n := by
  have written : opened ++ Text.decimalText n ++ closed = (plainClause front.toList back.toList n first).text := by
    rw [← String.toList_inj, opens, closes, Clause.text, Clause.inside, Text.decimalText]
    simp [plainClause]
  rw [written, Clause.parse_text, Clause.width]
  simp only [plainClause, Text.digits_value_written, if_pos bound]

theorem parse_declaration (n : Nat) (bound : n < UInt64.size) : parse? (declaration n) = some n :=
  parse_plain "CREATE VIRTUAL TABLE vec_embeddings USING vec0(embedding " _ _ ")" n bound (by decide +kernel)
    (by simp) (by simp)

theorem parse_creation (n : Nat) (bound : n < UInt64.size) : parse? (creation n) = some n :=
  parse_plain "CREATE VIRTUAL TABLE IF NOT EXISTS vec_embeddings USING vec0(embedding " _ _ ");" n bound (by decide +kernel)
    (by simp) (by simp)

-- The letters around the numeral stay variables here: rewriting under long literals is slow.
theorem cut_before (opened before name number closed : String) (opens : opened = before ++ name) :
    opened ++ number ++ closed = before ++ (name ++ number ++ closed) := by
  rw [opens]
  simp only [String.append_assoc]

theorem cut_around (opened before name number closed inner after : String) (opens : opened = before ++ name)
    (closes : closed = inner ++ after) : opened ++ number ++ closed = before ++ (name ++ number ++ inner) ++ after := by
  rw [cut_before opened before name number closed opens, closes]
  simp only [String.append_assoc]

theorem creation_kept (n : Nat) : ∃ table, creation n = "CREATE VIRTUAL TABLE " ++ "IF NOT EXISTS " ++ table ++ ";" ∧
    declaration n = "CREATE VIRTUAL TABLE " ++ table :=
  ⟨"vec_embeddings USING vec0(embedding FLOAT[" ++ Text.decimalText n ++ "])",
    cut_around _ ("CREATE VIRTUAL TABLE " ++ "IF NOT EXISTS ") "vec_embeddings USING vec0(embedding FLOAT[" _ _ "])" ";"
      (by simp) (by simp),
    cut_before _ "CREATE VIRTUAL TABLE " "vec_embeddings USING vec0(embedding FLOAT[" _ "])" (by simp)⟩

theorem declared_width_read :
    (∀ n, n < UInt64.size → parse? (creation n) = some n ∧ parse? (declaration n) = some n ∧
      ∃ table, creation n = "CREATE VIRTUAL TABLE " ++ "IF NOT EXISTS " ++ table ++ ";" ∧
        declaration n = "CREATE VIRTUAL TABLE " ++ table) ∧
    (∀ clause : Clause, parse? clause.text = if clause.width < UInt64.size then some clause.width else none) ∧
    ∀ text, (∀ clause : Clause, clause.text ≠ text) → parse? text = none := by
  refine ⟨fun n bound => ⟨parse_creation n bound, parse_declaration n bound, creation_kept n⟩, Clause.parse_text, ?_⟩
  intro text unlike
  rw [Option.eq_none_iff_forall_ne_some]
  intro n found
  obtain ⟨clause, same⟩ := parse_cases text n found
  exact unlike clause same

-- The first opening is the one whose bracket counts, however often its beginning stands before it.
def oddClause : Clause where
  front := "x ſloat[ floflo fload[".toList
  mark := "fLoAt[".toList
  left := [' ', '\u2003']
  sign := ['+']
  digits := "007".toList
  right := ['\u0085']
  rest := "float[9]".toList
  first := by decide +kernel
  opening := by decide
  leftBlank := by decide
  signed := .inr rfl
  numeral := by decide
  rightBlank := by decide

theorem odd_width_read : parse? (creation 18446744073709551615) = some 18446744073709551615 ∧
    parse? "x ſloat[ floflo fload[fLoAt[ \u2003+007\u0085]float[9]" = some 7 ∧ parse? "create table x (a int)" = none := by
  refine ⟨(declared_width_read.1 _ (by decide)).1, declared_width_read.2.1 oddClause, declared_width_read.2.2 _ ?_⟩
  intro clause same
  have bracket : ']' ∈ "create table x (a int)".toList := by simp [← same, Clause.text]
  exact absurd bracket (by decide)

theorem check_ok_iff (n : Nat) : check n = .ok () ↔ 0 < n ∧ n ≤ 8192 := by
  unfold check
  split
  · simp only [reduceCtorEq, false_iff]
    omega
  · split
    · simp only [reduceCtorEq, false_iff]
      omega
    · simp only [true_iff]
      omega

end CodeIndex.Width
