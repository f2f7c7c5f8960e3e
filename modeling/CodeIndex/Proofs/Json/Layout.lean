import CodeIndex.Json.Printer
import CodeIndex.Proofs.Json.Documents
import CodeIndex.Proofs.Text.Lines

set_option autoImplicit false

namespace CodeIndex

namespace Token

section Literals

theorem escape_written (c : Char) : ∃ letter : Letter, letter.text = Json.escapeChar c ∧
    ∀ rest, Letter.denote none (letter :: rest) = (Letter.denote none rest).map (c :: ·) := by
  unfold Json.escapeChar
  split
  · exact ⟨.short '"' '"' (by decide), rfl, fun _ => rfl⟩
  · exact ⟨.short '\\' '\\' (by decide), rfl, fun _ => rfl⟩
  · exact ⟨.short 'b' '\x08' (by decide), rfl, fun _ => rfl⟩
  · exact ⟨.short 'f' '\x0c' (by decide), rfl, fun _ => rfl⟩
  · exact ⟨.short 'n' '\n' (by decide), rfl, fun _ => rfl⟩
  · exact ⟨.short 'r' '\r' (by decide), rfl, fun _ => rfl⟩
  · exact ⟨.short 't' '\t' (by decide), rfl, fun _ => rfl⟩
  · rename_i unquoted unslashed _ _ _ _ _
    by_cases control : c.toNat < 0x20
    · have hex := Text.read_hex_written 4 c.toNat (Nat.lt_trans control (by decide))
      refine ⟨.unit (Text.hex 4 c.toNat) c.toNat (Text.hex_length 4 _) hex, by rw [if_pos control]; rfl, fun rest => ?_⟩
      have low : ¬ Letter.isLow c.toNat = true := fun low => by
        have := (low_iff _).mp low
        omega
      have high : ¬ Letter.isHigh c.toNat = true := fun high => by
        have := (high_iff _).mp high
        omega
      rw [Letter.denote, if_neg low, if_neg high, Char.ofNat_toNat]
    · exact ⟨.plain c unquoted unslashed (Nat.not_lt.mp control), by rw [if_neg control]; rfl, fun _ => rfl⟩

theorem escapes_written (cs : List Char) : ∃ letters : List Letter,
    letters.flatMap Letter.text = cs.flatMap Json.escapeChar ∧ Letter.denote none letters = some cs := by
  induction cs with
  | nil => exact ⟨[], rfl, rfl⟩
  | cons c cs ih =>
      obtain ⟨letter, text, stands⟩ := escape_written c
      obtain ⟨letters, texts, denoted⟩ := ih
      exact ⟨letter :: letters, by rw [List.flatMap_cons, List.flatMap_cons, text, texts], by rw [stands, denoted]; rfl⟩

theorem literal_written (literal : Literal) : LiteralText literal (Json.literalText literal) := by
  cases literal with
  | none => exact ⟨[.unit ['d', '8', '0', '0'] 0xD800 rfl (by decide)], by decide, rfl⟩
  | some text =>
      obtain ⟨letters, texts, denoted⟩ := escapes_written text.toList
      refine ⟨letters, by rw [texts]; rfl, ?_⟩
      rw [denoted, Option.map_some, String.ofList_toList]

end Literals

section Numbers

theorem decimal_head (n : Nat) (positive : n ≠ 0) : (Text.decimal n).head? ≠ some '0' := by
  induction n using Text.decimal.induct with
  | case1 n small =>
      rw [Text.decimal, if_pos small]
      revert n
      decide
  | case2 n large ih =>
      rw [Text.decimal_step n large, List.head?_append_of_ne_nil _ (Text.decimal_nonempty (n / 10))]
      exact ih (by omega)

theorem decimal_whole (n : Nat) : WholeText (Text.decimal n) := by
  refine ⟨Text.decimal_digits n, ?_⟩
  by_cases zero : n = 0
  · exact .inl (by rw [zero, Text.decimal]; rfl)
  · exact .inr (decimal_head n zero)

theorem padded_length (width n : Nat) : (Json.paddedDecimal width n).length = width := by
  induction width generalizing n with
  | zero => rfl
  | succ width ih => rw [Json.paddedDecimal, List.length_append, ih, List.length_singleton]

theorem padded_digits (width n : Nat) : AllDigits (Json.paddedDecimal width n) := by
  induction width generalizing n with
  | zero => exact nofun
  | succ width ih =>
      intro c member
      rcases List.mem_append.mp member with front | last
      · exact ih (n / 10) c front
      · rw [List.mem_singleton.mp last]
        exact Text.digit_char_digit (n % 10) (Nat.mod_lt n (by decide))

theorem digits_value_snoc (cs : List Char) (c : Char) :
    Text.digitsValue (cs ++ [c]) = 10 * Text.digitsValue cs + Text.digitValue c := by
  simp [Text.digitsValue]

theorem padded_value (cs : List Char) (width n : Nat) :
    Text.digitsValue (cs ++ Json.paddedDecimal width n) = Text.digitsValue cs * 10 ^ width + n % 10 ^ width := by
  induction width generalizing n with
  | zero => simp [Json.paddedDecimal, Nat.mod_one]
  | succ width ih =>
      have split : n % (10 * 10 ^ width) = n % 10 + 10 * (n / 10 % 10 ^ width) := Nat.mod_mul
      rw [Json.paddedDecimal, ← List.append_assoc, digits_value_snoc, ih,
        Text.digit_value_written (n % 10) (Nat.mod_lt n (by decide)), Nat.pow_succ', split, Nat.mul_add, Nat.mul_left_comm,
        Nat.add_assoc, Nat.add_comm (10 * _) (n % 10)]

def exponentText : Option Int → List Char
  | none => []
  | some e => 'e' :: (if e < 0 then ['-'] else []) ++ Text.decimal e.natAbs

theorem exponent_written (exponent : Option Int) : ExponentText (exponentText exponent) exponent := by
  cases exponent with
  | none => exact .inl ⟨rfl, rfl⟩
  | some e =>
      refine .inr ⟨'e', if e < 0 then ['-'] else [], Text.decimal e.natAbs, rfl, .inl rfl, ?_, Text.decimal_digits _, ?_⟩
      · split
        · exact .inr (.inr rfl)
        · exact .inl rfl
      · rw [Text.digits_value_written]
        by_cases negative : e < 0
        · rw [if_pos negative, if_pos rfl, Int.ofNat_natAbs_of_nonpos (Int.le_of_lt negative), Int.neg_neg]
        · rw [if_neg negative, if_neg (List.cons_ne_nil _ _).symm, Int.natAbs_of_nonneg (Int.not_lt.mp negative)]

theorem fraction_written (places n : Nat) :
    FractionText (if places = 0 then [] else '.' :: Json.paddedDecimal places n) (Json.paddedDecimal places n) := by
  cases places with
  | zero => exact .inl ⟨rfl, rfl⟩
  | succ width =>
      have filled : Json.paddedDecimal (width + 1) n ≠ [] := by
        rw [← List.length_pos_iff, padded_length]
        exact Nat.zero_lt_succ width
      exact .inr ⟨if_neg (Nat.succ_ne_zero width), filled, padded_digits _ n⟩

theorem number_written (number : JsonNumber) : NumberText number (Json.numberText number) := by
  obtain ⟨negative, mantissa, places, exponent⟩ := number
  refine ⟨Text.decimal (mantissa / 10 ^ places), _, Json.paddedDecimal places (mantissa % 10 ^ places), exponentText exponent,
    ?_, decimal_whole _, fraction_written places _, exponent_written exponent, ?_, (padded_length _ _).symm⟩
  · simp only [Json.numberText, signText, List.append_assoc]
    cases exponent <;> rfl
  · rw [padded_value, Text.digits_value_written, Nat.mod_mod, Nat.mul_comm, Nat.div_add_mod]

end Numbers

section Joining

theorem spells_append (first second : List Token) (xs ys : List Char) (spells : Spells first xs) (later : Spells second ys) :
    Spells (first ++ second) (xs ++ ys) := by
  induction spells with
  | done => exact later
  | blank c tokens cs space _ ih => exact .blank c _ _ space ih
  | next token tokens text cs written _ ih =>
      rw [List.append_assoc]
      exact .next token _ text _ written ih

theorem spells_token (token : Token) (text : List Char) (written : token.Written text) : Spells [token] text := by
  simpa using Spells.next token [] text [] written .done

theorem spells_blanks (blanks : List Char) (spaces : ∀ c ∈ blanks, isSpace c = true) : Spells [] blanks := by
  induction blanks with
  | nil => exact .done
  | cons c rest ih => exact .blank c [] rest (spaces c List.mem_cons_self) (ih fun d member => spaces d (List.mem_cons_of_mem c member))

theorem spells_mark (token : Token) (c : Char) (tokens : List Token) (cs : List Char) (written : token.Written [c])
    (later : Spells tokens cs) : Spells (token :: tokens) (c :: cs) :=
  .next token tokens [c] cs written later

end Joining

end Token

namespace Json

open Token (Spells spells_append spells_token spells_blanks spells_mark)

section Lists

variable (gap : List Char) (spaces : ∀ c ∈ gap, Token.isSpace c = true) (text : Json → List Char)

include spaces

theorem spells_items (items : List Json) (each : ∀ item ∈ items, Spells (spelled item) (text item)) :
    Spells (spelledItems items) (Text.join (',' :: gap) (items.map text)) := by
  induction items with
  | nil => exact .done
  | cons item more ih =>
      have first := each item List.mem_cons_self
      have others := ih fun other member => each other (List.mem_cons_of_mem item member)
      by_cases last : more = []
      · subst last
        simpa [spelledItems, Text.join] using first
      · rw [spelledItems, if_neg (by simp [last]), List.map_cons, Text.join_cons _ _ _ (by simp [last]), List.append_assoc]
        exact spells_append _ _ _ _ first (spells_mark .comma ',' _ _ rfl (spells_append [] _ _ _ (spells_blanks gap spaces) others))

theorem spells_members (space : List Char) (blank : ∀ c ∈ space, Token.isSpace c = true) (members : List (Literal × Json))
    (each : ∀ member ∈ members, Spells (spelled member.2) (text member.2)) :
    Spells (spelledMembers members)
      (Text.join (',' :: gap) (members.map fun member => literalText member.1 ++ ':' :: (space ++ text member.2))) := by
  induction members with
  | nil => exact .done
  | cons member more ih =>
      obtain ⟨key, value⟩ := member
      have first : Spells (.str key :: .colon :: spelled value) (literalText key ++ ':' :: (space ++ text value)) :=
        spells_append [_] _ _ _ (spells_token (.str key) _ (Token.literal_written key))
          (spells_mark .colon ':' _ _ rfl (spells_append [] _ _ _ (spells_blanks space blank) (each _ List.mem_cons_self)))
      have others := ih fun other member => each other (List.mem_cons_of_mem _ member)
      by_cases last : more = []
      · subst last
        simpa [spelledMembers, Text.join] using first
      · rw [spelledMembers, if_neg (by simp [last]), List.map_cons, Text.join_cons _ _ _ (by simp [last]), List.append_assoc]
        exact spells_append _ _ _ _ first (spells_mark .comma ',' _ _ rfl (spells_append [] _ _ _ (spells_blanks gap spaces) others))

end Lists

section Compact

theorem compact_items_map (items : List Json) : compactItems items = items.map compact := by
  induction items with
  | nil => rfl
  | cons item rest ih => rw [compactItems, ih, List.map_cons]

theorem compact_members_map (members : List (Literal × Json)) :
    compactMembers members = members.map fun member => literalText member.1 ++ ':' :: ([] ++ compact member.2) := by
  induction members with
  | nil => rfl
  | cons member rest ih => rw [compactMembers, ih, List.map_cons]; rfl

theorem spells_compact (json : Json) : Spells (spelled json) (compact json) := by
  induction json using nested with
  | null => exact spells_token .null _ rfl
  | bool value => cases value <;> exact spells_token (.bool _) _ rfl
  | num value => exact spells_token (.num value) _ (Token.number_written value)
  | str value => exact spells_token (.str value) _ (Token.literal_written value)
  | arr items each =>
      have inner := spells_items [] nofun compact items each
      rw [compact, spelled, compact_items_map]
      exact spells_mark .openBracket '[' _ _ rfl (spells_append _ _ _ _ inner (spells_token .closeBracket _ rfl))
  | obj members each =>
      have inner := spells_members [] nofun compact [] nofun members each
      rw [compact, spelled, compact_members_map]
      exact spells_mark .openBrace '\x7b' _ _ rfl (spells_append _ _ _ _ inner (spells_token .closeBrace _ rfl))

theorem read_compact_text (json : Json) : read? json.compactText = some json := by
  rw [read_iff, Document, compactText, String.toList_ofList]
  exact spells_compact json

end Compact

section Pretty

theorem pretty_items_map (level : Nat) (items : List Json) : prettyItems level items = items.map (pretty level) := by
  induction items with
  | nil => rfl
  | cons item rest ih => rw [prettyItems, ih, List.map_cons]

theorem pretty_members_map (level : Nat) (members : List (Literal × Json)) :
    prettyMembers level members = members.map fun member => literalText member.1 ++ ':' :: ([' '] ++ pretty level member.2) := by
  induction members with
  | nil => rfl
  | cons member rest ih => rw [prettyMembers, ih, List.map_cons]; rfl

theorem newline_spaces (level : Nat) : ∀ c ∈ newline level, Token.isSpace c = true := by
  intro c member
  rcases List.mem_cons.mp member with rfl | blank
  · rfl
  · rw [List.eq_of_mem_replicate blank]
    rfl

theorem blank_space : ∀ c ∈ [' '], Token.isSpace c = true := List.forall_mem_singleton.mpr rfl

theorem spells_block (level : Nat) (left right : Char) (first last : Token) (inner : List Token) (entries : List (List Char))
    (starts : first.Written [left]) (stops : last.Written [right])
    (body : Spells inner (Text.join (',' :: newline (level + 1)) entries)) (empty : entries = [] → inner = []) :
    Spells (first :: (inner ++ [last])) (block level left right entries) := by
  have closed : Spells [last] [right] := spells_token last [right] stops
  rw [block]
  split
  · next none =>
      rw [empty (List.isEmpty_iff.mp none)]
      exact spells_mark first left _ _ starts closed
  · have ended : Spells [last] (newline level ++ [right]) := spells_append [] _ _ _ (spells_blanks _ (newline_spaces level)) closed
    rw [List.append_assoc, List.append_assoc, List.cons_append]
    refine spells_mark first left _ _ starts (spells_append [] _ _ _ (spells_blanks _ (newline_spaces (level + 1))) ?_)
    exact spells_append _ _ _ _ body ended

theorem spells_pretty (level : Nat) (json : Json) : Spells (spelled json) (pretty level json) := by
  induction json using nested generalizing level with
  | null => exact spells_token .null _ rfl
  | bool value => cases value <;> exact spells_token (.bool _) _ rfl
  | num value => exact spells_token (.num value) _ (Token.number_written value)
  | str value => exact spells_token (.str value) _ (Token.literal_written value)
  | arr items each =>
      have inner := spells_items (newline (level + 1)) (newline_spaces _) (pretty (level + 1)) items
        fun item member => each item member (level + 1)
      rw [pretty, spelled, pretty_items_map]
      refine spells_block level '[' ']' .openBracket .closeBracket _ _ rfl rfl inner fun none => ?_
      rw [List.map_eq_nil_iff.mp none, spelledItems]
  | obj members each =>
      have inner := spells_members (newline (level + 1)) (newline_spaces _) (pretty (level + 1)) [' '] blank_space members
        fun member held => each member held (level + 1)
      rw [pretty, spelled, pretty_members_map]
      refine spells_block level '\x7b' '\x7d' .openBrace .closeBrace _ _ rfl rfl inner fun none => ?_
      rw [List.map_eq_nil_iff.mp none, spelledMembers]

theorem read_pretty_text (json : Json) : read? json.prettyText = some json := by
  rw [read_iff, Document, prettyText, String.toList_ofList]
  exact spells_pretty 0 json

end Pretty

end Json
end CodeIndex
