import CodeIndex.Proofs.Json.Literals
import CodeIndex.Proofs.Json.Numbers
import Mathlib.Data.List.Chain

set_option autoImplicit false

namespace CodeIndex.Token

section Words

variable (done : List Token)

theorem read_pending (state : State) (token : Token) (rest : List Char) (ends : finish state = some [token])
    (goes : ∀ c tail, rest = c :: tail → step state c = (start c).map fun (tokens, next) => (token :: tokens, next)) :
    readFrom state done rest = readFrom .between (token :: done) rest := by
  cases rest with
  | nil =>
      rw [readFrom, ends, readFrom]
      simp [finish]
  | cons c tail =>
      rw [readFrom, goes c tail rfl, readFrom, step]
      cases start c with
      | none => rfl
      | some found => simp

theorem read_within (word : List Char) (token : Token) (rest : List Char) :
    readFrom (.word word token) done (word ++ rest) = readFrom .between (token :: done) rest := by
  induction word with
  | nil => exact read_pending done (.word [] token) token rest rfl fun _ _ _ => rfl
  | cons head tail ih =>
      rw [List.cons_append, read_on _ (.word tail token) done head _ (by rw [step, if_pos rfl])]
      exact ih

theorem read_word (c : Char) (word : List Char) (token : Token) (rest : List Char)
    (begins : start c = some ([], .word word token)) :
    readFrom .between done (c :: word ++ rest) = readFrom .between (token :: done) rest :=
  (read_on .between (.word word token) done c _ begins).trans (read_within done word token rest)

theorem word_cases (word : List Char) (token : Token) (cs : List Char) (all : List Token)
    (found : readFrom (.word word token) done cs = some all) : ∃ rest, cs = word ++ rest := by
  induction word generalizing cs with
  | nil => exact ⟨cs, rfl⟩
  | cons head tail ih =>
      cases cs with
      | nil => cases found
      | cons c rest =>
          by_cases same : c = head
          · subst same
            rw [read_on _ (.word tail token) done c rest (by rw [step, if_pos rfl])] at found
            obtain ⟨more, rfl⟩ := ih rest found
            exact ⟨more, rfl⟩
          · rw [read_stuck _ done c rest (by rw [step, if_neg same])] at found
            cases found

end Words

section Ends

def closes (c : Char) : Bool := c = ',' || c = ']' || c = '\x7d' || c = ':' || isSpace c

def Delimited (cs : List Char) : Prop := ∀ c ∈ cs.head?, closes c = true

variable (done : List Token)

theorem number_closed (place : NumberPlace) (number : JsonNumber) (below : Bool) (c : Char) (closing : closes c = true) :
    continueNumber place number below c = none := by
  have which : c = ',' ∨ c = ']' ∨ c = '\x7d' ∨ c = ':' ∨ c = ' ' ∨ c = '\n' ∨ c = '\t' ∨ c = '\r' := by
    simpa [closes, isSpace, or_assoc] using closing
  rcases which with rfl | rfl | rfl | rfl | rfl | rfl | rfl | rfl <;> cases place <;> rfl

theorem read_number_end (place : NumberPlace) (number : JsonNumber) (below : Bool) (rest : List Char)
    (final : place.final = true) (stops : ∀ c ∈ rest.head?, continueNumber place number below c = none) :
    readFrom (.number place number below) done rest = readFrom .between (.num number :: done) rest := by
  apply read_pending
  · rw [finish, if_pos final]
  · rintro c tail rfl
    rw [step, stops c rfl]
    exact if_pos final

theorem number_continues (place : NumberPlace) (number : JsonNumber) (below : Bool) (c : Char) (state : State)
    (steps : continueNumber place number below c = some state) :
    ∃ next later negative, state = .number next later negative := by
  cases place <;> grind [continueNumber]

theorem read_number_on (place : NumberPlace) (number value : JsonNumber) (below : Bool) (text rest : List Char)
    (whole : numberOf? place number below text = some value) (ends : Delimited rest) :
    readFrom (.number place number below) done (text ++ rest) = readFrom .between (.num value :: done) rest := by
  induction text generalizing place number below with
  | nil =>
      rw [numberOf?] at whole
      split at whole
      · next final =>
          cases whole
          exact read_number_end done place _ below rest final fun c first => number_closed place _ below c (ends c first)
      · cases whole
  | cons c text ih =>
      cases steps : continueNumber place number below c with
      | none =>
          rw [number_of_stuck place number below c text steps] at whole
          cases whole
      | some state =>
          obtain ⟨next, later, negative, rfl⟩ := number_continues place number below c state steps
          rw [number_of_step place next number later below negative c text steps] at whole
          rw [List.cons_append, read_on _ (.number next later negative) done c _ (by rw [step, steps])]
          exact ih next later negative whole

theorem number_rest_cases (place : NumberPlace) (number : JsonNumber) (below : Bool) (cs : List Char) (all : List Token)
    (found : readFrom (.number place number below) done cs = some all) :
    ∃ text rest value, cs = text ++ rest ∧ numberOf? place number below text = some value ∧
      readFrom .between (.num value :: done) rest = some all := by
  induction cs generalizing place number below with
  | nil =>
      cases final : place.final with
      | false =>
          rw [readFrom, finish, final] at found
          cases found
      | true =>
          rw [read_number_end done place number below [] final (fun c member => by cases member)] at found
          exact ⟨[], [], number, rfl, if_pos final, found⟩
  | cons c cs ih =>
      cases steps : continueNumber place number below c with
      | none =>
          cases final : place.final with
          | false =>
              rw [read_stuck _ done c cs (by rw [step, steps, final]; rfl)] at found
              cases found
          | true =>
              rw [read_number_end done place number below (c :: cs) final (by rintro d ⟨⟩; exact steps)] at found
              exact ⟨[], c :: cs, number, rfl, if_pos final, found⟩
      | some state =>
          obtain ⟨next, later, negative, rfl⟩ := number_continues place number below c state steps
          rw [read_on _ (.number next later negative) done c cs (by rw [step, steps])] at found
          obtain ⟨text, rest, value, rfl, whole, after⟩ := ih next later negative found
          exact ⟨c :: text, rest, value, rfl, by rw [number_of_step place next number later below negative c text steps, whole], after⟩

theorem number_text_iff (number : JsonNumber) (cs : List Char) :
    NumberText number cs ↔
      ∃ text, cs = signText number.negative ++ text ∧ unsignedNumber? number.negative text = some number := by
  constructor
  · rintro ⟨whole, point, fraction, tail, rfl, wholeText, fractionText, exponentText, mantissa, places⟩
    refine ⟨_, rfl, (unsigned_iff _ _ _).mpr ⟨whole, point ++ tail, fraction, number.exponent, rfl, wholeText, ?_, ?_⟩⟩
    · exact ⟨point, tail, rfl, fractionText, exponentText⟩
    · rw [← mantissa, ← places]
  · rintro ⟨text, rfl, read⟩
    obtain ⟨whole, rest, fraction, exponent, rfl, wholeText, ⟨point, tail, rfl, pointed, ended⟩, value⟩ := (unsigned_iff _ _ _).mp read
    have same := congrArg JsonNumber.exponent value
    exact ⟨whole, point, fraction, tail, rfl, wholeText, pointed, same ▸ ended, congrArg JsonNumber.mantissa value,
      congrArg JsonNumber.places value⟩

theorem digit_starts (negative : Bool) (c : Char) (digit : Text.isDigit c = true) : step (signed negative) c =
    some ([], .number (if c = '0' then .zero else .whole) ⟨negative, Text.digitValue c, 0, none⟩ false) := by
  have digits : ∀ d < 10, step (signed negative) (Char.ofNat (48 + d)) =
      some ([], .number (if Char.ofNat (48 + d) = '0' then .zero else .whole)
        ⟨negative, Text.digitValue (Char.ofNat (48 + d)), 0, none⟩ false) := by
    revert negative
    decide
  obtain ⟨low, high⟩ := Text.digit_code c digit
  have code : Char.ofNat (48 + (c.toNat - 48)) = c := by rw [Nat.add_sub_cancel' low, Char.ofNat_toNat]
  rw [← code]
  exact digits (c.toNat - 48) (by omega)

theorem read_unsigned (negative : Bool) (number : JsonNumber) (text rest : List Char)
    (whole : unsignedNumber? negative text = some number) (ends : Delimited rest) :
    readFrom (signed negative) done (text ++ rest) = readFrom .between (.num number :: done) rest := by
  cases text with
  | nil => cases whole
  | cons c text =>
      rw [unsignedNumber?] at whole
      rw [List.cons_append]
      split at whole
      · next zero =>
          subst zero
          rw [read_on _ _ done '0' _ (digit_starts negative '0' rfl)]
          exact read_number_on done .zero _ number false text rest whole ends
      · next nonzero =>
          split at whole
          · next digit =>
              rw [read_on _ _ done c _ (digit_starts negative c digit), if_neg nonzero]
              exact read_number_on done .whole _ number false text rest whole ends
          · cases whole

theorem read_number (number : JsonNumber) (text rest : List Char) (written : NumberText number text) (ends : Delimited rest) :
    readFrom .between done (text ++ rest) = readFrom .between (.num number :: done) rest := by
  obtain ⟨unsigned, rfl, whole⟩ := (number_text_iff number text).mp written
  have sign (cs : List Char) : readFrom .between done (signText number.negative ++ cs) = readFrom (signed number.negative) done cs := by
    cases number.negative <;> rfl
  rw [List.append_assoc, sign, read_unsigned done number.negative number unsigned rest whole ends]

theorem unsigned_cases (negative : Bool) (c : Char) (cs : List Char) (all : List Token) (digit : Text.isDigit c = true)
    (found : readFrom (signed negative) done (c :: cs) = some all) :
    ∃ text rest number, c :: cs = text ++ rest ∧ NumberText number (signText negative ++ text) ∧
      readFrom .between (.num number :: done) rest = some all := by
  rw [read_on _ _ done c cs (digit_starts negative c digit)] at found
  obtain ⟨text, rest, number, rfl, whole, after⟩ := number_rest_cases done _ _ _ cs all found
  have unsigned : unsignedNumber? negative (c :: text) = some number := by
    rw [unsignedNumber?]
    by_cases zero : c = '0'
    · subst zero
      exact whole
    · rw [if_neg zero] at whole ⊢
      rw [if_pos digit, whole]
  have sign : number.negative = negative := by
    obtain ⟨_, _, _, _, _, _, _, rfl⟩ := (unsigned_iff _ _ _).mp unsigned
    rfl
  subst sign
  exact ⟨c :: text, rest, number, rfl, (number_text_iff number _).mpr ⟨c :: text, rfl, unsigned⟩, after⟩

theorem sign_digit (cs : List Char) (all : List Token) (found : readFrom (signed true) done cs = some all) :
    ∃ c rest, cs = c :: rest ∧ Text.isDigit c = true := by
  cases cs with
  | nil => cases found
  | cons c rest =>
      refine ⟨c, rest, rfl, ?_⟩
      by_contra digit
      have nonzero : c ≠ '0' := by
        rintro rfl
        exact digit rfl
      have stuck : continueNumber .sign ⟨true, 0, 0, none⟩ false c = none := by
        rw [continueNumber, if_neg nonzero, if_neg digit]
      rw [signed, read_stuck _ done c rest (by rw [step, stuck]; rfl)] at found
      cases found

end Ends

section Starts

inductive Begins (c : Char) : List Token → State → Prop where
  | blank (space : isSpace c = true) : Begins c [] .between
  | mark (token : Token) (written : token.Written [c]) : Begins c [token] .between
  | word (word : List Char) (token : Token) (written : token.Written (c :: word)) : Begins c [] (.word word token)
  | literal (quote : c = '"') : Begins c [] (.string .empty)
  | minus (sign : c = '-') : Begins c [] (signed true)
  | digit (place : NumberPlace) (number : JsonNumber) (digit : Text.isDigit c = true) : Begins c [] (.number place number false)

theorem start_begins (c : Char) (tokens : List Token) (state : State) (starts : start c = some (tokens, state)) :
    Begins c tokens state := by
  unfold start at starts
  split at starts
  · next space =>
      cases starts
      exact .blank space
  · split at starts
    · cases starts; exact .mark .openBrace rfl
    · cases starts; exact .mark .closeBrace rfl
    · cases starts; exact .mark .openBracket rfl
    · cases starts; exact .mark .closeBracket rfl
    · cases starts; exact .mark .colon rfl
    · cases starts; exact .mark .comma rfl
    · cases starts; exact .literal rfl
    · cases starts; exact .word ['u', 'l', 'l'] .null rfl
    · cases starts; exact .word ['r', 'u', 'e'] (.bool true) rfl
    · cases starts; exact .word ['a', 'l', 's', 'e'] (.bool false) rfl
    · cases starts; exact .minus rfl
    · cases starts; exact .digit .zero _ rfl
    · split at starts
      · next digit =>
          cases starts
          exact .digit .whole _ digit
      · cases starts

end Starts

section Texts

variable (done : List Token)

theorem read_blank (c : Char) (rest : List Char) (space : isSpace c = true) :
    readFrom .between done (c :: rest) = readFrom .between done rest :=
  read_on .between .between done c rest (if_pos space)

theorem read_text (token : Token) (text rest : List Char) (written : token.Written text)
    (ends : (∃ number, token = .num number) → Delimited rest) :
    readFrom .between done (text ++ rest) = readFrom .between (token :: done) rest := by
  cases token with
  | openBrace => cases written; exact read_complete .between .between .openBrace done _ rest rfl
  | closeBrace => cases written; exact read_complete .between .between .closeBrace done _ rest rfl
  | openBracket => cases written; exact read_complete .between .between .openBracket done _ rest rfl
  | closeBracket => cases written; exact read_complete .between .between .closeBracket done _ rest rfl
  | colon => cases written; exact read_complete .between .between .colon done _ rest rfl
  | comma => cases written; exact read_complete .between .between .comma done _ rest rfl
  | null => cases written; exact read_word done 'n' ['u', 'l', 'l'] .null rest rfl
  | bool value =>
      cases value with
      | true => cases written; exact read_word done 't' ['r', 'u', 'e'] (.bool true) rest rfl
      | false => cases written; exact read_word done 'f' ['a', 'l', 's', 'e'] (.bool false) rest rfl
  | num number => exact read_number done number text rest written (ends ⟨number, rfl⟩)
  | str literal => exact read_literal done literal text rest written

theorem written_nonempty (token : Token) (text : List Char) (written : token.Written text) : 0 < text.length := by
  cases token with
  | num number =>
      obtain ⟨whole, point, fraction, tail, rfl, wholeText, -⟩ := written
      have digits := List.length_pos_iff.mpr wholeText.1.1
      simp only [List.length_append]
      omega
  | str literal =>
      obtain ⟨letters, rfl, -⟩ := written
      exact Nat.zero_lt_succ _
  | bool value => cases value <;> cases written <;> exact Nat.zero_lt_succ _
  | _ => cases written; exact Nat.zero_lt_succ _

theorem token_cases (c : Char) (cs : List Char) (all : List Token) (found : readFrom .between done (c :: cs) = some all) :
    isSpace c = true ∨ ∃ token text rest, c :: cs = text ++ rest ∧ token.Written text ∧
      readFrom .between (token :: done) rest = some all := by
  cases starts : start c with
  | none =>
      rw [read_stuck .between done c cs starts] at found
      cases found
  | some first =>
      obtain ⟨tokens, state⟩ := first
      cases start_begins c tokens state starts with
      | blank space => exact .inl space
      | mark token written =>
          rw [read_complete .between .between token done c cs starts] at found
          exact .inr ⟨token, [c], cs, rfl, written, found⟩
      | word word token written =>
          rw [read_on .between (.word word token) done c cs starts] at found
          obtain ⟨rest, rfl⟩ := word_cases done word token cs all found
          exact .inr ⟨token, c :: word, rest, rfl, written, (read_within done word token rest).symm.trans found⟩
      | literal quote =>
          subst quote
          rw [read_on .between (.string .empty) done '"' cs starts] at found
          obtain ⟨literal, text, rest, parts, written⟩ := literal_cases done cs all found
          refine .inr ⟨.str literal, text, rest, parts, written, ?_⟩
          rw [← read_literal done literal text rest written, ← parts, read_on .between (.string .empty) done '"' cs starts, found]
      | minus sign =>
          subst sign
          rw [read_on .between (signed true) done '-' cs starts] at found
          obtain ⟨first, rest, rfl, digit⟩ := sign_digit done cs all found
          obtain ⟨text, rest, number, parts, written, after⟩ := unsigned_cases done true first rest all digit found
          exact .inr ⟨.num number, '-' :: text, rest, congrArg _ parts, written, after⟩
      | digit place number digit =>
          obtain ⟨text, rest, number, parts, written, after⟩ := unsigned_cases done false c cs all digit found
          exact .inr ⟨.num number, text, rest, parts, written, after⟩

-- By induction on the length of the text that is left.
theorem read_spells (done : List Token) (cs : List Char) (all : List Token) (found : readFrom .between done cs = some all) :
    ∃ tokens, all = done.reverse ++ tokens ∧ Spells tokens cs := by
  cases cs with
  | nil => exact ⟨[], (Option.some.inj found).symm, .done⟩
  | cons c cs =>
      rcases token_cases done c cs all found with space | ⟨token, text, rest, parts, written, after⟩
      · rw [read_blank done c cs space] at found
        obtain ⟨tokens, rfl, spells⟩ := read_spells done cs all found
        exact ⟨tokens, rfl, .blank c tokens cs space spells⟩
      · have shorter : rest.length < (c :: cs).length := by
          rw [parts, List.length_append]
          exact Nat.lt_add_of_pos_left (written_nonempty token text written)
        obtain ⟨tokens, rfl, spells⟩ := read_spells (token :: done) rest all after
        refine ⟨token :: tokens, by simp, ?_⟩
        rw [parts]
        exact .next token tokens text rest written spells
termination_by cs.length

end Texts

section Apart

def isNumber : Token → Bool
  | .num _ => true
  | _ => false

def separates : Token → Bool
  | .comma | .colon | .closeBracket | .closeBrace => true
  | _ => false

-- Behind a number comes nothing or a token that ends it.
def Apart : List Token → Prop := List.IsChain fun token next => token.isNumber = true → next.separates = true

theorem separator_closes (token : Token) (text : List Char) (separator : token.separates = true)
    (written : token.Written text) : ∃ c, text = [c] ∧ closes c = true := by
  cases token with
  | comma => exact ⟨',', written, rfl⟩
  | colon => exact ⟨':', written, rfl⟩
  | closeBracket => exact ⟨']', written, rfl⟩
  | closeBrace => exact ⟨'\x7d', written, rfl⟩
  | _ => cases separator

theorem spells_delimited (tokens : List Token) (cs : List Char) (spells : Spells tokens cs)
    (ends : ∀ next ∈ tokens.head?, next.separates = true) : Delimited cs := by
  cases spells with
  | done => exact nofun
  | blank c tokens cs space later =>
      rintro d ⟨⟩
      simp [closes, space]
  | next token tokens text cs written later =>
      obtain ⟨c, rfl, closing⟩ := separator_closes token text (ends token rfl) written
      rintro d ⟨⟩
      exact closing

theorem read_apart (tokens : List Token) (cs : List Char) (spells : Spells tokens cs) (apart : Apart tokens)
    (done : List Token) : readFrom .between done cs = some (done.reverse ++ tokens) := by
  induction spells generalizing done with
  | done => rfl
  | blank c tokens cs space later ih => rw [read_blank done c cs space, ih apart]
  | next token tokens text cs written later ih =>
      have ends : (∃ number, token = .num number) → Delimited cs := by
        rintro ⟨number, rfl⟩
        exact spells_delimited tokens cs later fun next first => (List.isChain_cons.mp apart).1 next first rfl
      rw [read_text done token text cs written ends, ih (List.isChain_cons.mp apart).2, List.reverse_cons, List.append_assoc]
      rfl

theorem read_iff (tokens : List Token) (cs : List Char) (apart : Apart tokens) :
    read cs = some tokens ↔ Spells tokens cs := by
  constructor
  · intro found
    obtain ⟨spelled, rfl, spells⟩ := read_spells [] cs tokens found
    exact spells
  · intro spells
    exact read_apart tokens cs spells apart []

theorem apart_cons (token : Token) (tokens : List Token) (plain : token.isNumber = false) (apart : Apart tokens) :
    Apart (token :: tokens) := by
  refine List.isChain_cons.mpr ⟨fun next _ number => ?_, apart⟩
  rw [plain] at number
  cases number

theorem apart_append (tokens rest : List Token) (token : Token) (separator : token.separates = true)
    (apart : Apart tokens) (later : Apart (token :: rest)) : Apart (tokens ++ token :: rest) := by
  refine List.isChain_append.mpr ⟨apart, later, ?_⟩
  rintro last - next ⟨⟩ -
  exact separator

end Apart

end CodeIndex.Token
