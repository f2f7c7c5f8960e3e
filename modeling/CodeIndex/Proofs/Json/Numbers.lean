import CodeIndex.Proofs.Json.Grammar

set_option autoImplicit false

namespace CodeIndex.Token

def numberOf? (place : NumberPlace) (value : JsonNumber) (negative : Bool) : List Char → Option JsonNumber
  | [] => if place.final then some value else none
  | c :: cs =>
    match continueNumber place value negative c with
    | some (.number next value negative) => numberOf? next value negative cs
    | _ => none

theorem number_of_step (place next : NumberPlace) (value later : JsonNumber) (negative below : Bool) (c : Char)
    (cs : List Char) (steps : continueNumber place value negative c = some (.number next later below)) :
    numberOf? place value negative (c :: cs) = numberOf? next later below cs := by
  rw [numberOf?, steps]

theorem number_of_stuck (place : NumberPlace) (value : JsonNumber) (negative : Bool) (c : Char)
    (cs : List Char) (stuck : continueNumber place value negative c = none) :
    numberOf? place value negative (c :: cs) = none := by
  rw [numberOf?, stuck]

def AllDigits (cs : List Char) : Prop := ∀ c ∈ cs, Text.isDigit c = true

theorem digits_cons (c : Char) (cs : List Char) : Text.Digits (c :: cs) ↔ Text.isDigit c = true ∧ AllDigits cs := by
  simp [Text.Digits, AllDigits]

def moreDigits (value : Nat) (cs : List Char) : Nat := cs.foldl (fun n c => 10 * n + Text.digitValue c) value

section Exponent

def withExponent (number : JsonNumber) (negative : Bool) (n : Nat) : JsonNumber :=
  { number with exponent := some (if negative then -(n : Int) else n) }

theorem exponent_more (number : JsonNumber) (below : Bool) (n : Nat) (c : Char) :
    addExponentDigit (withExponent number below n) c below = withExponent number below (10 * n + Text.digitValue c) := by
  have magnitude : (if below = true then -(n : Int) else n).natAbs = n := by cases below <;> simp
  simp only [addExponentDigit, withExponent, Option.getD_some, magnitude]

theorem exponent_first (number : JsonNumber) (below : Bool) (c : Char) (absent : number.exponent = none) :
    addExponentDigit number c below = withExponent number below (Text.digitValue c) := by
  simp [addExponentDigit, withExponent, absent]

theorem exponent_iff (number value : JsonNumber) (below : Bool) (n : Nat) (cs : List Char) :
    numberOf? .exponent (withExponent number below n) below cs = some value ↔
      AllDigits cs ∧ value = withExponent number below (moreDigits n cs) := by
  induction cs generalizing n with
  | nil =>
      rw [numberOf?, NumberPlace.final, if_pos rfl, Option.some.injEq, eq_comm]
      exact (and_iff_right nofun).symm
  | cons c cs ih =>
      by_cases digit : Text.isDigit c = true
      · rw [number_of_step .exponent .exponent _ (withExponent number below (10 * n + Text.digitValue c)) below below c cs
          (by rw [continueNumber, if_pos digit, exponent_more]), ih]
        simp [AllDigits, digit, moreDigits]
      · rw [number_of_stuck _ _ _ c cs (by rw [continueNumber, if_neg digit])]
        simp [AllDigits, digit]

theorem exponent_sign_iff (number value : JsonNumber) (below : Bool) (cs : List Char) (absent : number.exponent = none) :
    numberOf? .exponentSign number below cs = some value ↔
      Text.Digits cs ∧ value = withExponent number below (Text.digitsValue cs) := by
  cases cs with
  | nil => simp [numberOf?, NumberPlace.final, Text.Digits]
  | cons c cs =>
      rw [digits_cons]
      by_cases digit : Text.isDigit c = true
      · rw [number_of_step .exponentSign .exponent _ (withExponent number below (Text.digitValue c)) below below c cs
          (by rw [continueNumber, if_pos digit, exponent_first _ _ _ absent]), exponent_iff]
        simp [digit, Text.digitsValue, moreDigits]
      · rw [number_of_stuck _ _ _ c cs (by rw [continueNumber, if_neg digit])]
        simp [digit]

theorem exponent_mark_digits (number : JsonNumber) (c : Char) (cs : List Char) (noPlus : c ≠ '+') (noMinus : c ≠ '-') :
    numberOf? .exponentMark number false (c :: cs) = numberOf? .exponentSign number false (c :: cs) := by
  rw [numberOf?, numberOf?, continueNumber, if_neg noPlus, if_neg noMinus, continueNumber]

theorem exponent_mark_iff (number value : JsonNumber) (cs : List Char) (absent : number.exponent = none) :
    numberOf? .exponentMark number false cs = some value ↔
      ∃ sign digits, cs = sign ++ digits ∧ (sign = [] ∨ sign = ['+'] ∨ sign = ['-']) ∧ Text.Digits digits ∧
        value = withExponent number (sign = ['-']) (Text.digitsValue digits) := by
  constructor
  · intro found
    cases cs with
    | nil => cases found
    | cons c cs =>
        by_cases plus : c = '+'
        · subst plus
          rw [number_of_step .exponentMark .exponentSign number number false false '+' cs rfl, exponent_sign_iff _ _ _ _ absent] at found
          exact ⟨['+'], cs, rfl, .inr (.inl rfl), found⟩
        · by_cases minus : c = '-'
          · subst minus
            rw [number_of_step .exponentMark .exponentSign number number false true '-' cs rfl, exponent_sign_iff _ _ _ _ absent] at found
            exact ⟨['-'], cs, rfl, .inr (.inr rfl), found⟩
          · rw [exponent_mark_digits number c cs plus minus, exponent_sign_iff _ _ _ _ absent] at found
            exact ⟨[], c :: cs, rfl, .inl rfl, found⟩
  · rintro ⟨sign, digits, rfl, rfl | rfl | rfl, numeral, rfl⟩
    · cases digits with
      | nil => exact absurd rfl numeral.1
      | cons c cs =>
          have digit := ((digits_cons c cs).mp numeral).1
          rw [List.nil_append, exponent_mark_digits number c cs (by rintro rfl; cases digit) (by rintro rfl; cases digit)]
          exact (exponent_sign_iff _ _ _ _ absent).mpr ⟨numeral, rfl⟩
    · exact (exponent_sign_iff _ _ _ _ absent).mpr ⟨numeral, rfl⟩
    · exact (exponent_sign_iff _ _ _ _ absent).mpr ⟨numeral, rfl⟩

end Exponent

section Mantissa

def closesMantissa : NumberPlace → Bool
  | .zero | .whole | .fraction => true
  | _ => false

theorem exponent_text_iff (place : NumberPlace) (number value : JsonNumber) (cs : List Char) (absent : number.exponent = none)
    (closes : closesMantissa place = true)
    (ended : ∀ c ∈ cs.head?, c ≠ 'e' → c ≠ 'E' → continueNumber place number false c = none) :
    numberOf? place number false cs = some value ↔
      ∃ exponent, ExponentText cs exponent ∧ value = { number with exponent := exponent } := by
  have marked (mark : Char) (cs : List Char) (known : mark = 'e' ∨ mark = 'E') :
      numberOf? place number false (mark :: cs) = numberOf? .exponentMark number false cs := by
    apply number_of_step
    rcases known with rfl | rfl <;> cases place <;> first | rfl | cases closes
  constructor
  · intro found
    cases cs with
    | nil =>
        have final : place.final = true := by cases place <;> first | rfl | cases closes
        rw [numberOf?, if_pos final, Option.some.injEq] at found
        exact ⟨none, .inl ⟨rfl, rfl⟩, by rw [← found, ← absent]⟩
    | cons c cs =>
        by_cases mark : c = 'e' ∨ c = 'E'
        · rw [marked c cs mark, exponent_mark_iff number value cs absent] at found
          obtain ⟨sign, digits, rfl, signed, numeral, rfl⟩ := found
          exact ⟨_, .inr ⟨c, sign, digits, rfl, mark, signed, numeral, rfl⟩, by simp [withExponent]⟩
        · rw [not_or] at mark
          rw [number_of_stuck _ _ _ c cs (ended c rfl mark.1 mark.2)] at found
          cases found
  · rintro ⟨exponent, ⟨rfl, rfl⟩ | ⟨mark, sign, digits, rfl, known, signed, numeral, rfl⟩, rfl⟩
    · have final : place.final = true := by cases place <;> first | rfl | cases closes
      rw [numberOf?, if_pos final, ← absent]
    · rw [marked mark _ known, exponent_mark_iff number _ _ absent]
      exact ⟨sign, digits, rfl, signed, numeral, by simp [withExponent]⟩

theorem exponent_text_head (cs : List Char) (exponent : Option Int) (text : ExponentText cs exponent) :
    ∀ c ∈ cs.head?, c = 'e' ∨ c = 'E' := by
  rintro c member
  rcases text with ⟨rfl, -⟩ | ⟨mark, sign, digits, rfl, known, -⟩
  · cases member
  · cases member
    exact known

-- A run of digits is cut off in one way only: what comes behind it does not begin with a digit.
theorem digits_cut (c : Char) (cs digits tail : List Char) (digit : Text.isDigit c = true) (parts : c :: cs = digits ++ tail)
    (stops : ∀ d ∈ tail.head?, Text.isDigit d = false) : ∃ more, digits = c :: more ∧ cs = more ++ tail := by
  cases digits with
  | nil =>
      rw [List.nil_append] at parts
      rw [stops c (by rw [← parts]; rfl)] at digit
      cases digit
  | cons d more =>
      obtain ⟨rfl, rest⟩ := List.cons.inj parts
      exact ⟨more, rfl, rest⟩

theorem exponent_undigited (cs : List Char) (exponent : Option Int) (text : ExponentText cs exponent) :
    ∀ c ∈ cs.head?, Text.isDigit c = false := by
  intro c member
  rcases exponent_text_head cs exponent text c member with rfl | rfl <;> rfl

theorem fraction_iff (number value : JsonNumber) (cs : List Char) (absent : number.exponent = none) :
    numberOf? .fraction number false cs = some value ↔
      ∃ digits tail exponent, cs = digits ++ tail ∧ AllDigits digits ∧ ExponentText tail exponent ∧
        value = ⟨number.negative, moreDigits number.mantissa digits, number.places + digits.length, exponent⟩ := by
  have step (number : JsonNumber) (c : Char) : continueNumber .fraction number false c =
      if Text.isDigit c then some (.number .fraction { addDigit number c with places := number.places + 1 } false)
      else if c = 'e' || c = 'E' then some (.number .exponentMark number false) else none := rfl
  induction cs generalizing number with
  | nil =>
      rw [exponent_text_iff .fraction number value [] absent rfl nofun]
      constructor
      · rintro ⟨exponent, text, rfl⟩
        exact ⟨[], [], exponent, rfl, nofun, text, rfl⟩
      · rintro ⟨digits, tail, exponent, parts, -, text, rfl⟩
        obtain ⟨rfl, rfl⟩ := List.nil_eq_append_iff.mp parts
        exact ⟨exponent, text, rfl⟩
  | cons c cs ih =>
      by_cases digit : Text.isDigit c = true
      · let later : JsonNumber :=
          ⟨number.negative, 10 * number.mantissa + Text.digitValue c, number.places + 1, number.exponent⟩
        rw [number_of_step .fraction .fraction number later false false c cs ((step number c).trans (if_pos digit))]
        refine (ih later absent).trans ?_
        constructor
        · rintro ⟨digits, tail, exponent, rfl, all, text, rfl⟩
          refine ⟨c :: digits, tail, exponent, rfl, List.forall_mem_cons.mpr ⟨digit, all⟩, text, ?_⟩
          simp only [later, moreDigits, List.foldl_cons, List.length_cons, Nat.add_assoc, Nat.add_comm 1]
        · rintro ⟨digits, tail, exponent, parts, all, text, rfl⟩
          obtain ⟨more, rfl, rfl⟩ := digits_cut c cs digits tail digit parts (exponent_undigited tail exponent text)
          refine ⟨more, tail, exponent, rfl, (List.forall_mem_cons.mp all).2, text, ?_⟩
          simp only [later, moreDigits, List.foldl_cons, List.length_cons, Nat.add_assoc, Nat.add_comm 1]
      · have ended : ∀ d ∈ (c :: cs).head?, d ≠ 'e' → d ≠ 'E' → continueNumber .fraction number false d = none := by
          rintro d ⟨⟩ small large
          rw [step, if_neg digit, if_neg (by simp [small, large])]
        rw [exponent_text_iff .fraction number value (c :: cs) absent rfl ended]
        constructor
        · rintro ⟨exponent, text, rfl⟩
          exact ⟨[], c :: cs, exponent, rfl, nofun, text, rfl⟩
        · rintro ⟨digits, tail, exponent, parts, all, text, rfl⟩
          cases digits with
          | nil =>
              rw [List.nil_append] at parts
              exact ⟨exponent, parts ▸ text, rfl⟩
          | cons d more =>
              cases parts
              exact absurd (all c List.mem_cons_self) digit

def RestText (cs digits : List Char) (exponent : Option Int) : Prop :=
  ∃ point tail, cs = point ++ tail ∧ FractionText point digits ∧ ExponentText tail exponent

theorem rest_undigited (cs digits : List Char) (exponent : Option Int) (text : RestText cs digits exponent) :
    ∀ c ∈ cs.head?, Text.isDigit c = false := by
  obtain ⟨point, tail, rfl, ⟨rfl, -⟩ | ⟨rfl, -⟩, ends⟩ := text
  · exact exponent_undigited tail exponent ends
  · rintro c ⟨⟩
    rfl

theorem point_iff (number value : JsonNumber) (cs : List Char) (absent : number.exponent = none) :
    numberOf? .point number false cs = some value ↔
      ∃ digits tail exponent, cs = digits ++ tail ∧ Text.Digits digits ∧ ExponentText tail exponent ∧
        value = ⟨number.negative, moreDigits number.mantissa digits, number.places + digits.length, exponent⟩ := by
  cases cs with
  | nil =>
      constructor
      · exact nofun
      · rintro ⟨digits, tail, exponent, parts, numeral, -⟩
        exact absurd (List.nil_eq_append_iff.mp parts).1 numeral.1
  | cons c cs =>
      by_cases digit : Text.isDigit c = true
      · have same : numberOf? .point number false (c :: cs) = numberOf? .fraction number false (c :: cs) := by
          rw [numberOf?, numberOf?, continueNumber, continueNumber, if_pos digit, if_pos digit]
        rw [same, fraction_iff number value _ absent]
        constructor
        · rintro ⟨digits, tail, exponent, parts, all, text, rfl⟩
          obtain ⟨more, rfl, -⟩ := digits_cut c cs digits tail digit parts (exponent_undigited tail exponent text)
          exact ⟨_, tail, exponent, parts, ⟨List.cons_ne_nil c more, all⟩, text, rfl⟩
        · rintro ⟨digits, tail, exponent, parts, numeral, text, rfl⟩
          exact ⟨digits, tail, exponent, parts, numeral.2, text, rfl⟩
      · rw [number_of_stuck _ _ _ c cs (by rw [continueNumber, if_neg digit])]
        constructor
        · exact nofun
        · rintro ⟨digits, tail, exponent, parts, numeral, -⟩
          cases digits with
          | nil => exact absurd rfl numeral.1
          | cons d more =>
              cases parts
              exact absurd (numeral.2 c List.mem_cons_self) digit

theorem rest_iff (place : NumberPlace) (number value : JsonNumber) (cs : List Char) (absent : number.exponent = none)
    (unplaced : number.places = 0) (here : place = .zero ∨ place = .whole)
    (ended : place = .whole → ∀ c ∈ cs.head?, Text.isDigit c = false) :
    numberOf? place number false cs = some value ↔
      ∃ fraction exponent, RestText cs fraction exponent ∧
        value = ⟨number.negative, moreDigits number.mantissa fraction, fraction.length, exponent⟩ := by
  have closes : closesMantissa place = true := by rcases here with rfl | rfl <;> rfl
  have step (c : Char) (undigited : place = .whole → Text.isDigit c = false) : continueNumber place number false c =
      if c = '.' then some (.number .point number false)
      else if c = 'e' || c = 'E' then some (.number .exponentMark number false) else none := by
    rcases here with rfl | rfl
    · rfl
    · rw [continueNumber, undigited rfl, if_neg Bool.false_ne_true]
  by_cases pointed : ∃ rest, cs = '.' :: rest
  · obtain ⟨rest, rfl⟩ := pointed
    rw [number_of_step place .point number number false false '.' rest ((step '.' fun _ => rfl).trans (if_pos rfl)),
      point_iff number value rest absent]
    constructor
    · rintro ⟨digits, tail, exponent, rfl, numeral, text, rfl⟩
      exact ⟨digits, exponent, ⟨'.' :: digits, tail, rfl, .inr ⟨rfl, numeral⟩, text⟩, by rw [unplaced, Nat.zero_add]⟩
    · rintro ⟨digits, exponent, ⟨point, tail, parts, ⟨rfl, -⟩ | ⟨rfl, numeral⟩, text⟩, rfl⟩
      · rw [List.nil_append] at parts
        rcases exponent_text_head tail exponent text '.' (by rw [← parts]; rfl) with same | same <;> cases same
      · obtain ⟨-, rest⟩ := List.cons.inj parts
        exact ⟨digits, tail, exponent, rest, numeral, text, by rw [unplaced, Nat.zero_add]⟩
  · have stops : ∀ c ∈ cs.head?, c ≠ 'e' → c ≠ 'E' → continueNumber place number false c = none := by
      intro c member small large
      have unpointed : c ≠ '.' := by
        rintro rfl
        exact pointed (List.head?_eq_some_iff.mp member)
      rw [step c fun whole => ended whole c member, if_neg unpointed, if_neg (by simp [small, large])]
    rw [exponent_text_iff place number value cs absent closes stops]
    constructor
    · rintro ⟨exponent, text, rfl⟩
      exact ⟨[], exponent, ⟨[], cs, rfl, .inl ⟨rfl, rfl⟩, text⟩, by rw [List.length_nil, ← unplaced]; rfl⟩
    · rintro ⟨digits, exponent, ⟨point, tail, rfl, ⟨rfl, rfl⟩ | ⟨rfl, -⟩, text⟩, rfl⟩
      · exact ⟨exponent, text, by rw [List.length_nil, ← unplaced]; rfl⟩
      · exact absurd ⟨_, rfl⟩ pointed

theorem whole_iff (number value : JsonNumber) (cs : List Char) (absent : number.exponent = none) (unplaced : number.places = 0) :
    numberOf? .whole number false cs = some value ↔
      ∃ digits rest fraction exponent, cs = digits ++ rest ∧ AllDigits digits ∧ RestText rest fraction exponent ∧
        value = ⟨number.negative, moreDigits number.mantissa (digits ++ fraction), fraction.length, exponent⟩ := by
  induction cs generalizing number with
  | nil =>
      rw [rest_iff .whole number value [] absent unplaced (.inr rfl) (fun _ => nofun)]
      constructor
      · rintro ⟨fraction, exponent, text, rfl⟩
        exact ⟨[], [], fraction, exponent, rfl, nofun, text, rfl⟩
      · rintro ⟨digits, rest, fraction, exponent, parts, -, text, rfl⟩
        obtain ⟨rfl, rfl⟩ := List.nil_eq_append_iff.mp parts
        exact ⟨fraction, exponent, text, rfl⟩
  | cons c cs ih =>
      by_cases digit : Text.isDigit c = true
      · rw [number_of_step .whole .whole _ _ false false c cs (if_pos digit),
          ih (addDigit number c) absent unplaced]
        constructor
        · rintro ⟨digits, rest, fraction, exponent, rfl, all, text, rfl⟩
          exact ⟨c :: digits, rest, fraction, exponent, rfl, List.forall_mem_cons.mpr ⟨digit, all⟩, text, rfl⟩
        · rintro ⟨digits, rest, fraction, exponent, parts, all, text, rfl⟩
          obtain ⟨more, rfl, rfl⟩ := digits_cut c cs digits rest digit parts (rest_undigited rest fraction exponent text)
          exact ⟨more, rest, fraction, exponent, rfl, (List.forall_mem_cons.mp all).2, text, rfl⟩
      · have ended : NumberPlace.whole = .whole → ∀ d ∈ (c :: cs).head?, Text.isDigit d = false := by
          rintro - d ⟨⟩
          exact Bool.eq_false_iff.mpr digit
        rw [rest_iff .whole number value (c :: cs) absent unplaced (.inr rfl) ended]
        constructor
        · rintro ⟨fraction, exponent, text, rfl⟩
          exact ⟨[], c :: cs, fraction, exponent, rfl, nofun, text, rfl⟩
        · rintro ⟨digits, rest, fraction, exponent, parts, all, text, rfl⟩
          cases digits with
          | nil => exact ⟨fraction, exponent, parts ▸ text, rfl⟩
          | cons d more =>
              cases parts
              exact absurd (all c List.mem_cons_self) digit

end Mantissa

section Start

def signed : Bool → State
  | false => .between
  | true => .number .sign ⟨true, 0, 0, none⟩ false

def unsignedNumber? (negative : Bool) : List Char → Option JsonNumber
  | [] => none
  | c :: cs =>
    if c = '0' then numberOf? .zero ⟨negative, 0, 0, none⟩ false cs
    else if Text.isDigit c then numberOf? .whole ⟨negative, Text.digitValue c, 0, none⟩ false cs
    else none

theorem unsigned_iff (negative : Bool) (value : JsonNumber) (cs : List Char) :
    unsignedNumber? negative cs = some value ↔
      ∃ whole rest fraction exponent, cs = whole ++ rest ∧ WholeText whole ∧ RestText rest fraction exponent ∧
        value = ⟨negative, Text.digitsValue (whole ++ fraction), fraction.length, exponent⟩ := by
  cases cs with
  | nil =>
      constructor
      · intro found
        cases found
      · rintro ⟨whole, rest, fraction, exponent, parts, text, -⟩
        exact absurd (List.nil_eq_append_iff.mp parts).1 text.1.1
  | cons c cs =>
      rw [unsignedNumber?]
      by_cases zero : c = '0'
      · subst zero
        rw [if_pos rfl, rest_iff .zero ⟨negative, 0, 0, none⟩ value cs rfl rfl (.inl rfl) (fun whole => by cases whole)]
        constructor
        · rintro ⟨fraction, exponent, text, rfl⟩
          exact ⟨['0'], cs, fraction, exponent, rfl, ⟨by decide, .inl rfl⟩, text, rfl⟩
        · rintro ⟨whole, rest, fraction, exponent, parts, ⟨numeral, short⟩, text, rfl⟩
          obtain ⟨more, rfl, rfl⟩ := digits_cut '0' cs whole rest rfl parts (rest_undigited rest fraction exponent text)
          rcases short with alone | padded
          · cases alone
            exact ⟨fraction, exponent, text, rfl⟩
          · exact absurd rfl padded
      · rw [if_neg zero]
        by_cases digit : Text.isDigit c = true
        · rw [if_pos digit, whole_iff ⟨negative, Text.digitValue c, 0, none⟩ value cs rfl rfl]
          have value (digits : List Char) : moreDigits (Text.digitValue c) digits = Text.digitsValue (c :: digits) := by
            simp [Text.digitsValue, moreDigits]
          constructor
          · rintro ⟨digits, rest, fraction, exponent, rfl, all, text, rfl⟩
            refine ⟨c :: digits, rest, fraction, exponent, rfl, ⟨(digits_cons c digits).mpr ⟨digit, all⟩, .inr ?_⟩, text, ?_⟩
            · simpa using zero
            · rw [value, List.cons_append]
          · rintro ⟨whole, rest, fraction, exponent, parts, ⟨numeral, -⟩, text, rfl⟩
            obtain ⟨more, rfl, rfl⟩ := digits_cut c cs whole rest digit parts (rest_undigited rest fraction exponent text)
            exact ⟨more, rest, fraction, exponent, rfl, ((digits_cons c more).mp numeral).2, text, by rw [value, List.cons_append]⟩
        · rw [if_neg digit]
          constructor
          · intro found
            cases found
          · rintro ⟨whole, rest, fraction, exponent, parts, ⟨numeral, -⟩, -⟩
            cases whole with
            | nil => exact absurd rfl numeral.1
            | cons d more =>
                cases parts
                exact absurd (numeral.2 c List.mem_cons_self) digit

end Start

end CodeIndex.Token
