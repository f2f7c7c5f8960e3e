import Mathlib.Algebra.Order.Ring.Nat
import Mathlib.Data.List.Induction
import CodeIndex.Text.Digits
import CodeIndex.Text.Whitespace

set_option autoImplicit false

namespace CodeIndex.Text

theorem digit_char_value : ∀ d, d < 16 → hexValue? (digitChar d) = some d := by
  decide

theorem read_hex_snoc (n : Nat) (cs : List Char) (c : Char) :
    readHex.go n (cs ++ [c]) = (readHex.go n cs).bind fun m => (hexValue? c).map fun d => 16 * m + d := by
  induction cs generalizing n with
  | nil =>
      simp only [List.nil_append, readHex.go, Option.bind_some]
      cases hexValue? c <;> rfl
  | cons head tail ih =>
      simp only [List.cons_append, readHex.go]
      cases hexValue? head with
      | none => rfl
      | some d => exact ih (16 * n + d)

theorem hex_length (width n : Nat) : (hex width n).length = width := by
  induction width generalizing n with
  | zero => rfl
  | succ width ih => rw [hex, List.length_append, ih, List.length_singleton]

theorem hex_digits (width n : Nat) (c : Char) (member : c ∈ hex width n) : ∃ d, d < 16 ∧ c = digitChar d := by
  induction width generalizing n with
  | zero => cases member
  | succ width ih =>
      rw [hex, List.mem_append, List.mem_singleton] at member
      rcases member with early | last
      · exact ih (n / 16) early
      · exact ⟨n % 16, Nat.mod_lt n (by decide), last⟩

theorem lower_cases (c : Char) : (c.toLower = c ∧ ¬ (65 ≤ c.toNat ∧ c.toNat ≤ 90)) ∨
    (65 ≤ c.toNat ∧ c.toNat ≤ 90 ∧ c.toLower.toNat = c.toNat + 32) := by
  have codes : ('A'.val ≤ c.val ∧ c.val ≤ 'Z'.val) ↔ 65 ≤ c.toNat ∧ c.toNat ≤ 90 :=
    and_congr UInt32.le_iff_toNat_le UInt32.le_iff_toNat_le
  by_cases capital : 'A'.val ≤ c.val ∧ c.val ≤ 'Z'.val
  · have lowered : c.toLower.val = c.val + 32 := congrArg Char.val (dif_pos capital)
    obtain ⟨low, high⟩ := codes.mp capital
    refine .inr ⟨low, high, ?_⟩
    change c.toLower.val.toNat = c.val.toNat + 32
    have bound : c.val.toNat ≤ 90 := high
    have sum : (c.val + 32).toNat = (c.val.toNat + 32) % 4294967296 := UInt32.toNat_add c.val 32
    rw [lowered]
    omega
  · exact .inl ⟨dif_neg capital, fun within => capital (codes.mpr within)⟩

theorem digit_char_code : ∀ d, d < 16 → (digitChar d).toNat = if d < 10 then 48 + d else 87 + d := by
  decide

theorem hex_value_code (c : Char) (d : Nat) : hexValue? c = some d ↔
    (48 ≤ c.toNat ∧ c.toNat ≤ 57 ∧ d + 48 = c.toNat) ∨ (97 ≤ c.toNat ∧ c.toNat ≤ 102 ∧ d + 87 = c.toNat) ∨
      (65 ≤ c.toNat ∧ c.toNat ≤ 70 ∧ d + 55 = c.toNat) := by
  have codes (low high : Char) : (decide (low ≤ c) && decide (c ≤ high)) = true ↔ low.toNat ≤ c.toNat ∧ c.toNat ≤ high.toNat := by
    rw [Bool.and_eq_true, decide_eq_true_eq, decide_eq_true_eq]
    exact Iff.rfl
  have numerals := codes '0' '9'
  have small := codes 'a' 'f'
  have capital := codes 'A' 'F'
  simp only [Char.reduceToNat] at numerals small capital
  simp only [hexValue?, numerals, small, capital]
  split_ifs <;> simp only [Option.some.injEq, false_iff] <;> omega

theorem hex_value_iff (c : Char) (d : Nat) : hexValue? c = some d ↔ d < 16 ∧ c.toLower = digitChar d := by
  have code := digit_char_code d
  have lowered : c.toLower.toNat = if 65 ≤ c.toNat ∧ c.toNat ≤ 90 then c.toNat + 32 else c.toNat := by
    rcases lower_cases c with ⟨same, other⟩ | ⟨low, high, shifted⟩
    · rw [if_neg other, same]
    · rw [if_pos ⟨low, high⟩, shifted]
  rw [hex_value_code, ← Char.toNat_inj, lowered]
  constructor
  · intro range
    have small : d < 16 := by omega
    refine ⟨small, ?_⟩
    rw [code small]
    split_ifs <;> omega
  · rintro ⟨small, same⟩
    rw [code small] at same
    split_ifs at same <;> omega

theorem read_hex_iff (cs : List Char) (n : Nat) :
    readHex cs = some n ↔ n < 16 ^ cs.length ∧ lowerAscii cs = hex cs.length n := by
  induction cs using List.reverseRecOn generalizing n with
  | nil =>
      simp only [readHex, readHex.go, Option.some.injEq, List.length_nil, pow_zero, Nat.lt_one_iff, lowerAscii, List.map_nil, hex,
        and_true]
      exact eq_comm
  | append_singleton cs c ih =>
      have parts : readHex (cs ++ [c]) = some n ↔ readHex cs = some (n / 16) ∧ hexValue? c = some (n % 16) := by
        rw [readHex, read_hex_snoc, Option.bind_eq_some_iff]
        constructor
        · rintro ⟨m, high, low⟩
          obtain ⟨d, value, rfl⟩ := Option.map_eq_some_iff.mp low
          have small := ((hex_value_iff c d).mp value).1
          rw [show (16 * m + d) / 16 = m by omega, show (16 * m + d) % 16 = d by omega]
          exact ⟨high, value⟩
        · rintro ⟨high, low⟩
          exact ⟨n / 16, high, by rw [low, Option.map_some, Nat.div_add_mod]⟩
      have bound : n / 16 < 16 ^ cs.length ↔ n < 16 ^ (cs.length + 1) := by
        rw [pow_succ, Nat.div_lt_iff_lt_mul (by decide)]
      rw [parts, ih, hex_value_iff, List.length_append, List.length_singleton, bound, hex, lowerAscii, lowerAscii,
        List.map_append, List.map_singleton]
      constructor
      · rintro ⟨⟨within, high⟩, -, low⟩
        exact ⟨within, by rw [high, low]⟩
      · rintro ⟨within, same⟩
        obtain ⟨high, low⟩ := List.append_inj' same rfl
        exact ⟨⟨within, high⟩, Nat.mod_lt n (by decide), List.singleton_inj.mp low⟩

theorem hex_small (width n : Nat) : lowerAscii (hex width n) = hex width n := by
  refine (List.map_congr_left fun c member => ?_).trans (List.map_id _)
  obtain ⟨d, bound, rfl⟩ := hex_digits width n c member
  exact ((hex_value_iff _ d).mp (digit_char_value d bound)).2

theorem read_hex_written (width n : Nat) (bound : n < 16 ^ width) : readHex (hex width n) = some n := by
  rw [read_hex_iff, hex_length]
  exact ⟨bound, hex_small width n⟩

theorem decimal_step (n : Nat) (large : ¬ n < 10) : decimal n = decimal (n / 10) ++ [digitChar (n % 10)] := by
  rw [decimal, if_neg large]

theorem decimal_forall (holds : Char → Prop) (each : ∀ d, d < 10 → holds (digitChar d)) (n : Nat) :
    ∀ c ∈ decimal n, holds c := by
  induction n using decimal.induct with
  | case1 n small =>
      intro c member
      rw [decimal, if_pos small, List.mem_singleton] at member
      exact member ▸ each n small
  | case2 n large ih =>
      intro c member
      rw [decimal_step n large, List.mem_append, List.mem_singleton] at member
      rcases member with early | last
      · exact ih c early
      · exact last ▸ each (n % 10) (Nat.mod_lt n (by decide))

theorem decimal_nonempty (n : Nat) : decimal n ≠ [] := by
  rw [decimal]
  split <;> simp

theorem digit_value_written : ∀ d, d < 10 → digitValue (digitChar d) = d := by
  decide

theorem digit_char_digit : ∀ d, d < 10 → isDigit (digitChar d) = true := by
  decide

theorem digits_value_written (n : Nat) : digitsValue (decimal n) = n := by
  induction n using decimal.induct with
  | case1 n small =>
      rw [decimal, if_pos small]
      simpa [digitsValue] using digit_value_written n small
  | case2 n large ih =>
      rw [decimal_step n large, digitsValue, List.foldl_append, ← digitsValue, ih]
      simp only [List.foldl_cons, List.foldl_nil, digit_value_written _ (Nat.mod_lt n (by decide : 0 < 10))]
      omega

theorem digit_code (c : Char) (digit : isDigit c = true) : 48 ≤ c.toNat ∧ c.toNat ≤ 57 := by
  rw [isDigit, Bool.and_eq_true, decide_eq_true_eq, decide_eq_true_eq] at digit
  exact ⟨UInt32.le_iff_toNat_le.mp digit.1, UInt32.le_iff_toNat_le.mp digit.2⟩

theorem digit_unblank (c : Char) (digit : isDigit c = true) : isBlank c = false := by
  have within := digit_code c digit
  rw [← Bool.not_eq_true]
  intro blank
  simp only [isBlank, Bool.or_eq_true, Bool.and_eq_true, decide_eq_true_eq] at blank
  omega

def Digits (cs : List Char) : Prop := cs ≠ [] ∧ ∀ c ∈ cs, isDigit c = true

instance (cs : List Char) : Decidable (Digits cs) :=
  decidable_of_iff (cs ≠ [] ∧ cs.all isDigit = true) (and_congr_right' List.all_eq_true)

def Signed (sign : List Char) : Prop := sign = [] ∨ sign = ['+']

theorem decimal_digits (n : Nat) : Digits (decimal n) := ⟨decimal_nonempty n, decimal_forall _ digit_char_digit n⟩

theorem read_digits_iff (cs : List Char) (n : Nat) : readDigits cs = some n ↔ Digits cs ∧ digitsValue cs = n := by
  have guard : (cs.isEmpty || !cs.all isDigit) = true ↔ ¬ Digits cs := by
    simp only [Digits, Bool.or_eq_true, List.isEmpty_iff, Bool.not_eq_true', ← Bool.not_eq_true, List.all_eq_true,
      not_and_or, not_not]
  rw [readDigits]
  split
  · rename_i faulty
    simp [guard.mp faulty]
  · rename_i sound
    have digits : Digits cs := by_contra fun none => sound (guard.mpr none)
    simp [digits]

theorem read_word_unsigned (digits : List Char) (unsigned : ∀ rest, digits ≠ '+' :: rest) :
    readWord digits = (readDigits digits).filter (· < UInt64.size) := by
  rw [readWord]
  exact unsigned

theorem digits_unsigned (digits : List Char) (numeral : Digits digits) (rest : List Char) : digits ≠ '+' :: rest := by
  rintro rfl
  exact absurd (numeral.2 '+' List.mem_cons_self) (by decide)

theorem read_word_signed (sign digits : List Char) (signed : Signed sign) (numeral : Digits digits) :
    readWord (sign ++ digits) = if digitsValue digits < UInt64.size then some (digitsValue digits) else none := by
  have word : readWord (sign ++ digits) = (readDigits digits).filter (· < UInt64.size) := by
    rcases signed with rfl | rfl
    · exact read_word_unsigned digits (digits_unsigned digits numeral)
    · rfl
  rw [word, (read_digits_iff digits _).mpr ⟨numeral, rfl⟩, Option.filter_some]
  simp only [decide_eq_true_eq]

theorem read_word_cases (cs : List Char) (n : Nat) (found : readWord cs = some n) :
    ∃ sign digits, cs = sign ++ digits ∧ Signed sign ∧ Digits digits := by
  have inner (digits : List Char) (found : (readDigits digits).filter (· < UInt64.size) = some n) : Digits digits :=
    ((read_digits_iff digits n).mp (Option.filter_eq_some_iff.mp found).1).1
  by_cases plus : ∃ rest, cs = '+' :: rest
  · obtain ⟨rest, rfl⟩ := plus
    exact ⟨['+'], rest, rfl, .inr rfl, inner rest found⟩
  · rw [read_word_unsigned cs fun rest same => plus ⟨rest, same⟩] at found
    exact ⟨[], cs, rfl, .inl rfl, inner cs found⟩

end CodeIndex.Text
