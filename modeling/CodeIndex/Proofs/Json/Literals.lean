import CodeIndex.Proofs.Json.Grammar

set_option autoImplicit false

namespace CodeIndex.Token

theorem read_on (state next : State) (done : List Token) (c : Char) (cs : List Char)
    (steps : step state c = some ([], next)) : readFrom state done (c :: cs) = readFrom next done cs := by
  rw [readFrom, steps]
  rfl

theorem read_complete (state next : State) (token : Token) (done : List Token) (c : Char) (cs : List Char)
    (steps : step state c = some ([token], next)) : readFrom state done (c :: cs) = readFrom next (token :: done) cs := by
  rw [readFrom, steps]
  rfl

theorem read_stuck (state : State) (done : List Token) (c : Char) (cs : List Char) (stuck : step state c = none) :
    readFrom state done (c :: cs) = none := by
  rw [readFrom, stuck]

theorem escape_iff (letter c : Char) : simpleEscape? letter = some c ↔ (letter, c) ∈ escapes := by
  unfold simpleEscape?
  split <;> simp_all [escapes, eq_comm]

theorem escape_plain (letter c : Char) (known : (letter, c) ∈ escapes) : letter ≠ 'u' := by
  rintro rfl
  simp [escapes] at known

theorem read_hex_four (a b e d : Char) (code : Nat) : Text.readHex [a, b, e, d] = some code ↔
    ∃ m n o p, Text.hexValue? a = some m ∧ Text.hexValue? b = some n ∧ Text.hexValue? e = some o ∧
      Text.hexValue? d = some p ∧ code = ((m * 16 + n) * 16 + o) * 16 + p := by
  simp only [Text.readHex, Text.readHex.go, Option.bind_eq_some_iff, Option.some.injEq]
  constructor
  · rintro ⟨m, first, n, second, o, third, p, fourth, rfl⟩
    exact ⟨m, n, o, p, first, second, third, fourth, by omega⟩
  · rintro ⟨m, n, o, p, first, second, third, fourth, rfl⟩
    exact ⟨m, first, n, second, o, third, p, fourth, by omega⟩

def Partial.feed (read : Partial) : Letter → Partial
  | .plain c _ _ _ => read.push c
  | .short _ c _ => read.push c
  | .unit _ code _ _ => read.pushUnit code

section Reading

variable (done : List Token)

theorem read_unit (read : Partial) (a b e d : Char) (code : Nat) (rest : List Char)
    (known : Text.readHex [a, b, e, d] = some code) :
    readFrom (.string read) done ('\\' :: 'u' :: a :: b :: e :: d :: rest) = readFrom (.string (read.pushUnit code)) done rest := by
  obtain ⟨m, n, o, p, first, second, third, fourth, rfl⟩ := (read_hex_four a b e d code).mp known
  rw [read_on _ (.escape read) done '\\' _ rfl, read_on _ (.unicode read []) done 'u' _ rfl,
    read_on _ (.unicode read [m]) done a _ (by rw [step, first]; rfl),
    read_on _ (.unicode read [m, n]) done b _ (by rw [step, second]; rfl),
    read_on _ (.unicode read [m, n, o]) done e _ (by rw [step, third]; rfl),
    read_on _ _ done d _ (by rw [step, fourth]; rfl)]

theorem read_letter (read : Partial) (letter : Letter) (rest : List Char) :
    readFrom (.string read) done (letter.text ++ rest) = readFrom (.string (read.feed letter)) done rest := by
  cases letter with
  | plain c unquoted unslashed uncontrolled =>
      exact read_on _ _ done c rest (by rw [step, if_neg unquoted, if_neg unslashed, if_neg (Nat.not_lt.mpr uncontrolled)]; rfl)
  | short letter c known =>
      have escaped : step (.escape read) letter = some ([], .string (read.push c)) := by
        rw [step, if_neg (escape_plain letter c known), (escape_iff letter c).mpr known]
        rfl
      exact (read_on _ (.escape read) done '\\' _ rfl).trans (read_on _ _ done letter rest escaped)
  | unit digits code four known =>
      match digits, four with
      | [a, b, e, d], _ => exact read_unit done read a b e d code rest known

theorem read_letters (read : Partial) (letters : List Letter) (rest : List Char) :
    readFrom (.string read) done (letters.flatMap Letter.text ++ '"' :: rest) =
      readFrom .between (.str (letters.foldl Partial.feed read).literal :: done) rest := by
  induction letters generalizing read with
  | nil => exact read_complete _ .between _ done '"' rest rfl
  | cons letter letters ih => rw [List.flatMap_cons, List.append_assoc, read_letter, ih, List.foldl_cons]

theorem read_digit (read : Partial) (digits : List Nat) (cs : List Char) (all : List Token)
    (found : readFrom (.unicode read digits) done cs = some all) :
    ∃ c rest value, cs = c :: rest ∧ Text.hexValue? c = some value := by
  cases cs with
  | nil => cases found
  | cons c rest =>
      cases digit : Text.hexValue? c with
      | none =>
          rw [read_stuck _ done c rest (by rw [step, digit]; rfl)] at found
          cases found
      | some value => exact ⟨c, rest, value, rfl, digit⟩

theorem unit_cases (read : Partial) (cs : List Char) (all : List Token)
    (found : readFrom (.unicode read []) done cs = some all) :
    ∃ a b e d code rest, cs = a :: b :: e :: d :: rest ∧ Text.readHex [a, b, e, d] = some code := by
  obtain ⟨a, cs, m, rfl, first⟩ := read_digit done read [] cs all found
  rw [read_on _ (.unicode read [m]) done a _ (by rw [step, first]; rfl)] at found
  obtain ⟨b, cs, n, rfl, second⟩ := read_digit done read [m] cs all found
  rw [read_on _ (.unicode read [m, n]) done b _ (by rw [step, second]; rfl)] at found
  obtain ⟨e, cs, o, rfl, third⟩ := read_digit done read [m, n] cs all found
  rw [read_on _ (.unicode read [m, n, o]) done e _ (by rw [step, third]; rfl)] at found
  obtain ⟨d, cs, p, rfl, fourth⟩ := read_digit done read [m, n, o] cs all found
  exact ⟨a, b, e, d, _, cs, rfl, (read_hex_four a b e d _).mpr ⟨m, n, o, p, first, second, third, fourth, rfl⟩⟩

theorem escape_cases (read : Partial) (cs : List Char) (all : List Token)
    (found : readFrom (.escape read) done cs = some all) :
    ∃ (letter : Letter) (rest : List Char), '\\' :: cs = letter.text ++ rest := by
  cases cs with
  | nil => cases found
  | cons c rest =>
      by_cases unicode : c = 'u'
      · subst unicode
        rw [read_on _ (.unicode read []) done 'u' rest rfl] at found
        obtain ⟨a, b, e, d, code, rest, rfl, known⟩ := unit_cases done read rest all found
        exact ⟨.unit [a, b, e, d] code rfl known, rest, rfl⟩
      · cases escaped : simpleEscape? c with
        | none =>
            rw [read_stuck _ done c rest (by rw [step, if_neg unicode, escaped]; rfl)] at found
            cases found
        | some stands => exact ⟨.short c stands ((escape_iff c stands).mp escaped), rest, rfl⟩

theorem letter_cases (read : Partial) (cs : List Char) (all : List Token)
    (found : readFrom (.string read) done cs = some all) :
    (∃ rest, cs = '"' :: rest) ∨ ∃ (letter : Letter) (rest : List Char), cs = letter.text ++ rest := by
  cases cs with
  | nil => cases found
  | cons c rest =>
      by_cases quote : c = '"'
      · exact .inl ⟨rest, by rw [quote]⟩
      · by_cases slash : c = '\\'
        · subst slash
          rw [read_on _ (.escape read) done '\\' rest rfl] at found
          exact .inr (escape_cases done read rest all found)
        · by_cases control : c.toNat < 0x20
          · rw [read_stuck _ done c rest (by rw [step, if_neg quote, if_neg slash, if_pos control])] at found
            cases found
          · exact .inr ⟨.plain c quote slash (Nat.not_lt.mp control), rest, rfl⟩

theorem letter_nonempty (letter : Letter) : 0 < letter.text.length := by
  cases letter <;> exact Nat.zero_lt_succ _

theorem letters_cases (read : Partial) (cs : List Char) (all : List Token)
    (found : readFrom (.string read) done cs = some all) :
    ∃ (letters : List Letter) (rest : List Char), cs = letters.flatMap Letter.text ++ '"' :: rest := by
  obtain ⟨rest, rfl⟩ | ⟨letter, rest, rfl⟩ := letter_cases done read cs all found
  · exact ⟨[], rest, rfl⟩
  · rw [read_letter] at found
    have shorter : rest.length < (letter.text ++ rest).length := by
      rw [List.length_append]
      exact Nat.lt_add_of_pos_left (letter_nonempty letter)
    obtain ⟨letters, tail, rfl⟩ := letters_cases (read.feed letter) rest all found
    exact ⟨letter :: letters, tail, by rw [List.flatMap_cons, List.append_assoc]⟩
termination_by cs.length

end Reading

section Meaning

theorem settle_unpaired (read : Partial) (unpaired : read.paired = false) : read.settle.paired = false := by
  cases high : read.high <;> simp [Partial.settle, high, unpaired]

theorem push_unpaired (read : Partial) (c : Char) (unpaired : read.paired = false) : (read.push c).paired = false :=
  settle_unpaired read unpaired

theorem feed_unpaired (letter : Letter) (read : Partial) (unpaired : read.paired = false) :
    (read.feed letter).paired = false := by
  cases letter with
  | plain c _ _ _ => exact push_unpaired read c unpaired
  | short _ c _ => exact push_unpaired read c unpaired
  | unit _ code _ _ =>
      simp only [Partial.feed, Partial.pushUnit]
      split
      · cases read.high <;> simp [unpaired]
      · split
        · exact settle_unpaired read unpaired
        · exact push_unpaired read _ unpaired

-- A half that was left alone is never made good.
theorem unpaired_lost (letters : List Letter) (read : Partial) (unpaired : read.paired = false) :
    (letters.foldl Partial.feed read).literal = none := by
  induction letters generalizing read with
  | nil => exact if_neg (by simp [settle_unpaired read unpaired])
  | cons letter letters ih => exact ih (read.feed letter) (feed_unpaired letter read unpaired)

theorem low_iff (code : Nat) : Letter.isLow code = true ↔ 0xDC00 ≤ code ∧ code ≤ 0xDFFF := by simp [Letter.isLow]

theorem high_iff (code : Nat) : Letter.isHigh code = true ↔ 0xD800 ≤ code ∧ code ≤ 0xDBFF := by simp [Letter.isHigh]

theorem feed_denotes (letters : List Letter) (high : Option Nat) (text : List Char) :
    (letters.foldl Partial.feed ⟨text.reverse, high, true⟩).literal =
      (Letter.denote high letters).map fun cs => String.ofList (text ++ cs) := by
  induction letters generalizing high text with
  | nil => cases high <;> simp [Partial.literal, Partial.settle, Letter.denote]
  | cons letter letters ih =>
      have pushed (c : Char) : (letters.foldl Partial.feed ⟨c :: text.reverse, none, true⟩).literal =
          (Letter.denote none letters).map fun cs => String.ofList (text ++ c :: cs) := by
        simpa using ih none (text ++ [c])
      rw [List.foldl_cons]
      cases high with
      | none =>
          cases letter with
          | plain c _ _ _ => exact (pushed c).trans (by simp [Letter.denote, Function.comp_def])
          | short _ c _ => exact (pushed c).trans (by simp [Letter.denote, Function.comp_def])
          | unit digits code four known =>
              rw [Letter.denote, Partial.feed, Partial.pushUnit]
              by_cases low : 0xDC00 ≤ code ∧ code ≤ 0xDFFF
              · rw [if_pos low, if_pos (low_iff code |>.mpr low)]
                exact unpaired_lost letters _ rfl
              · rw [if_neg low, if_neg (mt (low_iff code).mp low)]
                by_cases first : 0xD800 ≤ code ∧ code ≤ 0xDBFF
                · rw [if_pos first, if_pos (high_iff code |>.mpr first)]
                  exact ih (some code) text
                · rw [if_neg first, if_neg (mt (high_iff code).mp first)]
                  exact (pushed _).trans (by simp [Function.comp_def])
      | some half =>
          cases letter with
          | plain c _ _ _ => exact unpaired_lost letters _ rfl
          | short _ c _ => exact unpaired_lost letters _ rfl
          | unit digits code four known =>
              rw [Letter.denote, Partial.feed, Partial.pushUnit]
              by_cases low : 0xDC00 ≤ code ∧ code ≤ 0xDFFF
              · rw [if_pos low, if_pos (low_iff code |>.mpr low)]
                exact (pushed _).trans (by simp [Function.comp_def])
              · rw [if_neg low, if_neg (mt (low_iff code).mp low)]
                split <;> exact unpaired_lost letters _ rfl

theorem letters_literal (letters : List Letter) :
    (letters.foldl Partial.feed .empty).literal = (Letter.denote none letters).map String.ofList :=
  feed_denotes letters none []

end Meaning

section Whole

variable (done : List Token)

theorem read_literal (literal : Literal) (text rest : List Char) (written : LiteralText literal text) :
    readFrom .between done (text ++ rest) = readFrom .between (.str literal :: done) rest := by
  obtain ⟨letters, rfl, rfl⟩ := written
  rw [List.append_assoc, List.cons_append, List.singleton_append, read_on .between (.string .empty) done '"' _ rfl,
    read_letters, letters_literal]

theorem literal_cases (cs : List Char) (all : List Token) (found : readFrom (.string .empty) done cs = some all) :
    ∃ literal text rest, '"' :: cs = text ++ rest ∧ LiteralText literal text := by
  obtain ⟨letters, rest, rfl⟩ := letters_cases done .empty cs all found
  exact ⟨_, '"' :: letters.flatMap Letter.text ++ ['"'], rest, by simp, letters, rfl, rfl⟩

end Whole

end CodeIndex.Token
