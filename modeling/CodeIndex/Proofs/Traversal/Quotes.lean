import CodeIndex.Extraction.Docs
import CodeIndex.Proofs.Text.Trim

set_option autoImplicit false

namespace CodeIndex.Extraction

def IsQuote (c : Char) : Prop := c = '"' ∨ c = '\''

theorem quote_unblank (quote : Char) (mark : IsQuote quote) : Text.isBlank quote = false := by
  rcases mark with rfl | rfl <;> decide

theorem quote_width_triple (quote : Char) (mark : IsQuote quote) (rest : List Char) :
    quoteWidth (List.replicate 3 quote ++ rest) = 3 := by
  rcases mark with rfl | rfl <;> rfl

theorem quote_width_single (quote : Char) (mark : IsQuote quote) (rest : List Char)
    (few : ¬ List.replicate 3 quote <+: quote :: rest) : quoteWidth (quote :: rest) = 1 := by
  rcases mark with rfl | rfl
  · rw [quoteWidth.eq_def]
    split <;> simp_all [List.replicate]
  · rw [quoteWidth.eq_def]
    split <;> simp_all [List.replicate]

theorem quote_width_none (text : List Char) (plain : ∀ quote, IsQuote quote → text.head? ≠ some quote) :
    quoteWidth text = 0 := by
  rw [quoteWidth.eq_def]
  split <;> simp_all [IsQuote]

-- As many characters go at the end as quotes open the text, so a body between equally long ends is left.
theorem strip_quotes_enclosed (left front body back right : List Char) (leftBlank : Text.Blank left)
    (rightBlank : Text.Blank right) (trimmed : Text.Trimmed (front ++ body ++ back))
    (opens : quoteWidth (front ++ body ++ back) = front.length) (closes : back.length = front.length) (some : front ≠ []) :
    stripQuotes (left ++ (front ++ body ++ back) ++ right) = Text.trim body := by
  have text : Text.trim (left ++ (front ++ body ++ back) ++ right) = front ++ body ++ back := by
    rw [Text.trim_between _ _ _ leftBlank rightBlank, Text.trim_of_trimmed _ trimmed]
  have size : (front ++ body ++ back).length - front.length = (front ++ body).length := by
    simp only [List.length_append]
    omega
  have long : ¬ (front ++ body ++ back).length < 2 * front.length := by
    simp only [List.length_append]
    omega
  rw [stripQuotes, text, opens, if_neg (by simpa using some), if_neg long, size, List.take_left, List.drop_left]

theorem strip_quotes_infix (text : List Char) : stripQuotes text <:+: text := by
  have inside := Text.trim_infix text
  rw [stripQuotes]
  split
  · exact inside
  · split
    · exact List.nil_infix
    · refine (Text.trim_infix _).trans (List.IsInfix.trans ?_ inside)
      exact (List.drop_suffix _ _).isInfix.trans (List.take_prefix _ _).isInfix

theorem strip_quotes_trimmed (text : List Char) : Text.Trimmed (stripQuotes text) := by
  rw [stripQuotes]
  split
  · exact Text.trim_trimmed text
  · split
    · exact ⟨nofun, fun front c ends => absurd ends.symm (List.append_ne_nil_of_right_ne_nil front (List.cons_ne_nil c []))⟩
    · exact Text.trim_trimmed _

theorem quotes_stripped :
    (∀ quote left body right, IsQuote quote → Text.Blank left → Text.Blank right →
      stripQuotes (left ++ (List.replicate 3 quote ++ body ++ List.replicate 3 quote) ++ right) = Text.trim body ∧
      (¬ List.replicate 3 quote <+: [quote] ++ body ++ [quote] →
        stripQuotes (left ++ ([quote] ++ body ++ [quote]) ++ right) = Text.trim body)) ∧
    (∀ text, (∀ quote, IsQuote quote → (Text.trim text).head? ≠ some quote) → stripQuotes text = Text.trim text) ∧
    ∀ text, Text.Trimmed (stripQuotes text) ∧ stripQuotes text <:+: text := by
  refine ⟨?_, ?_, fun text => ⟨strip_quotes_trimmed text, strip_quotes_infix text⟩⟩
  · intro quote left body right mark leftBlank rightBlank
    have unblank := quote_unblank quote mark
    constructor
    · apply strip_quotes_enclosed left _ body _ right leftBlank rightBlank
      · simpa [List.replicate] using
          Text.trimmed_between quote quote ([quote, quote] ++ body ++ [quote, quote]) unblank unblank
      · rw [List.append_assoc, quote_width_triple quote mark]
        rfl
      · rfl
      · exact List.cons_ne_nil _ _
    · intro few
      apply strip_quotes_enclosed left _ body _ right leftBlank rightBlank
      · exact Text.trimmed_between quote quote body unblank unblank
      · exact quote_width_single quote mark (body ++ [quote]) few
      · rfl
      · exact List.cons_ne_nil _ _
  · intro text plain
    rw [stripQuotes, quote_width_none _ plain, if_pos rfl]

theorem quoted_bodies_left :
    stripQuotes "\u3000\"\"\"\"a\" and 'b'\n\"\"\"".toList = "\"a\" and 'b'".toList ∧
    stripQuotes "' \"\"\" '\u00a0".toList = "\"\"\"".toList ∧ stripQuotes "\u3000a'".toList = "a'".toList := by
  refine ⟨?_, ?_, ?_⟩
  · exact (quotes_stripped.1 '"' "\u3000".toList "\"a\" and 'b'\n".toList [] (.inl rfl) (by decide) (by decide)).1
  · exact (quotes_stripped.1 '\'' [] " \"\"\" ".toList "\u00a0".toList (.inr rfl) (by decide) (by decide)).2 (by decide)
  · refine quotes_stripped.2.1 "\u3000a'".toList ?_
    rintro quote (rfl | rfl) <;> decide

end CodeIndex.Extraction
