import CodeIndex.Json.Reader
import CodeIndex.Proofs.Json.Tokens

set_option autoImplicit false

namespace CodeIndex.Json

section Runs

theorem run_step (reading next : Reading) (token : Token) (tokens : List Token) (steps : reading.step token = some next) :
    reading.run (token :: tokens) = next.run tokens := by
  rw [Reading.run, steps]

-- Where an array may end at once, its first value is read as any other.
theorem items_or_close (items : List Json) (filled : items ≠ []) (done : List Json) (stack : List Frame)
    (rest : List Token) :
    Reading.run ⟨.array done :: stack, .valueOrClose⟩ (spelledItems items ++ rest) =
      Reading.run ⟨.array done :: stack, .value⟩ (spelledItems items ++ rest) := by
  cases items with
  | nil => exact absurd rfl filled
  | cons item more => cases item <;> simp [spelledItems, spelled, Reading.run, Reading.step]

theorem members_or_close (members : List (Literal × Json)) (filled : members ≠ []) (stack : List Frame) (rest : List Token) :
    Reading.run ⟨stack, .keyOrClose⟩ (spelledMembers members ++ rest) =
      Reading.run ⟨stack, .key []⟩ (spelledMembers members ++ rest) := by
  cases members with
  | nil => exact absurd rfl filled
  | cons member more => rfl

mutual

theorem run_value (json : Json) (stack : List Frame) (rest : List Token) :
    Reading.run ⟨stack, .value⟩ (spelled json ++ rest) = Reading.run ⟨stack, .separator json⟩ rest := by
  cases json with
  | null => rfl
  | bool value => rfl
  | num value => rfl
  | str value => rfl
  | arr items =>
      rw [spelled, List.cons_append, run_step ⟨stack, .value⟩ ⟨.array [] :: stack, .valueOrClose⟩ _ _ rfl,
        List.append_assoc, List.singleton_append]
      by_cases filled : items = []
      · subst filled
        exact run_step ⟨.array [] :: stack, .valueOrClose⟩ _ _ rest rfl
      · rw [items_or_close items filled, run_items items filled]
        rfl
  | obj members =>
      rw [spelled, List.cons_append, run_step ⟨stack, .value⟩ ⟨stack, .keyOrClose⟩ _ _ rfl, List.append_assoc,
        List.singleton_append]
      by_cases filled : members = []
      · subst filled
        exact run_step ⟨stack, .keyOrClose⟩ _ _ rest rfl
      · rw [members_or_close members filled, run_members members filled]
        rfl

theorem run_items (items : List Json) (filled : items ≠ []) (done : List Json) (stack : List Frame) (rest : List Token) :
    Reading.run ⟨.array done :: stack, .value⟩ (spelledItems items ++ .closeBracket :: rest) =
      Reading.run ⟨stack, .separator (.arr (done.reverse ++ items))⟩ rest := by
  cases items with
  | nil => exact absurd rfl filled
  | cons item more =>
      rw [spelledItems, List.append_assoc, run_value item]
      by_cases last : more = []
      · subst last
        exact (run_step ⟨.array done :: stack, .separator item⟩ _ _ rest rfl).trans (by simp [Reading.complete])
      · rw [if_neg (by simp [last]), List.cons_append,
          run_step ⟨.array done :: stack, .separator item⟩ ⟨.array (item :: done) :: stack, .value⟩ _ _ rfl,
          run_items more last]
        simp

theorem run_members (members : List (Literal × Json)) (filled : members ≠ []) (done : List (Literal × Json))
    (stack : List Frame) (rest : List Token) :
    Reading.run ⟨stack, .key done⟩ (spelledMembers members ++ .closeBrace :: rest) =
      Reading.run ⟨stack, .separator (.obj (done.reverse ++ members))⟩ rest := by
  cases members with
  | nil => exact absurd rfl filled
  | cons member more =>
      obtain ⟨key, value⟩ := member
      rw [spelledMembers, List.cons_append, run_step ⟨stack, .key done⟩ ⟨stack, .colon done key⟩ _ _ rfl, List.cons_append,
        run_step ⟨stack, .colon done key⟩ ⟨.object done key :: stack, .value⟩ _ _ rfl, List.append_assoc, run_value value]
      by_cases last : more = []
      · subst last
        exact (run_step ⟨.object done key :: stack, .separator value⟩ _ _ rest rfl).trans (by simp [Reading.complete])
      · rw [if_neg (by simp [last]), List.cons_append,
          run_step ⟨.object done key :: stack, .separator value⟩ ⟨stack, .key ((key, value) :: done)⟩ _ _ rfl,
          run_members more last]
        simp

end

end Runs

section Trail

def begunItems (items : List Json) : List Token := items.flatMap fun item => spelled item ++ [.comma]

def begunMembers (members : List (Literal × Json)) : List Token :=
  members.flatMap fun (key, value) => .str key :: .colon :: (spelled value ++ [.comma])

theorem spelled_items_last (items : List Json) (last : Json) :
    spelledItems (items ++ [last]) = begunItems items ++ spelled last := by
  induction items with
  | nil => simp [spelledItems, begunItems]
  | cons item items ih =>
      rw [List.cons_append, spelledItems, ih]
      simp [begunItems]

theorem spelled_members_last (members : List (Literal × Json)) (key : Literal) (value : Json) :
    spelledMembers (members ++ [(key, value)]) = begunMembers members ++ .str key :: .colon :: spelled value := by
  induction members with
  | nil => simp [spelledMembers, begunMembers]
  | cons member members ih =>
      obtain ⟨name, held⟩ := member
      rw [List.cons_append, spelledMembers, ih]
      simp [begunMembers]

def Frame.tokens : Frame → List Token
  | .array done => .openBracket :: begunItems done.reverse
  | .object done key => .openBrace :: (begunMembers done.reverse ++ [.str key, .colon])

def Expect.tokens : Expect → List Token
  | .value | .valueOrClose => []
  | .keyOrClose => [.openBrace]
  | .key done => .openBrace :: begunMembers done.reverse
  | .colon done name => .openBrace :: (begunMembers done.reverse ++ [.str name])
  | .separator json => spelled json

def Reading.tokens (reading : Reading) : List Token :=
  reading.stack.reverse.flatMap Frame.tokens ++ reading.expect.tokens

def Reading.Opened : Reading → Prop
  | ⟨stack, .valueOrClose⟩ => ∃ below, stack = .array [] :: below
  | _ => True

theorem value_step (stack : List Frame) (token : Token) (next : Reading)
    (steps : Reading.step ⟨stack, .value⟩ token = some next) :
    next.tokens = stack.reverse.flatMap Frame.tokens ++ [token] ∧ next.Opened := by
  cases token <;> simp only [Reading.step, reduceCtorEq, Option.some.injEq] at steps <;> subst steps
  case openBracket => exact ⟨by simp [Reading.tokens, Frame.tokens, Expect.tokens, begunItems], ⟨stack, rfl⟩⟩
  all_goals exact ⟨by simp [Reading.tokens, Reading.complete, Expect.tokens, spelled], trivial⟩

theorem step_tokens (reading next : Reading) (token : Token) (opened : reading.Opened)
    (steps : reading.step token = some next) : next.tokens = reading.tokens ++ [token] ∧ next.Opened := by
  obtain ⟨stack, expect⟩ := reading
  cases expect with
  | value => simpa [Reading.tokens, Expect.tokens] using value_step stack token next steps
  | valueOrClose =>
      obtain ⟨below, rfl⟩ := opened
      by_cases closes : token = .closeBracket
      · subst closes
        cases steps
        exact ⟨by simp [Reading.tokens, Reading.complete, Frame.tokens, Expect.tokens, spelled, spelledItems, begunItems], trivial⟩
      · have valued : Reading.step ⟨.array [] :: below, .value⟩ token = some next := by
          rw [← steps]
          cases token <;> first | rfl | exact absurd rfl closes
        simpa [Reading.tokens, Expect.tokens] using value_step _ token next valued
  | keyOrClose =>
      cases token <;> simp only [Reading.step, reduceCtorEq, Option.some.injEq] at steps <;> subst steps
      · exact ⟨by simp [Reading.tokens, Reading.complete, Expect.tokens, spelled, spelledMembers], trivial⟩
      · exact ⟨by simp [Reading.tokens, Expect.tokens, begunMembers], trivial⟩
  | key done =>
      cases token <;> simp only [Reading.step, reduceCtorEq, Option.some.injEq] at steps
      subst steps
      exact ⟨by simp [Reading.tokens, Expect.tokens], trivial⟩
  | colon done key =>
      cases token <;> simp only [Reading.step, reduceCtorEq, Option.some.injEq] at steps
      subst steps
      exact ⟨by simp [Reading.tokens, Expect.tokens, Frame.tokens], trivial⟩
  | separator value =>
      cases stack with
      | nil => cases token <;> cases steps
      | cons frame below =>
          cases frame with
          | array done =>
              cases token <;> simp only [Reading.step, reduceCtorEq, Option.some.injEq] at steps <;> subst steps
              · exact ⟨by simp [Reading.tokens, Reading.complete, Frame.tokens, Expect.tokens, spelled, spelled_items_last], trivial⟩
              · exact ⟨by simp [Reading.tokens, Frame.tokens, Expect.tokens, begunItems], trivial⟩
          | object done key =>
              cases token <;> simp only [Reading.step, reduceCtorEq, Option.some.injEq] at steps <;> subst steps
              · exact ⟨by simp [Reading.tokens, Reading.complete, Frame.tokens, Expect.tokens, spelled, spelled_members_last], trivial⟩
              · exact ⟨by simp [Reading.tokens, Frame.tokens, Expect.tokens, begunMembers], trivial⟩

theorem run_tokens (reading final : Reading) (tokens : List Token) (opened : reading.Opened)
    (run : reading.run tokens = some final) : final.tokens = reading.tokens ++ tokens := by
  induction tokens generalizing reading with
  | nil =>
      cases run
      rw [List.append_nil]
  | cons token tokens ih =>
      cases steps : reading.step token with
      | none =>
          rw [Reading.run, steps] at run
          cases run
      | some next =>
          obtain ⟨trail, later⟩ := step_tokens reading next token opened steps
          rw [run_step reading next token tokens steps] at run
          rw [ih next later run, trail, List.append_assoc, List.singleton_append]

end Trail

section Documents

theorem of_tokens_iff (tokens : List Token) (json : Json) : ofTokens? tokens = some json ↔ tokens = spelled json := by
  rw [ofTokens?]
  constructor
  · intro found
    split at found
    · next value run =>
        cases found
        have trail := run_tokens ⟨[], .value⟩ ⟨[], .separator json⟩ tokens trivial run
        simpa [Reading.tokens, Expect.tokens] using trail.symm
    · cases found
  · rintro rfl
    have run := run_value json [] []
    rw [List.append_nil] at run
    rw [run]
    rfl

theorem spelled_items_apart (items : List Json) (each : ∀ item ∈ items, Token.Apart (spelled item)) :
    Token.Apart (spelledItems items) := by
  induction items with
  | nil => exact .nil
  | cons item more ih =>
      obtain ⟨first, others⟩ := List.forall_mem_cons.mp each
      rw [spelledItems]
      split
      · rwa [List.append_nil]
      · exact Token.apart_append _ _ _ rfl first (Token.apart_cons _ _ rfl (ih others))

theorem spelled_members_apart (members : List (Literal × Json)) (each : ∀ member ∈ members, Token.Apart (spelled member.2)) :
    Token.Apart (spelledMembers members) := by
  induction members with
  | nil => exact .nil
  | cons member more ih =>
      obtain ⟨first, others⟩ := List.forall_mem_cons.mp each
      rw [spelledMembers]
      refine Token.apart_cons _ _ rfl (Token.apart_cons _ _ rfl ?_)
      split
      · rwa [List.append_nil]
      · exact Token.apart_append _ _ _ rfl first (Token.apart_cons _ _ rfl (ih others))

theorem spelled_apart (json : Json) : Token.Apart (spelled json) := by
  induction json using nested with
  | null | bool | num | str => exact .singleton _
  | arr items each => exact Token.apart_cons _ _ rfl (Token.apart_append _ [] _ rfl (spelled_items_apart items each) (.singleton _))
  | obj members each => exact Token.apart_cons _ _ rfl (Token.apart_append _ [] _ rfl (spelled_members_apart members each) (.singleton _))

theorem document_iff (text : String) (json : Json) : Document json text ↔ Token.read text.toList = some (spelled json) :=
  (Token.read_iff _ _ (spelled_apart json)).symm

instance (json : Json) (text : String) : Decidable (Document json text) := decidable_of_iff' _ (document_iff text json)

theorem read_iff (text : String) (json : Json) : read? text = some json ↔ Document json text := by
  rw [read?, Option.bind_eq_some_iff, document_iff]
  constructor
  · rintro ⟨tokens, found, whole⟩
    rwa [(of_tokens_iff tokens json).mp whole] at found
  · intro found
    exact ⟨spelled json, found, (of_tokens_iff _ json).mpr rfl⟩

end Documents

end CodeIndex.Json
