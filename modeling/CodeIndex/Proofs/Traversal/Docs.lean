import Mathlib.Data.Option.Basic
import CodeIndex.Proofs.Text.Lines
import CodeIndex.Proofs.Traversal

set_option autoImplicit false

namespace CodeIndex.Extraction

def docChildren (node : Node) : List Node := node.children.filter (isDocKind ·.kind)

-- Brackets and comments are no statements.
def firstStatement? (body : Node) : Option Node := body.children.find? fun child => child.named && !isCommentKind child.kind

def soleString? (statement : Node) : Option Node :=
  match statement.children.filter (·.named) with
  | [literal] => if literal.kind = "string" then some literal else none
  | _ => none

def bodyString? (node : Node) : Option Node :=
  (node.child? "body").bind fun body => (firstStatement? body).bind fun statement =>
    if statement.kind = "expression_statement" then soleString? statement else none

def said (source : List Char) (nodes : List Node) : Option String :=
  if nodes = [] then none
  else some (.ofList (Text.join ['\n'] (nodes.map fun part => stripQuotes (nodeText source part))))

theorem docstring_said (source : List Char) (node : Node) :
    (docstring? source node).map String.ofList = said source (docChildren node ++ (leadingString? node).toList) := by
  rw [docstring?, docNodes, ← docChildren, said]
  cases docChildren node ++ (leadingString? node).toList with
  | nil => rfl
  | cons part rest => rfl

theorem said_none_iff (source : List Char) (nodes : List Node) : said source nodes = none ↔ nodes = [] := by
  rw [said]
  split <;> simp_all

theorem said_more (source : List Char) (nodes : List Node) (last : Node) : said source (nodes ++ [last]) ≠ said source nodes := by
  by_cases none : nodes = []
  · simp [said, none]
  · rw [said, said, if_neg (by simp), if_neg none, List.map_append,
      Text.join_append _ _ _ (by simpa using none) (by simp)]
    intro same
    have lengths := congrArg List.length (String.ofList_injective (Option.some.inj same))
    simp only [List.length_append, List.length_cons] at lengths
    omega

theorem leading_string_iff (node literal : Node) : leadingString? node = some literal ↔
    ∃ body statement, node.child? "body" = some body ∧ body.children.head? = some statement ∧
      statement.kind = "expression_statement" ∧ statement.children.head? = some literal ∧ literal.kind = "string" := by
  simp only [leadingString?, Option.bind_eq_bind, Option.bind_eq_some_iff, Option.guard_eq_some']
  constructor
  · rintro ⟨body, here, statement, first, -, expression, inner, opening, -, text, same⟩
    cases same
    exact ⟨body, statement, here, first, expression, opening, text⟩
  · rintro ⟨body, statement, here, first, expression, opening, text⟩
    exact ⟨body, here, statement, first, (), expression, literal, opening, (), text, rfl⟩

structure Opens (node statement : Node) : Prop where
  first : ∃ body, node.child? "body" = some body ∧ body.children.head? = some statement ∧
    firstStatement? body = some statement
  named : statement.children.head? = (statement.children.filter (·.named)).head?

section Opening

variable (node statement : Node) (opens : Opens node statement)

include opens

theorem leading_of_opening (literal : Node) : leadingString? node = some literal ↔
    statement.kind = "expression_statement" ∧ statement.children.head? = some literal ∧ literal.kind = "string" := by
  obtain ⟨body, here, front, -⟩ := opens.first
  rw [leading_string_iff]
  constructor
  · rintro ⟨other, found, named, first, rest⟩
    cases here.symm.trans named
    cases front.symm.trans first
    exact rest
  · exact fun rest => ⟨body, statement, here, front, rest⟩

theorem body_of_opening (literal : Node) : bodyString? node = some literal ↔
    statement.kind = "expression_statement" ∧ statement.children.filter (·.named) = [literal] ∧ literal.kind = "string" := by
  obtain ⟨body, here, -, first⟩ := opens.first
  rw [bodyString?, here, Option.bind_some, first, Option.bind_some]
  by_cases expression : statement.kind = "expression_statement"
  · rw [if_pos expression, soleString?]
    split
    · rename_i other alone
      by_cases text : other.kind = "string"
      · rw [if_pos text, Option.some.injEq, alone, List.cons.injEq]
        constructor
        · rintro rfl
          exact ⟨expression, ⟨rfl, rfl⟩, text⟩
        · exact fun both => both.2.1.1
      · rw [if_neg text, alone, List.cons.injEq]
        constructor
        · exact nofun
        · rintro ⟨-, ⟨rfl, -⟩, named⟩
          exact absurd named text
    · rename_i several
      constructor
      · exact nofun
      · exact fun both => absurd both.2.1 (several literal)
  · simp [expression]

theorem sole_string_leads (literal : Node) (sole : bodyString? node = some literal) : leadingString? node = some literal := by
  obtain ⟨expression, alone, text⟩ := (body_of_opening node statement opens literal).mp sole
  refine (leading_of_opening node statement opens literal).mpr ⟨expression, ?_, text⟩
  rw [opens.named, alone, List.head?_cons]

theorem strings_agree_iff : bodyString? node = leadingString? node ↔
    ∀ literal, leadingString? node = some literal → statement.children.filter (·.named) = [literal] := by
  constructor
  · intro agree literal leads
    exact ((body_of_opening node statement opens literal).mp (agree.trans leads)).2.1
  · intro alone
    cases leads : leadingString? node with
    | none =>
        rw [Option.eq_none_iff_forall_ne_some]
        intro literal sole
        exact nomatch leads.symm.trans (sole_string_leads node statement opens literal sole)
    | some literal =>
        obtain ⟨expression, -, text⟩ := (leading_of_opening node statement opens literal).mp leads
        exact (body_of_opening node statement opens literal).mpr ⟨expression, alone literal leads, text⟩

theorem said_agree_iff (source : List Char) :
    said source (docChildren node ++ (leadingString? node).toList) = said source (docChildren node ++ (bodyString? node).toList) ↔
      bodyString? node = leadingString? node := by
  constructor
  · intro same
    cases sole : bodyString? node with
    | some literal => exact (sole_string_leads node statement opens literal sole).symm
    | none =>
        cases leads : leadingString? node with
        | none => rfl
        | some literal =>
            rw [sole, leads, Option.toList_none, List.append_nil] at same
            exact absurd same (said_more source (docChildren node) literal)
  · intro agree
    rw [agree]

end Opening

-- The docstring of a node: its candidates one under another. The first child of the body and the first
-- child of that are looked at, whatever comes behind them.
structure Documents (source : List Char) (node : Node) (docstring : Option String) : Prop where
  joined : docstring = said source (docChildren node ++ (leadingString? node).toList)
  absent : docstring = none ↔ docChildren node = [] ∧ leadingString? node = none
  leads : ∀ literal, leadingString? node = some literal ↔ ∃ body statement, node.child? "body" = some body ∧
    body.children.head? = some statement ∧ statement.kind = "expression_statement" ∧
    statement.children.head? = some literal ∧ literal.kind = "string"
  sole : ∀ statement, Opens node statement →
    (docstring = said source (docChildren node ++ (bodyString? node).toList) ↔
      ∀ literal, leadingString? node = some literal → statement.children.filter (·.named) = [literal])

theorem docstring_documents (source : List Char) (node : Node) :
    Documents source node ((docstring? source node).map String.ofList) := by
  rw [docstring_said]
  refine ⟨rfl, ?_, leading_string_iff node, fun statement opens => ?_⟩
  · rw [said_none_iff, List.append_eq_nil_iff, Option.toList_eq_nil_iff]
  · rw [said_agree_iff node statement opens, strings_agree_iff node statement opens]

theorem docstrings_take_leading_string (table : NodeTable) (tree : Node) (source : String) (nonempty : source ≠ "")
    (functions : table.functionKind ≠ "") (classes : table.classKind ≠ "") :
    List.Forall₂ (fun node element => Documents source.toList node element.docstring)
      ((preorder tree).filter fun node => isFunction table node ∨ isClass table node) (extract (some table) tree source) := by
  rw [extract_is_visit table tree source nonempty functions classes]
  refine (visit_stands table source.toList none tree).imp fun node element stands => ?_
  have same : element.docstring = (docstring? source.toList node).map String.ofList := by rw [stands]; rfl
  rw [same]
  exact docstring_documents source.toList node

def pairText : String := "def f():\n    \"a\", b\n"

def pairStatement : Node :=
  .mk "expression_statement" true ⟨13, 19, 1, 1⟩ [] [
    .mk "string" true ⟨13, 16, 1, 1⟩ [] [
      .mk "string_start" true ⟨13, 14, 1, 1⟩ [] [],
      .mk "string_content" true ⟨14, 15, 1, 1⟩ [] [],
      .mk "string_end" true ⟨15, 16, 1, 1⟩ [] []],
    .mk "," false ⟨16, 17, 1, 1⟩ [] [],
    .mk "identifier" true ⟨18, 19, 1, 1⟩ [] []]

def pairFunction : Node :=
  .mk "function_definition" true ⟨0, 19, 0, 1⟩ [("name", 1), ("parameters", 2), ("body", 4)] [
    .mk "def" false ⟨0, 3, 0, 0⟩ [] [],
    .mk "identifier" true ⟨4, 5, 0, 0⟩ [] [],
    .mk "parameters" true ⟨5, 7, 0, 0⟩ [] [.mk "(" false ⟨5, 6, 0, 0⟩ [] [], .mk ")" false ⟨6, 7, 0, 0⟩ [] []],
    .mk ":" false ⟨7, 8, 0, 0⟩ [] [],
    .mk "block" true ⟨13, 19, 1, 1⟩ [] [pairStatement]]

def pairTree : Node := .mk "module" true ⟨0, 20, 0, 2⟩ [] [pairFunction]

def pythonTable : NodeTable := ⟨"class_definition", "function_definition", "name", "name"⟩

theorem pair_opens : Opens pairFunction pairStatement := ⟨⟨_, rfl, rfl, rfl⟩, rfl⟩

theorem pair_string_taken : ∃ element, extract (some pythonTable) pairTree pairText = [element] ∧
    element.docstring = some "a" ∧
    element.docstring ≠ said pairText.toList (docChildren pairFunction ++ (bodyString? pairFunction).toList) := by
  have documented := docstrings_take_leading_string pythonTable pairTree pairText (by decide) (by decide) (by decide)
  have matched : (preorder pairTree).filter (fun node => isFunction pythonTable node ∨ isClass pythonTable node) =
      [pairFunction] := rfl
  rw [matched] at documented
  generalize extract (some pythonTable) pairTree pairText = elements at documented
  cases documented with
  | cons documents none =>
      cases none
      refine ⟨_, rfl, documents.joined.trans (by decide +kernel), fun ruled => ?_⟩
      have alone := (documents.sole pairStatement pair_opens).mp ruled _ rfl
      exact absurd (congrArg List.length alone) (by decide)

theorem pair_documented :
    (extract Language.python.nodeTable? pairTree pairText).map (·.docstring) = [some "a"] ∧
    ((preorder pairTree).filter fun node => isFunction pythonTable node ∨ isClass pythonTable node).map (fun node =>
      said pairText.toList (docChildren node ++ (bodyString? node).toList)) = [none] :=
  ⟨by decide +kernel, by decide +kernel⟩

end CodeIndex.Extraction
