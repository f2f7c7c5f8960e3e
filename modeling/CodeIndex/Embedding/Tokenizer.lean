import CodeIndex.Embedding
import CodeIndex.Json.Decode
import CodeIndex.Json.Reader

namespace CodeIndex

inductive TemplatePart where
  | words
  | special (ids : List Nat)
deriving DecidableEq, Repr

structure Tokenizer where
  vocabulary : List (String × Nat)
  unknown : String
  template : List TemplatePart
deriving DecidableEq, Repr

structure Encoded where
  ids : List Nat
  mask : List Nat
deriving DecidableEq, Repr

namespace Tokenizer

def maxLength : Nat := 512

def vocabularySize (tokenizer : Tokenizer) : Nat := tokenizer.vocabulary.length

def wordId? (tokenizer : Tokenizer) (word : List Char) : Option Nat :=
  match tokenizer.vocabulary.lookup (.ofList word) with
  | some id => some id
  | none => tokenizer.vocabulary.lookup tokenizer.unknown

def TemplatePart.fill (words : List Nat) : TemplatePart → List Nat
  | .words => words
  | .special ids => ids

-- Words beyond the longest sequence are looked up too.
def encode? (tokenizer : Tokenizer) (text : String) : Option Encoded := do
  let words ← (Text.words text.toList).mapM tokenizer.wordId?
  let room := maxLength - (tokenizer.template.flatMap (TemplatePart.fill [])).length
  let ids := tokenizer.template.flatMap (TemplatePart.fill (words.take room))
  return ⟨ids, ids.map fun _ => 1⟩

def id? : Json → Option Nat
  | .num number => number.nat?.filter (· < UInt32.size)
  | _ => none

def lastOfEach : List (String × Nat) → List (String × Nat)
  | [] => []
  | pair :: rest =>
    if rest.any (·.1 = pair.1) then lastOfEach rest else pair :: lastOfEach rest

def pair? : Literal × Json → Option (String × Nat)
  | (word, value) => do return (← word, ← id? value)

def vocabularyOf? : Json → Option (List (String × Nat))
  | .obj members => (members.mapM pair?).map lastOfEach
  | _ => none

def specialIds? (special : Json) (name : String) : Option (List Nat) := do
  let entry ← special.last? name
  (← (← entry.last? "ids").asItems?).mapM id?

def templatePart? (special : Json) (part : Json) : Option TemplatePart :=
  match part.last? "SpecialToken" with
  | some token => do
    let name ← (← token.last? "id").asText?
    return .special (← specialIds? special name)
  | none => (part.last? "Sequence").map fun _ => .words

def templateOf? (postProcessor : Option Json) : Option (List TemplatePart) :=
  match postProcessor with
  | none | some .null => some [.words]
  | some json => do
    guard ((← (← json.last? "type").asText?) = "TemplateProcessing")
    (← (← json.last? "single").asItems?).mapM (templatePart? (← json.last? "special_tokens"))

def named (names : List String) (json : Json) : Bool :=
  (json.asChoice? fun name => if names.contains name then some name else none).isSome

-- A truncation of the document's own has to be one, but texts are cut to `maxLength` whatever it
-- says.
def truncates : Json → Bool
  | .null => true
  | json => match json.fields? ["direction", "max_length", "strategy", "stride"] with
    | some [direction, length, strategy, stride] =>
      direction.all (named ["Left", "Right"]) && length.any (·.asWord?.isSome) &&
        strategy.any (named ["LongestFirst", "OnlyFirst", "OnlySecond"]) &&
        stride.any (·.asWord?.isSome)
    | _ => false

def allowed (key : String) (value : Json) : Bool :=
  match key with
  | "version" => value.asText? = some "1.0"
  | "truncation" => truncates value
  | "padding" | "normalizer" | "decoder" => (value matches .null)
  | "added_tokens" => (value matches .arr [])
  | "pre_tokenizer" => (value.last? "type").bind Json.asText? = some "WhitespaceSplit"
  | "model" | "post_processor" => true
  | _ => false

def known : Json → Bool
  | .obj members => members.all fun (key, value) => key.any (allowed · value)
  | _ => false

def ofJson? (json : Json) : Option Tokenizer := do
  guard (known json && (json.last? "pre_tokenizer").isSome)
  let model ← json.last? "model"
  guard ((← (← model.last? "type").asText?) = "WordLevel")
  return {
    vocabulary := ← vocabularyOf? (← model.last? "vocab")
    unknown := ← (← model.last? "unk_token").asText?
    template := ← templateOf? (json.last? "post_processor") }

end Tokenizer

inductive TokenizerError where
  | missing (directory : String)
  | unreadable
deriving DecidableEq, Repr

def TokenizerError.message : TokenizerError → String
  | .missing directory => "tokenizer.json not found in " ++ directory
  | .unreadable => "failed to load tokenizer"

def Tokenizer.load (directory : String) (file : Option String) : Except TokenizerError Tokenizer :=
  match file with
  | none => .error (.missing directory)
  | some text =>
    match (Json.read? text).bind Tokenizer.ofJson? with
    | none => .error .unreadable
    | some tokenizer => .ok tokenizer

end CodeIndex
