import CodeIndex.Element
import CodeIndex.Language
import CodeIndex.Text.Digits
import CodeIndex.Text.Whitespace

namespace CodeIndex

abbrev Embedding := List Float32

inductive EmbedError where
  | emptySequence
  | unknownWord
  | modelRun
  | refused (reason : String)
  | widthMismatch (expected actual : Nat)
deriving DecidableEq, Repr

def EmbedError.message : EmbedError → String
  | .emptySequence => "inference failed: empty token sequence"
  | .unknownWord => "inference failed: tokenization failed: failed to encode text: " ++
      "WordLevel error: Missing [UNK] token from the vocabulary"
  | .modelRun => "inference failed: inference failed"
  | .refused reason => "inference failed: " ++ reason
  | .widthMismatch expected actual => "embedding has " ++ Text.decimalText actual ++
      " dimensions, index expects " ++ Text.decimalText expected

structure Embedder where
  dimensions : Nat
  embed : String → Except EmbedError Embedding

def embeddingHeader (element : Element) (language : Language) : List String :=
  ["Language: " ++ language.name, "Type: " ++ element.kind.name, "Name: " ++ element.name] ++
  ((element.docstring.filter (· ≠ "")).map ("Description: " ++ ·)).toList ++
  (element.parentClass.map ("Part of class: " ++ ·)).toList

def collapse (source : String) : String := .ofList (Text.join [' '] (Text.words source.toList))

def embeddingText (element : Element) (language : Language) : String :=
  " ".intercalate (embeddingHeader element language) ++ " " ++ collapse element.sourceText

def queryText (query : String) : String := "Find code that: " ++ Text.trimText query

end CodeIndex
