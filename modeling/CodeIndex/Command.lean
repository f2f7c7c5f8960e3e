import CodeIndex.Report
import CodeIndex.Config.File
import CodeIndex.Embedding.Model

namespace CodeIndex

inductive Command where
  | index (path : Option String) (extensions : List String) (flat : Bool)
  | files
  | chunks (fileId : Int)
  | addFeedback (chunk kind : String) (comment : Option String)
  | listFeedback (chunk : String)
  | search (query : String) (k : Option UInt64)
  | forget (path : String)
  | stats
  | clear
deriving DecidableEq, Repr

structure Invocation where
  config : String
  command : Command
deriving DecidableEq, Repr

inductive Answer where
  | indexed (summary : IndexSummary)
  | files (rows : List FileRow)
  | chunks (chunks : List Chunk)
  | noted (feedback : FeedbackRow)
  | notes (feedback : List FeedbackRow)
  | hits (hits : List Hit)
  | forgotten (path : String) (removed : Bool)
  | stats (stats : Stats)
  | cleared (dimensions : Nat)

inductive OpenError where
  | notFile (path : String)
  | noJournal
  | zeroByte (position : Nat)
  | notDatabase
  | store (error : StoreError)
deriving DecidableEq, Repr

def OpenError.chain : OpenError → List String
  | .notFile path =>
    ["unable to open database file: " ++ path, "Error code 14: Unable to open the database file"]
  | .noJournal =>
    ["unable to open database file", "Error code 14: Unable to open the database file"]
  | .zeroByte position =>
    List.replicate 2 ("nul byte found in provided data at position: " ++ Text.decimalText position)
  | .notDatabase =>
    ["file is not a database", "Error code 26: File opened that is not a database file"]
  | .store error => error.chain

inductive Failure where
  | usage
  | configFile (path : String) (fault : ReadFault)
  | config (error : ConfigError)
  | directory (path : String) (error : PathError)
  | database (path : String) (error : OpenError)
  | modelWidth (path : String) (stored configured : Nat)
  | model (error : ModelError)
  | embed (error : EmbedError)
  | store (error : StoreError)
deriving DecidableEq, Repr

namespace Failure

def chain : Failure → List String
  | .usage => ["invalid command line"]
  | .configFile path fault => [Config.readMessage path, fault.message]
  | .config error => ["invalid configuration", error.message]
  | .directory path error => ["failed to create " ++ path, error.message]
  | .database path error => ("failed to open database " ++ path) :: error.chain
  | .modelWidth path stored configured =>
    ["index at " ++ path ++ " holds " ++ Text.decimalText stored ++
      "-dimensional vectors but model.dimensions is " ++ Text.decimalText configured ++
      "; run `devflow clear` to rebuild it"]
  | .model error => [error.message]
  | .embed error => [error.message]
  | .store error => error.chain

def exitCode : Failure → Nat
  | .usage => 2
  | _ => 1

def hang (margin : String) (text : String) : String :=
  .ofList (Text.join ('\n' :: margin.toList) (Text.lines text.toList))

def column (n : Nat) : String :=
  .ofList (List.replicate (5 - (Text.decimal n).length) ' ' ++ Text.decimal n)

def causes : List String → String
  | [] => ""
  | [cause] => "\n\nCaused by:\n    " ++ hang "    " cause
  | several => "\n\nCaused by:" ++ String.join (several.mapIdx fun i cause =>
      "\n" ++ column i ++ ": " ++ hang "       " cause)

def text (failure : Failure) : String :=
  match failure.chain with
  | [] => "Error: "
  | message :: under => "Error: " ++ message ++ causes under

end Failure

namespace Answer

def toJson (stamp : Json) (score : Float → Json) : Answer → Json
  | .indexed summary => summary.toJson
  | .files rows => .arr (rows.map fun file => .object (file.members ++ [("indexed_at", stamp)]))
  | .chunks found => .arr (found.map Chunk.toJson)
  | .noted feedback => .object (feedback.members ++ [("created_at", stamp)])
  | .notes feedback =>
    .arr (feedback.map fun row => .object (row.members ++ [("created_at", stamp)]))
  | .hits found => .arr (found.map (Hit.toJson score))
  | .forgotten path removed => .object [("path", .text path), ("removed", .bool removed)]
  | .stats counts =>
    .object (counts.members ++ [("last_indexed", if counts.indexed then stamp else .null)])
  | .cleared dimensions => .object [("cleared", .bool true), ("dimensions", .nat dimensions)]

end Answer
end CodeIndex
