import CodeIndex.Command

namespace CodeIndex

namespace Arguments

inductive Flag where
  | config | extension | flat | count | comment
deriving DecidableEq, Repr

namespace Flag

def letter? : Flag → Option Char
  | .config => some 'c'
  | .count => some 'k'
  | _ => none

def word? : Flag → Option String
  | .config => some "config"
  | .extension => some "ext"
  | .flat => some "no-recursive"
  | .comment => some "comment"
  | .count => none

def takesValue : Flag → Bool
  | .flat => false
  | _ => true

end Flag

structure Level where
  flags : List Flag
  names : List String := []

inductive Word where
  | plain
  | finish
  | unknown
  | flag (flag : Flag) (value : Option String)
deriving DecidableEq, Repr

namespace Level

def joined : List Char → Option String
  | '=' :: value => some (.ofList value)
  | _ => none

def longFlag (level : Level) (body : List Char) : Word :=
  let word := body.takeWhile (· ≠ '=')
  match level.flags.find? (·.word? == some (.ofList word)) with
  | none => .unknown
  | some flag => .flag flag (joined (body.dropWhile (· ≠ '=')))

def shortFlag (level : Level) (letter : Char) (rest : List Char) : Word :=
  match level.flags.find? (·.letter? == some letter) with
  | none => .unknown
  | some flag =>
    if rest.isEmpty then .flag flag none
    else .flag flag (some ((joined rest).getD (.ofList rest)))

def classify (level : Level) (word : String) : Word :=
  match word.toList with
  | ['-', '-'] => .finish
  | '-' :: '-' :: body => level.longFlag body
  | '-' :: letter :: rest => level.shortFlag letter rest
  | _ => .plain

end Level

structure Reading where
  given : List (Flag × String) := []
  operands : List String := []
  next : Option (String × List String) := none
deriving DecidableEq, Repr

namespace Reading

def addFlag (flag : Flag) (value : String) (reading : Reading) : Reading :=
  { reading with given := (flag, value) :: reading.given }

def addOperand (operand : String) (reading : Reading) : Reading :=
  { reading with operands := operand :: reading.operands }

def once? (reading : Reading) (flag : Flag) : Option (Option String) :=
  match reading.given.filter (·.1 == flag) with
  | [] => some none
  | [(_, value)] => some (some value)
  | _ => none

def all (reading : Reading) (flag : Flag) : List String :=
  (reading.given.filter (·.1 == flag)).map (·.2)

def config? (reading : Reading) : Option (Option String) :=
  match reading.once? .config with
  | some (some "") => none
  | value => value

end Reading

namespace Level

-- `pending` is a flag that waits for its value. After a double hyphen all words are operands.
def read? (level : Level) (pending : Option Flag) : List String → Option Reading
  | [] => if pending.isSome then none else some {}
  | word :: rest =>
    match pending, level.classify word with
    | some flag, .plain => (level.read? none rest).map (.addFlag flag word)
    | some _, _ => none
    | none, .plain =>
      if level.names.contains word then some { next := some (word, rest) }
      else (level.read? none rest).map (.addOperand word)
    | none, .finish => some { operands := rest }
    | none, .unknown => none
    | none, .flag flag (some value) =>
      if flag.takesValue then (level.read? none rest).map (.addFlag flag value) else none
    | none, .flag flag none =>
      if flag.takesValue then level.read? (some flag) rest
      else (level.read? none rest).map (.addFlag flag "")

def opening? (level : Level) (words : List String) : Option (Reading × String × List String) := do
  let reading ← level.read? none words
  guard reading.operands.isEmpty
  let (name, rest) ← reading.next
  return (reading, name, rest)

end Level

def top : Level :=
  ⟨[.config], ["index", "files", "chunks", "feedback", "search", "forget", "stats", "clear"]⟩

def feedback : Level := ⟨[.config], ["add", "list"]⟩

def indexOf? (reading : Reading) : Option Command := do
  let path ← match reading.operands with
    | [] => some none
    | [""] => none
    | [path] => some (some path)
    | _ => none
  return .index path (reading.all .extension) (← reading.once? .flat).isSome

def chunksOf? (reading : Reading) : Option Command :=
  match reading.operands with
  | [number] => (Text.readInteger number.toList).map .chunks
  | _ => none

def searchOf? (reading : Reading) : Option Command :=
  match reading.operands, reading.once? .count with
  | [query], some none => some (.search query none)
  | [query], some (some number) =>
    (Text.readWord number.toList).map fun k => .search query (some (.ofNat k))
  | _, _ => none

def addFeedbackOf? (reading : Reading) : Option Command :=
  match reading.operands, reading.once? .comment with
  | [chunk, kind], some comment => some (.addFeedback chunk kind comment)
  | _, _ => none

def unary? (make : String → Command) (reading : Reading) : Option Command :=
  match reading.operands with
  | [operand] => some (make operand)
  | _ => none

def nullary? (command : Command) (reading : Reading) : Option Command :=
  if reading.operands.isEmpty then some command else none

def leaf? : String → Option (Level × (Reading → Option Command))
  | "index" => some (⟨[.config, .extension, .flat], []⟩, indexOf?)
  | "files" => some (⟨[.config], []⟩, nullary? .files)
  | "chunks" => some (⟨[.config], []⟩, chunksOf?)
  | "add" => some (⟨[.config, .comment], []⟩, addFeedbackOf?)
  | "list" => some (⟨[.config], []⟩, unary? .listFeedback)
  | "search" => some (⟨[.config, .count], []⟩, searchOf?)
  | "forget" => some (⟨[.config], []⟩, unary? .forget)
  | "stats" => some (⟨[.config], []⟩, nullary? .stats)
  | "clear" => some (⟨[.config], []⟩, nullary? .clear)
  | _ => none

def finish? (above : Option String) (name : String) (words : List String) : Option Invocation := do
  let (level, command?) ← leaf? name
  let reading ← level.read? none words
  let here ← reading.config?
  return ⟨(here.or above).getD "devflow.json", ← command? reading⟩

def invocation? (words : List String) : Option Invocation := do
  let (reading, name, rest) ← top.opening? words
  let above ← reading.config?
  if name = "feedback" then
    let (reading, name, rest) ← feedback.opening? rest
    finish? ((← reading.config?).or above) name rest
  else finish? above name rest

end Arguments
end CodeIndex
