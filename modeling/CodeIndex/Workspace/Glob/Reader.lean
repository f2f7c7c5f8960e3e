import CodeIndex.Workspace.Glob

namespace CodeIndex.Glob

inductive Lexeme where
  | char (c : Char)
  | set (set : ByteSet)
  | star | anyByte | opening | closing | comma
deriving DecidableEq, Repr

structure SetReading where
  read : List Char
  negated : Bool
  started : Bool
  ranges : List (Char × Char)
  pending : Bool
deriving DecidableEq, Repr

def bytesOf (c : Char) : List UInt8 := (String.singleton c).toUTF8.toList

-- Both ends are written out as bytes, so the hyphen stands between the last byte of one and the
-- first of the other.
def byteRanges (range : Char × Char) : List (UInt8 × UInt8) :=
  let low := bytesOf range.1
  let high := bytesOf range.2
  if range.1 = range.2 then low.map fun b => (b, b)
  else low.dropLast.map (fun b => (b, b)) ++ [(low.getLastD 0, high.headD 0)] ++
    high.tail.map fun b => (b, b)

namespace SetReading

def empty : SetReading := ⟨[], false, false, [], false⟩

def extend? (reading : SetReading) (c : Char) : Option SetReading :=
  match reading.ranges with
  | [] => none
  | (low, _) :: rest =>
    if c < low then none
    else some { reading with ranges := (low, c) :: rest, started := true, pending := false }

def push? (reading : SetReading) (c : Char) : Option SetReading :=
  let after := { reading with read := c :: reading.read }
  if reading.read.isEmpty && (c = '!' || c = '^') then some { after with negated := true }
  else if reading.pending then after.extend? c
  else if c = '-' && reading.started then some { after with pending := true }
  else some { after with ranges := (c, c) :: reading.ranges, started := true }

def closes (reading : SetReading) (c : Char) : Bool := c = ']' && reading.started

def toSet (reading : SetReading) : ByteSet :=
  ⟨reading.negated, (if reading.pending then [('-', '-')] else []) ++ reading.ranges
    |>.flatMap byteRanges⟩

end SetReading

def markOf (c : Char) : Lexeme :=
  match c with
  | '*' => .star
  | '?' => .anyByte
  | '{' => .opening
  | '}' => .closing
  | ',' => .comma
  | c => .char c

def plainLexemes? : List Char → Option (List Lexeme)
  | [] => some []
  | ['\\'] => none
  | '\\' :: c :: rest => (plainLexemes? rest).map (.char c :: ·)
  | c :: rest => (plainLexemes? rest).map (markOf c :: ·)

-- A set that never ends is no set, and neither is any after it.
def lexemes? : Option SetReading → List Char → Option (List Lexeme)
  | none, [] => some []
  | none, ['\\'] => none
  | none, '\\' :: c :: rest => (lexemes? none rest).map (.char c :: ·)
  | none, c :: rest =>
    if c = '[' then lexemes? (some .empty) rest
    else (lexemes? none rest).map (markOf c :: ·)
  | some reading, [] => (plainLexemes? reading.read.reverse).map (.char '[' :: ·)
  | some reading, c :: rest =>
    if reading.closes c then (lexemes? none rest).map (.set reading.toSet :: ·)
    else match reading.push? c with
      | none => none
      | some after => lexemes? (some after) rest

structure Reading where
  pieces : List Glob
  choices : List (List Glob × List Glob)
deriving DecidableEq, Repr

namespace Reading

def push (reading : Reading) (glob : Glob) : Reading :=
  { reading with pieces := glob :: reading.pieces }

-- Patterns of directories next to each other are one.
def replaceLast (reading : Reading) (glob : Glob) : Reading :=
  match reading.pieces with
  | [] => reading.push glob
  | last :: rest =>
    if last = dirsAbove || last = dirsBelow then reading
    else { reading with pieces := glob :: rest }

def branch (reading : Reading) : Glob := ofList reading.pieces.reverse

def enter (reading : Reading) : Reading := ⟨[], (reading.pieces, []) :: reading.choices⟩

def withBranch (reading : Reading) (done : List Glob) : List Glob :=
  if reading.pieces.all (· = .empty) then done else done ++ [reading.branch]

def next (reading : Reading) : Reading :=
  match reading.choices with
  | [] => reading.push (literal ',')
  | (before, done) :: rest => ⟨[], (before, reading.withBranch done) :: rest⟩

def close? (reading : Reading) : Option Reading :=
  match reading.choices with
  | [] => none
  | (before, done) :: rest => some ⟨oneOf (reading.withBranch done) :: before, rest⟩

def pushLexeme? (reading : Reading) : Lexeme → Option Reading
  | .char c => some (reading.push (literal c))
  | .set set => some (reading.push (.byte set))
  | .star => some (reading.push .run)
  | .anyByte => some (reading.push Glob.anyByte)
  | .opening => some reading.enter
  | .closing => reading.close?
  | .comma => some reading.next

def starsSlash (reading : Reading) (afterSlash : Bool) : Reading :=
  if reading.pieces.isEmpty then reading.push dirsAbove
  else if afterSlash then reading.replaceLast dirsBetween
  else ((reading.push .run).push .run).push slash

def stars (reading : Reading) (afterSlash whole final : Bool) : Reading :=
  if reading.pieces.isEmpty && whole then reading.push dirsAbove
  else if !reading.pieces.isEmpty && afterSlash && final then reading.replaceLast dirsBelow
  else (reading.push .run).push .run

def endsBefore (reading : Reading) (rest : List Lexeme) : Bool :=
  match rest with
  | [] => true
  | .comma :: _ | .closing :: _ => !reading.choices.isEmpty
  | _ => false

def read? (reading : Reading) (afterSlash : Bool) : List Lexeme → Option Reading
  | [] => some reading
  | .star :: .star :: .char '/' :: rest => read? (reading.starsSlash afterSlash) true rest
  | .star :: .star :: rest =>
    read? (reading.stars afterSlash rest.isEmpty (reading.endsBefore rest)) false rest
  | lexeme :: rest =>
    (reading.pushLexeme? lexeme).bind fun after => read? after (lexeme = .char '/') rest

def finish? (reading : Reading) : Option Glob :=
  if !reading.choices.isEmpty then none
  else if reading.pieces = [dirsAbove] then some .all
  else some reading.branch

end Reading

-- `*` is a run, `?` a byte, `[a-z]` a set and `[!a-z]` its complement, `{a,b}` a choice, `**`
-- between slashes any directories, and a backslash takes the next character as it is.
def ofText? (text : List Char) : Option Glob := do
  let lexemes ← lexemes? none text
  let reading ← Reading.read? ⟨[], []⟩ false lexemes
  reading.finish?

end CodeIndex.Glob
