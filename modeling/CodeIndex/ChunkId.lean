import CodeIndex.Text.Digits

namespace CodeIndex

structure ChunkId where
  value : BitVec 128
deriving DecidableEq, Repr

namespace ChunkId

def hyphenate (digits : List Char) : List Char :=
  digits.take 8 ++ '-' :: (digits.drop 8).take 4 ++ '-' :: (digits.drop 12).take 4 ++
    '-' :: (digits.drop 16).take 4 ++ '-' :: digits.drop 20

def digits (id : ChunkId) : List Char := Text.hex 32 id.value.toNat

def text (id : ChunkId) : String := .ofList (hyphenate id.digits)

def ofDigits? (cs : List Char) : Option ChunkId :=
  if cs.length = 32 then (Text.readHex cs).map fun n => ⟨.ofNat 128 n⟩ else none

def ofHyphenated? (cs : List Char) : Option ChunkId :=
  let digits := cs.filter (· ≠ '-')
  if cs.length = 36 ∧ hyphenate digits = cs then ofDigits? digits else none

def ofText? (text : String) : Option ChunkId :=
  let cs := text.toList
  if cs.length = 32 then ofDigits? cs
  else if cs.length = 36 then ofHyphenated? cs
  else if cs.head? = some '\x7b' ∧ cs.getLast? = some '\x7d' then ofHyphenated? cs.tail.dropLast
  else if (cs.take 9).map Char.toLower = "urn:uuid:".toList then ofHyphenated? (cs.drop 9)
  else none

-- The `n`-th of a run of identifiers, which stay apart below `2 ^ 48`.
def serial (n : Nat) : ChunkId := ⟨.ofNat 128 (0x5e1c0de5a7b14c3d8f00000000000000 + n)⟩

end ChunkId
end CodeIndex
