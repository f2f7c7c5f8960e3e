namespace CodeIndex.Hash

structure SipState where
  v0 : UInt64
  v1 : UInt64
  v2 : UInt64
  v3 : UInt64

namespace SipState

def initial : SipState :=
  ⟨0x736f6d6570736575, 0x646f72616e646f6d, 0x6c7967656e657261, 0x7465646279746573⟩

def rotate (x : UInt64) (n : UInt64) : UInt64 := (x <<< n) ||| (x >>> (64 - n))

def mix (s : SipState) : SipState :=
  let v0 := s.v0 + s.v1
  let v1 := rotate s.v1 13 ^^^ v0
  let v0 := rotate v0 32
  let v2 := s.v2 + s.v3
  let v3 := rotate s.v3 16 ^^^ v2
  let v0 := v0 + v3
  let v3 := rotate v3 21 ^^^ v0
  let v2 := v2 + v1
  let v1 := rotate v1 17 ^^^ v2
  let v2 := rotate v2 32
  ⟨v0, v1, v2, v3⟩

def absorbWord (s : SipState) (word : UInt64) : SipState :=
  let mixed := mix { s with v3 := s.v3 ^^^ word }
  { mixed with v0 := mixed.v0 ^^^ word }

end SipState

def littleEndian (bytes : List UInt8) : UInt64 :=
  bytes.foldr (fun byte word => (word <<< 8) ||| byte.toUInt64) 0

def wordBytes (word : UInt64) : List UInt8 :=
  (List.range 8).map fun i => (word >>> (8 * i.toUInt64)).toUInt8

-- SipHash with zero keys: one round for each word of eight bytes and three at the end.
structure Sip where
  state : SipState
  waiting : List UInt8
  length : Nat

namespace Sip

def empty : Sip := ⟨.initial, [], 0⟩

def absorb (state : SipState) : List UInt8 → SipState × List UInt8
  | b0 :: b1 :: b2 :: b3 :: b4 :: b5 :: b6 :: b7 :: rest =>
    absorb (state.absorbWord (littleEndian [b0, b1, b2, b3, b4, b5, b6, b7])) rest
  | waiting => (state, waiting)

def write (sip : Sip) (bytes : List UInt8) : Sip :=
  let (state, waiting) := absorb sip.state (sip.waiting ++ bytes)
  ⟨state, waiting, sip.length + bytes.length⟩

def finish (sip : Sip) : UInt64 :=
  let last := littleEndian sip.waiting ||| (UInt64.ofNat sip.length <<< 56)
  let s := sip.state.absorbWord last
  let s := { s with v2 := s.v2 ^^^ 0xff }
  let s := s.mix.mix.mix
  s.v0 ^^^ s.v1 ^^^ s.v2 ^^^ s.v3

end Sip
end CodeIndex.Hash
