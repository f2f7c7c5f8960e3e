import CodeIndex.Embedding
import CodeIndex.Json.Decode
import CodeIndex.Numeric.Binary
import CodeIndex.Numeric.Shortest

namespace CodeIndex

namespace JsonNumber

def toFloat (number : JsonNumber) : Float :=
  let exponent := number.exponent.getD 0 - number.places
  let magnitude := Float.ofScientific number.mantissa (exponent < 0) exponent.natAbs
  if number.negative then -magnitude else magnitude

-- There is an exponent unless the point is within sixteen places to the right of the first digit
-- or five to its left.
def ofDecimal (negative : Bool) (decimal : Numeric.Decimal) : JsonNumber :=
  let length := (Text.decimal decimal.digits).length
  let point := decimal.exponent + length
  if 0 ≤ decimal.exponent && point ≤ 16 then
    ⟨negative, decimal.digits * Nat.pow 10 (decimal.exponent.toNat + 1), 1, none⟩
  else if -5 < point && point ≤ 16 then
    ⟨negative, decimal.digits, (-decimal.exponent).toNat, none⟩
  else ⟨negative, decimal.digits, length - 1, some (point - 1)⟩

def ofFloat? (x : Float) : Option JsonNumber :=
  (Numeric.magnitude? x).map fun magnitude =>
    ofDecimal (x.toBits ≥ 0x8000000000000000) magnitude.shortest

end JsonNumber

def Json.float (x : Float) : Json := (JsonNumber.ofFloat? x).elim .null .num

namespace Embedding

-- Numbers are rounded twice, to 64 and then to 32 bits.
def ofJson? (json : Json) : Option Embedding :=
  Json.asList? (fun
    | .num number => some (Numeric.narrow number.toFloat)
    | _ => none) json

def bytes (vector : Embedding) : List UInt8 :=
  List.flatMap (fun (x : Float32) =>
    let bits := x.toBits
    [bits.toUInt8, (bits >>> 8).toUInt8, (bits >>> 16).toUInt8, (bits >>> 24).toUInt8]) vector

end Embedding
end CodeIndex
