namespace CodeIndex.Numeric

def widen (x : Float32) : Float :=
  let bits := x.toBits
  let sign := (bits >>> 31).toUInt64 <<< 63
  let exponent := ((bits >>> 23) &&& 0xff).toUInt64
  let fraction := (bits &&& 0x7fffff).toUInt64
  if exponent = 0xff then
    if fraction = 0 then .ofBits (sign ||| 0x7ff0000000000000) else .ofBits 0x7ff8000000000000
  else if exponent = 0 then
    let magnitude := fraction.toFloat * .ofBits 0x36a0000000000000
    .ofBits (sign ||| magnitude.toBits)
  else .ofBits (sign ||| ((exponent + 896) <<< 52) ||| (fraction <<< 29))

-- The quotient by `2 ^ shift`, to the nearest and on a tie to the even one.
def roundShift (n shift : Nat) : Nat :=
  let divisor := Nat.pow 2 shift
  let quotient := n / divisor
  let twice := 2 * (n % divisor)
  if divisor < twice ∨ (twice = divisor ∧ quotient % 2 = 1) then quotient + 1 else quotient

def hiddenBit : Nat := 0x10000000000000

def narrow (x : Float) : Float32 :=
  let bits := x.toBits.toNat
  let sign := (bits / 0x8000000000000000) * 0x80000000
  let exponent := (bits / hiddenBit) % 2048
  let fraction := bits % hiddenBit
  if exponent = 0x7ff then
    if fraction = 0 then .ofBits (.ofNat (sign + 0x7f800000)) else .ofBits 0x7fc00000
  else if exponent = 0 then .ofBits (.ofNat sign)
  else
    let significand := hiddenBit + fraction
    let level := exponent - 897
    let shift := if 897 ≤ exponent then 29 else 29 + (897 - exponent)
    let magnitude := level * 0x800000 + roundShift significand shift
    .ofBits (.ofNat (sign + min magnitude 0x7f800000))

end CodeIndex.Numeric
