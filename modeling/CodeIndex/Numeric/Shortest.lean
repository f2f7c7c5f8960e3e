import CodeIndex.Numeric.Binary

namespace CodeIndex.Numeric

structure Decimal where
  digits : Nat
  exponent : Int
deriving DecidableEq, Repr

-- `edge` marks a significand whose lower neighbour is only half as far away as the upper one.
structure Magnitude where
  significand : Nat
  exponent : Int
  edge : Bool
deriving DecidableEq, Repr

def magnitude? (x : Float) : Option Magnitude :=
  let bits : Nat := x.toBits.toNat
  let exponent : Nat := (bits / hiddenBit) % 2048
  let fraction : Nat := bits % hiddenBit
  if exponent = 0x7ff then none
  else if exponent = 0 then some ⟨fraction, -1074, false⟩
  else some ⟨hiddenBit + fraction, (exponent : Int) - 1075, fraction = 0 && 1 < exponent⟩

def powerOf (base : Nat) (exponent : Int) : Nat := Nat.pow base exponent.toNat

namespace Magnitude

-- A decimal counts if it lies where numbers are rounded to the magnitude. All is in quarters of
-- the last binary place.
def onGrid? (x : Magnitude) (place : Int) : Option Decimal :=
  let step := powerOf 10 place * powerOf 2 (2 - x.exponent)
  let quarter := powerOf 2 (x.exponent - 2) * powerOf 10 (-place)
  let middle := 4 * x.significand * quarter
  let low := (4 * x.significand - if x.edge then 1 else 2) * quarter
  let high := (4 * x.significand + 2) * quarter
  let within (n : Nat) : Bool :=
    if x.significand % 2 = 0 then low ≤ n * step && n * step ≤ high
    else low < n * step && n * step < high
  let below := middle / step
  let ordered := if 2 * (middle - below * step) ≤ step then [below, below + 1]
    else [below + 1, below]
  (ordered.find? fun n => n ≠ 0 && within n).map fun n => ⟨n, place⟩

def search (x : Magnitude) : (steps : Nat) → (place : Int) → Decimal
  | 0, place => ⟨0, place⟩
  | steps + 1, place => (x.onGrid? place).getD (search x steps (place - 1))

-- Starts on a grid that is coarser than the magnitude; no float needs more than twenty steps.
def shortest (x : Magnitude) : Decimal :=
  if x.significand = 0 then ⟨0, 0⟩
  else
    let bits : Int := x.exponent + x.significand.log2 + 1
    search x 24 (bits * 30103 / 100000 + 2)

end Magnitude
end CodeIndex.Numeric
