namespace CodeIndex.Text

def digitChar (d : Nat) : Char := Char.ofNat (if d < 10 then 48 + d else 87 + d)

def decimal (n : Nat) : List Char :=
  if n < 10 then [digitChar n] else decimal (n / 10) ++ [digitChar (n % 10)]
termination_by n

def decimalText (n : Nat) : String := .ofList (decimal n)

def isDigit (c : Char) : Bool := '0' ≤ c && c ≤ '9'

def digitValue (c : Char) : Nat := c.toNat - 48

def digitsValue (cs : List Char) : Nat := cs.foldl (fun n c => 10 * n + digitValue c) 0

def readDigits (cs : List Char) : Option Nat :=
  if cs.isEmpty || !cs.all isDigit then none else some (digitsValue cs)

def readWord (cs : List Char) : Option Nat :=
  let digits := match cs with
    | '+' :: rest => rest
    | _ => cs
  (readDigits digits).filter (· < UInt64.size)

def readInteger (cs : List Char) : Option Int :=
  let value : Option Int := match cs with
    | '-' :: rest => (readDigits rest).map fun n => -(n : Int)
    | '+' :: rest => (readDigits rest).map fun n => (n : Int)
    | _ => (readDigits cs).map fun n => (n : Int)
  value.filter fun n => -9223372036854775808 ≤ n && n < 9223372036854775808

def hex : (width : Nat) → (n : Nat) → List Char
  | 0, _ => []
  | width + 1, n => hex width (n / 16) ++ [digitChar (n % 16)]

def hexValue? (c : Char) : Option Nat :=
  if '0' ≤ c && c ≤ '9' then some (c.toNat - 48)
  else if 'a' ≤ c && c ≤ 'f' then some (c.toNat - 87)
  else if 'A' ≤ c && c ≤ 'F' then some (c.toNat - 55)
  else none

def readHex : List Char → Option Nat :=
  go 0
where
  go (n : Nat) : List Char → Option Nat
    | [] => some n
    | c :: cs => (hexValue? c).bind fun d => go (16 * n + d) cs

def readBytes : List Char → Option (List UInt8)
  | [] => some []
  | high :: low :: rest => do
    let byte ← readHex [high, low]
    return .ofNat byte :: (← readBytes rest)
  | [_] => none

end CodeIndex.Text
