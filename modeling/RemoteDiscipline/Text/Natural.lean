/-!
Natural numbers written in decimal, with room for 64 bits.
-/

namespace RemoteDiscipline.Text

inductive NumberFault
  | empty
  | invalidDigit
  | tooLarge
  deriving DecidableEq

def NumberFault.text : NumberFault → String
  | .empty => "cannot parse integer from empty string"
  | .invalidDigit => "invalid digit found in string"
  | .tooLarge => "number too large to fit in target type"

def isDigit (c : Char) : Bool := '0' ≤ c && c ≤ '9'

/-- Reads digits after the number `n`. The first character that is no digit, or that makes the
number too large, ends the reading. -/
def readDigits (n : Nat) : List Char → Except NumberFault Nat
  | [] => .ok n
  | c :: rest =>
    if !isDigit c then .error .invalidDigit
    else
      let n := n * 10 + (c.toNat - '0'.toNat)
      if n < 0x1_0000_0000_0000_0000 then readDigits n rest else .error .tooLarge

/-- Reads a number. A plus sign may stand in front of its digits. -/
def readNatural : List Char → Except NumberFault Nat
  | [] => .error .empty
  | ['+'] => .error .invalidDigit
  | '+' :: rest => readDigits 0 rest
  | cs => readDigits 0 cs

end RemoteDiscipline.Text
