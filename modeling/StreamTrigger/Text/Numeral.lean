namespace StreamTrigger.Text

inductive NumeralError where
  | empty
  | invalidDigit
  | tooLarge
  | tooSmall
deriving DecidableEq, Repr

namespace NumeralError

def message : NumeralError → String
  | empty => "cannot parse integer from empty string"
  | invalidDigit => "invalid digit found in string"
  | tooLarge => "number too large to fit in target type"
  | tooSmall => "number too small to fit in target type"

end NumeralError

def digits (limit : Nat) (excess : NumeralError) : List Char → Nat → Except NumeralError Nat
  | [], n => .ok n
  | c :: cs, n =>
      if c.isDigit then
        let n := n * 10 + (c.toNat - '0'.toNat)
        if n ≤ limit then digits limit excess cs n else .error excess
      else .error .invalidDigit

/-- A minus sign is read only where negative numbers are in range. -/
def readNumeral (least greatest : Int) (s : String) : Except NumeralError Int :=
  match s.toList with
  | [] => .error .empty
  | ['+'] => .error .invalidDigit
  | ['-'] => .error .invalidDigit
  | '+' :: cs => (digits greatest.toNat .tooLarge cs 0).map (fun n => (n : Int))
  | '-' :: cs =>
      if least < 0 then (digits (-least).toNat .tooSmall cs 0).map (fun n => -(n : Int))
      else .error .invalidDigit
  | cs => (digits greatest.toNat .tooLarge cs 0).map (fun n => (n : Int))

def readBool? : String → Option Bool
  | "true" => some true
  | "false" => some false
  | _ => none

end StreamTrigger.Text
