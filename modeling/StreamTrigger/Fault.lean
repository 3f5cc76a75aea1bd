namespace StreamTrigger

/-- No caller handles these: each ends the task it arises in. Offsets and lags are 64-bit words, and a result that
does not fit is a fault, never a wrapped number. -/
inductive Fault where
  | addOverflow
  | subtractOverflow
  | noCapacity
  | tooManyPermits
  | allocationTooLarge
  | outOfBounds (size index : Nat)
  | zeroInName (bytes : List UInt8)
  | broker (text : String)
deriving DecidableEq, Repr

namespace Fault

def message : Fault → String
  | addOverflow => "attempt to add with overflow"
  | subtractOverflow => "attempt to subtract with overflow"
  | noCapacity => "mpsc bounded channel requires buffer > 0"
  | tooManyPermits => "a semaphore may not have more than MAX_PERMITS permits (2305843009213693951)"
  | allocationTooLarge => "capacity overflow"
  | outOfBounds size index =>
      "index out of bounds: the len is " ++ toString size ++ " but the index is " ++ toString index
  | zeroInName bytes =>
      "thread name may not contain interior null bytes: NulError(" ++ toString (bytes.idxOf 0) ++ ", [" ++
        String.intercalate ", " (bytes.map (fun b => toString b.toNat)) ++ "])"
  | broker text => text

def ofThreadName? (name : String) : Option Fault :=
  let bytes := name.toUTF8.toList
  if bytes.contains 0 then some (.zeroInName bytes) else none

end Fault

namespace Word

def least : Int := -9223372036854775808
def greatest : Int := 9223372036854775807

def Fits (x : Int) : Prop := least ≤ x ∧ x ≤ greatest

instance (x : Int) : Decidable (Fits x) := inferInstanceAs (Decidable (_ ∧ _))

def add (x y : Int) : Except Fault Int := if Fits (x + y) then .ok (x + y) else .error .addOverflow

def sub (x y : Int) : Except Fault Int := if Fits (x - y) then .ok (x - y) else .error .subtractOverflow

def clamp (x : Int) : Int := max least (min x greatest)

def addClamped (x y : Int) : Int := clamp (x + y)

def mulClamped (x y : Int) : Int := clamp (x * y)

end Word

end StreamTrigger
