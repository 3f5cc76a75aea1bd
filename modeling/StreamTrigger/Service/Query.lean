import StreamTrigger.Record
import StreamTrigger.Text.Numeral

namespace StreamTrigger

inductive QueryError where
  | numeral (e : Text.NumeralError)
  | repeated (field : String)
deriving DecidableEq, Repr

def QueryError.message : QueryError → String
  | numeral e => "Failed to deserialize query string: " ++ e.message
  | repeated field => "Failed to deserialize query string: duplicate field `" ++ field ++ "`"

namespace Query

def hexDigit? (b : UInt8) : Option UInt8 :=
  if 0x30 ≤ b && b ≤ 0x39 then some (b - 0x30)
  else if 0x41 ≤ b && b ≤ 0x46 then some (b - 0x37)
  else if 0x61 ≤ b && b ≤ 0x66 then some (b - 0x57)
  else none

/-- A plus sign is a blank, and a percent sign before two digits a byte; any other percent sign stands for
itself. -/
def unescape : Bytes → Bytes
  | 0x25 :: x :: y :: bs =>
      match hexDigit? x, hexDigit? y with
      | some h, some l => (h * 16 + l) :: unescape bs
      | _, _ => 0x25 :: unescape (x :: y :: bs)
  | b :: bs => (if b = 0x2B then 0x20 else b) :: unescape bs
  | [] => []

def splitAt (sep : UInt8) : Bytes → List Bytes
  | [] => [[]]
  | b :: bs =>
      if b = sep then [] :: splitAt sep bs
      else
        match splitAt sep bs with
        | part :: parts => (b :: part) :: parts
        | [] => [[b]]

def pair (field : Bytes) : Bytes × Bytes :=
  let name := field.takeWhile (fun b => b ≠ 0x3D)
  (unescape name, unescape (field.drop (name.length + 1)))

def pairs (query : String) : List (Bytes × Bytes) :=
  ((splitAt 0x26 query.toUTF8.toList).filter (fun f => !f.isEmpty)).map pair

def number (value : Bytes) : Except QueryError Nat :=
  match Text.readNumeral 0 4294967295 (String.ofList (value.map (fun b => Char.ofNat b.toNat))) with
  | .ok n => .ok n.toNat
  | .error e => .error (.numeral e)

def readPairs (field : String) (found : Option Nat) : List (Bytes × Bytes) → Except QueryError (Option Nat)
  | [] => .ok found
  | (name, value) :: rest =>
      if name = field.toUTF8.toList then
        if found.isSome then .error (.repeated field)
        else do
          let n ← number value
          readPairs field (some n) rest
      else readPairs field found rest

def read (field query : String) : Except QueryError (Option Nat) := readPairs field none (pairs query)

end Query

end StreamTrigger
