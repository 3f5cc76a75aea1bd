namespace StreamTrigger.Text

/-- No length is given where the bytes end inside a sequence that could still go on. -/
structure Utf8Error where
  validUpTo : Nat
  length : Option Nat
deriving DecidableEq, Repr

namespace Utf8Error

def message (e : Utf8Error) : String :=
  match e.length with
  | some n => "invalid utf-8 sequence of " ++ toString n ++ " bytes from index " ++ toString e.validUpTo
  | none => "incomplete utf-8 byte sequence from index " ++ toString e.validUpTo

end Utf8Error

structure Begun where
  start : Nat
  bits : Nat
  seen : Nat
  rest : List (UInt8 × UInt8)
deriving Repr

/-- The bits of a first byte and the ranges of the bytes behind it: no character has two encodings, and
surrogates have none. -/
def lead? (b : UInt8) : Option (Nat × List (UInt8 × UInt8)) :=
  let follow := ((0x80, 0xBF) : UInt8 × UInt8)
  if b < 0x80 then some (b.toNat, [])
  else if 0xC2 ≤ b && b ≤ 0xDF then some (b.toNat - 0xC0, [follow])
  else if b = 0xE0 then some (0, [(0xA0, 0xBF), follow])
  else if b = 0xED then some (0xD, [(0x80, 0x9F), follow])
  else if 0xE1 ≤ b && b ≤ 0xEF then some (b.toNat - 0xE0, [follow, follow])
  else if b = 0xF0 then some (0, [(0x90, 0xBF), follow, follow])
  else if b = 0xF4 then some (4, [(0x80, 0x8F), follow, follow])
  else if 0xF1 ≤ b && b ≤ 0xF3 then some (b.toNat - 0xF0, [follow, follow, follow])
  else none

def readFrom (index : Nat) (begun : Option Begun) : List UInt8 → Except Utf8Error (List Char)
  | [] =>
      match begun with
      | none => .ok []
      | some p => .error ⟨p.start, none⟩
  | b :: bs =>
      match begun with
      | none =>
          match lead? b with
          | none => .error ⟨index, some 1⟩
          | some (bits, []) => (readFrom (index + 1) none bs).map (Char.ofNat bits :: ·)
          | some (bits, rest) => readFrom (index + 1) (some ⟨index, bits, 1, rest⟩) bs
      | some p =>
          match p.rest with
          | [] => .error ⟨p.start, some p.seen⟩
          | (least, greatest) :: more =>
              if least ≤ b && b ≤ greatest then
                let bits := p.bits * 64 + (b.toNat - 0x80)
                match more with
                | [] => (readFrom (index + 1) none bs).map (Char.ofNat bits :: ·)
                | _ :: _ => readFrom (index + 1) (some ⟨p.start, bits, p.seen + 1, more⟩) bs
              else .error ⟨p.start, some p.seen⟩

def readUtf8 (bs : List UInt8) : Except Utf8Error String := (readFrom 0 none bs).map String.ofList

end StreamTrigger.Text
