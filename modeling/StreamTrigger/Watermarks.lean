import StreamTrigger.Fault

namespace StreamTrigger

/-- The oldest retained offset and the offset of the next record to arrive, as far as they are known. -/
structure Watermarks where
  low : Option Int := none
  high : Option Int := none
deriving DecidableEq, Repr

namespace Watermarks

def unset : Watermarks := {}

def ofOffsets (low high : Int) : Watermarks := ⟨some low, some high⟩

def ofRaw (low high : Int) : Watermarks :=
  ⟨if 0 ≤ low then some low else none, if 0 ≤ high then some high else none⟩

def isUnset (w : Watermarks) : Bool := w.low.isNone && w.high.isNone

/-- Retention may have deleted records behind the commit, so the lag never exceeds the retained range.
An unknown offset counts as zero. -/
def lag (w : Watermarks) (committed : Option Int) : Except Fault Int := do
  let low := w.low.getD 0
  let high := w.high.getD 0
  match committed with
  | none => return max (← Word.sub high low) 0
  | some c =>
      let behind ← Word.sub high c
      return max (min behind (← Word.sub high low)) 0

end Watermarks

end StreamTrigger
