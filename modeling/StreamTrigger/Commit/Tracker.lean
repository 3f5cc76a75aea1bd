import StreamTrigger.Telemetry.Notice

namespace StreamTrigger

/-- The last position claimed in each partition. A claim is one atomic step; it only ever moves a partition forward. -/
structure Tracker where
  last : Table Partition Int := Table.empty

inductive Claim where
  | advanced
  | regressed (last : Int)
deriving DecidableEq, Repr

structure Advance where
  tracker : Tracker
  claimed : List Position
  notices : List WorkTask

namespace Tracker

def committed? (t : Tracker) (p : Partition) : Option Int := t.last.get? p

/-- A partition that was never claimed starts below every position, and counts as seen from its first claim. -/
def claim (t : Tracker) (p : Position) : Tracker × Claim :=
  let last := (t.committed? p.partition).getD Word.least
  if last < p.offset then (⟨t.last.insert p.partition p.offset⟩, .advanced)
  else (⟨t.last.insert p.partition last⟩, .regressed last)

def advance (t : Tracker) : List Position → Advance
  | [] => ⟨t, [], []⟩
  | p :: ps =>
      match t.claim p with
      | (t, .advanced) => let a := t.advance ps; ⟨a.tracker, p :: a.claimed, .advanced p :: a.notices⟩
      | (t, .regressed last) => let a := t.advance ps; ⟨a.tracker, a.claimed, .regressed p last :: a.notices⟩

def snapshot (t : Tracker) : List Position :=
  (t.last.entries.map (fun e => (⟨e.1, e.2⟩ : Position))).mergeSort Position.le

end Tracker

end StreamTrigger
