import StreamTrigger.Fault
import StreamTrigger.Record
import StreamTrigger.Table

namespace StreamTrigger

structure Group where
  partition : Partition
  records : List Record
deriving DecidableEq, Repr

namespace Batch

def place (r : Record) : List Group → List Group
  | [] => [⟨r.partition, [r]⟩]
  | g :: gs => if g.partition = r.partition then { g with records := g.records ++ [r] } :: gs else g :: place r gs

/-- Groups stand in the order in which their partitions first appear, records in the order of arrival. -/
def groups (b : Batch) : List Group := b.foldl (fun gs r => place r gs) []

def highest (b : Batch) : Table Partition Int :=
  b.foldl (fun t r => t.insert r.partition (((t.get? r.partition).map (max r.offset)).getD r.offset)) Table.empty

/-- One behind the highest offset of each partition, in the order of partitions. -/
def nextPositions (b : Batch) : Except Fault (List Position) :=
  ((highest b).entries.mergeSort (fun x y => x.1.le y.1)).mapM
    (fun e => (Word.add e.2 1).map (fun offset => ⟨e.1, offset⟩))

end Batch

end StreamTrigger
