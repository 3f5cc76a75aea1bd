namespace StreamTrigger

structure Partition where
  topic : String
  number : Int
deriving DecidableEq, Repr

/-- The offset to resume from: every record below it has been processed. -/
structure Position where
  partition : Partition
  offset : Int
deriving DecidableEq, Repr

namespace Partition

def text (p : Partition) : String := p.topic ++ ":" ++ toString p.number

/-- Topics come first, in the order of their code points, which is also that of their encoded bytes. -/
def cmp (p q : Partition) : Ordering := (compare p.topic q.topic).then (compare p.number q.number)

def le (p q : Partition) : Bool := (p.cmp q).isLE

end Partition

namespace Position

def le (a b : Position) : Bool := a.partition.le b.partition

end Position

end StreamTrigger
