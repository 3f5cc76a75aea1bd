import StreamTrigger.Partition

namespace StreamTrigger

structure PartitionCache where
  ttl : Nat
  partitions : List Partition := []
  loaded : Option Nat := none
deriving DecidableEq, Repr

namespace PartitionCache

/-- A clock that went back makes nothing older. -/
def get? (c : PartitionCache) (now : Nat) : Option (List Partition) :=
  match c.loaded with
  | none => none
  | some t => if c.partitions.isEmpty || c.ttl < now - t then none else some c.partitions

def store (c : PartitionCache) (ps : List Partition) (now : Nat) : PartitionCache :=
  { c with partitions := ps, loaded := some now }

def invalidate (c : PartitionCache) : PartitionCache := { c with loaded := none }

end PartitionCache

end StreamTrigger
