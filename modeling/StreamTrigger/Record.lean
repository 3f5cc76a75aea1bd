import StreamTrigger.Partition

namespace StreamTrigger

abbrev Bytes := List UInt8

structure Header where
  key : String
  value : Option Bytes
deriving DecidableEq, Repr

structure Headers where
  entries : List Header := []
  readOnly : Bool := false
deriving DecidableEq, Repr

inductive HeaderError where
  | readOnly
deriving DecidableEq, Repr

namespace HeaderError

def message : HeaderError → String
  | readOnly => "headers are read-only for records consumed from the broker"

end HeaderError

namespace Headers

def add (h : Headers) (key : String) (value : Option Bytes) : Except HeaderError Headers :=
  if h.readOnly then .error .readOnly else .ok { h with entries := h.entries ++ [⟨key, value⟩] }

def remove (h : Headers) (key : String) : Except HeaderError (Headers × Nat) :=
  if h.readOnly then .error .readOnly
  else
    let kept := h.entries.filter (fun e => e.key ≠ key)
    .ok ({ h with entries := kept }, h.entries.length - kept.length)

def first? (h : Headers) (key : String) : Option Header := h.entries.find? (fun e => e.key = key)

def last? (h : Headers) (key : String) : Option Header := h.entries.reverse.find? (fun e => e.key = key)

def size (h : Headers) : Nat := h.entries.length

end Headers

/-- The timestamp counts nanoseconds from the start of 1970. -/
structure Record where
  partition : Partition
  offset : Int
  timestamp : Int := 0
  key : Option Bytes := none
  value : Option Bytes := none
  headers : Headers := {}
deriving DecidableEq, Repr

abbrev Batch := List Record

namespace Record

def consumed (partition : Partition) (offset timestamp : Int) (key value : Option Bytes)
    (headers : List Header) : Record :=
  ⟨partition, offset, timestamp, key, value, ⟨headers, true⟩⟩

def unsent (topic : String) (timestamp : Int) (value : Option Bytes) : Record :=
  ⟨⟨topic, -1⟩, -1, timestamp, none, value, {}⟩

def size (r : Record) : Nat := (r.value.map List.length).getD 0

/-- The bytes that one record takes in a batch, its key, value and headers apart. -/
def footprint : Nat := 136

end Record

end StreamTrigger
