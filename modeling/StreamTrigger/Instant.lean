namespace StreamTrigger

namespace Span

def second : Nat := 1000000000

def millisecond : Nat := 1000000

end Span

/-- Seconds from the start of 1970, and nanoseconds in the second. A leap second prolongs the last second of a minute:
its nanoseconds go on from one thousand million to two thousand million. -/
structure Instant where
  second : Int
  nano : Nat := 0
deriving DecidableEq, Repr

namespace Instant

def secondsPerDay : Nat := 86400

def secondOfDay (t : Instant) : Nat := (t.second.fmod secondsPerDay).toNat

def isLeap (t : Instant) : Bool := Span.second ≤ t.nano

def nanos (t : Instant) : Int := t.second * Span.second + t.nano

def ofNanos (n : Int) : Instant := ⟨n.fdiv Span.second, (n.fmod Span.second).toNat⟩

/-- How many leap seconds a span takes up beyond its own seconds. The one at its beginning counts once it is over,
and only within the day. -/
def leapsSince (now before : Instant) : Int :=
  if before.secondOfDay < now.secondOfDay && before.isLeap then 1
  else if now.secondOfDay < before.secondOfDay && now.isLeap then -1
  else 0

def since (now before : Instant) : Int := now.nanos - before.nanos + now.leapsSince before * Span.second

end Instant

end StreamTrigger
