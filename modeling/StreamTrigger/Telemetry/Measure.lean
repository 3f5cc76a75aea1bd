import StreamTrigger.Table
import StreamTrigger.Text.Nearest

namespace StreamTrigger

structure Series where
  name : String
  labels : List (String × String) := []
deriving DecidableEq, Repr

def Series.text (s : Series) : String :=
  match s.labels with
  | [] => s.name
  | ls =>
      let ls := ls.mergeSort (fun a b => a.1 ≤ b.1)
      s.name ++ "\x7b" ++ String.intercalate "," (ls.map (fun l => l.1 ++ "=" ++ l.2)) ++ "\x7d"

/-- Counters add up, gauges hold their last value, sizes are listed, and of durations only the number is kept. -/
inductive Measure where
  | count (s : Series) (n : Nat)
  | gauge (s : Series) (value : Int)
  | size (s : Series) (n : Nat)
  | duration (s : Series)
deriving DecidableEq, Repr

inductive Reading where
  | total (n : Nat)
  | level (value : Int)
  | sizes (ns : List Nat)
  | durations (n : Nat)
deriving DecidableEq, Repr

abbrev Readings := Table Series Reading

namespace Readings

def record (rs : Readings) : Measure → Readings
  | .count s n =>
      match rs.get? s with
      | some (.total m) => rs.insert s (.total (m + n))
      | _ => rs.insert s (.total n)
  | .gauge s value => rs.insert s (.level (Text.nearest value))
  | .size s n =>
      match rs.get? s with
      | some (.sizes ns) => rs.insert s (.sizes (ns ++ [n]))
      | _ => rs.insert s (.sizes [n])
  | .duration s =>
      match rs.get? s with
      | some (.durations n) => rs.insert s (.durations (n + 1))
      | _ => rs.insert s (.durations 1)

def ofMeasures (ms : List Measure) : Readings := ms.foldl record Table.empty

end Readings

end StreamTrigger
