import StreamTrigger.Instant
import StreamTrigger.Mode

namespace StreamTrigger

/-- Durations are in nanoseconds. -/
structure ListenerSettings where
  topic : String
  maxBatch : Nat
  interval : Nat
  capacity : Nat
  retry : Nat
  dispatch : DispatchMode
  commit : CommitMode
  slice : Nat
deriving DecidableEq, Repr

namespace ListenerSettings

def defaultSlice : Nat := 100 * Span.millisecond

def forTopic (topic : String) : ListenerSettings where
  topic := topic
  maxBatch := 64
  interval := Span.second
  capacity := 10
  retry := 50 * Span.millisecond
  dispatch := .default
  commit := .default
  slice := defaultSlice

end ListenerSettings

end StreamTrigger
