import StreamTrigger.Record

namespace StreamTrigger

inductive Invocation where
  | single (r : Record)
  | batch (rs : Batch)
deriving DecidableEq, Repr

def Invocation.records : Invocation → Batch
  | single r => [r]
  | batch rs => rs

/-- What a callback that panicked left behind: a fixed text, a text made for the occasion, or neither. -/
inductive Payload where
  | fixed (text : String)
  | made (text : String)
  | other
deriving DecidableEq, Repr

def Payload.text : Payload → String
  | fixed text => text
  | made text => text
  | other => "unknown panic payload"

inductive Outcome where
  | ok
  | failed (contexts : List String) (cause : String)
  | panicked (payload : Payload)
deriving DecidableEq, Repr

namespace Outcome

/-- A panic counts as a failure of the invocation and is never passed on. -/
def failure? : Outcome → Option String
  | ok => none
  | failed contexts cause => some (String.intercalate ": " (contexts ++ [cause]))
  | panicked payload => some ("callback panicked: " ++ payload.text)

end Outcome

end StreamTrigger
