import StreamTrigger.Dispatch.Accumulator
import StreamTrigger.Listener.Settings

namespace StreamTrigger

inductive StartError where
  | alreadyRunning (topic : String)
  | wasStopped (topic : String)
  | faulted (f : Fault)
deriving DecidableEq, Repr

def StartError.message : StartError → String
  | alreadyRunning topic => "listener for topic " ++ topic ++ " is already running"
  | wasStopped topic => "listener for topic " ++ topic ++ " was stopped"
  | faulted f => f.message

/-- Neither request is ever taken back. -/
structure Listener where
  settings : ListenerSettings
  stopRequested : Bool := false
  abortRequested : Bool := false
  running : Bool := false
deriving DecidableEq, Repr

/-- How a wait for the end came out: the worker ended in time, or it did not and then observed the abort, or not. -/
inductive Wait where
  | drained (failed : Option Fault)
  | timedOut (timeoutMs : Nat) (observed : Bool)
deriving DecidableEq, Repr

namespace Listener

def threadName (l : Listener) : String := "ingest-" ++ l.settings.topic

def start (l : Listener) : Except StartError (Listener × BatchQueue × ListenTask) :=
  if l.running then .error (.alreadyRunning l.settings.topic)
  else if l.stopRequested then .error (.wasStopped l.settings.topic)
  else
    match BatchQueue.make l.settings.capacity, Accumulator.make l.settings.maxBatch,
      Fault.ofThreadName? l.threadName with
    | .error f, _, _ | _, .error f, _ | _, _, some f => .error (.faulted f)
    | .ok q, .ok _, none =>
        .ok ({ l with running := true }, q, .started l.settings.topic l.settings.dispatch l.settings.commit)

def isRunning (l : Listener) : Bool := l.running && !l.stopRequested

def requestStop (l : Listener) : Listener × List ListenTask :=
  ({ l with stopRequested := true }, if l.stopRequested then [] else [.stopRequested l.settings.topic])

/-- A listener that is not running has nothing to wait for. One that is stops running as the wait begins. -/
def awaitStopped (l : Listener) : Option Listener := if l.running then some { l with running := false } else none

def waited (l : Listener) : Wait → Listener × Bool × List ListenTask
  | .drained failed => (l, true, (failed.map ListenTask.workerFailed).toList ++ [.stopped l.settings.topic])
  | .timedOut ms observed =>
      ({ l with abortRequested := true }, false,
        .timedOut l.settings.topic ms :: if observed then [] else [.abortIgnored])

end Listener

end StreamTrigger
