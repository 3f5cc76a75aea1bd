import StreamTrigger.Broker

namespace StreamTrigger

abbrev WatermarkRows := Option (List (Partition × Option Watermarks))

inductive TopicAnswer where
  | listed (ps : List Int)
  | refused
  | broken
deriving DecidableEq, Repr

inductive StoreRefusal where
  | never
  | always
  | partitions (ps : List Partition)
deriving DecidableEq, Repr

structure ScriptAnswers where
  partitions : TopicAnswer := .listed []
  committed : Option (List (Partition × Option Int)) := some []
  assignment : Option (List Partition) := some []
  cached : WatermarkRows := some []
  queried : WatermarkRows := some []
  refusesPause : Bool := false
  refusesResume : Bool := false
  refusesCommit : Bool := false
  refusesStore : StoreRefusal := .never
deriving Repr

inductive ScriptChange where
  | partitions (a : TopicAnswer)
  | committed (rows : Option (List (Partition × Option Int)))
  | assignment (ps : Option (List Partition))
  | cached (rows : WatermarkRows)
  | queried (rows : WatermarkRows)
  | pause (refused : Bool)
  | resume (refused : Bool)
  | commit (refused : Bool)
  | store (r : StoreRefusal)
deriving Repr

def ScriptAnswers.change (a : ScriptAnswers) : ScriptChange → ScriptAnswers
  | .partitions x => { a with partitions := x }
  | .committed x => { a with committed := x }
  | .assignment x => { a with assignment := x }
  | .cached x => { a with cached := x }
  | .queried x => { a with queried := x }
  | .pause x => { a with refusesPause := x }
  | .resume x => { a with refusesResume := x }
  | .commit x => { a with refusesCommit := x }
  | .store x => { a with refusesStore := x }

inductive PollResult where
  | record (r : Record)
  | endOfPartition (p : Partition)
  | nothing
  | failure
deriving DecidableEq, Repr

inductive PollStep where
  | result (r : PollResult)
  | sleep (span : Nat)
  | change (cs : List ScriptChange)
  | untilStarted (n : Nat)
  | release (n : Nat)
  | untilStopRequested
  | untilAwaited
deriving Repr

inductive BrokerCall where
  | partitions (topic : String) (timeout : Nat)
  | committed (ps : List Partition) (timeout : Nat)
  | assignment
  | cached (p : Partition)
  | queried (p : Partition) (timeout : Nat)
  | pause (ps : List Partition)
  | resume (ps : List Partition)
  | poll (r : PollResult) (timeout : Nat)
  | close
deriving DecidableEq, Repr

/-- `parked` counts the polls that came to wait for a stop or for the end of a wait; `parking` tells whether the poll
at hand is one of them. -/
structure ScriptedBroker where
  answers : ScriptAnswers := {}
  polls : List PollStep := []
  calls : List BrokerCall := []
  parked : Nat := 0
  parking : Bool := false
deriving Repr

namespace ScriptedBroker

def change (b : ScriptedBroker) (cs : List ScriptChange) : ScriptedBroker :=
  { b with answers := cs.foldl ScriptAnswers.change b.answers }

def heard (b : ScriptedBroker) (c : BrokerCall) : ScriptedBroker := { b with calls := b.calls ++ [c] }

def sawPoll (b : ScriptedBroker) (rest : List PollStep) (r : PollResult) (timeout : Nat) : ScriptedBroker :=
  { b with polls := rest }.heard (.poll r timeout)

def verdict (refused : Bool) (e : BrokerError) : Except BrokerError Unit := if refused then .error e else .ok ()

def poll (b : ScriptedBroker) (timeout : Nat) : ScriptedBroker × Except BrokerError (Option PollEvent) :=
  match b.polls with
  | .result r :: rest =>
      (b.sawPoll rest r timeout,
        match r with
        | .record x => .ok (some (.record x))
        | .endOfPartition p => .ok (some (.endOfPartition p))
        | .nothing => .ok none
        | .failure => .error (.messageConsumption .transportFailure))
  | .sleep _ :: rest => (b.sawPoll rest .nothing timeout, .ok none)
  | _ :: rest => ({ b with polls := rest }, .ok none)
  | [] => (b, .ok none)

def watermarks (rows : WatermarkRows) (p : Partition) : Reply Watermarks :=
  match rows with
  | none => .failed (.metadataFetch .requestTimedOut)
  | some rows =>
      match rows.find? (fun r => r.1 = p) with
      | none => .ok .unset
      | some (_, some w) => .ok w
      | some (_, none) => .failed (.metadataFetch .requestTimedOut)

def refuses (b : ScriptedBroker) (p : Partition) : Bool :=
  match b.answers.refusesStore with
  | .never => false
  | .always => true
  | .partitions ps => ps.contains p

instance : Broker ScriptedBroker where
  poll := poll
  commit b _ := (b, verdict b.answers.refusesCommit (.consumerCommit .requestTimedOut))
  store b p := (b, verdict (b.refuses p.partition) (.storeOffset .unknownPartition))
  pause b ps := (b.heard (.pause ps), verdict b.answers.refusesPause (.pauseResume "pause refused"))
  resume b ps := (b.heard (.resume ps), verdict b.answers.refusesResume (.pauseResume "resume refused"))
  assignment b :=
    (b.heard .assignment, match b.answers.assignment with
      | some ps => .ok ps
      | none => .error (.subscription "assignment refused"))
  committed b ps timeout :=
    (b.heard (.committed ps timeout), match b.answers.committed with
      | some rows => .ok (.ofList rows)
      | none => .error (.offsetFetch .coordinatorNotAvailable))
  cachedWatermarks b p := (b.heard (.cached p), watermarks b.answers.cached p)
  queryWatermarks b p timeout := (b.heard (.queried p timeout), watermarks b.answers.queried p)
  partitions b topic timeout :=
    (b.heard (.partitions topic timeout), match b.answers.partitions with
      | .listed ps => .ok ps
      | .refused => .failed (.metadataFetch .transportFailure)
      | .broken => .broken (.broker "metadata panic"))
  close b := b.heard .close

end ScriptedBroker

end StreamTrigger
