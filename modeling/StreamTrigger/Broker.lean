import StreamTrigger.Fault
import StreamTrigger.Record
import StreamTrigger.Table
import StreamTrigger.Watermarks

namespace StreamTrigger

inductive BrokerCode where
  | transportFailure
  | requestTimedOut
  | coordinatorNotAvailable
  | unknownPartition
  | noOffset
  | illegalGeneration
deriving DecidableEq, Repr

namespace BrokerCode

def text : BrokerCode → String
  | transportFailure => "BrokerTransportFailure (Local: Broker transport failure)"
  | requestTimedOut => "RequestTimedOut (Broker: Request timed out)"
  | coordinatorNotAvailable => "CoordinatorNotAvailable (Broker: Coordinator not available)"
  | unknownPartition => "UnknownPartition (Local: Unknown partition)"
  | noOffset => "NoOffset (Local: No offset stored)"
  | illegalGeneration => "IllegalGeneration (Broker: Specified group generation id is not valid)"

end BrokerCode

inductive BrokerError where
  | metadataFetch (code : BrokerCode)
  | offsetFetch (code : BrokerCode)
  | consumerCommit (code : BrokerCode)
  | storeOffset (code : BrokerCode)
  | messageConsumption (code : BrokerCode)
  | rebalance (code : BrokerCode)
  | general (code : BrokerCode)
  | subscription (reason : String)
  | pauseResume (reason : String)
deriving DecidableEq, Repr

namespace BrokerError

def message : BrokerError → String
  | metadataFetch code => "Meta data fetch error: " ++ code.text
  | offsetFetch code => "Offset fetch error: " ++ code.text
  | consumerCommit code => "Consumer commit error: " ++ code.text
  | storeOffset code => "Store offset error: " ++ code.text
  | messageConsumption code => "Message consumption error: " ++ code.text
  | rebalance code => "Rebalance error: " ++ code.text
  | general code => "Global error: " ++ code.text
  | subscription reason => "Subscription error: " ++ reason
  | pauseResume reason => "Pause/resume error: " ++ reason

end BrokerError

inductive PollEvent where
  | record (r : Record)
  | endOfPartition (p : Partition)
deriving DecidableEq, Repr

/-- A broken answer ends the task that asked. -/
inductive Reply (α : Type) where
  | ok (a : α)
  | failed (e : BrokerError)
  | broken (f : Fault)
deriving DecidableEq, Repr

/-- Timeouts are in nanoseconds. A partition that the group has not committed has no committed offset, or is missing
from the table. -/
class Broker (β : Type) where
  poll : β → Nat → β × Except BrokerError (Option PollEvent)
  commit : β → List Position → β × Except BrokerError Unit
  store : β → Position → β × Except BrokerError Unit
  pause : β → List Partition → β × Except BrokerError Unit
  resume : β → List Partition → β × Except BrokerError Unit
  assignment : β → β × Except BrokerError (List Partition)
  committed : β → List Partition → Nat → β × Except BrokerError (Table Partition (Option Int))
  cachedWatermarks : β → Partition → β × Reply Watermarks
  queryWatermarks : β → Partition → Nat → β × Reply Watermarks
  partitions : β → String → Nat → β × Reply (List Int)
  close : β → β

end StreamTrigger
