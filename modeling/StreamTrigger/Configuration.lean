import StreamTrigger.Consumer.Settings
import StreamTrigger.Listener.Settings
import StreamTrigger.Scaling.Key
import StreamTrigger.Text.Numeral

namespace StreamTrigger

structure Environment where
  values : Table String String

inductive ConfigurationError where
  | unreadable (name : String)
  | notPositive (name : String)
  | invalid (name reason : String)
deriving DecidableEq, Repr

def ConfigurationError.message : ConfigurationError → String
  | unreadable name => "Failed to parse environment variable " ++ name
  | notPositive name => name ++ " must be greater than zero"
  | invalid name reason => "invalid " ++ name ++ ": " ++ reason

/-- Modes are kept as they were written. What is optional is left to the client library where it is missing. -/
structure Configuration where
  hosts : String
  topic : String
  group : String
  tls : Bool
  offsetReset : String
  functionId : String
  maxBatch : Nat
  intervalSeconds : Nat
  capacity : Nat
  retryMs : Nat
  commitMode : String
  dispatchMode : String
  autoCommitIntervalMs : Nat
  shutdownSeconds : Nat
  lagThreshold : Int
  freshnessSeconds : Nat
  throttleSeconds : Nat
  metadataRefreshSeconds : Nat
  metadataTimeoutSeconds : Nat
  sessionTimeoutMs : Option Nat
  maxPollIntervalMs : Option Nat
  queuedMinMessages : Option Nat
  queuedMaxKilobytes : Option Nat
  maxPartitionFetch : Option Nat
  maxFetch : Option Nat
  metadataMaxAgeMs : Nat
  statisticsIntervalMs : Nat
  host : String
  port : Nat
deriving DecidableEq, Repr

namespace Environment

def text (env : Environment) (name default : String) : String := (env.values.get? name).getD default

def truth (env : Environment) (name : String) (default : Bool) : Except ConfigurationError Bool :=
  match env.values.get? name with
  | none => .ok default
  | some s =>
      match Text.readBool? s with
      | some b => .ok b
      | none => .error (.unreadable name)

def integer (env : Environment) (name : String) (default least greatest : Int) :
    Except ConfigurationError Int :=
  match env.values.get? name with
  | none => .ok default
  | some s => (Text.readNumeral least greatest s).mapError (fun _ => .unreadable name)

def natural (env : Environment) (name : String) (default greatest : Nat) : Except ConfigurationError Nat :=
  (env.integer name default 0 greatest).map Int.toNat

def natural? (env : Environment) (name : String) (greatest : Nat) : Except ConfigurationError (Option Nat) :=
  match env.values.get? name with
  | none => .ok none
  | some _ => (env.natural name 0 greatest).map some

end Environment

namespace Configuration

def greatest16 : Nat := 65535

def greatest32 : Nat := 4294967295

def greatest64 : Nat := 18446744073709551615

/-- Variables are read in a fixed order, and the first one that cannot be read is reported. -/
def read (env : Environment) : Except ConfigurationError Configuration := do
  let tls ← env.truth "KAFKA_TLS" false
  let maxBatch ← env.natural "MAX_BATCH_SIZE" 64 greatest64
  let interval ← env.natural "SUBSCRIBER_INTERVAL_SECS" 1 greatest64
  let capacity ← env.natural "CHANNEL_CAPACITY" 10 greatest64
  let retry ← env.natural "CHANNEL_FULL_RETRY_INTERVAL_MS" 50 greatest64
  let autoCommit ← env.natural "AUTO_COMMIT_INTERVAL_MS" 200 greatest32
  let shutdown ← env.natural "SHUTDOWN_TIMEOUT_SECS" 10 greatest64
  let threshold ← env.integer "LAG_THRESHOLD" 1000 (-9223372036854775808) 9223372036854775807
  let freshness ← env.natural "METRICS_FRESHNESS_SECS" 180 greatest64
  let throttle ← env.natural "SCALE_DOWN_THROTTLE_SECS" 60 greatest64
  let refresh ← env.natural "METADATA_REFRESH_INTERVAL_SECS" 180 greatest64
  let timeout ← env.natural "METADATA_TIMEOUT_SECS" 5 greatest64
  let session ← env.natural? "SESSION_TIMEOUT_MS" greatest32
  let maxPoll ← env.natural? "MAX_POLL_INTERVAL_MS" greatest32
  let queuedMin ← env.natural? "QUEUED_MIN_MESSAGES" greatest32
  let queuedMax ← env.natural? "QUEUED_MAX_MESSAGES_KBYTES" greatest32
  let partitionFetch ← env.natural? "MAX_PARTITION_FETCH_BYTES" greatest32
  let fetch ← env.natural? "FETCH_MAX_BYTES" greatest32
  let maxAge ← env.natural "METADATA_MAX_AGE_MS" 180000 greatest32
  let statistics ← env.natural "STATISTICS_INTERVAL_MS" 5000 greatest32
  let port ← env.natural "BIND_PORT" 8080 greatest16
  return {
    hosts := env.text "KAFKA_HOSTS" "localhost:9092"
    topic := env.text "KAFKA_TOPIC" "events"
    group := env.text "KAFKA_CONSUMER_GROUP" "kafka-trigger"
    tls := tls
    offsetReset := env.text "KAFKA_CONSUMER_OFFSET_RESET" "earliest"
    functionId := env.text "FUNCTION_ID" "kafka-trigger"
    maxBatch := maxBatch
    intervalSeconds := interval
    capacity := capacity
    retryMs := retry
    commitMode := env.text "COMMIT_MODE" "buffered"
    dispatchMode := env.text "DISPATCH_MODE" "single"
    autoCommitIntervalMs := autoCommit
    shutdownSeconds := shutdown
    lagThreshold := threshold
    freshnessSeconds := freshness
    throttleSeconds := throttle
    metadataRefreshSeconds := refresh
    metadataTimeoutSeconds := timeout
    sessionTimeoutMs := session
    maxPollIntervalMs := maxPoll
    queuedMinMessages := queuedMin
    queuedMaxKilobytes := queuedMax
    maxPartitionFetch := partitionFetch
    maxFetch := fetch
    metadataMaxAgeMs := maxAge
    statisticsIntervalMs := statistics
    host := env.text "BIND_HOST" "0.0.0.0"
    port := port }

def commit (c : Configuration) : Except ConfigurationError CommitMode :=
  (CommitMode.read c.commitMode).mapError (fun e => .invalid "COMMIT_MODE" e.message)

def dispatch (c : Configuration) : Except ConfigurationError DispatchMode :=
  (DispatchMode.read c.dispatchMode).mapError (fun e => .invalid "DISPATCH_MODE" e.message)

def validate (c : Configuration) : Except ConfigurationError Unit :=
  if c.maxBatch = 0 then .error (.notPositive "MAX_BATCH_SIZE")
  else if c.capacity = 0 then .error (.notPositive "CHANNEL_CAPACITY")
  else if c.intervalSeconds = 0 then .error (.notPositive "SUBSCRIBER_INTERVAL_SECS")
  else if c.lagThreshold ≤ 0 then .error (.notPositive "LAG_THRESHOLD")
  else do
    let _ ← c.commit
    let _ ← c.dispatch
    return ()

def bindAddress (c : Configuration) : String := c.host ++ ":" ++ toString c.port

def seconds (n : Nat) : Nat := n * Span.second

def listenerSettings (c : Configuration) : Except ConfigurationError ListenerSettings := do
  let dispatch ← c.dispatch
  let commit ← c.commit
  return {
    topic := c.topic
    maxBatch := c.maxBatch
    interval := seconds c.intervalSeconds
    capacity := c.capacity
    retry := c.retryMs * Span.millisecond
    dispatch := dispatch
    commit := commit
    slice := ListenerSettings.defaultSlice }

def tunings (c : Configuration) : List (Tuning × Nat) :=
  [(.autoCommitInterval, some c.autoCommitIntervalMs), (.metadataMaxAge, some c.metadataMaxAgeMs),
    (.statisticsInterval, some c.statisticsIntervalMs), (.sessionTimeout, c.sessionTimeoutMs),
    (.maxPollInterval, c.maxPollIntervalMs), (.queuedMinMessages, c.queuedMinMessages),
    (.queuedMaxKilobytes, c.queuedMaxKilobytes), (.maxPartitionFetch, c.maxPartitionFetch),
    (.maxFetch, c.maxFetch)].filterMap (fun t => t.2.map (fun n => (t.1, n)))

def consumerSettings (c : Configuration) : ConsumerSettings :=
  (((ConsumerSettings.forListener c.hosts c.group).tls c.tls).offsetReset c.offsetReset).tuneAll c.tunings

def scalerKey (c : Configuration) : ScalerKey := ⟨c.topic, c.group, c.functionId⟩

end Configuration

end StreamTrigger
