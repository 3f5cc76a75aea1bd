import StreamTrigger.Table

namespace StreamTrigger

structure ConsumerSettings where
  values : Table String String

inductive Tuning where
  | autoCommitInterval
  | metadataMaxAge
  | statisticsInterval
  | sessionTimeout
  | maxPollInterval
  | queuedMinMessages
  | queuedMaxKilobytes
  | maxPartitionFetch
  | maxFetch
deriving DecidableEq, Repr

def Tuning.key : Tuning → String
  | autoCommitInterval => "auto.commit.interval.ms"
  | metadataMaxAge => "metadata.max.age.ms"
  | statisticsInterval => "statistics.interval.ms"
  | sessionTimeout => "session.timeout.ms"
  | maxPollInterval => "max.poll.interval.ms"
  | queuedMinMessages => "queued.min.messages"
  | queuedMaxKilobytes => "queued.max.messages.kbytes"
  | maxPartitionFetch => "max.partition.fetch.bytes"
  | maxFetch => "fetch.max.bytes"

def Tuning.all : List Tuning :=
  [.autoCommitInterval, .metadataMaxAge, .statisticsInterval, .sessionTimeout, .maxPollInterval, .queuedMinMessages,
    .queuedMaxKilobytes, .maxPartitionFetch, .maxFetch]

def Tuning.ofKey? (key : String) : Option Tuning := Tuning.all.find? (fun t => t.key = key)

namespace ConsumerSettings

def forListener (servers group : String) : ConsumerSettings :=
  ⟨.ofList [("bootstrap.servers", servers), ("group.id", group), ("enable.auto.commit", "true"),
    ("enable.auto.offset.store", "false"), ("auto.commit.interval.ms", "200"), ("auto.offset.reset", "earliest"),
    ("metadata.max.age.ms", "180000"), ("socket.keepalive.enable", "true"), ("enable.partition.eof", "false"),
    ("statistics.interval.ms", "5000")]⟩

def set (s : ConsumerSettings) (key value : String) : ConsumerSettings := ⟨s.values.insert key value⟩

def tls (s : ConsumerSettings) (enabled : Bool) : ConsumerSettings :=
  if enabled then (s.set "security.protocol" "ssl").set "enable.ssl.certificate.verification" "false" else s

def offsetReset (s : ConsumerSettings) (policy : String) : ConsumerSettings := s.set "auto.offset.reset" policy

def partitionEnds (s : ConsumerSettings) (enabled : Bool) : ConsumerSettings :=
  s.set "enable.partition.eof" (if enabled then "true" else "false")

def tune (s : ConsumerSettings) (t : Tuning) (n : Nat) : ConsumerSettings := s.set t.key (toString n)

def tuneAll (s : ConsumerSettings) (ts : List (Tuning × Nat)) : ConsumerSettings :=
  ts.foldl (fun s t => s.tune t.1 t.2) s

end ConsumerSettings

end StreamTrigger
