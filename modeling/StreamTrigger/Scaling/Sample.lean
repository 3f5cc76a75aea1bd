import StreamTrigger.Text.Instant
import StreamTrigger.Text.Json

namespace StreamTrigger

structure LagSample where
  lag : Int
  partitions : Int
  time : Instant
deriving DecidableEq, Repr

def LagSample.json (s : LagSample) : String :=
  Text.jsonObject [("total_lag", Text.jsonInt s.lag), ("partition_count", Text.jsonInt s.partitions),
    ("timestamp", Text.jsonString (Text.rfc3339 s.time))]

end StreamTrigger
