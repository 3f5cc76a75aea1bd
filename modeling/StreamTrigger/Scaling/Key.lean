import StreamTrigger.Text.Json

namespace StreamTrigger

structure ScalerKey where
  topic : String
  group : String
  function : String
deriving DecidableEq, Repr

def ScalerKey.json (k : ScalerKey) : String :=
  Text.jsonObject [("topic", Text.jsonString k.topic), ("consumer_group", Text.jsonString k.group),
    ("function_id", Text.jsonString k.function)]

end StreamTrigger
