import StreamTrigger.Scaling.Sample
import StreamTrigger.Telemetry.Notice

namespace StreamTrigger

inductive Vote where
  | none
  | scaleOut
  | scaleIn
deriving DecidableEq, Repr

namespace Vote

def label : Vote → String
  | none => "None"
  | scaleOut => "ScaleOut"
  | scaleIn => "ScaleIn"

def key : Vote → String
  | none => "none"
  | scaleOut => "scale_out"
  | scaleIn => "scale_in"

def json (v : Vote) : String := Text.jsonString v.key

def statusJson (v : Vote) : String := Text.jsonObject [("vote", v.json)]

end Vote

structure TopicScaler where
  topic : String
  group : String
  threshold : Int
deriving DecidableEq, Repr

namespace TopicScaler

def window : Nat := 5

def trend (r : Int → Int → Bool) : List Int → Bool
  | x :: y :: rest => r x y && trend r (y :: rest)
  | _ => true

def recent {α : Type} (n : Nat) (xs : List α) : List α := xs.drop (xs.length - n)

/-- Idle workers come before any trend. A falling lag is no reason to scale in while there is still much of it. -/
def vote (s : TopicScaler) (workers : Nat) (samples : List LagSample) : Vote :=
  if samples.length < window then .none
  else
    let seen := recent window samples
    match seen.getLast? with
    | none => .none
    | some latest =>
        let lags := seen.map LagSample.lag
        if latest.partitions < workers then .scaleIn
        else if latest.partitions = workers then .none
        else if trend (fun x y => x < y) lags then .scaleOut
        else if trend (fun x y => y < x) lags && latest.lag < Word.mulClamped latest.partitions s.threshold then .scaleIn
        else .none

def status (s : TopicScaler) (workers : Nat) (samples : List LagSample) : Vote × List ScaleTask :=
  let v := s.vote workers samples
  (v, if v = .none then [] else [.voted s.topic s.group workers v.label])

end TopicScaler

end StreamTrigger
