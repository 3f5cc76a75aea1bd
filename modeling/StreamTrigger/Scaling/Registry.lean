import StreamTrigger.Scaling.Target
import StreamTrigger.Table

namespace StreamTrigger

structure Registry where
  states : Table ScalerKey ScalerState := Table.empty

namespace Registry

def state? (r : Registry) (k : ScalerKey) : Option ScalerState := r.states.get? k

def size (r : Registry) : Nat := r.states.size

def remove (r : Registry) (k : ScalerKey) : Registry × Option ScalerState := (⟨r.states.erase k⟩, r.state? k)

/-- A trigger gets its state when it is first evaluated, whatever comes of that. -/
def evaluate (r : Registry) (s : TargetScaler) (wanted : Option Nat) (sample : LagSample) (now : Instant) :
    Registry × Evaluation :=
  let e := s.evaluate ((r.state? s.key).getD {}) wanted sample now
  (⟨r.states.insert s.key e.state⟩, e)

end Registry

end StreamTrigger
