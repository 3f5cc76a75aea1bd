import StreamTrigger.Rehearsal.Stage

namespace StreamTrigger

structure Trial where
  settings : ListenerSettings
  double : CallbackDouble
  produced : List Nat
  truncated : List (Int × Int)
  member : Member
  paused : List Partition
  goal : Action

structure TrialResult where
  connection : Connection
  reached : ActionAnswer
  stopped : ActionAnswer
  entries : List Entry

namespace Trial

def produce (c : Cluster) (p : Int) : Nat → Except Fault Cluster
  | 0 => .ok c
  | n + 1 => do
      let (c, _) ← c.produce p []
      produce c p n

def produceAll (c : Cluster) (p : Int) : List Nat → Except Fault Cluster
  | [] => .ok c
  | n :: ns => do produceAll (← produce c p n) (p + 1) ns

def stopTimeout : Nat := 5000

def run (t : Trial) (c : Cluster) : Except Fault TrialResult := do
  let c ← t.truncated.foldlM (fun c mark => c.truncate mark.1 mark.2) (← produceAll c 0 t.produced)
  let start := (Connection.mk c t.member).pause t.paused
  let (s, started) := (Stage.make t.settings start t.double []).act .start
  match started.fault? with
  | some f => .error f
  | none =>
      let (s, reached) := s.act t.goal
      let (s, stopped) := s.act (.stop stopTimeout)
      return ⟨s.world.broker, reached, stopped, s.world.entries⟩

end Trial

namespace TrialResult

def partitions (r : TrialResult) : List Partition :=
  (List.range r.connection.cluster.size).map (fun (p : Nat) => r.connection.cluster.partition p)

def handed (r : TrialResult) (p : Partition) : List Int :=
  ((r.entries.filterMap Entry.event?).flatMap Event.submitted).filterMap
    (fun h => if h.partition = p then some h.offset else none)

def processed (r : TrialResult) (p : Partition) : List Int :=
  (Tally.ofEntries r.entries).processed.filterMap (fun d => if d.1 = p then some d.2 else none)

def committed (r : TrialResult) (p : Partition) : Option Int :=
  r.connection.cluster.committed? r.connection.member.group p.number

def increasing : List Int → Bool
  | a :: b :: rest => decide (a < b) && increasing (b :: rest)
  | _ => true

def monotonic (r : TrialResult) : Bool := r.partitions.all (fun p => increasing (r.handed p))

end TrialResult

end StreamTrigger
