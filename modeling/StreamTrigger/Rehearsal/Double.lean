import StreamTrigger.Callback
import StreamTrigger.Telemetry.Notice

namespace StreamTrigger

inductive Hurdle where
  | yield (turns : Nat)
  | permit
  | rest (span : Nat)
  | pollingEnd
  | never
deriving DecidableEq, Repr

structure Plan where
  reports : List WorkTask := []
  sends : List Batch := []
  dropsSender : Bool := false
  cancels : Bool := false
  hurdles : List Hurdle := []
  outcome : Outcome := .ok
deriving Repr

structure PlanRule where
  partition : Option Int := none
  offset : Option Int := none
  plan : Plan := {}
deriving Repr

inductive CallbackDouble where
  | scripted (rules : List PlanRule) (gated : Bool)
  | recording (fails : Bool) (panicsAt : Option Int) (rest : Option Nat)
  | logging
deriving Repr

def PlanRule.fits (r : PlanRule) (x : Record) : Bool :=
  r.partition.all (fun p => p == x.partition.number) && r.offset.all (fun o => o == x.offset)

namespace CallbackDouble

def gatedPlan (p : Plan) : Plan :=
  let (yields, others) := p.hurdles.partition (fun h => match h with | .yield _ => true | _ => false)
  { p with hurdles := yields ++ .permit :: others }

def plan (d : CallbackDouble) (i : Invocation) : Plan :=
  match d with
  | scripted rules gated =>
      let p := ((rules.find? (fun r => i.records.any r.fits)).map PlanRule.plan).getD {}
      if gated then gatedPlan p else p
  | recording fails panicsAt rest =>
      let hit := panicsAt.bind (fun o => if i.records.any (fun r => r.offset == o) then some o else none)
      { hurdles := (rest.map Hurdle.rest).toList
        outcome := match hit with
          | some o => .panicked (.made ("callback panicked at offset " ++ toString o))
          | none => if fails then .failed [] "callback failed" else .ok }
  | logging => { reports := i.records.map .received }

end CallbackDouble

end StreamTrigger
