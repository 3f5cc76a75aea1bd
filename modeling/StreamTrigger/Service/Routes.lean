import StreamTrigger.Scaling.Monitor
import StreamTrigger.Scaling.Registry
import StreamTrigger.Service.Query
import StreamTrigger.Service.Target

namespace StreamTrigger

inductive Route where
  | index
  | readiness
  | liveness
  | monitor
  | target
deriving DecidableEq, Repr

namespace Route

def path : Route → String
  | index => "/"
  | readiness => "/_readiness"
  | liveness => "/_liveness"
  | monitor => "/scale/monitor"
  | target => "/scale/target"

def all : List Route := [index, readiness, liveness, monitor, target]

def ofPath? (path : String) : Option Route := all.find? (fun r => r.path = path)

end Route

inductive RequestError where
  | method
  | target (e : TargetError)
deriving DecidableEq, Repr

def RequestError.message : RequestError → String
  | method => "invalid HTTP method"
  | target e => e.message

structure Request where
  method : String
  target : RequestTarget
deriving DecidableEq, Repr

namespace Request

def inMethod (c : Char) : Bool := RequestTarget.isAlphanumeric c || "!#$%&'*+-.^_\x60|~".toList.contains c

def read (method target : String) : Except RequestError Request :=
  if method.isEmpty || !method.toList.all inMethod then .error .method
  else
    match RequestTarget.read target with
    | .ok t => .ok ⟨method, t⟩
    | .error e => .error (.target e)

def label (r : Request) : String := ((Route.ofPath? r.target.path).map Route.path).getD r.target.path

end Request

structure Response where
  status : Nat
  contentType : Option String := none
  allow : Option String := none
  body : String := ""
deriving DecidableEq, Repr

namespace Response

def text (status : Nat) (body : String) : Response :=
  { status := status, contentType := some "text/plain; charset=utf-8", body := body }

def json (body : String) : Response := { status := 200, contentType := some "application/json", body := body }

def notFound : Response := { status := 404 }

def notAllowed : Response := { status := 405, allow := some "GET,HEAD" }

end Response

/-- The parts of a trigger that its host asks; the monitor and the scaler share the provider and its broker. -/
structure Service (β : Type) where
  monitor : ScaleMonitor
  scaler : TargetScaler
  registry : Registry := {}
  provider : LagProvider
  broker : β
  ready : Bool := false

structure Served (β : Type) where
  service : Service β
  response : Response
  notices : List Notice := []

namespace Service

variable {β : Type} [Broker β]

def monitorJson (m : ScaleMonitor) (v : Vote) : String :=
  Text.jsonObject [("descriptor_id", Text.jsonString m.id),
    ("samples", Text.jsonArray (m.samples.map LagSample.json)), ("vote", v.json)]

def serveMonitor (s : Service β) (query : String) (now : Moment) : Served β :=
  match Query.read "worker_count" query with
  | .error e => ⟨s, .text 400 e.message, []⟩
  | .ok workers =>
      let (m, x) := s.monitor.sample s.provider s.broker now
      let s := { s with monitor := m, provider := x.provider, broker := x.broker }
      match x.sample with
      | .error f => ⟨s, .text 500 f.message, x.notices.map .scale ++ [.serve .monitorFailed]⟩
      | .ok _ =>
          let (v, ns) := m.status (workers.getD 0)
          ⟨s, .json (monitorJson m v), (x.notices ++ ns).map .scale⟩

def serveTarget (s : Service β) (query : String) (asked : Instant) (taken : Moment) : Served β :=
  match Query.read "instance_concurrency" query with
  | .error e => ⟨s, .text 400 e.message, []⟩
  | .ok wanted =>
      let x := s.scaler.sample s.provider s.broker asked taken
      let s := { s with provider := x.provider, broker := x.broker }
      match x.sample with
      | .error f => ⟨s, .text 500 f.message, x.notices.map .scale ++ [.serve .targetFailed]⟩
      | .ok sample =>
          let (r, e) := s.registry.evaluate s.scaler wanted sample asked
          ⟨{ s with registry := r },
            match e.result with
            | .ok n => .json (targetJson n)
            | .error e => .text 400 e.message,
            (x.notices ++ e.notices).map .scale⟩

def route (s : Service β) (r : Route) (query : String) (asked : Instant) (taken : Moment) : Served β :=
  match r with
  | .index => ⟨s, .text 200 "kafka trigger", []⟩
  | .readiness => ⟨s, if s.ready then .text 200 "ready" else .text 503 "starting", []⟩
  | .liveness => ⟨s, .text 200 "ok", []⟩
  | .monitor => s.serveMonitor query taken
  | .target => s.serveTarget query asked taken

def serve (s : Service β) (r : Request) (asked : Instant) (taken : Moment) : Served β :=
  match Route.ofPath? r.target.path with
  | none => ⟨s, .notFound, []⟩
  | some route =>
      if r.method = "GET" then s.route route r.target.query asked taken
      else if r.method = "HEAD" then
        let x := s.route route r.target.query asked taken
        { x with response := { x.response with body := "" } }
      else ⟨s, .notAllowed, []⟩

def serveCounted (s : Service β) (r : Request) (asked : Instant) (taken : Moment) : Served β :=
  let x := s.serve r asked taken
  { x with notices := x.notices ++ [.serve (.answered r.method r.label x.response.status)] }

end Service

end StreamTrigger
