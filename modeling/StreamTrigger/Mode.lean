import StreamTrigger.Text.Blank
import StreamTrigger.Text.Case

namespace StreamTrigger

inductive CommitMode where
  | buffered
  | immediate
deriving DecidableEq, Repr

inductive DispatchMode where
  | single
  | multi
deriving DecidableEq, Repr

inductive ModeError where
  | unknownCommit (text : String)
  | unknownDispatch (text : String)
deriving DecidableEq, Repr

def ModeError.message : ModeError → String
  | unknownCommit text => "unknown commit mode: " ++ text
  | unknownDispatch text => "unknown dispatch mode: " ++ text

def normalized (s : String) : String := Text.lowercase (Text.trim s)

namespace CommitMode

def default : CommitMode := buffered

def name : CommitMode → String
  | buffered => "buffered"
  | immediate => "immediate"

def read (s : String) : Except ModeError CommitMode :=
  let t := normalized s
  if t = "buffered" ∨ t = "auto" then .ok buffered
  else if t = "immediate" ∨ t = "sync" then .ok immediate
  else .error (.unknownCommit t)

end CommitMode

namespace DispatchMode

def default : DispatchMode := single

def name : DispatchMode → String
  | single => "single"
  | multi => "multi"

def read (s : String) : Except ModeError DispatchMode :=
  let t := normalized s
  if t = "single" then .ok single else if t = "multi" then .ok multi else .error (.unknownDispatch t)

end DispatchMode

end StreamTrigger
