namespace StreamTrigger

inductive Level where
  | error
  | warn
  | info
  | debug
deriving DecidableEq, Repr

def Level.name : Level → String
  | error => "error"
  | warn => "warn"
  | info => "info"
  | debug => "debug"

inductive Field where
  | number (n : Int)
  | text (s : String)
deriving DecidableEq, Repr

structure LogLine where
  level : Level
  message : String
  fields : List (String × Field) := []
deriving DecidableEq, Repr

/-- Lines for debugging stay out of the log unless they are asked for. -/
def LogLine.written (l : LogLine) : Bool := l.level ≠ .debug

end StreamTrigger
