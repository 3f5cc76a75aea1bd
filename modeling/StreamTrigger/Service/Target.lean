namespace StreamTrigger

inductive TargetError where
  | empty
  | tooLong
  | character
  | authority
  | form
  | schemeTooLong
deriving DecidableEq, Repr

def TargetError.message : TargetError → String
  | empty => "empty string"
  | tooLong => "uri too long"
  | character => "invalid uri character"
  | authority => "invalid authority"
  | form => "invalid format"
  | schemeTooLong => "scheme too long"

/-- What a service looks at: the path and the query. An authority alone has an empty path. -/
structure RequestTarget where
  path : String
  query : String := ""
deriving DecidableEq, Repr

namespace RequestTarget

def isAlphanumeric (c : Char) : Bool := c.isDigit || c.isAlpha

def inPath (c : Char) : Bool :=
  let n := c.toNat
  n == 0x21 || n == 0x22 || (0x24 ≤ n && n ≤ 0x3B) || n == 0x3D || (0x40 ≤ n && n ≤ 0x5F) ||
    (0x61 ≤ n && n ≤ 0x7E) || 0x80 ≤ n

def inQuery (c : Char) : Bool :=
  let n := c.toNat
  n == 0x21 || (0x24 ≤ n && n ≤ 0x3B) || n == 0x3D || (0x3F ≤ n && n ≠ 0x7F)

def inScheme (c : Char) : Bool := isAlphanumeric c || "+-.~".toList.contains c

def inAuthority (c : Char) : Bool := isAlphanumeric c || "!$&'()*+,-.:;=@[]_~".toList.contains c

def endsAuthority (c : Char) : Bool := c == '/' || c == '?' || c == '#'

def maxLength : Nat := 65534

def maxScheme : Nat := 64

def maxColons : Nat := 8

def withoutFragment (cs : List Char) : List Char := cs.takeWhile (fun c => c != '#')

def readPath (cs : List Char) : Except TargetError RequestTarget :=
  let cs := withoutFragment cs
  let path := cs.takeWhile (fun c => c != '?')
  let query := (cs.dropWhile (fun c => c != '?')).drop 1
  if path.all inPath && query.all inQuery then
    .ok ⟨if path.isEmpty then "/" else String.ofList path, String.ofList query⟩
  else .error .character

/-- What the part of an authority that was read so far contains; what stands before an at sign or in brackets
does not count for the rest. -/
structure AuthoritySeen where
  colons : Nat := 0
  opened : Bool := false
  closed : Bool := false
  percent : Bool := false
  endsWithAt : Bool := false

def AuthoritySeen.complete (s : AuthoritySeen) : Bool :=
  s.opened == s.closed && s.colons ≤ 1 && !s.endsWithAt && !s.percent

def readAuthority (s : AuthoritySeen) : List Char → Except TargetError (List Char)
  | [] => if s.complete then .ok [] else .error .authority
  | c :: cs =>
      let after := { s with endsWithAt := false }
      if endsAuthority c then (if s.complete then .ok (c :: cs) else .error .authority)
      else if c = ':' then
        if maxColons ≤ s.colons then .error .authority else readAuthority { after with colons := s.colons + 1 } cs
      else if c = '[' then
        if s.percent || s.opened then .error .authority else readAuthority { after with opened := true } cs
      else if c = ']' then
        if !s.opened || s.closed then .error .authority
        else readAuthority { after with closed := true, colons := 0, percent := false } cs
      else if c = '@' then readAuthority { after with colons := 0, percent := false, endsWithAt := true } cs
      else if c = '%' then readAuthority { after with percent := true } cs
      else if inAuthority c then readAuthority after cs
      else .error .character

def schemeLength (cs : List Char) : Option Nat :=
  let scheme := cs.takeWhile inScheme
  if 3 < cs.length && (cs.drop scheme.length).take 3 == [':', '/', '/'] then some scheme.length else none

def readFull (cs : List Char) : Except TargetError RequestTarget := do
  match schemeLength cs with
  | none =>
      let rest ← readAuthority {} cs
      if rest.isEmpty then .ok ⟨"", ""⟩ else .error .form
  | some n =>
      if maxScheme < n then .error .schemeTooLong
      else
        let behind := cs.drop (n + 3)
        let rest ← readAuthority {} behind
        if behind.isEmpty then .error .empty
        else if rest.length = behind.length then .error .form else readPath rest

def read (s : String) : Except TargetError RequestTarget :=
  if maxLength < s.utf8ByteSize then .error .tooLong
  else
    match s.toList with
    | [] => .error .empty
    | ['*'] => .ok ⟨"*", ""⟩
    | [c] =>
        if c = '/' then .ok ⟨"/", ""⟩
        else if endsAuthority c then .error .character
        else (readAuthority {} [c]).map (fun _ => ⟨"", ""⟩)
    | '/' :: cs => readPath ('/' :: cs)
    | cs => readFull cs

end RequestTarget

end StreamTrigger
