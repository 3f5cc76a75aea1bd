namespace StreamTrigger.Text

def jsonChar (c : Char) : String :=
  if c = '"' then "\\\""
  else if c = '\\' then "\\\\"
  else if c = '\x08' then "\\b"
  else if c = '\t' then "\\t"
  else if c = '\n' then "\\n"
  else if c = '\x0c' then "\\f"
  else if c = '\r' then "\\r"
  else if c.toNat < 0x20 then
    "\\u00" ++ String.ofList [Nat.digitChar (c.toNat / 16), Nat.digitChar (c.toNat % 16)]
  else String.singleton c

def jsonString (s : String) : String := "\"" ++ String.join (s.toList.map jsonChar) ++ "\""

def jsonInt (n : Int) : String := toString n

def jsonOption {α : Type} (f : α → String) : Option α → String
  | none => "null"
  | some a => f a

def jsonArray (items : List String) : String := "[" ++ String.intercalate "," items ++ "]"

def jsonObject (fields : List (String × String)) : String :=
  "\x7b" ++ String.intercalate "," (fields.map (fun f => jsonString f.1 ++ ":" ++ f.2)) ++ "\x7d"

end StreamTrigger.Text
