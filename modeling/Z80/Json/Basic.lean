namespace Z80

inductive Json where
  | null
  | bool (b : Bool)
  | number (n : Option Nat)
  | string (s : Option String)
  | array (elements : List Json)
  | object (members : List (Option String × Json))

namespace Json

def bool? : Json → Option Bool
  | bool b => some b
  | _ => none

def natBelow? (bound : Nat) : Json → Option Nat
  | number (some n) => if n < bound then some n else none
  | _ => none

def string? : Json → Option String
  | string s => s
  | _ => none

def list? {α : Type} (read : Json → Option α) : Json → Option (List α)
  | array elements => elements.mapM read
  | _ => none

def members? : Json → Option (List (String × Json))
  | object members => members.mapM fun (name, value) => name.map fun name => (name, value)
  | _ => none

def fields? (names : List String) (j : Json) : Option (List (Option Json)) :=
  match j with
  | array elements =>
      if elements.length = names.length then some (elements.map some) else none
  | _ => do
      let members ← j.members?
      if names.all fun name => (members.filter fun m => m.1 == name).length ≤ 1 then
        some (names.map fun name => members.lookup name)
      else none

def escape (c : Char) : String :=
  if c == '"' then "\\\""
  else if c == '\\' then "\\\\"
  else if c == '\x08' then "\\b"
  else if c == '\x0c' then "\\f"
  else if c == '\n' then "\\n"
  else if c == '\r' then "\\r"
  else if c == '\t' then "\\t"
  else if c.toNat < 32 then
    "\\u00" ++ String.ofList [Nat.digitChar (c.toNat / 16), Nat.digitChar (c.toNat % 16)]
  else c.toString

def quote (s : String) : String :=
  "\"" ++ String.join (s.toList.map escape) ++ "\""

end Json

end Z80
