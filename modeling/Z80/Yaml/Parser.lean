import Z80.Yaml.Token

namespace Z80

inductive Yaml where
  | empty
  | plain (s : String)
  | quoted (s : String)
  | mapping (members : List (String × Yaml))

namespace Yaml

abbrev Reader (α : Type) := List Token → Option (α × List Token)

def readBlock (value : Reader Yaml) : Nat → Reader (List (String × Yaml))
  | 0, _ => none
  | n + 1, t :: ts => match t with
      | .closeBlock => some ([], ts)
      | .name s => do
          let (v, rest) ← value ts
          let (members, rest) ← readBlock value n rest
          return ((s, v) :: members, rest)
      | _ => none
  | _ + 1, [] => none

def readMember (value : Reader Yaml) : Reader (String × Yaml)
  | .name s :: ts => do
      let (v, rest) ← value ts
      return ((s, v), rest)
  | .plain s :: ts => some ((s, empty), ts)
  | .quoted s :: ts => some ((s, empty), ts)
  | _ => none

def readBraces (value : Reader Yaml) : Nat → Reader (List (String × Yaml))
  | 0, _ => none
  | _ + 1, .closeBrace :: ts => some ([], ts)
  | n + 1, ts => do
      let (member, rest) ← readMember value ts
      match rest with
      | .closeBrace :: rest => return ([member], rest)
      | .comma :: rest => do
          let (members, rest) ← readBraces value n rest
          return (member :: members, rest)
      | _ => none

def readValue : Nat → Reader Yaml
  | 0, _ => none
  | n + 1, ts => match ts with
      | .plain s :: ts => some (plain s, ts)
      | .quoted s :: ts => some (quoted s, ts)
      | .openBlock :: ts => do
          let (members, rest) ← readBlock (readValue n) ts.length ts
          return (mapping members, rest)
      | .openBrace :: ts => do
          let (members, rest) ← readBraces (readValue n) ts.length ts
          return (mapping members, rest)
      | ts => some (empty, ts)

def ofTokens (ts : List Token) : Option Yaml := do
  let content ← match ts with
    | .documentStart :: ts => some ts
    | .documentEnd :: _ => none
    | ts => some ts
  let (root, rest) ← readValue (content.length + 1) content
  if rest.all (· == .documentEnd) then some root else none

def parse (text : String) : Option Yaml :=
  (scan text).bind ofTokens

end Yaml

end Z80
