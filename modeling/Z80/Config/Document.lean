import Z80.Config.Basic
import Z80.Yaml.Parser

namespace Z80

namespace Yaml

def bool? : Yaml → Option Bool
  | plain s =>
      if s == "true" || s == "True" || s == "TRUE" then some true
      else if s == "false" || s == "False" || s == "FALSE" then some false
      else none
  | _ => none

def radixMarks : List (List Char × Nat) :=
  [(['0', 'x'], 16), (['0', 'o'], 8), (['0', 'b'], 2)]

def markedNat? (cs : List Char) : Option Nat :=
  radixMarks.findSome? fun (mark, radix) => (Numeral.after? mark cs).bind (Numeral.value? radix)

def decimalNat? (cs : List Char) : Option Nat :=
  match cs with
  | '0' :: _ :: _ => none
  | _ => Numeral.value? 10 cs

def unsigned? (cs : List Char) : Option Nat :=
  (markedNat? cs).or (decimalNat? cs)

def nat? : Yaml → Option Nat
  | plain s => unsigned? (Config.dropPlus s.toList)
  | _ => none

def int? : Yaml → Option Int
  | plain s => match s.toList with
      | '-' :: cs => (unsigned? cs).map fun n => -(n : Int)
      | cs => (unsigned? (Config.dropPlus cs)).map fun n => (n : Int)
  | _ => none

end Yaml

namespace Config

def defineOfYaml? (v : Yaml) : Option Int32 :=
  match v.int? with
  | some n => if -2147483648 ≤ n ∧ n ≤ 2147483647 then some (Int32.ofInt n) else none
  | none => none

def definesOfYaml? : Yaml → Option (List (String × Int32))
  | .empty => some []
  | .mapping members => members.foldlM (fun defines (name, v) =>
      (defineOfYaml? v).map fun value => setDefine defines name value) []
  | _ => none

def setMember (config : Config) (member : String × Yaml) : Option Config :=
  let (name, v) := member
  if name == "allow_undocumented" then
    v.bool?.map fun b => { config with allowUndocumented := b }
  else if name == "start_address" then
    match v.nat? with
    | some n => if n < 65536 then some { config with startAddress := UInt16.ofNat n } else none
    | none => none
  else if name == "defines" then
    (definesOfYaml? v).map fun defines => { config with defines := defines }
  else none

def ofYaml? : Yaml → Option Config
  | .empty => some {}
  | .mapping members =>
      if (members.map Prod.fst).Nodup then members.foldlM setMember {} else none
  | _ => none

def ofText (text : String) : Except ConfigError Config :=
  match (Yaml.parse text).bind ofYaml? with
  | some config => .ok config
  | none => .error .malformed

end Config

end Z80
