import Z80.Numeral
import Z80.Text

namespace Z80

structure Config where
  allowUndocumented : Bool := true
  startAddress : UInt16 := 0
  defines : List (String × Int32) := []
deriving DecidableEq

inductive ConfigError where
  | invalidName (name : String)
  | invalidNumber (text : String)
  | malformed
deriving DecidableEq

namespace ConfigError

def detail : ConfigError → String
  | invalidName name => s!"invalid symbol name `{name}`"
  | invalidNumber text => s!"invalid number `{text}`"
  | malformed => "malformed document"

def message (e : ConfigError) : String :=
  "Invalid configuration: " ++ e.detail

end ConfigError

def setDefine (defines : List (String × Int32)) (name : String) (value : Int32) :
    List (String × Int32) :=
  if defines.any fun d => d.1 == name then
    defines.map fun d => if d.1 == name then (name, value) else d
  else defines ++ [(name, value)]

namespace Config

def define (config : Config) (name : String) (value : Int32) : Config :=
  { config with defines := setDefine config.defines name value }

def unmark (cs : List Char) : Nat × List Char :=
  match cs with
  | '0' :: 'x' :: digits => (16, digits)
  | '$' :: digits => (16, digits)
  | '0' :: 'b' :: digits => (2, digits)
  | '%' :: digits => (2, digits)
  | _ => match Numeral.before? 'h' cs with
      | some digits => (16, digits)
      | none => (10, cs)

def dropPlus : List Char → List Char
  | '+' :: cs => cs
  | cs => cs

def readNumber (text : String) : Except ConfigError UInt32 :=
  let (radix, digits) := unmark ((Text.trim text.toList).map Char.toLower)
  match Numeral.word? radix (dropPlus digits) with
  | some n => .ok n
  | none => .error (.invalidNumber text)

def readDefine (text : String) : Except ConfigError (String × Int32) :=
  let cs := text.toList
  let name := Text.trim (cs.takeWhile (· != '='))
  let value := match cs.dropWhile (· != '=') with
    | _ :: value => Text.trim value
    | [] => ['1']
  if Text.isName name then do
    let n ← readNumber (String.ofList value)
    return (String.ofList name, n.toInt32)
  else .error (.invalidName (String.ofList name))

end Config

end Z80
