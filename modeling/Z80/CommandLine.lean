import Z80.Config.Basic

namespace Z80

inductive LogLevel where
  | error | warn | info | debug | trace
deriving DecidableEq

namespace LogLevel

def all : List LogLevel :=
  [error, warn, info, debug, trace]

def name : LogLevel → String
  | error => "error"
  | warn => "warn"
  | info => "info"
  | debug => "debug"
  | trace => "trace"

def ofText? (s : String) : Option LogLevel :=
  match Numeral.value? 10 (Config.dropPlus s.toList) with
  | some 0 => none
  | some (n + 1) => all[n]?
  | none => all.find? fun level => level.name == Text.lower s

end LogLevel

structure Options where
  inputs : List String := []
  output : Option String := none
  dump : Bool := false
  symbols : Bool := false
  json : Bool := false
  config : Option String := none
  noUndocumented : Bool := false
  origin : Option UInt16 := none
  defines : List (String × Int32) := []
  logLevel : Option LogLevel := none
deriving DecidableEq

namespace Options

def sources (o : Options) : List String :=
  if o.inputs.isEmpty then ["main.z80"] else o.inputs

def outputPath (o : Options) : String :=
  o.output.getD "out.bin"

def adjust (o : Options) (config : Config) : Config :=
  let config := if o.noUndocumented then { config with allowUndocumented := false } else config
  let config := match o.origin with
    | some address => { config with startAddress := address }
    | none => config
  o.defines.foldl (fun config d => config.define d.1 d.2) config

end Options

namespace CommandLine

inductive Flag where
  | dump | symbols | json | noUndocumented | help | version
deriving DecidableEq

inductive Setting where
  | output | config | origin | define | logLevel
deriving DecidableEq

inductive Switch where
  | flag (f : Flag)
  | setting (s : Setting)
deriving DecidableEq

def longNames : List (String × Switch) :=
  [("output", .setting .output), ("dump", .flag .dump), ("symbols", .flag .symbols),
   ("json", .flag .json), ("config", .setting .config), ("no-undocumented", .flag .noUndocumented),
   ("origin", .setting .origin), ("log-level", .setting .logLevel), ("help", .flag .help),
   ("version", .flag .version)]

def shortNames : List (Char × Switch) :=
  [('o', .setting .output), ('d', .flag .dump), ('D', .setting .define), ('h', .flag .help),
   ('V', .flag .version)]

inductive Fault where
  | unknownOption (text : String)
  | repeatedOption
  | unneededValue
  | missingValue
  | badValue (text : String)
deriving DecidableEq

def Fault.message : Fault → String
  | unknownOption text => "unexpected argument '" ++ text ++ "'"
  | repeatedOption => "an option is given more than once"
  | unneededValue => "a flag takes no value"
  | missingValue => "an option lacks its value"
  | badValue text => "invalid value '" ++ text ++ "'"

inductive Request where
  | run (o : Options)
  | help
  | version
  | rejected (fault : Fault)
deriving DecidableEq

inductive Progress where
  | further (o : Options) (pending : Option Setting)
  | stop (request : Request)
deriving DecidableEq

def reject (fault : Fault) : Progress :=
  .stop (.rejected fault)

def raise (o : Options) : Flag → Progress
  | .dump => if o.dump then reject .repeatedOption else .further { o with dump := true } none
  | .symbols =>
      if o.symbols then reject .repeatedOption else .further { o with symbols := true } none
  | .json => if o.json then reject .repeatedOption else .further { o with json := true } none
  | .noUndocumented =>
      if o.noUndocumented then reject .repeatedOption
      else .further { o with noUndocumented := true } none
  | .help => .stop .help
  | .version => .stop .version

def readOrigin (value : String) : Option UInt16 :=
  match Config.readNumber value with
  | .ok n => if n.toNat < 65536 then some n.toUInt16 else none
  | .error _ => none

def set (o : Options) (setting : Setting) (value : String) : Progress :=
  match setting with
  | .output =>
      if o.output.isSome then reject .repeatedOption
      else .further { o with output := some value } none
  | .config =>
      if o.config.isSome then reject .repeatedOption
      else .further { o with config := some value } none
  | .origin =>
      if o.origin.isSome then reject .repeatedOption
      else match readOrigin value with
        | some address => .further { o with origin := some address } none
        | none => reject (.badValue value)
  | .define => match Config.readDefine value with
      | .ok d => .further { o with defines := o.defines ++ [d] } none
      | .error _ => reject (.badValue value)
  | .logLevel =>
      if o.logLevel.isSome then reject .repeatedOption
      else match LogLevel.ofText? value with
        | some level => .further { o with logLevel := some level } none
        | none => reject (.badValue value)

def long (o : Options) (name : String) (value : Option String) : Progress :=
  match longNames.lookup name, value with
  | some (.flag f), none => raise o f
  | some (.flag _), some _ => reject .unneededValue
  | some (.setting s), none => .further o (some s)
  | some (.setting s), some value => set o s value
  | none, _ => reject (.unknownOption ("--" ++ name))

def shorts (o : Options) : List Char → Progress
  | [] => .further o none
  | c :: cs => match shortNames.lookup c with
      | none => reject (.unknownOption ("-" ++ c.toString))
      | some (.flag f) => match raise o f with
          | .further o _ => shorts o cs
          | .stop request => .stop request
      | some (.setting s) => match cs with
          | [] => .further o (some s)
          | '=' :: value => set o s (String.ofList value)
          | value => set o s (String.ofList value)

def isOption : List Char → Bool
  | '-' :: _ :: _ => true
  | _ => false

def take (o : Options) (arg : String) : Progress :=
  match arg.toList with
  | '-' :: '-' :: cs =>
      let name := String.ofList (cs.takeWhile (· != '='))
      match cs.dropWhile (· != '=') with
      | _ :: value => long o name (some (String.ofList value))
      | [] => long o name none
  | '-' :: c :: cs => shorts o (c :: cs)
  | _ => .further { o with inputs := o.inputs ++ [arg] } none

def readFrom : Options → Option Setting → List String → Request
  | o, none, [] => .run o
  | _, some _, [] => .rejected .missingValue
  | o, pending, arg :: args =>
      match pending with
      | some s =>
          if isOption arg.toList then .rejected .missingValue
          else match set o s arg with
            | .further o pending => readFrom o pending args
            | .stop request => request
      | none =>
          if arg = "--" then .run { o with inputs := o.inputs ++ args }
          else match take o arg with
            | .further o pending => readFrom o pending args
            | .stop request => request

def read (args : List String) : Request :=
  readFrom {} none args

def versionText : String :=
  "z80asm 0.1.0"

def helpText : List String :=
  [versionText,
   "  Two-pass assembler for the Z80",
   "",
   "Usage:",
   "  z80asm [OPTIONS] [INPUT]...",
   "",
   "  [INPUT]...               source files, assembled in order as one program (main.z80)",
   "  -o, --output <OUTPUT>    output file (out.bin)",
   "  -d, --dump               print the listing",
   "      --symbols            print the symbol table",
   "      --json               print diagnostics as JSON",
   "      --config <CONFIG>    settings in YAML",
   "      --no-undocumented    reject undocumented instructions",
   "      --origin <ORIGIN>    address of the first line (0x8000, $8000, 8000h or decimal)",
   "  -D <NAME=value>          constant that is defined before the first line",
   "      --log-level <LEVEL>  one of TRACE, DEBUG, INFO, WARN or ERROR",
   "  -h, --help               print help",
   "  -V, --version            print version"]

end CommandLine

end Z80
