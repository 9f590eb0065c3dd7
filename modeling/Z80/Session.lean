import Z80.CommandLine
import Z80.Config.Document
import Z80.Dialogue
import Z80.Listing
import Z80.Report

namespace Z80

inductive SessionError where
  | settings (path : String) (e : ConfigError)
  | openFile (path : String)
  | readFile (path : String)
  | createFile (path : String)
  | writeFile (path : String)
deriving DecidableEq

def SessionError.message : SessionError → String
  | settings path e => "Invalid configuration: " ++ path ++ ": " ++ e.detail
  | openFile path => "Failed to open file: " ++ path
  | readFile path => "Failed to read file: " ++ path
  | createFile path => "Failed to create file: " ++ path
  | writeFile path => "Failed to write file: " ++ path

namespace Session

open Text (Palette)

def fail (palette : Palette) (e : SessionError) : Dialogue :=
  .print (Report.errorRow palette e.message) (.done 1)

def say (o : Options) (lines : List String) (next : Dialogue) : Dialogue :=
  if o.json then next else .printAll lines next

def withConfig (palette : Palette) (o : Options) (next : Config → Dialogue) : Dialogue :=
  match o.config with
  | none => next (o.adjust {})
  | some path => .read path fun
      | .missing | .blocked => fail palette (.openFile path)
      | .unreadable => fail palette (.settings path .malformed)
      | .text s => match Config.ofText s with
          | .ok config => next (o.adjust config)
          | .error e => fail palette (.settings path e)

def withFiles (palette : Palette) (o : Options) :
    List String → (List SourceFile → Dialogue) → Dialogue
  | [], next => next []
  | path :: paths, next =>
      say o ["  < " ++ path] (.read path fun
        | .missing => fail palette (.openFile path)
        | .blocked | .unreadable => fail palette (.readFile path)
        | .text s => withFiles palette o paths fun files => next (⟨path, s⟩ :: files))

def report (palette : Palette) (o : Options) (files : List SourceFile) (ds : List Diagnostic) :
    List String :=
  if o.json then Report.json ds else ds.flatMap (Report.rows palette files)

def summary (palette : Palette) (o : Options) (files : List SourceFile) (assembly : Assembly) :
    List String :=
  (if o.json then Report.json []
    else ["  " ++ palette.green.around (toString assembly.image.size ++ " bytes")]) ++
  (if o.dump then Listing.rows palette files assembly else []) ++
  (if o.symbols then Listing.symbolRows palette assembly.symbols else [])

def writeBinary (palette : Palette) (o : Options) (files : List SourceFile) (assembly : Assembly) :
    Dialogue :=
  .write o.outputPath assembly.image.bytes fun
    | .notCreated => fail palette (.createFile o.outputPath)
    | .notWritten => fail palette (.writeFile o.outputPath)
    | .written => .printAll (summary palette o files assembly) (.done 0)

def assemble (palette : Palette) (o : Options) (seconds : Nat) : Dialogue :=
  withConfig palette o fun config =>
    say o ["Z80 Assembler", "1. Read Files"] (withFiles palette o o.sources fun files =>
      say o ["2. Assemble"] (match config.assemble seconds files with
        | .error ds => .printAll (report palette o files ds) (.done 1)
        | .ok assembly => say o ["3. Write Binary", "  > " ++ o.outputPath]
            (writeBinary palette o files assembly)))

def epoch? (text : String) : Option Nat :=
  match Numeral.value? 10 (Config.dropPlus text.toList) with
  | some n => if n < 18446744073709551616 then some n else none
  | none => none

def run (palette : Palette) (request : CommandLine.Request) (seconds : Nat) : Dialogue :=
  match request with
  | .run o => assemble palette o seconds
  | .help => .printAll CommandLine.helpText (.done 0)
  | .version => .print CommandLine.versionText (.done 0)
  | .rejected _ => .done 2

end Session

end Z80
