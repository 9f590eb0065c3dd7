import Z80.Config.Basic
import Z80.Diagnostic
import Z80.Encoding
import Z80.Image
import Z80.InstructionSet.Builtin
import Z80.Text

namespace Z80

structure Writing where
  image : Image
  errors : List (Location × Error)
  address : Nat
  fixups : List Fixup
deriving DecidableEq

namespace Writing

def start (address : UInt16) (fixups : List Fixup) : Writing where
  image := Image.empty
  errors := []
  address := address.toNat
  fixups := fixups

def fail (w : Writing) (loc : Location) (e : Error) : Writing :=
  { w with errors := w.errors ++ [(loc, e)] }

def checkAddress (w : Writing) (line : PlannedLine) : Writing :=
  if w.address = line.address then w
  else w.fail line.location (.ambiguousEncoding (.start w.address line.address))

def emit (w : Writing) (line : PlannedLine) : Except Error (List UInt8) → Writing
  | .error e => w.fail line.location e
  | .ok bytes =>
      if bytes.length = line.size then
        { w with image := w.image.emit line.location line.here bytes }
      else w.fail line.location (.ambiguousEncoding (.size line.size bytes.length))

def step (symbols : Symbols) (stamp : BuildStamp) (w : Writing) (line : PlannedLine × Nat) :
    Writing :=
  let own := w.fixups.takeWhile fun f => f.line == line.2
  let written := (w.checkAddress line.1).emit line.1 (line.1.encode symbols stamp own)
  { written with
    address := line.1.next
    fixups := w.fixups.dropWhile fun f => f.line == line.2 }

end Writing

structure Assembly where
  image : Image
  symbols : Symbols
  addresses : List (Location × UInt16)
deriving DecidableEq

def sourceLines (files : List SourceFile) : List (Location × String) :=
  files.zipIdx.flatMap fun (f, i) =>
    (Text.lines f.text).zipIdx.map fun (line, n) => (⟨i, n + 1⟩, line)

def readLines (files : List SourceFile) : List (Location × Except Error Line) :=
  (sourceLines files).map fun (loc, line) => (loc, Line.parse line)

def Layout.write (layout : Layout) (address : UInt16) (stamp : BuildStamp) : Writing :=
  layout.planned.zipIdx.foldl (Writing.step layout.symbols stamp)
    (Writing.start address layout.fixups)

namespace Config

def environment (config : Config) (stamp : BuildStamp) : Environment where
  instructionSet := InstructionSet.builtin
  allowUndocumented := config.allowUndocumented
  stamp := stamp

def layout (config : Config) (stamp : BuildStamp) (source : List (Location × Except Error Line)) :
    Layout :=
  Layout.ofLines (config.environment stamp) (Layout.start config.startAddress config.defines) source

def assembleLines (config : Config) (stamp : BuildStamp)
    (source : List (Location × Except Error Line)) :
    Except (List (Location × Error)) Assembly :=
  let layout := config.layout stamp source
  if layout.errors.isEmpty then
    let writing := layout.write config.startAddress stamp
    if writing.errors.isEmpty then .ok ⟨writing.image, layout.symbols, layout.addresses⟩
    else .error writing.errors
  else .error (layout.errors.mergeSort fun x y => x.1.le y.1)

def assemble (config : Config) (seconds : Nat) (files : List SourceFile) :
    Except (List Diagnostic) Assembly :=
  let stamp := BuildStamp.ofSeconds seconds (files.map SourceFile.name)
  (config.assembleLines stamp (readLines files)).mapError fun errors =>
    errors.map fun (loc, e) => Diagnostic.ofError files loc e

def assembleText (config : Config) (seconds : Nat) (text : String) :
    Except (List Diagnostic) Assembly :=
  config.assemble seconds [⟨"<input>", text⟩]

end Config

end Z80
