import Z80.Assembly
import Z80.Text.Style

namespace Z80.Listing

open Text (Palette)

def chunks : List UInt8 → List (List UInt8)
  | [] => []
  | a :: b :: c :: d :: rest => [a, b, c, d] :: chunks rest
  | rest => [rest]

def hexBytes (bytes : List UInt8) : String :=
  " ".intercalate (bytes.map fun b => Text.hexUpper 2 b.toNat)

def dashes (n : Nat) : String :=
  String.ofList (List.replicate n '-')

def header (name : String) : String :=
  dashes 19 ++ "+------[" ++ name ++ "]" ++ dashes (45 - name.utf8ByteSize)

def footer : String :=
  dashes 19 ++ "+" ++ dashes 53

def columns (palette : Palette) (address : UInt16) (bytes : List UInt8) : String :=
  "[" ++ palette.cyan.around (Text.hexUpper 4 address.toNat) ++ "] " ++
    Text.padRight 11 (hexBytes bytes) ++ " |"

def lineRow (palette : Palette) (address : UInt16) (bytes : List UInt8) (line : Nat)
    (source : String) : String :=
  columns palette address bytes ++ " " ++ Text.padLeft 4 ' ' (toString line) ++ ": " ++ source

def moreRows (palette : Palette) : UInt16 → List (List UInt8) → List String
  | _, [] => []
  | address, chunk :: rest => columns palette address chunk :: moreRows palette (address + 4) rest

def lineRows (palette : Palette) (address : UInt16) (bytes : List UInt8) (line : Nat)
    (source : String) : List String :=
  match chunks bytes with
  | [] => [lineRow palette address [] line source]
  | chunk :: rest =>
      lineRow palette address chunk line source :: moreRows palette (address + 4) rest

abbrev Source := String × List String

def sources (files : List SourceFile) : List Source :=
  files.map fun f => (f.name, Text.lines f.text)

def sourceName (sources : List Source) (file : Nat) : String :=
  match sources[file]? with
  | some s => s.1
  | none => ""

def sourceLine (sources : List Source) (loc : Location) : String :=
  match sources[loc.file]? with
  | some s => (s.2[loc.line - 1]?).getD ""
  | none => ""

def rowsFrom (palette : Palette) (sources : List Source) (image : Image) :
    Option Nat → List (Location × UInt16) → List String
  | _, [] => []
  | file, (loc, address) :: rest =>
      (if file = some loc.file then [] else [header (sourceName sources loc.file)]) ++
        lineRows palette address ((image.lineBytes? loc).getD []) loc.line
          (sourceLine sources loc) ++
        rowsFrom palette sources image (some loc.file) rest

def rows (palette : Palette) (files : List SourceFile) (assembly : Assembly) : List String :=
  rowsFrom palette (sources files) assembly.image none assembly.addresses ++ [footer]

def symbolValue (s : Symbol) : String :=
  match s.value? with
  | some v => Text.hexUpper 4 (v.toInt % 65536).toNat
  | none => "????"

def symbolName (palette : Palette) (s : Symbol) : String :=
  match s.kind with
  | .label => palette.green.around (s.name ++ ":")
  | .constant => palette.yellow.around ("#" ++ s.name)

def symbolScope (s : Symbol) : String :=
  match s.scope with
  | some n => s!" (local {n})"
  | none => ""

def symbolOrigin (s : Symbol) : String :=
  if s.definedAt.line = 0 then "predefined" else "line " ++ toString s.definedAt.line

def symbolRow (palette : Palette) (s : Symbol) : String :=
  symbolValue s ++ " " ++ symbolName palette s ++ symbolScope s ++ "  " ++ symbolOrigin s

def symbolRows (palette : Palette) (symbols : Symbols) : List String :=
  symbols.toList.map (symbolRow palette)

end Z80.Listing
