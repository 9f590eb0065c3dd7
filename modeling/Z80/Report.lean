import Z80.Diagnostic
import Z80.Json.Basic
import Z80.Text
import Z80.Text.Style

namespace Z80.Report

open Text (Palette)

def sourceLine (files : List SourceFile) (name : String) (line : Nat) : String :=
  match files.reverse.find? fun f => f.name == name with
  | some f => if line = 0 then "" else ((Text.lines f.text)[line - 1]?).getD ""
  | none => ""

def errorRow (palette : Palette) (message : String) : String :=
  palette.alarm.around "error" ++ ": " ++ message

def margin (palette : Palette) : String :=
  "      " ++ palette.blue.around "|"

def rows (palette : Palette) (files : List SourceFile) (d : Diagnostic) : List String :=
  [errorRow palette d.message,
   "     " ++ palette.blue.around "-->" ++ " " ++
     palette.underlined.around (d.file ++ ":" ++ toString d.line),
   margin palette,
   " " ++ palette.blue.around (Text.padLeft 4 ' ' (toString d.line) ++ " |") ++ " " ++
     sourceLine files d.file d.line,
   margin palette]

def jsonMembers (d : Diagnostic) : List String :=
  ["    \"file\": " ++ Json.quote d.file ++ ",",
   "    \"line\": " ++ toString d.line ++ ",",
   "    \"kind\": " ++ Json.quote d.kind.name ++ ",",
   "    \"message\": " ++ Json.quote d.message]

def jsonElements : List Diagnostic → List String
  | [] => []
  | [d] => ["  \x7b"] ++ jsonMembers d ++ ["  \x7d"]
  | d :: ds => ["  \x7b"] ++ jsonMembers d ++ ["  \x7d,"] ++ jsonElements ds

def json (ds : List Diagnostic) : List String :=
  if ds.isEmpty then ["[]"] else ["["] ++ jsonElements ds ++ ["]"]

end Z80.Report
