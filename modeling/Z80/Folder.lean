namespace Z80

inductive ReadResult where
  | missing
  | blocked
  | unreadable
  | text (s : String)

structure Folder where
  files : List (String × List UInt8)
deriving DecidableEq

inductive Destination where
  | folder
  | file (name : String)
  | missing
  | blocked
deriving DecidableEq

namespace Folder

def nameLimit : Nat :=
  255

def pathLimit : Nat :=
  4095

def find? (folder : Folder) (name : String) : Option (List UInt8) :=
  folder.files.lookup name

def stays (step : String) : Bool :=
  step == "" || step == "."

def leadOutside (steps : List String) : Destination :=
  if steps.all fun step => stays step || step == ".." then .folder else .missing

def leadInside (folder : Folder) : List String → Destination
  | [] => .folder
  | step :: steps =>
      if stays step then folder.leadInside steps
      else if step == ".." then leadOutside steps
      else if nameLimit < step.utf8ByteSize then .blocked
      else if steps.isEmpty then .file step
      else if (folder.find? step).isSome then .blocked
      else .missing

def destination (folder : Folder) (path : String) : Destination :=
  if path == "" then .missing
  else if pathLimit < path.utf8ByteSize then .blocked
  else if path.toList.head? == some '/' then leadOutside (path.splitOn "/")
  else folder.leadInside (path.splitOn "/")

def bytes? (folder : Folder) (path : String) : Option (List UInt8) :=
  match folder.destination path with
  | .file name => folder.find? name
  | _ => none

def read (folder : Folder) (path : String) : ReadResult :=
  match folder.destination path with
  | .folder => .unreadable
  | .missing => .missing
  | .blocked => .blocked
  | .file name => match folder.find? name with
      | some bytes => match String.fromUTF8? (ByteArray.mk bytes.toArray) with
          | some s => .text s
          | none => .unreadable
      | none => .missing

def set (folder : Folder) (name : String) (bytes : List UInt8) : Folder :=
  if (folder.find? name).isSome then
    ⟨folder.files.map fun f => if f.1 == name then (name, bytes) else f⟩
  else ⟨folder.files ++ [(name, bytes)]⟩

def write (folder : Folder) (path : String) (bytes : List UInt8) : Option Folder :=
  match folder.destination path with
  | .file name => some (folder.set name bytes)
  | _ => none

end Folder

end Z80
