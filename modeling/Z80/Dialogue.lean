import Z80.Folder

namespace Z80

inductive WriteResult where
  | notCreated
  | notWritten
  | written

inductive Dialogue where
  | done (code : UInt8)
  | print (line : String) (next : Dialogue)
  | read (path : String) (next : ReadResult → Dialogue)
  | write (path : String) (bytes : List UInt8) (next : WriteResult → Dialogue)

def Dialogue.printAll (lines : List String) (next : Dialogue) : Dialogue :=
  lines.foldr .print next

structure Transcript where
  code : UInt8
  lines : List String
  folder : Folder
deriving DecidableEq

def Dialogue.play (folder : Folder) : Dialogue → Transcript
  | done code => ⟨code, [], folder⟩
  | print line next =>
      let t := next.play folder
      { t with lines := line :: t.lines }
  | read path next => (next (folder.read path)).play folder
  | write path bytes next => match folder.write path bytes with
      | some folder => (next .written).play folder
      | none => (next .notCreated).play folder

end Z80
