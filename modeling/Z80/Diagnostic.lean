import Z80.Error
import Z80.Statement.Basic

namespace Z80

structure SourceFile where
  name : String
  text : String
deriving DecidableEq

structure Diagnostic where
  file : String
  line : Nat
  kind : ErrorKind
  message : String
deriving DecidableEq

def Diagnostic.ofError (files : List SourceFile) (loc : Location) (e : Error) : Diagnostic where
  file := match files[loc.file]? with
    | some f => f.name
    | none => ""
  line := loc.line
  kind := e.kind
  message := e.message

end Z80
