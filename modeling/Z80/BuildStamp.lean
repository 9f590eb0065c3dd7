import Z80.Calendar
import Z80.Statement.Basic

namespace Z80

structure BuildStamp where
  date : String
  time : String
  files : List String
deriving DecidableEq

namespace BuildStamp

def ofSeconds (seconds : Nat) (files : List String) : BuildStamp where
  date := (Date.ofDays (seconds / 86400)).text
  time := clockText (seconds % 86400)
  files := files

def text (stamp : BuildStamp) (loc : Location) : Predefined → String
  | .date => stamp.date
  | .time => stamp.time
  | .file => (stamp.files[loc.file]?).getD ""
  | .line => toString loc.line

def bytes (stamp : BuildStamp) (loc : Location) (p : Predefined) : List UInt8 :=
  (stamp.text loc p).toList.flatMap String.utf8EncodeChar

end BuildStamp

end Z80
