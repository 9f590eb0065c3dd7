import Std.Time.DateTime.Timestamp
import Z80.Session

namespace Z80

def readText (handle : IO.FS.Handle) : IO ReadResult := do
  try
    let bytes ← handle.readBinToEnd
    match String.fromUTF8? bytes with
    | some s => return .text s
    | none => return .unreadable
  catch _ => return .unreadable

def readFile (path : String) : IO ReadResult := do
  try
    let handle ← IO.FS.Handle.mk path .read
    readText handle
  catch e => match e with
    | .noFileOrDirectory _ _ _ => return .missing
    | _ => return .blocked

def writeBytes (handle : IO.FS.Handle) (bytes : List UInt8) : IO WriteResult := do
  try
    handle.write (ByteArray.mk bytes.toArray)
    return .written
  catch _ => return .notWritten

def writeFile (path : String) (bytes : List UInt8) : IO WriteResult := do
  try
    let handle ← IO.FS.Handle.mk path .write
    writeBytes handle bytes
  catch _ => return .notCreated

def Dialogue.hold : Dialogue → IO UInt8
  | done code => return code
  | print line next => do
      IO.println line
      next.hold
  | read path next => do
      let result ← readFile path
      (next result).hold
  | write path bytes next => do
      let result ← writeFile path bytes
      (next result).hold

def now : IO Nat := do
  match (← IO.getEnv "SOURCE_DATE_EPOCH").bind Session.epoch? with
  | some seconds => return seconds
  | none =>
      let stamp ← Std.Time.Timestamp.now
      return stamp.toSecondsSinceUnixEpoch.val.toNat

end Z80

def main (args : List String) : IO UInt32 := do
  let request := Z80.CommandLine.read args
  if let .rejected fault := request then
    IO.eprintln ("error: " ++ fault.message)
  let seconds ← Z80.now
  let code ← (Z80.Session.run .terminal request seconds).hold
  return code.toUInt32
