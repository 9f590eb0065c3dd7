import Z80.Pattern

namespace Z80

inductive OpcodeItem where
  | byte (b : UInt8)
  | slot (p : Placeholder)
deriving DecidableEq

namespace OpcodeItem

def width : OpcodeItem → Nat
  | byte _ => 1
  | slot p => p.width

def placeholder? : OpcodeItem → Option Placeholder
  | byte _ => none
  | slot p => some p

def byte? : OpcodeItem → Option UInt8
  | byte b => some b
  | slot _ => none

end OpcodeItem

structure Datasheet where
  opcodes : String
  undocumented : Bool
  flags : String
  byteCount : Nat
  clocks : Nat
  clocksSkipped : Nat
  description : String
  instruction : String
deriving DecidableEq

structure Variant where
  pattern : List PatternToken
  opcode : List OpcodeItem
  datasheet : Option Datasheet
deriving DecidableEq

def templateSize : List OpcodeItem → Nat
  | [] => 0
  | item :: opcode => item.width + templateSize opcode

def patternSpelling (mnemonic : String) (pattern : List PatternToken) : String :=
  if pattern.isEmpty then mnemonic else mnemonic ++ " " ++ patternText pattern

namespace Variant

def documented (v : Variant) : Bool :=
  match v.datasheet with
  | some d => !d.undocumented
  | none => true

def synthetic (v : Variant) : Bool :=
  v.datasheet.isNone

def byteCount (v : Variant) : Nat :=
  templateSize v.opcode

def placeholders (v : Variant) : List Placeholder :=
  v.opcode.filterMap OpcodeItem.placeholder?

def patternPlaceholders (v : Variant) : List Placeholder :=
  v.pattern.filterMap PatternToken.placeholder?

def literalBytes (v : Variant) : List UInt8 :=
  v.opcode.filterMap OpcodeItem.byte?

def operands (v : Variant) : String :=
  patternText v.pattern

def spelling (v : Variant) (mnemonic : String) : String :=
  patternSpelling mnemonic v.pattern

end Variant

end Z80
