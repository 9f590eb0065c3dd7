import Z80.Layout

namespace Z80

def littleEndian : Nat → Int → List UInt8
  | 0, _ => []
  | n + 1, v => UInt8.ofNat (v % 256).toNat :: littleEndian n (v / 256)

namespace Placeholder

def check (p : Placeholder) (value : Int32) : Except Error Unit :=
  if p.accepts value.toInt then .ok () else .error (.operandOutOfRange value.toInt p)

def encode (p : Placeholder) (value : Int32) (next : Nat) : Except Error (List UInt8) :=
  match p with
  | .imm8 | .imm16 | .disp8 => do
      p.check value
      return littleEndian p.width value.toInt
  | .branch =>
      let distance := value.toInt - next
      if p.accepts distance then .ok (littleEndian p.width distance)
      else .error (.branchOutOfRange distance)

end Placeholder

def OpcodeItem.blank : OpcodeItem → List UInt8
  | byte b => [b]
  | slot p => List.replicate p.width 0

def Variant.template (v : Variant) : List UInt8 :=
  v.opcode.flatMap OpcodeItem.blank

def overwrite (offset : Nat) (data bytes : List UInt8) : List UInt8 :=
  bytes.take offset ++ data ++ bytes.drop (offset + data.length)

def putOperand (next : Nat) (bytes : List UInt8) (offset : Nat) (p : Placeholder) (value : Int32) :
    Except Error (List UInt8) := do
  let data ← p.encode value next
  return overwrite offset data bytes

def putSlots (next : Nat) : List UInt8 → List Slot → Except Error (List UInt8)
  | bytes, [] => .ok bytes
  | bytes, slot :: slots => match slot.value? with
      | none => putSlots next bytes slots
      | some v => do
          let bytes ← putOperand next bytes slot.offset slot.placeholder v
          putSlots next bytes slots

def putFixups (ctx : Context) (next : Nat) : List UInt8 → List Fixup → Except Error (List UInt8)
  | bytes, [] => .ok bytes
  | bytes, fixup :: fixups => do
      let v ← fixup.expr.value ctx
      let bytes ← putOperand next bytes fixup.offset fixup.placeholder v
      putFixups ctx next bytes fixups

def encodeInstruction (ctx : Context) (next : Nat) (variant : Variant) (slots : List Slot)
    (fixups : List Fixup) : Except Error (List UInt8) := do
  let bytes ← putSlots next variant.template slots
  putFixups ctx next bytes fixups

def byteValue (value : Int32) : Except Error UInt8 := do
  Placeholder.imm8.check value
  return UInt8.ofNat (value.toInt % 256).toNat

def DataWidth.encode (width : DataWidth) (value : Int32) : Except Error (List UInt8) :=
  match width with
  | .byte => do
      Placeholder.imm8.check value
      return littleEndian 1 value.toInt
  | .word => do
      Placeholder.imm16.check value
      return littleEndian 2 value.toInt
  | .long => .ok (littleEndian 4 value.toInt)

def adjustLast (ctx : Context) (bytes : List UInt8) (op : BinaryOp) (e : Expr) :
    Except Error (List UInt8) :=
  match bytes.getLast? with
  | none => .error (.syntactic .emptyAdjusted)
  | some last => do
      let v ← (Expr.binary op (.number (Int32.ofNat last.toNat)) e).value ctx
      let b ← byteValue v
      return bytes.dropLast ++ [b]

def appendItem (ctx : Context) (stamp : BuildStamp) (loc : Location) (width : DataWidth)
    (bytes : List UInt8) : DataItem → Except Error (List UInt8)
  | .expr e => do
      let v ← e.value ctx
      let data ← width.encode v
      return bytes ++ data
  | .text text none => .ok (bytes ++ text)
  | .text text (some (op, e)) => adjustLast ctx (bytes ++ text) op e
  | .predefined p => .ok (bytes ++ stamp.bytes loc p)

def appendItems (ctx : Context) (stamp : BuildStamp) (loc : Location) (width : DataWidth) :
    List UInt8 → List DataItem → Except Error (List UInt8)
  | bytes, [] => .ok bytes
  | bytes, item :: items => do
      let bytes ← appendItem ctx stamp loc width bytes item
      appendItems ctx stamp loc width bytes items

def encodeData (ctx : Context) (stamp : BuildStamp) (loc : Location) (width : DataWidth)
    (items : List DataItem) : Except Error (List UInt8) :=
  appendItems ctx stamp loc width [] items

def encodeFill (ctx : Context) (count : Nat) (fill : Option Expr) (default : UInt8) :
    Except Error (List UInt8) :=
  match fill with
  | none => .ok (List.replicate count default)
  | some e => do
      let v ← e.value ctx
      let b ← byteValue v
      return List.replicate count b

namespace PlannedLine

def here (line : PlannedLine) : UInt16 :=
  UInt16.ofNat line.address

def encode (line : PlannedLine) (symbols : Symbols) (stamp : BuildStamp) (fixups : List Fixup) :
    Except Error (List UInt8) :=
  let ctx := symbols.context line.scope line.here
  match line.item with
  | .instruction selection slots =>
      encodeInstruction ctx line.stop selection.variant slots fixups
  | .data width items => encodeData ctx stamp line.location width items
  | .fill count fill default => encodeFill ctx count fill default
  | .org _ => .ok []

end PlannedLine

end Z80
