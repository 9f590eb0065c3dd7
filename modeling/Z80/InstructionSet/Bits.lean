import Z80.InstructionSet.Form

namespace Z80.Bits

open Operand

structure Rotation where
  mnemonic : String
  opcode : Nat
  undocumented : Bool
  describe : String → String

def moved (how out into : String) (o : String) : String :=
  "The contents of " ++ o ++ " are " ++ how ++ " one bit position. The contents of bit " ++ out ++
  " are copied to the carry flag and " ++ into ++ "."

def leftRound : String → String :=
  moved "rotated left" "7" "bit 0"

def rightRound : String → String :=
  moved "rotated right" "0" "bit 7"

def leftThrough : String → String :=
  moved "rotated left" "7" "the previous contents of the carry flag are copied to bit 0"

def rightThrough : String → String :=
  moved "rotated right" "0" "the previous contents of the carry flag are copied to bit 7"

def stored (text : String) (k : Keyword) : String :=
  text ++ " The result is then stored in " ++ (reg k).shown ++ "."

namespace Rotation

def form (r : Rotation) (operands : List Operand) (opcode : List OpcodeItem) (clocks : Nat)
    (description : String) : Form :=
  ⟨operands, opcode, r.undocumented, "+0P0++", clocks, clocks, description⟩

def onSelected (r : Rotation) : List Variant :=
  selected.map fun (j, o) =>
    (r.form [o] (template [0xCB, r.opcode + j] []) (if j == 6 then 15 else 8)
      (r.describe o.shown)).variant r.mnemonic

def onIndex (r : Rotation) (x : Index) : Variant :=
  (r.form [x.memory] (x.bitOpcode (r.opcode + 6)) 23 (r.describe x.memory.shown)).variant r.mnemonic

def storing (r : Rotation) (x : Index) : List Variant :=
  selectedRegs.map fun (j, k) =>
    (r.form [x.memory, reg k] (x.bitOpcode (r.opcode + j)) 23
      (stored (r.describe x.memory.shown) k)).hidden.variant r.mnemonic

def variants (r : Rotation) : List Variant :=
  r.onSelected ++ [r.onIndex .ix, r.onIndex .iy] ++ r.storing .ix ++ r.storing .iy

end Rotation

def rlc : List Variant :=
  Rotation.variants ⟨"rlc", 0x00, false, leftRound⟩

def rrc : List Variant :=
  Rotation.variants ⟨"rrc", 0x08, false, rightRound⟩

def rl : List Variant :=
  Rotation.variants ⟨"rl", 0x10, false, leftThrough⟩

def rr : List Variant :=
  Rotation.variants ⟨"rr", 0x18, false, rightThrough⟩

def sla : List Variant :=
  Rotation.variants ⟨"sla", 0x20, false, moved "shifted left" "7" "a zero is put into bit 0"⟩

def sra : List Variant :=
  Rotation.variants
    ⟨"sra", 0x28, false, moved "shifted right" "0" "the previous contents of bit 7 are unchanged"⟩

def sll : List Variant :=
  Rotation.variants ⟨"sll", 0x30, true, moved "shifted left" "7" "a one is put into bit 0"⟩

def srl : List Variant :=
  Rotation.variants ⟨"srl", 0x38, false, moved "shifted right" "0" "a zero is put into bit 7"⟩

structure BitOperation where
  mnemonic : String
  opcode : Nat
  flags : String
  verb : String
  memoryClocks : Nat
  indexClocks : Nat

namespace BitOperation

def describe (op : BitOperation) (n : Nat) (o : Operand) : String :=
  op.verb ++ " bit " ++ toString n ++ " of " ++ o.shown ++ "."

def onSelected (op : BitOperation) : List Variant :=
  (List.range 8).flatMap fun n => selected.map fun (j, o) =>
    (Form.plain [number n, o] [0xCB, op.opcode + 8 * n + j] op.flags
      (if j == 6 then op.memoryClocks else 8) (op.describe n o)).variant op.mnemonic

def onIndex (op : BitOperation) (x : Index) : List Variant :=
  (List.range 8).map fun n =>
    Form.variant op.mnemonic ⟨[number n, x.memory], x.bitOpcode (op.opcode + 8 * n + 6), false,
      op.flags, op.indexClocks, op.indexClocks, op.describe n x.memory⟩

def storing (op : BitOperation) (x : Index) : List Variant :=
  (List.range 8).flatMap fun n => selectedRegs.map fun (j, k) =>
    Form.variant op.mnemonic ⟨[number n, x.memory, reg k], x.bitOpcode (op.opcode + 8 * n + j), true,
      op.flags, op.indexClocks, op.indexClocks, stored (op.describe n x.memory) k⟩

end BitOperation

def testing : BitOperation :=
  ⟨"bit", 0x40, "-0 1+ ", "Tests", 12, 20⟩

def resetting : BitOperation :=
  ⟨"res", 0x80, noFlags, "Resets", 15, 23⟩

def setting : BitOperation :=
  ⟨"set", 0xC0, noFlags, "Sets", 15, 23⟩

def bit : List Variant :=
  testing.onSelected ++ testing.onIndex .ix ++ testing.onIndex .iy

def res : List Variant :=
  resetting.onSelected ++ resetting.onIndex .ix ++ resetting.onIndex .iy ++
  resetting.storing .ix ++ resetting.storing .iy

def set : List Variant :=
  setting.onSelected ++ setting.onIndex .ix ++ setting.onIndex .iy ++
  setting.storing .ix ++ setting.storing .iy

end Z80.Bits
