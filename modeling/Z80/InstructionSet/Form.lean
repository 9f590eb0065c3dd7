import Z80.Text
import Z80.Variant

namespace Z80

structure Operand where
  tokens : List PatternToken
  shown : String
  trailing : List OpcodeItem

namespace Operand

def reg (k : Keyword) : Operand :=
  ⟨[.keyword k], Text.upper k.name, []⟩

def imm8 : Operand :=
  ⟨[.slot .imm8], "*", [.slot .imm8]⟩

def imm16 : Operand :=
  ⟨[.slot .imm16], "**", [.slot .imm16]⟩

def branch : Operand :=
  ⟨[.slot .branch], "*", [.slot .branch]⟩

def number (n : Nat) : Operand :=
  ⟨[.number (Int32.ofNat n)], toString n, []⟩

def at_ (o : Operand) : Operand :=
  ⟨.punct .leftParen :: o.tokens ++ [.punct .rightParen], "(" ++ o.shown ++ ")", o.trailing⟩

def indexed (k : Keyword) : Operand :=
  ⟨[.punct .leftParen, .keyword k, .punct .plus, .slot .disp8, .punct .rightParen],
   "(" ++ Text.upper k.name ++ "+*)", [.slot .disp8]⟩

end Operand

def operandTokens : List Operand → List PatternToken
  | [] => []
  | [o] => o.tokens
  | o :: os => o.tokens ++ .punct .comma :: operandTokens os

def template (bytes : List Nat) (rest : List OpcodeItem) : List OpcodeItem :=
  bytes.map (fun n => .byte (UInt8.ofNat n)) ++ rest

structure Form where
  operands : List Operand
  opcode : List OpcodeItem
  undocumented : Bool
  flags : String
  clocks : Nat
  clocksSkipped : Nat
  description : String

namespace Form

def plain (operands : List Operand) (bytes : List Nat) (flags : String) (clocks : Nat)
    (description : String) : Form :=
  ⟨operands, template bytes (operands.flatMap Operand.trailing), false, flags, clocks, clocks,
   description⟩

def hidden (form : Form) : Form :=
  { form with undocumented := true }

def skipping (form : Form) (clocks : Nat) : Form :=
  { form with clocksSkipped := clocks }

def datasheet (form : Form) (mnemonic : String) : Datasheet where
  opcodes := String.join ((form.opcode.filterMap OpcodeItem.byte?).map fun b => Text.hexUpper 2 b.toNat)
  undocumented := form.undocumented
  flags := form.flags
  byteCount := templateSize form.opcode
  clocks := form.clocks
  clocksSkipped := form.clocksSkipped
  description := form.description
  instruction := patternSpelling mnemonic (operandTokens form.operands)

def writtenAs (form : Form) (mnemonic : String) (operands : List Operand) : Variant :=
  ⟨operandTokens operands, form.opcode, some (form.datasheet mnemonic)⟩

def variant (mnemonic : String) (form : Form) : Variant :=
  form.writtenAs mnemonic form.operands

def withShorthand (mnemonic : String) (form : Form) : List Variant :=
  [form.variant mnemonic, form.writtenAs mnemonic form.operands.tail]

end Form

def noFlags : String :=
  "------"

def selected : List (Nat × Operand) :=
  [(0, .reg .b), (1, .reg .c), (2, .reg .d), (3, .reg .e), (4, .reg .h), (5, .reg .l),
   (6, .at_ (.reg .hl)), (7, .reg .a)]

def selectedRegs : List (Nat × Keyword) :=
  [(0, .b), (1, .c), (2, .d), (3, .e), (4, .h), (5, .l), (7, .a)]

structure Index where
  first : Nat
  whole : Keyword
  high : Keyword
  low : Keyword

def Index.ix : Index :=
  ⟨0xDD, .ix, .ixh, .ixl⟩

def Index.iy : Index :=
  ⟨0xFD, .iy, .iyh, .iyl⟩

def Index.memory (x : Index) : Operand :=
  .indexed x.whole

def Index.bitOpcode (x : Index) (last : Nat) : List OpcodeItem :=
  template [x.first, 0xCB] (.slot .disp8 :: template [last] [])

end Z80
