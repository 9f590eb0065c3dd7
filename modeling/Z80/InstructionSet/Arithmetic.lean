import Z80.InstructionSet.Form

namespace Z80.Arithmetic

open Operand

structure Operation where
  mnemonic : String
  opcode : Nat
  literal : Nat
  flags : String
  describe : String → String

namespace Operation

def form (op : Operation) (source : Operand) (bytes : List Nat) (clocks : Nat) : Form :=
  .plain [reg .a, source] bytes op.flags clocks (op.describe source.shown)

def both (op : Operation) (source : Operand) (bytes : List Nat) (clocks : Nat) : List Variant :=
  (op.form source bytes clocks).withShorthand op.mnemonic

def hiddenBoth (op : Operation) (source : Operand) (bytes : List Nat) (clocks : Nat) :
    List Variant :=
  (op.form source bytes clocks).hidden.withShorthand op.mnemonic

def onSelected (op : Operation) : List Variant :=
  selected.flatMap fun (j, source) => op.both source [op.opcode + j] (if j == 6 then 7 else 4)

def onLiteral (op : Operation) : List Variant :=
  op.both imm8 [op.literal] 7

def onIndex (op : Operation) (x : Index) : List Variant :=
  op.hiddenBoth (reg x.high) [x.first, op.opcode + 4] 8 ++
  op.hiddenBoth (reg x.low) [x.first, op.opcode + 5] 8 ++
  op.both x.memory [x.first, op.opcode + 6] 19

def single (op : Operation) (source : Operand) (bytes : List Nat) (clocks : Nat) : Form :=
  { op.form source bytes clocks with operands := [source] }

def singleLiteral (op : Operation) : List Variant :=
  [(op.single imm8 [op.literal] 7).variant op.mnemonic]

end Operation

def adding : Operation :=
  ⟨"add", 0x80, 0xC6, "+0V+++", fun s => "Adds " ++ s ++ " to A."⟩

def addingCarry : Operation :=
  ⟨"adc", 0x88, 0xCE, "+0V+++", fun s => "Adds " ++ s ++ " and the carry flag to A."⟩

def subtracting : Operation :=
  ⟨"sub", 0x90, 0xD6, "+1V+++", fun s => "Subtracts " ++ s ++ " from A."⟩

def subtractingCarry : Operation :=
  ⟨"sbc", 0x98, 0xDE, "+1V+++", fun s => "Subtracts " ++ s ++ " and the carry flag from A."⟩

def conjunction : Operation :=
  ⟨"and", 0xA0, 0xE6, "00P1++", fun s => "Bitwise AND on A with " ++ s ++ "."⟩

def exclusive : Operation :=
  ⟨"xor", 0xA8, 0xEE, "00P0++", fun s => "Bitwise XOR on A with " ++ s ++ "."⟩

def disjunction : Operation :=
  ⟨"or", 0xB0, 0xF6, "00P0++", fun s => "Bitwise OR on A with " ++ s ++ "."⟩

def comparing : Operation :=
  ⟨"cp", 0xB8, 0xFE, "+1V+++", fun s => "Subtracts " ++ s ++
    " from A and affects flags according to the result. A is not modified."⟩

def pairs (middle : Keyword) : List (Nat × Keyword) :=
  [(0x00, .bc), (0x10, .de), (0x20, middle), (0x30, .sp)]

def addPairs (bytes : List Nat) (target : Keyword) (clocks : Nat) : List Variant :=
  (pairs target).map fun (j, k) =>
    (Form.plain [reg target, reg k] (bytes ++ [0x09 + j]) "+0-+--" clocks
      ("Adds " ++ (reg k).shown ++ " to " ++ (reg target).shown ++ ".")).variant "add"

def carryPairs (mnemonic flags : String) (opcode : Nat) (describe : String → String) :
    List Variant :=
  (pairs .hl).map fun (j, k) =>
    (Form.plain [reg .hl, reg k] [0xED, opcode + j] flags 15 (describe (reg k).shown)).variant
      mnemonic

def add : List Variant :=
  addPairs [] .hl 11 ++ adding.onSelected ++ adding.onLiteral ++
  addPairs [0xDD] .ix 15 ++ adding.onIndex .ix ++ addPairs [0xFD] .iy 15 ++ adding.onIndex .iy

def adc : List Variant :=
  addingCarry.onSelected ++ addingCarry.onLiteral ++ addingCarry.onIndex .ix ++
  carryPairs "adc" "+0V+++" 0x4A (fun s => "Adds " ++ s ++ " and the carry flag to HL.") ++
  addingCarry.onIndex .iy

def sub : List Variant :=
  subtracting.onSelected ++ subtracting.onLiteral ++ subtracting.onIndex .ix ++
  subtracting.onIndex .iy

def sbc : List Variant :=
  subtractingCarry.onSelected ++ subtractingCarry.onIndex .ix ++ subtractingCarry.onLiteral ++
  carryPairs "sbc" "+1V+++" 0x42 (fun s => "Subtracts " ++ s ++ " and the carry flag from HL.") ++
  subtractingCarry.onIndex .iy

def and : List Variant :=
  conjunction.onSelected ++ conjunction.onIndex .ix ++ conjunction.singleLiteral ++
  conjunction.onIndex .iy

def xor : List Variant :=
  exclusive.onSelected ++ exclusive.onIndex .ix ++ exclusive.onLiteral ++ exclusive.onIndex .iy

def or : List Variant :=
  disjunction.onSelected ++ disjunction.onIndex .ix ++ disjunction.singleLiteral ++
  disjunction.onIndex .iy

def compareIndex (x : Index) : List Variant :=
  [(comparing.single (reg x.high) [x.first, 0xBC] 8).hidden.variant "cp",
   (comparing.single (reg x.low) [x.first, 0xBD] 8).hidden.variant "cp",
   (comparing.single x.memory [x.first, 0xBE] 19).variant "cp"]

def cp : List Variant :=
  selected.map (fun (j, source) =>
    (comparing.single source [0xB8 + j] (if j == 6 then 7 else 4)).variant "cp") ++
  compareIndex .ix ++ compareIndex .iy ++ comparing.singleLiteral

structure Step where
  mnemonic : String
  flags : String
  describe : String → String

def Step.form (step : Step) (o : Operand) (bytes : List Nat) (clocks : Nat) : Form :=
  .plain [o] bytes step.flags clocks (step.describe o.shown)

def Step.byte (step : Step) (k : Keyword) (opcode : Nat) : Variant :=
  (step.form (reg k) [opcode] 4).variant step.mnemonic

def Step.half (step : Step) (x : Index) (k : Keyword) (opcode : Nat) : Variant :=
  (step.form (reg k) [x.first, opcode] 8).hidden.variant step.mnemonic

def Step.pair (step : Step) (k : Keyword) (bytes : List Nat) (clocks : Nat) : Variant :=
  { step.form (reg k) bytes clocks with flags := noFlags }.variant step.mnemonic

def Step.memory (step : Step) (o : Operand) (bytes : List Nat) (clocks : Nat) : Variant :=
  (step.form o bytes clocks).variant step.mnemonic

def increment : Step :=
  ⟨"inc", "-0V+++", fun s => "Adds one to " ++ s ++ "."⟩

def decrement : Step :=
  ⟨"dec", "-1V+++", fun s => "Subtracts one from " ++ s ++ "."⟩

def incrementIndex (x : Index) : List Variant :=
  [increment.pair x.whole [x.first, 0x23] 10, increment.half x x.high 0x24,
   increment.half x x.low 0x2C, increment.memory x.memory [x.first, 0x34] 23]

def inc : List Variant :=
  [increment.pair .bc [0x03] 6, increment.byte .b 0x04, increment.byte .c 0x0C,
   increment.pair .de [0x13] 6, increment.byte .d 0x14, increment.byte .e 0x1C,
   increment.pair .hl [0x23] 6, increment.byte .h 0x24, increment.byte .l 0x2C,
   increment.pair .sp [0x33] 6, increment.memory (at_ (reg .hl)) [0x34] 11,
   increment.byte .a 0x3C] ++ incrementIndex .ix ++ incrementIndex .iy

def decrementIndex (x : Index) : List Variant :=
  [decrement.half x x.high 0x25, decrement.pair x.whole [x.first, 0x2B] 10,
   decrement.half x x.low 0x2D, decrement.memory x.memory [x.first, 0x35] 23]

def dec : List Variant :=
  [decrement.byte .b 0x05, decrement.pair .bc [0x0B] 6, decrement.byte .c 0x0D,
   decrement.byte .d 0x15, decrement.pair .de [0x1B] 6, decrement.byte .e 0x1D,
   decrement.byte .h 0x25, decrement.pair .hl [0x2B] 6, decrement.byte .l 0x2D,
   decrement.memory (at_ (reg .hl)) [0x35] 11, decrement.pair .sp [0x3B] 6,
   decrement.byte .a 0x3D] ++ decrementIndex .ix ++ decrementIndex .iy

end Z80.Arithmetic
