import Z80.InstructionSet.Form

namespace Z80.Load

open Operand

def load (target source : Operand) (form : Form) : List Variant :=
  let form := { form with
    operands := [target, source]
    description := "Loads " ++ source.shown ++ " into " ++ target.shown ++ "." }
  if target.tokens == [.keyword .a] then form.withShorthand "ld" else [form.variant "ld"]

def move (target source : Operand) (bytes : List Nat) (clocks : Nat) : List Variant :=
  load target source (.plain [target, source] bytes noFlags clocks "")

def hiddenMove (target source : Operand) (bytes : List Nat) (clocks : Nat) : List Variant :=
  load target source (Form.plain [target, source] bytes noFlags clocks "").hidden

def low : List Variant :=
  move (reg .bc) imm16 [0x01] 10 ++
  move (at_ (reg .bc)) (reg .a) [0x02] 7 ++
  move (reg .b) imm8 [0x06] 7 ++
  move (reg .a) (at_ (reg .bc)) [0x0A] 7 ++
  move (reg .c) imm8 [0x0E] 7 ++
  move (reg .de) imm16 [0x11] 10 ++
  move (at_ (reg .de)) (reg .a) [0x12] 7 ++
  move (reg .d) imm8 [0x16] 7 ++
  move (reg .a) (at_ (reg .de)) [0x1A] 7 ++
  move (reg .e) imm8 [0x1E] 7 ++
  move (reg .hl) imm16 [0x21] 10 ++
  move (at_ imm16) (reg .hl) [0x22] 16 ++
  move (reg .h) imm8 [0x26] 7 ++
  move (reg .hl) (at_ imm16) [0x2A] 16 ++
  move (reg .l) imm8 [0x2E] 7 ++
  move (reg .sp) imm16 [0x31] 10 ++
  move (at_ imm16) (reg .a) [0x32] 13 ++
  move (at_ (reg .hl)) imm8 [0x36] 10 ++
  move (reg .a) (at_ imm16) [0x3A] 13 ++
  move (reg .a) imm8 [0x3E] 7

def square : List Variant :=
  selected.flatMap fun (i, target) => selected.flatMap fun (j, source) =>
    if i == 6 && j == 6 then []
    else move target source [0x40 + 8 * i + j] (if i == 6 || j == 6 then 7 else 4)

def indexSquare (x : Index) : List Variant :=
  let half (o : Nat × Operand) : Operand :=
    if o.1 == 4 then reg x.high else if o.1 == 5 then reg x.low else o.2
  selected.flatMap fun target => selected.flatMap fun source =>
    let bytes := [x.first, 0x40 + 8 * target.1 + source.1]
    if target.1 == 6 && source.1 == 6 then []
    else if target.1 == 6 then move x.memory source.2 bytes 19
    else if source.1 == 6 then move target.2 x.memory bytes 19
    else if target.1 == 4 || target.1 == 5 || source.1 == 4 || source.1 == 5 then
      hiddenMove (half target) (half source) bytes 8
    else []

def rotated (x : Index) (op : Nat × String) : List Variant :=
  selectedRegs.flatMap fun (j, k) =>
    let source : Operand := ⟨.word op.2 :: x.memory.tokens, Text.upper op.2 ++ " " ++ x.memory.shown, []⟩
    let form : Form := ⟨[reg k, source], x.bitOpcode (8 * op.1 + j), true, "+0P0++", 23, 23,
      "The result of " ++ source.shown ++ " is also copied into " ++ (reg k).shown ++ "."⟩
    if k == .a then form.withShorthand "ld" else [form.variant "ld"]

def changed (x : Index) (op : Nat × String) : List Variant :=
  (List.range 8).flatMap fun n => selectedRegs.flatMap fun (j, k) =>
    let source : Operand :=
      ⟨.word op.2 :: (number n).tokens ++ .punct .comma :: x.memory.tokens,
       Text.upper op.2 ++ " " ++ toString n, []⟩
    load (reg k) source ⟨[], x.bitOpcode (op.1 + 8 * n + j), true, noFlags, 23, 23, ""⟩

def rotations : List (Nat × String) :=
  [(0, "rlc"), (1, "rrc"), (2, "rl"), (3, "rr"), (4, "sla"), (5, "sra"), (6, "sll"), (7, "srl")]

def changes : List (Nat × String) :=
  [(0x80, "res"), (0xC0, "set")]

def index (x : Index) : List Variant :=
  move (reg x.whole) imm16 [x.first, 0x21] 14 ++
  move (at_ imm16) (reg x.whole) [x.first, 0x22] 20 ++
  hiddenMove (reg x.high) imm8 [x.first, 0x26] 11 ++
  move (reg x.whole) (at_ imm16) [x.first, 0x2A] 20 ++
  hiddenMove (reg x.low) imm8 [x.first, 0x2E] 11 ++
  move x.memory imm8 [x.first, 0x36] 19 ++
  indexSquare x ++
  rotations.flatMap (rotated x) ++
  changes.flatMap (changed x) ++
  move (reg .sp) (reg x.whole) [x.first, 0xF9] 10

def special (source : Keyword) (bytes : List Nat) : List Variant :=
  load (reg .a) (reg source) (.plain [] bytes "-0*0++" 9 "")

def extended : List Variant :=
  move (at_ imm16) (reg .bc) [0xED, 0x43] 20 ++
  move (reg .i) (reg .a) [0xED, 0x47] 9 ++
  move (reg .bc) (at_ imm16) [0xED, 0x4B] 20 ++
  move (reg .r) (reg .a) [0xED, 0x4F] 9 ++
  move (at_ imm16) (reg .de) [0xED, 0x53] 20 ++
  special .i [0xED, 0x57] ++
  move (reg .de) (at_ imm16) [0xED, 0x5B] 20 ++
  special .r [0xED, 0x5F] ++
  hiddenMove (at_ imm16) (reg .hl) [0xED, 0x63] 20 ++
  hiddenMove (reg .hl) (at_ imm16) [0xED, 0x6B] 20 ++
  move (at_ imm16) (reg .sp) [0xED, 0x73] 20 ++
  move (reg .sp) (at_ imm16) [0xED, 0x7B] 20

def pair (target source : Operand) (bytes : List Nat) : Variant :=
  ⟨operandTokens [target, source], template bytes [], none⟩

def pairs : List Variant :=
  [pair (reg .hl) (reg .bc) [0x60, 0x69],
   pair (reg .bc) (reg .hl) [0x44, 0x4D],
   pair (reg .de) (reg .hl) [0x54, 0x5D],
   pair (reg .hl) (reg .de) [0x62, 0x6B],
   pair (reg .bc) (at_ (reg .hl)) [0x4E, 0x23, 0x46, 0x2B],
   pair (at_ (reg .hl)) (reg .bc) [0x71, 0x23, 0x70, 0x2B],
   pair (at_ (reg .hl)) (reg .de) [0x73, 0x23, 0x72, 0x2B],
   pair (reg .de) (reg .bc) [0x50, 0x59]]

def ld : List Variant :=
  low ++ square ++ index .ix ++ extended ++ move (reg .sp) (reg .hl) [0xF9] 6 ++ index .iy ++ pairs

end Z80.Load
