import Z80.InstructionSet.Bits
import Z80.InstructionSet.Control

namespace Z80.Transfer

open Operand

def exchange (left right : Operand) (bytes : List Nat) (clocks : Nat) : Form :=
  .plain [left, right] bytes noFlags clocks
    ("Exchanges " ++ left.shown ++ " with " ++ right.shown ++ ".")

def swapAf : Form :=
  exchange (reg .af) (reg .afShadow) [0x08] 4

def ex : List Variant :=
  [swapAf.variant "ex",
   swapAf.writtenAs "ex" [reg .af, reg .af],
   (exchange (at_ (reg .sp)) (reg .ix) [0xDD, 0xE3] 23).variant "ex",
   (exchange (at_ (reg .sp)) (reg .hl) [0xE3] 19).variant "ex",
   (exchange (reg .de) (reg .hl) [0xEB] 4).variant "ex",
   (exchange (at_ (reg .sp)) (reg .iy) [0xFD, 0xE3] 23).variant "ex"]

def popInto (k : Keyword) (bytes : List Nat) (flags : String) (clocks : Nat) : Variant :=
  (Form.plain [reg k] bytes flags clocks
    ("The memory location pointed to by SP is stored into " ++ (reg k).shown ++ ".")).variant "pop"

def pop : List Variant :=
  [popInto .bc [0xC1] noFlags 10, popInto .de [0xD1] noFlags 10, popInto .ix [0xDD, 0xE1] noFlags 14,
   popInto .hl [0xE1] noFlags 10, popInto .af [0xF1] "******" 10,
   popInto .iy [0xFD, 0xE1] noFlags 14]

def pushFrom (k : Keyword) (bytes : List Nat) (clocks : Nat) : Variant :=
  (Form.plain [reg k] bytes noFlags clocks
    ("Copies " ++ (reg k).shown ++ " onto the stack.")).variant "push"

def push : List Variant :=
  [pushFrom .bc [0xC5] 11, pushFrom .de [0xD5] 11, pushFrom .ix [0xDD, 0xE5] 15,
   pushFrom .hl [0xE5] 11, pushFrom .af [0xF5] 11, pushFrom .iy [0xFD, 0xE5] 15]

def device : Operand :=
  at_ (reg .c)

def outForm (target source : Operand) (bytes : List Nat) (clocks : Nat) : Form :=
  .plain [target, source] bytes noFlags clocks
    ("The value of " ++ source.shown ++ " is written to port " ++ target.shown ++ ".")

def outDevice (source : Operand) (opcode : Nat) : Form :=
  outForm device source [0xED, opcode] 12

def out : List Variant :=
  [(outForm (at_ imm8) (reg .a) [0xD3] 11).variant "out",
   (outDevice (reg .b) 0x41).variant "out",
   (outDevice (reg .c) 0x49).variant "out",
   (outDevice (reg .d) 0x51).variant "out",
   (outDevice (reg .e) 0x59).variant "out",
   (outDevice (reg .h) 0x61).variant "out",
   (outDevice (reg .l) 0x69).variant "out",
   (outDevice (number 0) 0x71).hidden.variant "out",
   (outDevice (reg .a) 0x79).variant "out"]

def inForm (target source : Operand) (bytes : List Nat) (flags : String) (clocks : Nat) : Form :=
  .plain [target, source] bytes flags clocks
    ("A byte from port " ++ source.shown ++ " is written to " ++ target.shown ++ ".")

def inDevice (target : Keyword) (opcode : Nat) : Form :=
  inForm (reg target) device [0xED, opcode] "-0P0++" 12

def «in» : List Variant :=
  (inForm (reg .a) (at_ imm8) [0xDB] noFlags 11).withShorthand "in" ++
  [(inDevice .b 0x40).variant "in",
   (inDevice .c 0x48).variant "in",
   (inDevice .d 0x50).variant "in",
   (inDevice .e 0x58).variant "in",
   (inDevice .h 0x60).variant "in",
   (inDevice .l 0x68).variant "in",
   (inDevice .f 0x70).hidden.variant "in"] ++
  (inDevice .a 0x78).withShorthand "in"

def lone (mnemonic : String) (bytes : List Nat) (flags : String) (clocks : Nat)
    (description : String) : String × List Variant :=
  (mnemonic, [(Form.plain [] bytes flags clocks description).variant mnemonic])

def repeating (mnemonic : String) (opcode : Nat) (flags : String) (description : String) :
    String × List Variant :=
  (mnemonic, [((Form.plain [] [0xED, opcode] flags 21 description).skipping 16).variant mnemonic])

def copies (next : String) : String :=
  "Transfers a byte of data from the memory location pointed to by HL to the memory location pointed to by DE. Then HL" ++
  next

def compares (next : String) : String :=
  "Compares the value of the memory location pointed to by HL with A. Then HL " ++ next

def receives (next : String) : String :=
  "A byte from port C is written to the memory location pointed to by HL. Then HL " ++ next

def sends (next : String) : String :=
  "B is decremented. A byte from the memory location pointed to by HL is written to port C. Then HL is " ++
  next

def blocks : List (String × List Variant) :=
  [lone "ldi" [0xED, 0xA0] "-0*0--" 16 (copies " and DE are incremented and BC is decremented."),
   lone "cpi" [0xED, 0xA1] "-1*+++" 16 (compares "is incremented and BC is decremented."),
   lone "ini" [0xED, 0xA2] " 1  + " 16 (receives "is incremented and B is decremented."),
   lone "outi" [0xED, 0xA3] " 1  + " 16 (sends "incremented."),
   lone "ldd" [0xED, 0xA8] "-0*0--" 16 (copies ", DE, and BC are decremented."),
   lone "cpd" [0xED, 0xA9] "-1*+++" 16 (compares "and BC are decremented."),
   lone "ind" [0xED, 0xAA] " 1  + " 16 (receives "and B are decremented."),
   lone "outd" [0xED, 0xAB] " 1  + " 16 (sends "decremented."),
   repeating "ldir" 0xB0 "-000--" (copies
     " and DE are incremented and BC is decremented. If BC is not zero, this operation is repeated."),
   repeating "cpir" 0xB1 "-1*+++" (compares
     "is incremented and BC is decremented. If BC is not zero and Z is not set, this operation is repeated."),
   repeating "inir" 0xB2 " 1  1 " (receives
     "is incremented and B is decremented. If B is not zero, this operation is repeated."),
   repeating "otir" 0xB3 " 1  1 " (sends
     "incremented. If B is not zero, this operation is repeated."),
   repeating "lddr" 0xB8 "-000--" (copies
     ", DE, and BC are decremented. If BC is not zero, this operation is repeated."),
   repeating "cpdr" 0xB9 "-1*+++" (compares
     "and BC are decremented. If BC is not zero and Z is not set, this operation is repeated."),
   repeating "indr" 0xBA " 1  1 " (receives
     "and B are decremented. If B is not zero, this operation is repeated."),
   repeating "otdr" 0xBB " 1  1 " (sends
     "decremented. If B is not zero, this operation is repeated.")]

def nop : String × List Variant :=
  lone "nop" [0x00] noFlags 4 "No operation is performed."

def rlca : String × List Variant :=
  lone "rlca" [0x07] "+0-0--" 4 (Bits.leftRound "A")

def rrca : String × List Variant :=
  lone "rrca" [0x0F] "+0-0--" 4 (Bits.rightRound "A")

def rla : String × List Variant :=
  lone "rla" [0x17] "+0-0--" 4 (Bits.leftThrough "A")

def rra : String × List Variant :=
  lone "rra" [0x1F] "+0-0--" 4 (Bits.rightThrough "A")

def flagged : List (String × List Variant) :=
  [lone "daa" [0x27] "+-P+++" 4 "Adjusts A for BCD addition and subtraction operations.",
   lone "cpl" [0x2F] "-1-1--" 4 "The contents of A are inverted (one's complement).",
   lone "scf" [0x37] "10-0--" 4 "Sets the carry flag.",
   lone "ccf" [0x3F] "+0-+--" 4 "Inverts the carry flag.",
   lone "halt" [0x76] noFlags 4 "Suspends CPU operation until an interrupt or reset occurs."]

def exx : String × List Variant :=
  lone "exx" [0xD9] noFlags 4
    "Exchanges the 16-bit contents of BC, DE, and HL with BC', DE', and HL'."

def neg : List Variant :=
  Control.twins "neg" [0x44, 0x4C, 0x54, 0x5C, 0x64, 0x6C, 0x74, 0x7C] "+1V+++" 8
    "The contents of A are negated (two's complement)."

def digits : List (String × List Variant) :=
  [lone "rrd" [0xED, 0x67] "-0P0++" 18
    "The contents of the low-order nibble of (HL) are copied to the low-order nibble of A. The previous contents are copied to the high-order nibble of (HL), and the previous contents of the high-order nibble of (HL) are copied to the low-order nibble of (HL).",
   lone "rld" [0xED, 0x6F] "-0P0++" 18
    "The contents of the low-order nibble of (HL) are copied to the high-order nibble of (HL). The previous contents are copied to the low-order nibble of A, and the previous contents of the low-order nibble of A are copied to the low-order nibble of (HL)."]

def interrupts : List (String × List Variant) :=
  [lone "di" [0xF3] noFlags 4
    "Resets both interrupt flip-flops, thus preventing maskable interrupts from triggering.",
   lone "ei" [0xFB] noFlags 4
    "Sets both interrupt flip-flops, thus allowing maskable interrupts to occur."]

end Z80.Transfer
