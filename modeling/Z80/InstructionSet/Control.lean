import Z80.InstructionSet.Form

namespace Z80.Control

open Operand

structure Condition where
  code : Nat
  name : Keyword
  other : Option Keyword
  holds : String

def conditions : List Condition :=
  [⟨0x00, .nz, none, "zero flag is unset"⟩,
   ⟨0x08, .z, none, "zero flag is set"⟩,
   ⟨0x10, .nc, none, "carry flag is unset"⟩,
   ⟨0x18, .c, none, "carry flag is set"⟩,
   ⟨0x20, .po, some .nv, "parity/overflow flag is unset"⟩,
   ⟨0x28, .pe, some .v, "parity/overflow flag is set"⟩,
   ⟨0x30, .p, none, "sign flag is unset"⟩,
   ⟨0x38, .m, none, "sign flag is set"⟩]

def conditional (mnemonic : String) (opcode : Nat) (target : List Operand) (clocks skipped : Nat)
    (effect : String) (c : Condition) : List Variant :=
  let form := (Form.plain (reg c.name :: target) [opcode + c.code] noFlags clocks
    ("If the " ++ c.holds ++ ", " ++ effect)).skipping skipped
  form.variant mnemonic ::
    (c.other.map fun k => form.writtenAs mnemonic (reg k :: target)).toList

def jr : List Variant :=
  (Form.plain [branch] [0x18] noFlags 12 "The signed value * is added to PC.").variant "jr" ::
  (conditions.take 4).flatMap
    (conditional "jr" 0x20 [branch] 12 7 "the signed value * is added to PC.")

def djnz : List Variant :=
  [((Form.plain [branch] [0x10] noFlags 13
    "The B register is decremented, and if not zero, the signed value * is added to PC.").skipping
    8).variant "djnz"]

def jumpIf (c : Condition) : List Variant :=
  conditional "jp" 0xC2 [imm16] 10 10 "PC is loaded with **." c

def jumpTo (k : Keyword) (bytes : List Nat) (clocks : Nat) : List Variant :=
  let form := Form.plain [reg k] bytes noFlags clocks
    ("PC is loaded with " ++ (reg k).shown ++ ".")
  [form.variant "jp", form.writtenAs "jp" [at_ (reg k)]]

def jp : List Variant :=
  (conditions.take 1).flatMap jumpIf ++
  [(Form.plain [imm16] [0xC3] noFlags 10 "PC is loaded with **.").variant "jp"] ++
  ((conditions.drop 1).take 3).flatMap jumpIf ++
  jumpTo .ix [0xDD, 0xE9] 8 ++
  ((conditions.drop 4).take 1).flatMap jumpIf ++
  jumpTo .hl [0xE9] 4 ++
  (conditions.drop 5).flatMap jumpIf ++
  jumpTo .iy [0xFD, 0xE9] 8

def callIf (c : Condition) : List Variant :=
  conditional "call" 0xC4 [imm16] 17 10
    "the current PC value plus three is pushed onto the stack, then PC is loaded with **." c

def call : List Variant :=
  (conditions.take 2).flatMap callIf ++
  [(Form.plain [imm16] [0xCD] noFlags 17
    "The current PC value plus three is pushed onto the stack, then PC is loaded with **.").variant
    "call"] ++
  (conditions.drop 2).flatMap callIf

def retIf (c : Condition) : List Variant :=
  conditional "ret" 0xC0 [] 11 5 "the top stack entry is popped into PC." c

def ret : List Variant :=
  (conditions.take 2).flatMap retIf ++
  [(Form.plain [] [0xC9] noFlags 10 "The top stack entry is popped into PC.").variant "ret"] ++
  (conditions.drop 2).flatMap retIf

def rst : List Variant :=
  (List.range 8).map fun n =>
    (Form.plain [number (8 * n)] [0xC7 + 8 * n] noFlags 11
      ("The current PC value plus one is pushed onto the stack, then is loaded with " ++
        Text.hexUpper 2 (8 * n) ++ "H.")).variant "rst"

def twins (mnemonic : String) (opcodes : List Nat) (flags : String) (clocks : Nat)
    (description : String) : List Variant :=
  let form (n : Nat) := Form.plain [] [0xED, n] flags clocks description
  match opcodes with
  | [] => []
  | n :: ns => (form n).variant mnemonic :: ns.map fun k => (form k).hidden.variant mnemonic

def retn : List Variant :=
  twins "retn" [0x45, 0x55, 0x5D, 0x65, 0x6D, 0x75, 0x7D] noFlags 14
    "Used at the end of a non-maskable interrupt service routine to restore PC and the interrupt flip-flops."

def reti : List Variant :=
  twins "reti" [0x4D] noFlags 14
    "Used at the end of a maskable interrupt service routine. The top stack entry is popped into PC."

def mode (n : Nat) (opcodes : List Nat) : List Variant :=
  let form (k : Nat) := Form.plain [number n] [0xED, k] noFlags 8
    ("Sets interrupt mode " ++ toString n ++ ".")
  match opcodes with
  | [] => []
  | k :: ks => (form k).variant "im" :: ks.map fun j => (form j).hidden.variant "im"

def im : List Variant :=
  mode 0 [0x46, 0x4E, 0x66, 0x6E] ++ mode 1 [0x56, 0x76] ++ mode 2 [0x5E, 0x7E]

end Z80.Control
