namespace Z80

inductive Placeholder where
  | imm8
  | imm16
  | disp8
  | branch
deriving DecidableEq

namespace Placeholder

def all : List Placeholder :=
  [imm8, imm16, disp8, branch]

def name : Placeholder → String
  | imm8 => "nn"
  | imm16 => "nnnn"
  | disp8 => "dd"
  | branch => "offset"

def ofName? (s : String) : Option Placeholder :=
  all.find? fun p => p.name == s

def width : Placeholder → Nat
  | imm16 => 2
  | imm8 | disp8 | branch => 1

def least : Placeholder → Int
  | imm8 | disp8 | branch => -128
  | imm16 => -32768

def greatest : Placeholder → Int
  | imm8 | disp8 => 255
  | imm16 => 65535
  | branch => 127

def accepts (p : Placeholder) (n : Int) : Bool :=
  p.least ≤ n && n ≤ p.greatest

end Placeholder

end Z80
