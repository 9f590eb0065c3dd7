import Z80.Expr.Basic
import Z80.Text
import Z80.Token

namespace Z80

structure Location where
  file : Nat
  line : Nat
deriving DecidableEq

def Location.le (x y : Location) : Bool :=
  x.file < y.file || (x.file == y.file && x.line ≤ y.line)

structure Label where
  name : String
  isGlobal : Bool
deriving DecidableEq

inductive DataWidth where
  | byte | word | long
deriving DecidableEq

def DataWidth.size : DataWidth → Nat
  | byte => 1
  | word => 2
  | long => 4

inductive Predefined where
  | date | time | file | line
deriving DecidableEq

namespace Predefined

def all : List Predefined :=
  [date, time, file, line]

def name : Predefined → String
  | date => "__date__"
  | time => "__time__"
  | file => "__file__"
  | line => "__line__"

def ofName? (s : String) : Option Predefined :=
  all.find? fun p => p.name == Text.lower s

end Predefined

inductive DataItem where
  | expr (e : Expr)
  | text (bytes : List UInt8) (adjust : Option (BinaryOp × Expr))
  | predefined (p : Predefined)
deriving DecidableEq

inductive Target where
  | bin | rom
deriving DecidableEq

namespace Target

def all : List Target :=
  [bin, rom]

def name : Target → String
  | bin => "bin"
  | rom => "rom"

def ofName? (s : String) : Option Target :=
  all.find? fun t => t.name == Text.lower s

def fill : Target → UInt8
  | bin => 0x00
  | rom => 0xFF

end Target

inductive Statement where
  | instruction (mnemonic : String) (operands : List Token)
  | data (width : DataWidth) (items : List DataItem)
  | equ (e : Expr)
  | org (e : Expr)
  | align (boundary : Expr) (fill : Option Expr)
  | fill (count : Expr) (fill : Option Expr)
  | segment (name : String) (address : Option Expr)
  | openLocal
  | closeLocal
  | target (t : Target)
deriving DecidableEq

structure Line where
  label : Option Label
  statement : Option Statement
deriving DecidableEq

end Z80
