namespace Z80.Numeral

def digitValue? (c : Char) : Option Nat :=
  if c.isDigit then some (c.toNat - 48)
  else if 97 ≤ c.toNat && c.toNat ≤ 102 then some (c.toNat - 87)
  else if 65 ≤ c.toNat && c.toNat ≤ 70 then some (c.toNat - 55)
  else none

def digit? (radix : Nat) (c : Char) : Option Nat :=
  (digitValue? c).filter (· < radix)

def isDigit (radix : Nat) (c : Char) : Bool :=
  (digit? radix c).isSome

def isDigits (radix : Nat) (cs : List Char) : Bool :=
  !cs.isEmpty && cs.all (isDigit radix)

def valueFrom (radix : Nat) : Nat → List Char → Option Nat
  | n, [] => some n
  | n, c :: cs => match digit? radix c with
      | some d => valueFrom radix (n * radix + d) cs
      | none => none

def value? (radix : Nat) (cs : List Char) : Option Nat :=
  if cs.isEmpty then none else valueFrom radix 0 cs

def word? (radix : Nat) (cs : List Char) : Option UInt32 :=
  match value? radix cs with
  | some n => if n < 4294967296 then some (UInt32.ofNat n) else none
  | none => none

inductive Form where
  | hexMarkedAfter
  | hexMarkedBefore
  | binaryMarkedAfter
  | binaryMarkedBefore
  | decimal
deriving DecidableEq

namespace Form

def all : List Form :=
  [hexMarkedAfter, hexMarkedBefore, binaryMarkedAfter, binaryMarkedBefore, decimal]

def radix : Form → Nat
  | hexMarkedAfter | hexMarkedBefore => 16
  | binaryMarkedAfter | binaryMarkedBefore => 2
  | decimal => 10

end Form

def before? (mark : Char) (cs : List Char) : Option (List Char) :=
  if cs.getLast? == some mark then some cs.dropLast else none

def after? (marks : List Char) (cs : List Char) : Option (List Char) :=
  if marks.isPrefixOf cs then some (cs.drop marks.length) else none

namespace Form

def unmarked? : Form → List Char → Option (List Char)
  | hexMarkedAfter, cs => before? 'h' cs
  | hexMarkedBefore, cs => after? ['0', 'x'] cs
  | binaryMarkedAfter, cs => before? 'b' cs
  | binaryMarkedBefore, cs => after? ['0', 'b'] cs
  | decimal, cs => some cs

def digits? (form : Form) (cs : List Char) : Option (List Char) :=
  (form.unmarked? cs).filter (isDigits form.radix)

end Form

def ofSpelling? (spelling : List Char) : Option UInt32 :=
  let cs := spelling.map Char.toLower
  match Form.all.find? fun form => (form.digits? cs).isSome with
  | some form => (form.digits? cs).bind (word? form.radix)
  | none => none

end Z80.Numeral
