import Z80.Numeral

namespace Z80.Yaml

structure Scalar where
  text : String
  isPlain : Bool

def isAllowed (c : Char) : Bool :=
  let n := c.toNat
  n == 0x09 || n == 0x0A || n == 0x0D || (0x20 ≤ n && n ≤ 0x7E) || n == 0x85 ||
    (0xA0 ≤ n && n ≤ 0xFFFD) || 0x10000 ≤ n

def isBlank (c : Char) : Bool :=
  c == ' ' || c == '\t'

def isBreak (c : Char) : Bool :=
  c == '\n' || c == '\u2028' || c == '\u2029'

def unifyBreaks : List Char → List Char
  | [] => []
  | '\r' :: '\n' :: cs => '\n' :: unifyBreaks cs
  | c :: cs => (if c == '\r' || c == '\u0085' then '\n' else c) :: unifyBreaks cs

def atBlank : List Char → Bool
  | [] => true
  | c :: _ => isBlank c || isBreak c

def isFlowMark (c : Char) : Bool :=
  c == ',' || c == '[' || c == ']' || c == '\x7b' || c == '\x7d'

def isIndicator (c : Char) : Bool :=
  isFlowMark c || c == '#' || c == '&' || c == '*' || c == '!' || c == '|' || c == '>' ||
    c == '\'' || c == '"' || c == '%' || c == '@' || c == '\x60'

def plainLength (flow : Bool) : Bool → List Char → Option Nat
  | _, [] => some 0
  | afterBlank, c :: cs =>
      if isBreak c || (c == '#' && afterBlank) || (c == ':' && atBlank cs) ||
          (flow && isFlowMark c) then some 0
      else if flow && c == ':' && cs.head?.any fun d => isFlowMark d || d == '?' then none
      else (plainLength flow (isBlank c) cs).map (· + 1)

def trimRight (cs : List Char) : List Char :=
  (cs.reverse.dropWhile isBlank).reverse

def startsPlain (flow : Bool) (c : Char) (cs : List Char) : Bool :=
  if c == '-' then !atBlank cs
  else if c == '?' || c == ':' then !flow && !atBlank cs
  else !isIndicator c && !isBlank c && !isBreak c

def singleQuoted : List Char → Option (List Char × Nat)
  | [] => none
  | '\'' :: '\'' :: cs => (singleQuoted cs).map fun (text, n) => ('\'' :: text, n + 2)
  | c :: cs =>
      if c == '\'' then some ([], 1)
      else if isBreak c then none
      else (singleQuoted cs).map fun (text, n) => (c :: text, n + 1)

def escapes : List (Char × Char) :=
  [('0', '\x00'), ('a', '\x07'), ('b', '\x08'), ('t', '\t'), ('\t', '\t'), ('n', '\n'),
   ('v', '\x0b'), ('f', '\x0c'), ('r', '\r'), ('e', '\x1b'), (' ', ' '), ('"', '"'), ('/', '/'),
   ('\\', '\\'), ('N', '\u0085'), ('_', '\u00a0'), ('L', '\u2028'), ('P', '\u2029')]

def codeDigits? (c : Char) : Option Nat :=
  if c == 'x' then some 2
  else if c == 'u' then some 4
  else if c == 'U' then some 8
  else none

def codePoint? (digits : List Char) : Option Char :=
  match Numeral.value? 16 digits with
  | some n => if n.isValidChar then some (Char.ofNat n) else none
  | none => none

def doubleQuoted : Nat → List Char → Option (List Char × Nat)
  | _, [] => none
  | skip + 1, _ :: cs => (doubleQuoted skip cs).map fun (text, n) => (text, n + 1)
  | 0, [c] => if c == '"' then some ([], 1) else none
  | 0, c :: d :: cs =>
      if c == '"' then some ([], 1)
      else if isBreak c then none
      else if c == '\\' then
        match codeDigits? d with
        | some width =>
            if cs.length < width then none
            else do
              let e ← codePoint? (cs.take width)
              let (text, n) ← doubleQuoted (width + 1) (d :: cs)
              return (e :: text, n + 1)
        | none => do
            let e ← escapes.lookup d
            let (text, n) ← doubleQuoted 1 (d :: cs)
            return (e :: text, n + 1)
      else (doubleQuoted 0 (d :: cs)).map fun (text, n) => (c :: text, n + 1)

def scanScalar (flow : Bool) (c : Char) (cs : List Char) : Option (Scalar × Nat) :=
  if c == '\'' then (singleQuoted cs).map fun (text, n) => (⟨String.ofList text, false⟩, n)
  else if c == '"' then (doubleQuoted 0 cs).map fun (text, n) => (⟨String.ofList text, false⟩, n)
  else if startsPlain flow c cs then
    (plainLength flow false cs).map fun n =>
      (⟨String.ofList (trimRight (c :: cs.take n)), true⟩, n)
  else none

end Z80.Yaml
