import Z80.Json.Basic
import Z80.Numeral

namespace Z80.Json

abbrev Reader (α : Type) := List Char → Option (α × List Char)

def isBlank (c : Char) : Bool :=
  c == ' ' || c == '\n' || c == '\t' || c == '\r'

def skipBlanks (cs : List Char) : List Char :=
  cs.dropWhile isBlank

inductive Piece where
  | char (c : Char)
  | unit (n : Nat)

def joinPieces : List Piece → Option (List Char)
  | [] => some []
  | .char c :: rest => (joinPieces rest).map (c :: ·)
  | .unit high :: .unit low :: rest =>
      if 0xD800 ≤ high ∧ high < 0xDC00 then
        if 0xDC00 ≤ low ∧ low < 0xE000 then
          (joinPieces rest).map
            (Char.ofNat (0x10000 + (high - 0xD800) * 0x400 + (low - 0xDC00)) :: ·)
        else none
      else if 0xDC00 ≤ high ∧ high < 0xE000 then none
      else (joinPieces (.unit low :: rest)).map (Char.ofNat high :: ·)
  | .unit n :: rest =>
      if 0xD800 ≤ n ∧ n < 0xE000 then none
      else (joinPieces rest).map (Char.ofNat n :: ·)

def unescape? (c : Char) : Option Char :=
  if c == '"' || c == '\\' || c == '/' then some c
  else if c == 'b' then some '\x08'
  else if c == 'f' then some '\x0c'
  else if c == 'n' then some '\n'
  else if c == 'r' then some '\r'
  else if c == 't' then some '\t'
  else none

def readPieces : Reader (List Piece)
  | [] => none
  | '"' :: rest => some ([], rest)
  | '\\' :: 'u' :: a :: b :: c :: d :: rest => do
      let n ← Numeral.value? 16 [a, b, c, d]
      let (pieces, rest) ← readPieces rest
      return (.unit n :: pieces, rest)
  | '\\' :: c :: rest => do
      let c ← unescape? c
      let (pieces, rest) ← readPieces rest
      return (.char c :: pieces, rest)
  | c :: rest =>
      if c.toNat < 32 then none
      else do
        let (pieces, rest) ← readPieces rest
        return (.char c :: pieces, rest)

def readString : Reader (Option String) := fun cs => do
  let (pieces, rest) ← readPieces cs
  return ((joinPieces pieces).map String.ofList, rest)

def readDigits : Reader (List Char) := fun cs =>
  let digits := cs.takeWhile Char.isDigit
  if digits.isEmpty then none else some (digits, cs.dropWhile Char.isDigit)

def readWhole : Reader (List Char)
  | '0' :: rest => some (['0'], rest)
  | cs => readDigits cs

def readFraction : Reader Bool
  | '.' :: rest => do
      let (_, rest) ← readDigits rest
      return (true, rest)
  | cs => some (false, cs)

def dropSign : List Char → List Char
  | '+' :: cs => cs
  | '-' :: cs => cs
  | cs => cs

def readExponent : Reader Bool
  | c :: rest =>
      if c == 'e' || c == 'E' then do
        let (_, rest) ← readDigits (dropSign rest)
        return (true, rest)
      else some (false, c :: rest)
  | [] => some (false, [])

def readUnsigned : Reader (Option Nat) := fun cs => do
  let (digits, rest) ← readWhole cs
  let (fraction, rest) ← readFraction rest
  let (exponent, rest) ← readExponent rest
  return (if fraction || exponent then none else Numeral.value? 10 digits, rest)

def readNumber : Reader Json
  | '-' :: rest => do
      let (_, rest) ← readUnsigned rest
      return (number none, rest)
  | cs => do
      let (n, rest) ← readUnsigned cs
      return (number n, rest)

def readSequence {α : Type} (item : Reader α) (close : Char) : Nat → Reader (List α)
  | 0, _ => none
  | n + 1, cs => do
      let (a, rest) ← item cs
      match skipBlanks rest with
      | ',' :: rest => do
          let (as, rest) ← readSequence item close n (skipBlanks rest)
          return (a :: as, rest)
      | c :: rest => if c == close then return ([a], rest) else none
      | [] => none

def readInside {α : Type} (item : Reader α) (close : Char) : Reader (List α) := fun cs =>
  match skipBlanks cs with
  | c :: rest =>
      if c == close then some ([], rest) else readSequence item close cs.length (c :: rest)
  | [] => none

def readMember (value : Reader Json) : Reader (Option String × Json)
  | '"' :: cs => do
      let (name, rest) ← readString cs
      match skipBlanks rest with
      | ':' :: rest => do
          let (v, rest) ← value (skipBlanks rest)
          return ((name, v), rest)
      | _ => none
  | _ => none

def readValue : Nat → Reader Json
  | 0, _ => none
  | n + 1, cs => match cs with
      | 'n' :: 'u' :: 'l' :: 'l' :: rest => some (null, rest)
      | 't' :: 'r' :: 'u' :: 'e' :: rest => some (bool true, rest)
      | 'f' :: 'a' :: 'l' :: 's' :: 'e' :: rest => some (bool false, rest)
      | '"' :: rest => do
          let (s, rest) ← readString rest
          return (string s, rest)
      | '[' :: rest => do
          let (elements, rest) ← readInside (readValue n) ']' rest
          return (array elements, rest)
      | '\x7b' :: rest => do
          let (members, rest) ← readInside (readMember (readValue n)) '\x7d' rest
          return (object members, rest)
      | _ => readNumber cs

def parse (text : String) : Option Json := do
  let cs := text.toList
  let (j, rest) ← readValue (cs.length + 1) (skipBlanks cs)
  if (skipBlanks rest).isEmpty then some j else none

end Z80.Json
