import Z80.Text.Hidden

namespace Z80.Text

def isBlank (c : Char) : Bool :=
  let n := c.toNat
  (9 ≤ n && n ≤ 13) || n == 0x20 || n == 0x85 || n == 0xA0 || n == 0x1680 ||
    (0x2000 ≤ n && n ≤ 0x200A) || n == 0x2028 || n == 0x2029 || n == 0x202F || n == 0x205F ||
    n == 0x3000

def trim (cs : List Char) : List Char :=
  ((cs.dropWhile isBlank).reverse.dropWhile isBlank).reverse

def pieces : List Char → List (List Char)
  | [] => [[]]
  | c :: cs =>
      if c == '\n' then [] :: pieces cs
      else if c == '\r' && cs.head? == some '\n' then pieces cs
      else match pieces cs with
        | [] => [[c]]
        | line :: rest => (c :: line) :: rest

def dropEmptyLast (ls : List (List Char)) : List (List Char) :=
  if ls.getLast? == some [] then ls.dropLast else ls

def lines (text : String) : List String :=
  (dropEmptyLast (pieces text.toList)).map String.ofList

def lower (s : String) : String :=
  String.ofList (s.toList.map Char.toLower)

def upper (s : String) : String :=
  String.ofList (s.toList.map Char.toUpper)

def isNameStart (c : Char) : Bool :=
  c.isAlpha || c == '_' || c == '.'

def isNameRest (c : Char) : Bool :=
  c.isAlphanum || c == '_' || c == '.'

def isName : List Char → Bool
  | [] => false
  | c :: cs => isNameStart c && cs.all isNameRest

def padLeft (width : Nat) (fill : Char) (s : String) : String :=
  String.ofList (List.replicate (width - s.length) fill) ++ s

def padRight (width : Nat) (s : String) : String :=
  s ++ String.ofList (List.replicate (width - s.length) ' ')

def hexLower (n : Nat) : String :=
  String.ofList (Nat.toDigits 16 n)

def hexUpper (width n : Nat) : String :=
  padLeft width '0' (String.ofList ((Nat.toDigits 16 n).map Char.toUpper))

def decimal (width n : Nat) : String :=
  padLeft width '0' (toString n)

def escape (c : Char) : String :=
  if c == '\x00' then "\\0"
  else if c == '\t' then "\\t"
  else if c == '\r' then "\\r"
  else if c == '\n' then "\\n"
  else if c == '"' then "\\\""
  else if c == '\\' then "\\\\"
  else if isHidden c then "\\u\x7b" ++ hexLower c.toNat ++ "\x7d"
  else c.toString

def quoted (s : String) : String :=
  "\"" ++ String.join (s.toList.map escape) ++ "\""

end Z80.Text
