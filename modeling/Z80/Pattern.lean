import Z80.Keyword
import Z80.Numeral
import Z80.Placeholder
import Z80.Punct

namespace Z80

inductive PatternToken where
  | punct (p : Punct)
  | keyword (k : Keyword)
  | number (n : Int32)
  | word (w : String)
  | slot (p : Placeholder)
deriving DecidableEq

namespace PatternToken

def text : PatternToken → String
  | punct p => p.text
  | keyword k => k.name
  | number n => toString n.toInt
  | word w => w
  | slot p => p.name

def puncts : List Punct :=
  [.leftParen, .rightParen, .comma, .plus]

def ofText? (s : String) : Option PatternToken :=
  match Placeholder.ofName? s with
  | some p => some (slot p)
  | none =>
    match puncts.find? fun p => p.text == s with
    | some p => some (punct p)
    | none =>
      match Keyword.ofName? s with
      | some k => some (keyword k)
      | none =>
        if Numeral.isDigits 10 s.toList then
          match Numeral.value? 10 s.toList with
          | some n => if n < 2147483648 then some (number (Int32.ofNat n)) else none
          | none => none
        else if !s.isEmpty && s.toList.all Char.isAlpha then some (word (Text.lower s))
        else none

def placeholder? : PatternToken → Option Placeholder
  | slot p => some p
  | _ => none

def isWord : PatternToken → Bool
  | word _ => true
  | _ => false

end PatternToken

def patternText : List PatternToken → String
  | [] => ""
  | [t] => t.text
  | t :: ts => t.text ++ (if t.isWord then " " else "") ++ patternText ts

end Z80
