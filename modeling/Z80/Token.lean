import Z80.Keyword
import Z80.Punct
import Z80.Text

namespace Z80

inductive Lexeme where
  | punct (p : Punct)
  | keyword (k : Keyword)
  | name (s : String)
  | number (spelling : String) (value : Int32)
  | text (s : String)
  | char (c : Char)
  | comment (s : String)
deriving DecidableEq

namespace Lexeme

def endsValue : Lexeme → Bool
  | punct p => p == .rightParen || p == .dollar
  | keyword _ | name _ | number _ _ | text _ | char _ => true
  | comment _ => false

def render : Lexeme → String
  | punct p => p.text
  | keyword k => k.name
  | name s => s
  | number spelling _ => spelling
  | text s => Text.quoted s
  | char c => "'" ++ c.toString ++ "'"
  | comment s => ";" ++ s

def isWordLike : Lexeme → Bool
  | keyword _ | name _ | number _ _ => true
  | punct _ | text _ | char _ | comment _ => false

end Lexeme

structure Token where
  lexeme : Lexeme
  column : Nat
deriving DecidableEq

def renderTokens : List Token → String
  | [] => ""
  | [t] => t.lexeme.render
  | t :: u :: ts =>
      t.lexeme.render ++ (if t.lexeme.isWordLike && u.lexeme.isWordLike then " " else "") ++
        renderTokens (u :: ts)

end Z80
