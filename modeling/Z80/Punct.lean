namespace Z80

inductive Punct where
  | shiftLeft | shiftRight
  | plus | minus | star | slash | percent | ampersand | bar | caret | tilde
  | colon | comma | leftParen | rightParen | hash | dollar
deriving DecidableEq

namespace Punct

def text : Punct → String
  | shiftLeft => "<<"
  | shiftRight => ">>"
  | plus => "+"
  | minus => "-"
  | star => "*"
  | slash => "/"
  | percent => "%"
  | ampersand => "&"
  | bar => "|"
  | caret => "^"
  | tilde => "~"
  | colon => ":"
  | comma => ","
  | leftParen => "("
  | rightParen => ")"
  | hash => "#"
  | dollar => "$"

def ofChar? (c : Char) : Option Punct :=
  if c == '+' then some plus
  else if c == '-' then some minus
  else if c == '*' then some star
  else if c == '/' then some slash
  else if c == '%' then some percent
  else if c == '&' then some ampersand
  else if c == '|' then some bar
  else if c == '^' then some caret
  else if c == '~' then some tilde
  else if c == ':' then some colon
  else if c == ',' then some comma
  else if c == '(' then some leftParen
  else if c == ')' then some rightParen
  else if c == '#' then some hash
  else none

end Punct

end Z80
