namespace Z80

inductive UnaryOp where
  | pos | neg | not
deriving DecidableEq

inductive BinaryOp where
  | or | xor | and | shl | shr | add | sub | mul | div | mod
deriving DecidableEq

inductive Expr where
  | number (n : Int32)
  | here
  | symbol (name : String)
  | unary (op : UnaryOp) (e : Expr)
  | binary (op : BinaryOp) (left right : Expr)
deriving DecidableEq

def UnaryOp.text : UnaryOp → String
  | pos => "+"
  | neg => "-"
  | not => "~"

def BinaryOp.text : BinaryOp → String
  | or => "|"
  | xor => "^"
  | and => "&"
  | shl => "<<"
  | shr => ">>"
  | add => "+"
  | sub => "-"
  | mul => "*"
  | div => "/"
  | mod => "%"

namespace Expr

def render : Expr → String
  | number n => toString n.toInt
  | here => "$"
  | symbol name => name
  | unary op e => op.text ++ e.render
  | binary op l r => "(" ++ l.render ++ " " ++ op.text ++ " " ++ r.render ++ ")"

def symbols : Expr → List String
  | number _ | here => []
  | symbol name => [name]
  | unary _ e => e.symbols
  | binary _ l r => l.symbols ++ r.symbols

def isClosed (e : Expr) : Bool :=
  e.symbols.isEmpty

end Expr

end Z80
