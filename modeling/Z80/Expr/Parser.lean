import Z80.Expr.Basic
import Z80.SyntaxFault

namespace Z80

abbrev Reader (α : Type) := List Token → Except SyntaxFault (α × List Token)

namespace Expr

abbrev Level := Punct → Option BinaryOp

def orLevel : Level
  | .bar => some .or
  | _ => none

def xorLevel : Level
  | .caret => some .xor
  | _ => none

def andLevel : Level
  | .ampersand => some .and
  | _ => none

def shiftLevel : Level
  | .shiftLeft => some .shl
  | .shiftRight => some .shr
  | _ => none

def addLevel : Level
  | .plus => some .add
  | .minus => some .sub
  | _ => none

def mulLevel : Level
  | .star => some .mul
  | .slash => some .div
  | .percent => some .mod
  | _ => none

def levels : List Level :=
  [orLevel, xorLevel, andLevel, shiftLevel, addLevel, mulLevel]

def Level.op? (level : Level) : Lexeme → Option BinaryOp
  | .punct p => level p
  | _ => none

def readChain (level : Level) (operand : Reader Expr) : Nat → Expr → Reader Expr
  | n + 1, left, t :: ts => match level.op? t.lexeme with
      | some op => do
          let (right, rest) ← operand ts
          readChain level operand n (.binary op left right) rest
      | none => .ok (left, t :: ts)
  | _, left, ts => .ok (left, ts)

def readLevel (level : Level) (operand : Reader Expr) : Reader Expr := fun ts => do
  let (left, rest) ← operand ts
  readChain level operand rest.length left rest

def readLevels (operand : Reader Expr) : Reader Expr :=
  levels.foldr readLevel operand

def prefixed : UnaryOp → Expr → Expr
  | .pos, e => e
  | .neg, .number n => if n.toInt = -2147483648 then .unary .neg (.number n) else .number (-n)
  | op, e => .unary op e

def prefixOp? : Lexeme → Option UnaryOp
  | .punct .plus => some .pos
  | .punct .minus => some .neg
  | .punct .tilde => some .not
  | _ => none

def ofLexeme? : Lexeme → Option Expr
  | .name s => some (.symbol s)
  | .punct .dollar => some .here
  | .number _ n => some (.number n)
  | .char c => some (.number (Int32.ofNat c.toNat))
  | .text s => match s.toList with
      | [c] => some (.number (Int32.ofNat c.toNat))
      | _ => none
  | _ => none

def closeParen : List Token → Except SyntaxFault (List Token)
  | t :: ts => if t.lexeme = .punct .rightParen then .ok ts else .error .rightParenExpected
  | [] => .error .rightParenExpected

def readOperand : Nat → Reader Expr
  | 0, _ => .error .expressionExpected
  | _ + 1, [] => .error .expressionExpected
  | n + 1, t :: ts => match prefixOp? t.lexeme with
      | some op => do
          let (e, rest) ← readOperand n ts
          return (prefixed op e, rest)
      | none =>
        if t.lexeme = .punct .leftParen then do
          let (e, rest) ← readLevels (readOperand n) ts
          let rest ← closeParen rest
          return (e, rest)
        else match ofLexeme? t.lexeme with
          | some e => .ok (e, ts)
          | none => .error (.strayInExpression t.lexeme)

def read : Reader Expr := fun ts =>
  readLevels (readOperand ts.length) ts

def readBare : Reader Expr := fun ts =>
  match ts with
  | t :: _ => if t.lexeme = .punct .leftParen then .error .operandParen else read ts
  | [] => read ts

end Expr

end Z80
