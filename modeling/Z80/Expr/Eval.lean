import Z80.Expr.Basic

namespace Z80

structure Context where
  value? : String → Option Int32
  here : UInt16

inductive OperationFault where
  | divisionByZero
  | overflow
  | shiftAmount (n : Int32)
deriving DecidableEq

inductive ArithmeticFault where
  | operation (fault : OperationFault) (e : Expr)
  | negativeCount (n : Int32)
  | zeroAlignment
deriving DecidableEq

inductive EvalFault where
  | undefined (name : String)
  | arithmetic (fault : ArithmeticFault)
deriving DecidableEq

def ArithmeticFault.message : ArithmeticFault → String
  | operation .divisionByZero e => "division by zero in `" ++ e.render ++ "`"
  | operation .overflow e => "overflow in `" ++ e.render ++ "`"
  | operation (.shiftAmount n) _ => s!"shift by {n.toInt}"
  | negativeCount n => s!"negative count {n.toInt}"
  | zeroAlignment => "alignment of 0"

def inRange (n : Int) : Except OperationFault Int32 :=
  if -2147483648 ≤ n ∧ n ≤ 2147483647 then .ok (Int32.ofInt n) else .error .overflow

def UnaryOp.apply : UnaryOp → Int32 → Except OperationFault Int32
  | pos, a => .ok a
  | neg, a => inRange (-a.toInt)
  | not, a => .ok (~~~a)

def shifted (shift : Int32 → Int32 → Int32) (a b : Int32) : Except OperationFault Int32 :=
  if 0 ≤ b.toInt ∧ b.toInt < 32 then .ok (shift a b) else .error (.shiftAmount b)

def BinaryOp.apply : BinaryOp → Int32 → Int32 → Except OperationFault Int32
  | or, a, b => .ok (a ||| b)
  | xor, a, b => .ok (a ^^^ b)
  | and, a, b => .ok (a &&& b)
  | shl, a, b => shifted (· <<< ·) a b
  | shr, a, b => shifted (· >>> ·) a b
  | add, a, b => inRange (a.toInt + b.toInt)
  | sub, a, b => inRange (a.toInt - b.toInt)
  | mul, a, b => inRange (a.toInt * b.toInt)
  | div, a, b =>
      if b = 0 then .error .divisionByZero else inRange (Int.tdiv a.toInt b.toInt)
  | mod, a, b =>
      if b = 0 then .error .divisionByZero
      else match inRange (Int.tdiv a.toInt b.toInt) with
        | .ok _ => inRange (Int.tmod a.toInt b.toInt)
        | .error fault => .error fault

def OperationFault.within {α : Type} (e : Expr) : Except OperationFault α → Except EvalFault α
  | .ok v => .ok v
  | .error fault => .error (.arithmetic (.operation fault e))

namespace Expr

def eval (ctx : Context) : Expr → Except EvalFault Int32
  | number n => .ok n
  | here => .ok (Int32.ofNat ctx.here.toNat)
  | symbol name => match ctx.value? name with
      | some v => .ok v
      | none => .error (.undefined name)
  | unary op e => do
      let v ← e.eval ctx
      OperationFault.within (unary op e) (op.apply v)
  | binary op l r => do
      let a ← l.eval ctx
      let b ← r.eval ctx
      OperationFault.within (binary op l r) (op.apply a b)

end Expr

inductive Evaluated where
  | value (v : Int32)
  | unresolved (e : Expr)
deriving DecidableEq

def Expr.evalTolerant (ctx : Context) (e : Expr) : Except ArithmeticFault Evaluated :=
  match e.eval ctx with
  | .ok v => .ok (.value v)
  | .error (.undefined _) => .ok (.unresolved e)
  | .error (.arithmetic fault) => .error fault

end Z80
