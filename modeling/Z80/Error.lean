import Z80.Expr.Eval
import Z80.Placeholder
import Z80.SyntaxFault
import Z80.Text
import Z80.Token.Lexer

namespace Z80

inductive Ambiguity where
  | missingOperand (spelling : String)
  | start (reached planned : Nat)
  | size (planned encoded : Nat)
deriving DecidableEq

def Ambiguity.message : Ambiguity → String
  | missingOperand spelling => spelling
  | start reached planned =>
      "line starts at " ++ Text.hexUpper 4 reached ++ " in pass 2 but " ++
        Text.hexUpper 4 planned ++ " in pass 1"
  | size planned encoded => s!"{planned} bytes planned, {encoded} encoded"

inductive Error where
  | lexical (fault : LexicalFault)
  | syntactic (fault : SyntaxFault)
  | unknownDirective (name : String)
  | unknownMnemonic (mnemonic : String)
  | noMatchingVariant (mnemonic operands : String)
  | undocumented (spelling : String)
  | duplicateSymbol (name : String) (line : Nat)
  | undefinedSymbol (name : String)
  | arithmetic (fault : ArithmeticFault)
  | operandOutOfRange (value : Int) (p : Placeholder)
  | branchOutOfRange (distance : Int)
  | ambiguousEncoding (cause : Ambiguity)
deriving DecidableEq

inductive ErrorKind where
  | lexical | syntactic | unknownDirective | unknownMnemonic | noMatchingVariant | undocumented
  | duplicateSymbol | undefinedSymbol | arithmetic | operandOutOfRange | branchOutOfRange
  | ambiguousEncoding
deriving DecidableEq

def ErrorKind.name : ErrorKind → String
  | lexical => "LexError"
  | syntactic => "SyntaxError"
  | unknownDirective => "UnknownDirective"
  | unknownMnemonic => "UnknownMnemonic"
  | noMatchingVariant => "NoMatchingVariant"
  | undocumented => "UndocumentedOpcodeRejected"
  | duplicateSymbol => "DuplicateSymbol"
  | undefinedSymbol => "UndefinedSymbol"
  | arithmetic => "ArithmeticError"
  | operandOutOfRange => "OperandOutOfRange"
  | branchOutOfRange => "BranchOutOfRange"
  | ambiguousEncoding => "AmbiguousEncoding"

namespace Error

def kind : Error → ErrorKind
  | lexical _ => .lexical
  | syntactic _ => .syntactic
  | unknownDirective _ => .unknownDirective
  | unknownMnemonic _ => .unknownMnemonic
  | noMatchingVariant _ _ => .noMatchingVariant
  | undocumented _ => .undocumented
  | duplicateSymbol _ _ => .duplicateSymbol
  | undefinedSymbol _ => .undefinedSymbol
  | arithmetic _ => .arithmetic
  | operandOutOfRange _ _ => .operandOutOfRange
  | branchOutOfRange _ => .branchOutOfRange
  | ambiguousEncoding _ => .ambiguousEncoding

def message : Error → String
  | lexical fault => "Lex error: " ++ fault.message
  | syntactic fault => "Syntax error: " ++ fault.message
  | unknownDirective name => s!"Unknown directive: `{name}`"
  | unknownMnemonic mnemonic => s!"Unknown mnemonic: `{mnemonic}`"
  | noMatchingVariant mnemonic operands => s!"No variant of `{mnemonic}` accepts `{operands}`"
  | undocumented spelling => s!"Undocumented instruction is disabled: `{spelling}`"
  | duplicateSymbol name line => s!"Symbol `{name}` is already defined at line {line}"
  | undefinedSymbol name => s!"Undefined symbol: `{name}`"
  | arithmetic fault => "Arithmetic error: " ++ fault.message
  | operandOutOfRange value p =>
      "Operand " ++ toString value ++ " is out of range for `" ++ p.name ++ "`"
  | branchOutOfRange distance =>
      "Branch target is " ++ toString distance ++ " bytes away, outside -128..127"
  | ambiguousEncoding cause => "Encoding of `" ++ cause.message ++ "` changed size between passes"

end Error

def EvalFault.toError : EvalFault → Error
  | undefined name => .undefinedSymbol name
  | arithmetic fault => .arithmetic fault

def Expr.value (ctx : Context) (e : Expr) : Except Error Int32 :=
  (e.eval ctx).mapError EvalFault.toError

end Z80
