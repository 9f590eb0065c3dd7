import Z80.Token

namespace Z80

inductive SyntaxFault where
  | operandParen
  | rightParenExpected
  | strayInExpression (lexeme : Lexeme)
  | expressionExpected
  | mnemonicExpected (lexeme : Lexeme)
  | labelNeeded (directive : String)
  | directiveExpected
  | segmentExpected
  | commaExpected
  | tooManySegmentArguments
  | unknownTarget (name : String)
  | targetExpected
  | stray (lexeme : Lexeme)
  | singleValueExpected
  | valueWithFillExpected
  | nestedLocal
  | unopenedLocal
  | emptyAdjusted
deriving DecidableEq

def SyntaxFault.message : SyntaxFault → String
  | operandParen => "operand expression cannot start with `(`"
  | rightParenExpected => "expected `)`"
  | strayInExpression lexeme => "unexpected `" ++ lexeme.render ++ "` in expression"
  | expressionExpected => "expression expected"
  | mnemonicExpected lexeme => "expected a mnemonic, found `" ++ lexeme.render ++ "`"
  | labelNeeded directive => s!"`{directive}` needs a label"
  | directiveExpected => "directive name expected after `#`"
  | segmentExpected => "segment name expected"
  | commaExpected => "`,` expected"
  | tooManySegmentArguments => "too many arguments to #code"
  | unknownTarget name => s!"unknown target `{name}`"
  | targetExpected => "target name expected"
  | stray lexeme => "unexpected `" ++ lexeme.render ++ "`"
  | singleValueExpected => "a single value is expected"
  | valueWithFillExpected => "expected `value[, fill]`"
  | nestedLocal => "#local blocks cannot nest"
  | unopenedLocal => "#endlocal without #local"
  | emptyAdjusted => "empty string cannot be adjusted"

end Z80
