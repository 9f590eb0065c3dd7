import Z80.Numeral
import Z80.Text
import Z80.Token

namespace Z80

inductive LexicalFault where
  | malformedNumber (spelling : String)
  | strayCharacter (c : Char) (column : Nat)
  | unclosedLiteral (quote : Char)
  | unclosedEscape
  | unknownEscape (c : Char)
  | wideCharacter (c : Char)
deriving DecidableEq

def LexicalFault.message : LexicalFault → String
  | malformedNumber spelling => s!"malformed number `{spelling}`"
  | strayCharacter c column => s!"unexpected character `{c}` at column {column + 1}"
  | unclosedLiteral quote => s!"unterminated literal, expected closing {quote}"
  | unclosedEscape => "unterminated escape"
  | unknownEscape c => s!"invalid escape `\\{c}`"
  | wideCharacter c => s!"character `{c}` does not fit in a byte"

namespace Lexeme

def ofNumber (spelling : List Char) (value : Option UInt32) : Except LexicalFault Lexeme :=
  match value with
  | some w => .ok (number (String.ofList spelling) w.toInt32)
  | none => .error (.malformedNumber (String.ofList spelling))

def ofWord (cs : List Char) : Lexeme :=
  match Keyword.ofName? (String.ofList cs) with
  | some k => keyword k
  | none => name (String.ofList cs)

def unescape (c : Char) : Except LexicalFault Char :=
  if c == 'n' then .ok '\n'
  else if c == 't' then .ok '\t'
  else if c == 'r' then .ok '\r'
  else if c == '0' then .ok '\x00'
  else if c == '\\' || c == '\'' || c == '"' then .ok c
  else .error (.unknownEscape c)

def literal (quote : Char) : List Char → Except LexicalFault (List Char × Nat)
  | [] => .error (.unclosedLiteral quote)
  | [c] =>
      if c == '\\' then .error .unclosedEscape
      else if c == quote then .ok ([], 1)
      else .error (.unclosedLiteral quote)
  | c :: d :: cs =>
      if c == '\\' then do
        let e ← unescape d
        let (chars, n) ← literal quote cs
        return (e :: chars, n + 2)
      else if c == quote then .ok ([], 1)
      else do
        let (chars, n) ← literal quote (d :: cs)
        return (c :: chars, n + 1)

def ofLiteral (quote : Char) : List Char → Lexeme
  | [c] => if quote == '\'' then char c else text c.toString
  | cs => text (String.ofList cs)

def numberRun (cs : List Char) : List Char :=
  cs.takeWhile Char.isAlphanum

def startsWith (p : Char → Bool) : List Char → Bool
  | [] => false
  | c :: _ => p c

def scan (afterValue : Bool) (column : Nat) (c : Char) (cs : List Char) :
    Except LexicalFault (Lexeme × Nat) :=
  if c == ';' then .ok (comment (String.ofList cs), cs.length)
  else if c == '<' && startsWith (· == '<') cs then .ok (punct .shiftLeft, 1)
  else if c == '>' && startsWith (· == '>') cs then .ok (punct .shiftRight, 1)
  else if c == '$' then
    if startsWith (Numeral.isDigit 16) cs then do
      let run := numberRun cs
      let lexeme ← ofNumber (c :: run) (Numeral.word? 16 run)
      return (lexeme, run.length)
    else .ok (punct .dollar, 0)
  else if c == '%' && !afterValue && startsWith (Numeral.isDigit 2) cs then do
    let run := numberRun cs
    let lexeme ← ofNumber (c :: run) (Numeral.word? 2 run)
    return (lexeme, run.length)
  else match Punct.ofChar? c with
    | some p => .ok (punct p, 0)
    | none =>
      if c.isDigit then do
        let run := numberRun cs
        let lexeme ← ofNumber (c :: run) (Numeral.ofSpelling? (c :: run))
        return (lexeme, run.length)
      else if c == '\'' || c == '"' then do
        let (chars, n) ← literal c cs
        return (ofLiteral c chars, n)
      else if Text.isNameStart c then
        let run := cs.takeWhile Text.isNameRest
        let word := c :: run
        if word.map Char.toLower == ['a', 'f'] && startsWith (· == '\'') (cs.drop run.length) then
          .ok (keyword .afShadow, run.length + 1)
        else .ok (ofWord word, run.length)
      else .error (.strayCharacter c column)

end Lexeme

namespace Token

def scanFrom : Nat → Bool → Nat → List Char → Except LexicalFault (List Token)
  | _, _, _, [] => .ok []
  | skip + 1, afterValue, column, c :: cs => scanFrom skip afterValue (column + c.utf8Size) cs
  | 0, afterValue, column, c :: cs =>
      if Text.isBlank c then scanFrom 0 afterValue (column + c.utf8Size) cs
      else do
        let (lexeme, taken) ← Lexeme.scan afterValue column c cs
        let rest ← scanFrom taken lexeme.endsValue (column + c.utf8Size) cs
        return ⟨lexeme, column⟩ :: rest

def scan (line : String) : Except LexicalFault (List Token) :=
  scanFrom 0 false 0 line.toList

end Token

end Z80
