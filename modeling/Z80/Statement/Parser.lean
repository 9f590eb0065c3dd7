import Z80.Error
import Z80.Expr.Parser
import Z80.Statement.Basic

namespace Z80

inductive Directive where
  | data (width : DataWidth)
  | equ
  | org
  | align
  | fill
deriving DecidableEq

namespace Directive

def names : List (String × Directive) :=
  [("db", data .byte), ("defb", data .byte), (".db", data .byte), (".byte", data .byte),
   ("defm", data .byte), ("dm", data .byte), (".dm", data .byte), (".text", data .byte),
   (".ascii", data .byte),
   ("dw", data .word), ("defw", data .word), (".dw", data .word), (".word", data .word),
   (".long", data .long),
   ("equ", equ), (".equ", equ),
   ("org", org), (".org", org), (".loc", org),
   ("align", align), (".align", align),
   ("ds", fill), ("defs", fill), (".ds", fill), (".block", fill), (".blkb", fill), ("data", fill)]

def ofName? (s : String) : Option Directive :=
  names.lookup s

end Directive

namespace Line

abbrev Result := Except Error

def syntactic {α : Type} (fault : SyntaxFault) : Result α :=
  .error (.syntactic fault)

def readList {α : Type} (item : List Token → Result (α × List Token)) :
    Nat → List Token → Result (List α)
  | 0, ts => do
      let (a, rest) ← item ts
      match rest with
      | [] => return [a]
      | t :: _ => syntactic (.stray t.lexeme)
  | n + 1, ts => do
      let (a, rest) ← item ts
      match rest with
      | [] => return [a]
      | t :: rest =>
          if t.lexeme = .punct .comma then
            let as ← readList item n rest
            return a :: as
          else syntactic (.stray t.lexeme)

def readItems {α : Type} (item : List Token → Result (α × List Token)) (ts : List Token) :
    Result (List α) :=
  readList item ts.length ts

def readExpr (ts : List Token) : Result (Expr × List Token) :=
  (Expr.read ts).mapError .syntactic

def readExprs (ts : List Token) : Result (List Expr) :=
  readItems readExpr ts

def readSingle (ts : List Token) : Result Expr := do
  match ← readExprs ts with
  | [e] => return e
  | _ => syntactic .singleValueExpected

def readWithFill (ts : List Token) : Result (Expr × Option Expr) := do
  match ← readExprs ts with
  | [e] => return (e, none)
  | [e, fill] => return (e, some fill)
  | _ => syntactic .valueWithFillExpected

def textBytes : List Char → Result (List UInt8)
  | [] => .ok []
  | c :: cs =>
      if c.toNat < 256 then do
        let bytes ← textBytes cs
        return UInt8.ofNat c.toNat :: bytes
      else .error (.lexical (.wideCharacter c))

def adjustOp? : Lexeme → Option BinaryOp
  | .punct .plus => some .add
  | .punct .minus => some .sub
  | .punct .ampersand => some .and
  | .punct .bar => some .or
  | .punct .caret => some .xor
  | _ => none

def readAdjust : List Token → Result (Option (BinaryOp × Expr) × List Token)
  | [] => .ok (none, [])
  | t :: ts => match adjustOp? t.lexeme with
      | none => .ok (none, t :: ts)
      | some op => do
          let (e, rest) ← readExpr ts
          return (some (op, e), rest)

def readExprItem (ts : List Token) : Result (DataItem × List Token) := do
  let (e, rest) ← readExpr ts
  return (.expr e, rest)

def readByteItem : List Token → Result (DataItem × List Token)
  | [] => readExprItem []
  | t :: ts => match t.lexeme with
      | .text s => do
          let (adjust, rest) ← readAdjust ts
          let bytes ← textBytes s.toList
          return (.text bytes adjust, rest)
      | .name s => match Predefined.ofName? s with
          | some p => .ok (.predefined p, ts)
          | none => readExprItem (t :: ts)
      | _ => readExprItem (t :: ts)

def readData (width : DataWidth) (ts : List Token) : Result (List DataItem) :=
  match width with
  | .byte => readItems readByteItem ts
  | .word | .long => readItems readExprItem ts

def readStatement (labelled : Bool) (mnemonic : String) (args : List Token) : Result Statement :=
  match Directive.ofName? mnemonic with
  | some (.data width) => do
      let items ← readData width args
      return .data width items
  | some .equ =>
      if labelled then do
        let e ← readSingle args
        return .equ e
      else syntactic (.labelNeeded mnemonic)
  | some .org => do
      let e ← readSingle args
      return .org e
  | some .align => do
      let (boundary, fill) ← readWithFill args
      return .align boundary fill
  | some .fill => do
      let (count, fill) ← readWithFill args
      return .fill count fill
  | none => .ok (.instruction mnemonic args)

def readSegment (args : List Token) : Result Statement :=
  match args with
  | ⟨.name name, _⟩ :: [] => .ok (.segment name none)
  | ⟨.name name, _⟩ :: t :: ts =>
      if t.lexeme = .punct .comma then do
        let exprs ← readExprs ts
        if exprs.length > 2 then syntactic .tooManySegmentArguments
        else return .segment name exprs.head?
      else syntactic .commaExpected
  | _ => syntactic .segmentExpected

def readTarget (args : List Token) : Result Statement :=
  match args with
  | [⟨.name name, _⟩] => match Target.ofName? name with
      | some t => .ok (.target t)
      | none => syntactic (.unknownTarget name)
  | _ => syntactic .targetExpected

def withoutArgs (statement : Statement) : List Token → Result Statement
  | [] => .ok statement
  | t :: _ => syntactic (.stray t.lexeme)

def readHash (ts : List Token) : Result Statement :=
  match ts with
  | ⟨.name name, _⟩ :: args =>
      let name := Text.lower name
      if name = "code" then readSegment args
      else if name = "local" then withoutArgs .openLocal args
      else if name = "endlocal" then withoutArgs .closeLocal args
      else if name = "target" then readTarget args
      else .error (.unknownDirective ("#" ++ name))
  | _ => syntactic .directiveExpected

def splitLabel (ts : List Token) : Option Label × List Token :=
  match ts with
  | ⟨.name name, column⟩ :: rest => match rest with
      | ⟨.punct .colon, _⟩ :: ⟨.punct .colon, _⟩ :: rest => (some ⟨name, true⟩, rest)
      | ⟨.punct .colon, _⟩ :: rest => (some ⟨name, false⟩, rest)
      | _ => if column = 0 then (some ⟨name, false⟩, rest) else (none, ts)
  | _ => (none, ts)

def ofTokens (ts : List Token) : Result Line :=
  match ts with
  | ⟨.punct .hash, _⟩ :: rest => do
      let statement ← readHash rest
      return ⟨none, some statement⟩
  | _ =>
      let (label, rest) := splitLabel ts
      match rest with
      | [] => .ok ⟨label, none⟩
      | ⟨.name name, _⟩ :: args => do
          let statement ← readStatement label.isSome (Text.lower name) args
          return ⟨label, some statement⟩
      | t :: _ => syntactic (.mnemonicExpected t.lexeme)

def dropComment (ts : List Token) : List Token :=
  match ts.getLast? with
  | some ⟨.comment _, _⟩ => ts.dropLast
  | _ => ts

def parse (text : String) : Result Line := do
  let ts ← (Token.scan text).mapError .lexical
  ofTokens (dropComment ts)

end Line

end Z80
