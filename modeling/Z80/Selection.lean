import Z80.Error
import Z80.Expr.Parser
import Z80.InstructionSet.Basic

namespace Z80

structure Binding where
  placeholder : Placeholder
  expr : Expr
deriving DecidableEq

inductive Fit where
  | matched (bound : List Binding)
  | mismatch
  | unresolved (name : String)
deriving DecidableEq

namespace Fit

def bind (b : Binding) : Fit → Fit
  | matched bound => matched (b :: bound)
  | fit => fit

def matched? : Fit → Option (List Binding)
  | matched bound => some bound
  | _ => none

def unresolved? : Fit → Option String
  | unresolved name => some name
  | _ => none

end Fit

inductive PatternPart where
  | literal (t : PatternToken)
  | number (n : Int32)
  | slot (p : Placeholder)
  | displacement
deriving DecidableEq

def PatternPart.ofToken : PatternToken → PatternPart
  | .number n => .number n
  | .slot p => .slot p
  | t => .literal t

def patternParts : List PatternToken → List PatternPart
  | [] => []
  | t :: pattern =>
      if t = .punct .plus ∧ pattern.head? = some (.slot .disp8) then
        .displacement :: (patternParts pattern).tail
      else .ofToken t :: patternParts pattern

def PatternToken.takes : PatternToken → Lexeme → Bool
  | punct p, .punct p' => p == p'
  | keyword k, .keyword k' => k == k'
  | word w, .name s => Text.lower s == Text.lower w
  | _, _ => false

def fitLiteral (t : PatternToken) (next : List Token → Fit) (ts : List Token) : Fit :=
  match ts with
  | u :: rest => if t.takes u.lexeme then next rest else .mismatch
  | [] => .mismatch

def fitSlot (p : Placeholder) (next : List Token → Fit) (ts : List Token) : Fit :=
  match Expr.readBare ts with
  | .ok (e, rest) => (next rest).bind ⟨p, e⟩
  | .error _ => .mismatch

def fitNumber (ctx : Context) (n : Int32) (next : List Token → Fit) (ts : List Token) : Fit :=
  match Expr.readBare ts with
  | .error _ => .mismatch
  | .ok (e, rest) => match e.evalTolerant ctx with
      | .ok (.value v) => if v = n then next rest else .mismatch
      | .ok (.unresolved e) => .unresolved (e.symbols.headD "")
      | .error _ => .mismatch

def fitDisplacement (next : List Token → Fit) (ts : List Token) : Fit :=
  match ts with
  | ⟨.punct .plus, _⟩ :: rest => fitSlot .disp8 next rest
  | ⟨.punct .minus, _⟩ :: _ => fitSlot .disp8 next ts
  | ⟨.punct .rightParen, _⟩ :: _ => (next ts).bind ⟨.disp8, .number 0⟩
  | _ => .mismatch

def PatternPart.fit (ctx : Context) (next : List Token → Fit) : PatternPart → List Token → Fit
  | literal t => fitLiteral t next
  | number n => fitNumber ctx n next
  | slot p => fitSlot p next
  | displacement => fitDisplacement next

def fitParts (ctx : Context) : List PatternPart → List Token → Fit
  | [], ts => if ts.isEmpty then .matched [] else .mismatch
  | part :: parts, ts => part.fit ctx (fitParts ctx parts) ts

def fit (ctx : Context) (pattern : List PatternToken) (operands : List Token) : Fit :=
  fitParts ctx (patternParts pattern) operands

structure Selection where
  variant : Variant
  bound : List Binding
deriving DecidableEq

namespace Selection

def ofVariant? (ctx : Context) (operands : List Token) (v : Variant) : Option Selection :=
  (fit ctx v.pattern operands).matched?.map fun bound => ⟨v, bound⟩

def first? (ctx : Context) (operands : List Token) (variants : List Variant) : Option Selection :=
  variants.findSome? (ofVariant? ctx operands)

def obstacle? (ctx : Context) (operands : List Token) (variants : List Variant) : Option String :=
  variants.findSome? fun v => (fit ctx v.pattern operands).unresolved?

end Selection

def InstructionSet.select (set : InstructionSet) (allowUndocumented : Bool) (ctx : Context)
    (mnemonic : String) (operands : List Token) : Except Error Selection :=
  match set.variants? mnemonic with
  | none => .error (.unknownMnemonic mnemonic)
  | some variants =>
    match Selection.first? ctx operands variants with
    | some selection =>
        if allowUndocumented || selection.variant.documented then .ok selection
        else .error (.undocumented (selection.variant.spelling mnemonic))
    | none => match Selection.obstacle? ctx operands variants with
        | some name => .error (.undefinedSymbol name)
        | none => .error (.noMatchingVariant mnemonic (renderTokens operands))

end Z80
