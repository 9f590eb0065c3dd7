import Z80.Yaml.Scalar

namespace Z80.Yaml

inductive Token where
  | plain (s : String)
  | quoted (s : String)
  | name (s : String)
  | comma
  | openBrace
  | closeBrace
  | openBlock
  | closeBlock
  | documentStart
  | documentEnd
deriving DecidableEq

def Scalar.token (v : Scalar) : Token :=
  if v.isPlain then .plain v.text else .quoted v.text

def nameLimit : Nat :=
  1024

def colonAfter? (flow : Bool) (cs : List Char) : Option Nat :=
  match cs.dropWhile isBlank with
  | ':' :: rest => if flow || atBlank rest then some (cs.takeWhile isBlank).length else none
  | _ => none

def isMarker (mark : Char) (cs : List Char) : Bool :=
  [mark, mark, mark].isPrefixOf cs && atBlank (cs.drop 3)

structure Place where
  depth : Nat
  blocks : List Nat
  column : Nat
  started : Bool
  comment : Bool
  afterPlain : Bool

namespace Place

def start : Place :=
  ⟨0, [], 0, false, false, false⟩

def inBraces (p : Place) : Bool :=
  p.depth != 0

def margin (p : Place) : Nat :=
  match p.blocks with
  | [] => 0
  | column :: _ => column + 1

def continues (p : Place) : Bool :=
  p.afterPlain && !p.started && (p.inBraces || p.margin ≤ p.column)

def takesTab (p : Place) : Bool :=
  p.started || (if p.afterPlain then p.margin ≤ p.column else p.inBraces)

def skips (p : Place) (c : Char) : Bool :=
  p.comment || c == ' ' || (c == '\t' && p.takesTab)

def nextLine (p : Place) : Place :=
  { p with column := 0, started := false, comment := false }

def nextColumn (p : Place) : Place :=
  { p with column := p.column + 1 }

def takesName (p : Place) : Bool :=
  p.inBraces || !p.started

def takesValue (p : Place) : Bool :=
  p.inBraces || p.started || !p.blocks.contains p.column

def scanValue (p : Place) (c : Char) (cs : List Char) : Option (Token × Nat) := do
  let (v, n) ← scanScalar p.inBraces c cs
  match colonAfter? p.inBraces (cs.drop n) with
  | some blanks =>
      if p.takesName && 1 + n + blanks ≤ nameLimit then some (.name v.text, n + blanks + 1)
      else none
  | none => if p.takesValue then some (v.token, n) else none

def scanToken (p : Place) (c : Char) (cs : List Char) : Option (Token × Nat) :=
  if p.column == 0 && isMarker '-' (c :: cs) then some (.documentStart, 2)
  else if p.column == 0 && isMarker '.' (c :: cs) then some (.documentEnd, 2)
  else if p.inBraces && c == '\x7d' then some (.closeBrace, 0)
  else if p.inBraces && c == ',' then some (.comma, 0)
  else if c == '\x7b' then if p.takesValue then some (.openBrace, 0) else none
  else p.scanValue c cs

def closedBefore (p : Place) (token : Token) : Nat :=
  if p.inBraces then 0
  else if token = .documentStart ∨ token = .documentEnd then p.blocks.length
  else (p.blocks.takeWhile (p.column < ·)).length

def opensBlock (p : Place) (blocks : List Nat) (token : Token) : Bool :=
  match token with
  | .name _ => !p.inBraces && blocks.head?.all (· < p.column)
  | _ => false

def depthAfter (p : Place) : Token → Nat
  | .openBrace => p.depth + 1
  | .closeBrace => p.depth - 1
  | _ => p.depth

def step (p : Place) (token : Token) : List Token × Place :=
  let closed := p.closedBefore token
  let kept := p.blocks.drop closed
  let opens := p.opensBlock kept token
  (List.replicate closed .closeBlock ++ (if opens then [.openBlock, token] else [token]),
    { depth := p.depthAfter token
      blocks := if opens then p.column :: kept else kept
      column := p.column + 1
      started := true
      comment := false
      afterPlain := match token with
        | .plain _ => true
        | _ => false })

end Place

def scanFrom : Nat → Place → List Char → Option (List Token)
  | _, p, [] => some (List.replicate p.blocks.length .closeBlock)
  | skip + 1, p, _ :: cs => scanFrom skip p.nextColumn cs
  | 0, p, c :: cs =>
      if isBreak c then scanFrom 0 p.nextLine cs
      else if p.skips c then scanFrom 0 p.nextColumn cs
      else if c == '#' then scanFrom 0 { p with comment := true, afterPlain := false } cs
      else if p.continues && c != ',' && c != '\x7d' then none
      else if c == '\ufeff' && p.column == 0 then
        scanFrom 0 { p.nextColumn with afterPlain := false } cs
      else do
        let (token, taken) ← p.scanToken c cs
        let rest ← scanFrom taken (p.step token).2 cs
        return (p.step token).1 ++ rest

def scan (text : String) : Option (List Token) :=
  if text.toList.all isAllowed then scanFrom 0 .start (unifyBreaks text.toList) else none

end Z80.Yaml
