import Mathlib
import Z80.Proofs.Evaluation
import Z80.Selection
import Z80.Statement.Basic

namespace Z80

variable {f g : String → String}

namespace Expr

def rename (f : String → String) : Expr → Expr
  | number n => number n
  | here => here
  | symbol name => symbol (f name)
  | unary op e => unary op (e.rename f)
  | binary op l r => binary op (l.rename f) (r.rename f)

theorem rename_congr {e : Expr} (h : ∀ x ∈ e.symbols, f x = g x) : e.rename f = e.rename g := by
  induction e with
  | number n => rfl
  | here => rfl
  | symbol name => simp [rename, h name (by simp [symbols])]
  | unary op e ih => simp [rename, ih h]
  | binary op l r ihl ihr =>
      have hl := ihl fun x hx => h x (by simp [symbols, hx])
      have hr := ihr fun x hx => h x (by simp [symbols, hx])
      simp [rename, hl, hr]

@[simp] theorem rename_id (e : Expr) : e.rename id = e := by
  induction e with
  | number n => rfl
  | here => rfl
  | symbol name => rfl
  | unary op e ih => simp [rename, ih]
  | binary op l r ihl ihr => simp [rename, ihl, ihr]

@[simp] theorem symbols_rename (f : String → String) (e : Expr) :
    (e.rename f).symbols = e.symbols.map f := by
  induction e with
  | number n => rfl
  | here => rfl
  | symbol name => rfl
  | unary op e ih => simpa [rename, symbols] using ih
  | binary op l r ihl ihr => simp [rename, symbols, ihl, ihr]

@[simp] theorem isClosed_rename (f : String → String) (e : Expr) :
    (e.rename f).isClosed = e.isClosed := by
  simp [isClosed]

theorem prefixed_rename (f : String → String) (op : UnaryOp) (e : Expr) :
    prefixed op (e.rename f) = (prefixed op e).rename f := by
  cases op with
  | pos => rfl
  | not => rfl
  | neg =>
      cases e with
      | number n =>
          simp only [rename, prefixed]
          split <;> rfl
      | here | symbol _ | unary _ _ | binary _ _ _ => rfl

end Expr

def Lexeme.rename (f : String → String) : Lexeme → Lexeme
  | name s => name (f s)
  | l => l

def Token.rename (f : String → String) (t : Token) : Token :=
  { t with lexeme := t.lexeme.rename f }

theorem Lexeme.rename_eq_punct {l : Lexeme} {p : Punct} :
    l.rename f = .punct p ↔ l = .punct p := by
  cases l <;> simp [rename]

namespace Expr

theorem op?_rename (level : Level) (l : Lexeme) : level.op? (l.rename f) = level.op? l := by
  cases l <;> rfl

theorem prefixOp?_rename (l : Lexeme) : prefixOp? (l.rename f) = prefixOp? l := by
  cases l <;> rfl

theorem ofLexeme?_rename (l : Lexeme) :
    ofLexeme? (l.rename f) = (ofLexeme? l).map (Expr.rename f) := by
  cases l with
  | name s => rfl
  | punct p => cases p <;> rfl
  | keyword k => rfl
  | number spelling n => rfl
  | char c => rfl
  | comment s => rfl
  | text s =>
      simp only [Lexeme.rename, ofLexeme?]
      split <;> rfl

def renameRead (f : String → String) (read : Expr × List Token) : Expr × List Token :=
  (read.1.rename f, read.2.map (Token.rename f))

def Uniform (f : String → String) (read : Reader Expr) : Prop :=
  ∀ ts, read (ts.map (Token.rename f)) = (read ts).map (renameRead f)

variable {operand : Reader Expr}

theorem Uniform.chain (h : Uniform f operand) (level : Level) (n : Nat) :
    ∀ (left : Expr) (ts : List Token),
    readChain level operand n (left.rename f) (ts.map (Token.rename f)) =
      (readChain level operand n left ts).map (renameRead f) := by
  induction n with
  | zero =>
      intro left ts
      simp [readChain, renameRead, Except.map]
  | succ n ih =>
      intro left ts
      cases ts with
      | nil => simp [readChain, renameRead, Except.map]
      | cons t ts =>
          have hop : level.op? (t.rename f).lexeme = level.op? t.lexeme := op?_rename level t.lexeme
          simp only [List.map_cons, readChain, hop]
          cases level.op? t.lexeme with
          | none => simp [renameRead, Except.map]
          | some op =>
              simp only [h ts]
              cases operand ts with
              | error fault => rfl
              | ok read => exact ih (.binary op left read.1) read.2

theorem Uniform.level (h : Uniform f operand) (level : Level) :
    Uniform f (readLevel level operand) := by
  intro ts
  simp only [readLevel, h ts]
  cases operand ts with
  | error fault => rfl
  | ok read =>
      have hlength : (renameRead f read).2.length = read.2.length := by simp [renameRead]
      simp only [Except.map, bind, Except.bind, hlength]
      exact h.chain level read.2.length read.1 read.2

theorem Uniform.levels (h : Uniform f operand) : Uniform f (readLevels operand) := by
  unfold readLevels
  induction Expr.levels with
  | nil => exact h
  | cons level levels ih => exact Uniform.level ih level

theorem closeParen_rename (f : String → String) (ts : List Token) :
    closeParen (ts.map (Token.rename f)) = (closeParen ts).map (List.map (Token.rename f)) := by
  cases ts with
  | nil => rfl
  | cons t ts =>
      simp only [List.map_cons, closeParen, Token.rename, Lexeme.rename_eq_punct]
      split <;> rfl

theorem readOperand_uniform (f : String → String) (n : Nat) : Uniform f (readOperand n) := by
  induction n with
  | zero => exact fun _ => rfl
  | succ n ih =>
      intro ts
      cases ts with
      | nil => rfl
      | cons t ts =>
          simp only [List.map_cons, readOperand, Token.rename, prefixOp?_rename,
            Lexeme.rename_eq_punct]
          cases prefixOp? t.lexeme with
          | some op =>
              simp only [ih ts]
              cases readOperand n ts with
              | error fault => rfl
              | ok read => simp [Except.map, bind, Except.bind, pure, Except.pure, renameRead,
                  prefixed_rename]
          | none =>
              dsimp only
              split
              · rw [ih.levels ts]
                cases readLevels (readOperand n) ts with
                | error fault => rfl
                | ok read =>
                    simp only [Except.map, bind, Except.bind, renameRead, closeParen_rename]
                    cases closeParen read.2 <;> rfl
              · rw [ofLexeme?_rename]
                cases h : ofLexeme? t.lexeme with
                | some e => rfl
                | none =>
                    -- A name is an expression, so the stray token has none.
                    cases hl : t.lexeme with
                    | name s => simp [hl, ofLexeme?] at h
                    | punct _ | keyword _ | number _ _ | text _ | char _ | comment _ => rfl

theorem read_uniform (f : String → String) : Uniform f read := by
  intro ts
  simp only [read, List.length_map]
  exact (readOperand_uniform f ts.length).levels ts

theorem readBare_uniform (f : String → String) : Uniform f readBare := by
  intro ts
  cases ts with
  | nil => exact read_uniform f []
  | cons t ts =>
      simp only [List.map_cons, readBare, Token.rename, Lexeme.rename_eq_punct]
      split
      · rfl
      · exact read_uniform f (t :: ts)

end Expr

section Values

variable {c c' : Context}

def ArithmeticFault.rename (f : String → String) : ArithmeticFault → ArithmeticFault
  | operation fault e => operation fault (e.rename f)
  | fault => fault

def EvalFault.rename (f : String → String) : EvalFault → EvalFault
  | undefined name => undefined (f name)
  | arithmetic fault => arithmetic (fault.rename f)

def Evaluated.rename (f : String → String) : Evaluated → Evaluated
  | value v => value v
  | unresolved e => unresolved (e.rename f)

theorem within_rename {α : Type} (f : String → String) (e : Expr) (r : Except OperationFault α) :
    OperationFault.within (e.rename f) r =
      (OperationFault.within e r).mapError (EvalFault.rename f) := by
  cases r <;> rfl

namespace Expr

theorem eval_rename (here : c'.here = c.here) {e : Expr}
    (h : ∀ x ∈ e.symbols, c'.value? (f x) = c.value? x) :
    (e.rename f).eval c' = (e.eval c).mapError (EvalFault.rename f) := by
  induction e with
  | number n => rfl
  | here => simp [rename, eval, here, Except.mapError]
  | symbol name =>
      have hname := h name (by simp [symbols])
      simp only [rename, eval, hname]
      cases c.value? name <;> rfl
  | unary op e ih =>
      simp only [rename, eval, ih h]
      cases e.eval c with
      | error fault => rfl
      | ok v => exact within_rename f (.unary op e) (op.apply v)
  | binary op l r ihl ihr =>
      have hl := ihl fun x hx => h x (by simp [symbols, hx])
      have hr := ihr fun x hx => h x (by simp [symbols, hx])
      simp only [rename, eval, hl, hr]
      cases l.eval c with
      | error fault => rfl
      | ok a =>
          cases r.eval c with
          | error fault => rfl
          | ok b => exact within_rename f (.binary op l r) (op.apply a b)

theorem evalTolerant_rename (here : c'.here = c.here) {e : Expr}
    (h : ∀ x ∈ e.symbols, c'.value? (f x) = c.value? x) :
    (e.rename f).evalTolerant c' =
      ((e.evalTolerant c).map (Evaluated.rename f)).mapError (ArithmeticFault.rename f) := by
  simp only [evalTolerant, eval_rename here h]
  cases e.eval c with
  | ok v => rfl
  | error fault => cases fault <;> rfl

end Expr

end Values

def Binding.rename (f : String → String) (b : Binding) : Binding :=
  { b with expr := b.expr.rename f }

def Selection.rename (f : String → String) (s : Selection) : Selection :=
  { s with bound := s.bound.map (Binding.rename f) }

inductive Fit.Renames (f : String → String) : Fit → Fit → Prop
  | matched (bound : List Binding) : Renames f (.matched bound)
      (.matched (bound.map (Binding.rename f)))
  | mismatch : Renames f .mismatch .mismatch
  | unresolved (name name' : String) : Renames f (.unresolved name) (.unresolved name')

namespace Fit.Renames

variable {fit fit' : Fit}

theorem bind (h : Renames f fit fit') (b : Binding) :
    Renames f (fit.bind b) (fit'.bind (b.rename f)) := by
  cases h with
  | matched bound => exact matched (b :: bound)
  | mismatch => exact mismatch
  | unresolved name name' => exact unresolved name name'

theorem matched?_eq (h : Renames f fit fit') :
    fit'.matched? = fit.matched?.map (List.map (Binding.rename f)) := by
  cases h <;> rfl

theorem unresolved?_isSome (h : Renames f fit fit') :
    fit'.unresolved?.isSome = fit.unresolved?.isSome := by
  cases h <;> rfl

end Fit.Renames

section Fits

variable {ctx ctx' : Context} {next next' : List Token → Fit}

structure Context.Renames (f : String → String) (c c' : Context) : Prop where
  here : c'.here = c.here
  value : ∀ x, c'.value? (f x) = c.value? x

structure ReadsAlike (f : String → String) (g : Token → Token) : Prop where
  punct : ∀ t p, (g t).lexeme = .punct p ↔ t.lexeme = .punct p
  ok : ∀ ts e rest, Expr.readBare ts = .ok (e, rest) →
    Expr.readBare (ts.map g) = .ok (e.rename f, rest.map g)
  error : ∀ ts fault, Expr.readBare ts = .error fault →
    ∃ fault', Expr.readBare (ts.map g) = .error fault'

theorem rename_readsAlike (f : String → String) : ReadsAlike f (Token.rename f) where
  punct t p := Lexeme.rename_eq_punct
  ok ts e rest h := by
    rw [Expr.readBare_uniform f ts, h]
    rfl
  error ts fault h := by
    rw [Expr.readBare_uniform f ts, h]
    exact ⟨fault, rfl⟩

variable {g : Token → Token}

def FitsAlike (f : String → String) (g : Token → Token) (next next' : List Token → Fit) : Prop :=
  ∀ ts, Fit.Renames f (next ts) (next' (ts.map g))

theorem FitsAlike.literal (h : FitsAlike f g next next') {t : PatternToken}
    (ht : ∀ u, t.takes (g u).lexeme = t.takes u.lexeme) :
    FitsAlike f g (fitLiteral t next) (fitLiteral t next') := by
  intro ts
  cases ts with
  | nil => exact .mismatch
  | cons u ts =>
      simp only [List.map_cons, fitLiteral, ht]
      split
      · exact h ts
      · exact .mismatch

theorem FitsAlike.slot (h : FitsAlike f g next next') (hg : ReadsAlike f g) (p : Placeholder) :
    FitsAlike f g (fitSlot p next) (fitSlot p next') := by
  intro ts
  unfold fitSlot
  cases hread : Expr.readBare ts with
  | error fault =>
      obtain ⟨fault', hread'⟩ := hg.error ts fault hread
      rw [hread']
      exact .mismatch
  | ok read =>
      rw [hg.ok ts read.1 read.2 hread]
      exact (h read.2).bind ⟨p, read.1⟩

theorem FitsAlike.number (h : FitsAlike f g next next') (hg : ReadsAlike f g)
    (hctx : ctx.Renames f ctx') (n : Int32) :
    FitsAlike f g (fitNumber ctx n next) (fitNumber ctx' n next') := by
  intro ts
  unfold fitNumber
  cases hread : Expr.readBare ts with
  | error fault =>
      obtain ⟨fault', hread'⟩ := hg.error ts fault hread
      rw [hread']
      exact .mismatch
  | ok read =>
      simp only [hg.ok ts read.1 read.2 hread,
        Expr.evalTolerant_rename hctx.here fun x _ => hctx.value x]
      cases read.1.evalTolerant ctx with
      | error fault => exact .mismatch
      | ok result =>
          cases result with
          | unresolved e => exact .unresolved _ _
          | value v =>
              simp only [Except.map, Evaluated.rename, Except.mapError]
              split
              · exact h read.2
              · exact .mismatch

theorem fitDisplacement_cons (t : Token) (ts : List Token) :
    fitDisplacement next (t :: ts) =
      if t.lexeme = .punct .plus then fitSlot .disp8 next ts
      else if t.lexeme = .punct .minus then fitSlot .disp8 next (t :: ts)
      else if t.lexeme = .punct .rightParen then (next (t :: ts)).bind ⟨.disp8, .number 0⟩
      else .mismatch := by
  obtain ⟨l, column⟩ := t
  cases l with
  | punct p => cases p <;> rfl
  | keyword _ | name _ | number _ _ | text _ | char _ | comment _ => rfl

theorem FitsAlike.displacement (h : FitsAlike f g next next') (hg : ReadsAlike f g) :
    FitsAlike f g (fitDisplacement next) (fitDisplacement next') := by
  intro ts
  cases ts with
  | nil => exact .mismatch
  | cons t ts =>
      simp only [List.map_cons, fitDisplacement_cons, hg.punct]
      split
      · exact h.slot hg .disp8 ts
      split
      · exact h.slot hg .disp8 (t :: ts)
      split
      · exact (h (t :: ts)).bind ⟨.disp8, .number 0⟩
      · exact .mismatch

theorem literal_mem_patternParts {t : PatternToken} {pattern : List PatternToken}
    (h : .literal t ∈ patternParts pattern) : t ∈ pattern := by
  induction pattern with
  | nil => cases h
  | cons u pattern ih =>
      unfold patternParts at h
      split at h
      · rcases List.mem_cons.mp h with h | h
        · cases h
        · exact List.mem_cons_of_mem _ (ih (List.mem_of_mem_tail h))
      · rcases List.mem_cons.mp h with h | h
        · cases u <;> cases h <;> exact List.mem_cons_self ..
        · exact List.mem_cons_of_mem _ (ih h)

theorem fitParts_alike (hg : ReadsAlike f g) (hctx : ctx.Renames f ctx') {parts : List PatternPart}
    (h : ∀ t, .literal t ∈ parts → ∀ u, t.takes (g u).lexeme = t.takes u.lexeme) :
    FitsAlike f g (fitParts ctx parts) (fitParts ctx' parts) := by
  induction parts with
  | nil =>
      intro ts
      cases ts with
      | nil => exact .matched []
      | cons t ts => exact .mismatch
  | cons part parts ih =>
      have hrest := ih fun t ht => h t (List.mem_cons_of_mem _ ht)
      cases part with
      | literal t => exact hrest.literal (h t (List.mem_cons_self ..))
      | number n => exact hrest.number hg hctx n
      | slot p => exact hrest.slot hg p
      | displacement => exact hrest.displacement hg

def InstructionSet.Spares (f : String → String) (set : InstructionSet) : Prop :=
  ∀ mnemonic variants, set.variants? mnemonic = some variants → ∀ v ∈ variants,
    ∀ t ∈ v.pattern, ∀ l, t.takes (l.rename f) = t.takes l

theorem first?_rename (hctx : ctx.Renames f ctx') {variants : List Variant}
    (h : ∀ v ∈ variants, ∀ t ∈ v.pattern, ∀ l, t.takes (l.rename f) = t.takes l)
    (operands : List Token) :
    Selection.first? ctx' (operands.map (Token.rename f)) variants =
        (Selection.first? ctx operands variants).map (Selection.rename f) ∧
      (Selection.obstacle? ctx' (operands.map (Token.rename f)) variants).isSome =
        (Selection.obstacle? ctx operands variants).isSome := by
  induction variants with
  | nil => exact ⟨rfl, rfl⟩
  | cons v variants ih =>
      obtain ⟨hfirst, hobstacle⟩ := ih fun w hw => h w (List.mem_cons_of_mem _ hw)
      have hfit : Fit.Renames f (fit ctx v.pattern operands)
          (fit ctx' v.pattern (operands.map (Token.rename f))) :=
        fitParts_alike (rename_readsAlike f) hctx
          (fun t ht u => h v (List.mem_cons_self ..) t (literal_mem_patternParts ht) u.lexeme)
          operands
      constructor
      · simp only [Selection.first?, List.findSome?_cons, Selection.ofVariant?,
          hfit.matched?_eq] at hfirst ⊢
        cases (fit ctx v.pattern operands).matched? with
        | none => exact hfirst
        | some bound => rfl
      · have hsome := hfit.unresolved?_isSome
        simp only [Selection.obstacle?, List.findSome?_cons] at hobstacle ⊢
        cases ho : (fit ctx v.pattern operands).unresolved? with
        | none =>
            rw [ho, Option.isSome_none, Option.isSome_eq_false_iff, Option.isNone_iff_eq_none]
              at hsome
            rw [hsome]
            exact hobstacle
        | some name =>
            rw [ho, Option.isSome_some] at hsome
            obtain ⟨name', hname'⟩ := Option.isSome_iff_exists.mp hsome
            rw [hname']
            rfl

end Fits

def DataItem.rename (f : String → String) : DataItem → DataItem
  | expr e => expr (e.rename f)
  | text bytes adjust => text bytes (adjust.map fun a => (a.1, a.2.rename f))
  | predefined p => predefined p

def Statement.rename (f : String → String) : Statement → Statement
  | instruction mnemonic operands => instruction mnemonic (operands.map (Token.rename f))
  | data width items => data width (items.map (DataItem.rename f))
  | equ e => equ (e.rename f)
  | org e => org (e.rename f)
  | align boundary byte => align (boundary.rename f) (byte.map (Expr.rename f))
  | fill count byte => fill (count.rename f) (byte.map (Expr.rename f))
  | segment name address => segment name (address.map (Expr.rename f))
  | openLocal => openLocal
  | closeLocal => closeLocal
  | target t => target t

def Label.rename (f : String → String) (label : Label) : Label :=
  { label with name := f label.name }

def Line.rename (f : String → String) (line : Line) : Line where
  label := line.label.map (Label.rename f)
  statement := line.statement.map (Statement.rename f)

section Names

def Lexeme.names : Lexeme → List String
  | name s => [s]
  | _ => []

def DataItem.names : DataItem → List String
  | expr e => e.symbols
  | text _ adjust => adjust.toList.flatMap fun a => a.2.symbols
  | predefined _ => []

def Statement.names : Statement → List String
  | instruction _ operands => operands.flatMap fun t => t.lexeme.names
  | data _ items => items.flatMap DataItem.names
  | equ e | org e => e.symbols
  | align e byte | fill e byte => e.symbols ++ byte.toList.flatMap Expr.symbols
  | segment _ address => address.toList.flatMap Expr.symbols
  | openLocal | closeLocal | target _ => []

def Line.names (line : Line) : List String :=
  line.label.toList.map Label.name ++ line.statement.toList.flatMap Statement.names

theorem Token.rename_congr {t : Token} (h : ∀ x ∈ t.lexeme.names, f x = g x) :
    t.rename f = t.rename g := by
  obtain ⟨l, column⟩ := t
  cases l with
  | name s => simp [rename, Lexeme.rename, h s (by simp [Lexeme.names])]
  | punct _ | keyword _ | number _ _ | text _ | char _ | comment _ => rfl

theorem DataItem.rename_congr {item : DataItem} (h : ∀ x ∈ item.names, f x = g x) :
    item.rename f = item.rename g := by
  cases item with
  | expr e => simp [rename, Expr.rename_congr h]
  | predefined p => rfl
  | text bytes adjust =>
      cases adjust with
      | none => rfl
      | some a =>
          have ha : a.2.rename f = a.2.rename g :=
            Expr.rename_congr fun x hx => h x (by simp [names, hx])
          simp [rename, ha]

theorem map_rename_congr {e? : Option Expr} (h : ∀ x ∈ e?.toList.flatMap Expr.symbols, f x = g x) :
    e?.map (Expr.rename f) = e?.map (Expr.rename g) := by
  cases e? with
  | none => rfl
  | some e =>
      have he : e.rename f = e.rename g := Expr.rename_congr fun x hx => h x (by simp [hx])
      simp [he]

theorem Statement.rename_congr {statement : Statement} (h : ∀ x ∈ statement.names, f x = g x) :
    statement.rename f = statement.rename g := by
  cases statement with
  | instruction mnemonic operands =>
      have hmap : operands.map (Token.rename f) = operands.map (Token.rename g) :=
        List.map_congr_left fun t ht => Token.rename_congr fun x hx =>
          h x (List.mem_flatMap.mpr ⟨t, ht, hx⟩)
      simp [rename, hmap]
  | data width items =>
      have hmap : items.map (DataItem.rename f) = items.map (DataItem.rename g) :=
        List.map_congr_left fun item hitem => DataItem.rename_congr fun x hx =>
          h x (List.mem_flatMap.mpr ⟨item, hitem, hx⟩)
      simp [rename, hmap]
  | equ e | org e => simp [rename, Expr.rename_congr h]
  | align e byte | fill e byte =>
      have he : e.rename f = e.rename g :=
        Expr.rename_congr fun x hx => h x (List.mem_append_left _ hx)
      have hbyte : byte.map (Expr.rename f) = byte.map (Expr.rename g) :=
        map_rename_congr fun x hx => h x (List.mem_append_right _ hx)
      simp [rename, he, hbyte]
  | segment name address => simp [rename, map_rename_congr h]
  | openLocal | closeLocal | target _ => rfl

theorem Line.rename_congr {line : Line} (h : ∀ x ∈ line.names, f x = g x) :
    line.rename f = line.rename g := by
  obtain ⟨label, statement⟩ := line
  have hlabel : label.map (Label.rename f) = label.map (Label.rename g) := by
    cases label with
    | none => rfl
    | some label => simp [Label.rename, h label.name (by simp [names])]
  have hstatement : statement.map (Statement.rename f) = statement.map (Statement.rename g) := by
    cases statement with
    | none => rfl
    | some statement =>
        have hs : statement.rename f = statement.rename g :=
          Statement.rename_congr fun x hx => h x (by simp [names, hx])
        simp [hs]
  simp [rename, hlabel, hstatement]

@[simp] theorem Line.rename_id (line : Line) : line.rename id = line := by
  have htoken : Token.rename id = id := by
    funext ⟨l, column⟩
    cases l <;> rfl
  have hexpr : Expr.rename id = id := funext Expr.rename_id
  have hitem : DataItem.rename id = id := by
    funext item
    cases item with
    | expr e => simp [DataItem.rename]
    | text bytes adjust => cases adjust <;> simp [DataItem.rename]
    | predefined p => rfl
  have hstatement : Statement.rename id = id := by
    funext statement
    cases statement <;> simp [Statement.rename, htoken, hexpr, hitem]
  have hlabel : Label.rename id = id := rfl
  simp [rename, hlabel, hstatement]

theorem Expr.rename_of_symbols {e : Expr} (h : e.symbols = []) : e.rename f = e := by
  rw [Expr.rename_congr (g := id) (by simp [h]), Expr.rename_id]

theorem DataItem.names_rename (item : DataItem) : (item.rename f).names = item.names.map f := by
  cases item with
  | expr e => exact Expr.symbols_rename f e
  | text bytes adjust => cases adjust <;> simp [rename, names]
  | predefined p => rfl

theorem Statement.names_rename (s : Statement) : (s.rename f).names = s.names.map f := by
  have hexpr : ∀ e? : Option Expr, (e?.map (Expr.rename f)).toList.flatMap Expr.symbols =
      (e?.toList.flatMap Expr.symbols).map f := by
    intro e?
    cases e? <;> simp
  cases s with
  | instruction mnemonic operands =>
      simp only [rename, names, List.flatMap_map, List.map_flatMap]
      congr 1
      funext t
      cases h : t.lexeme <;> simp [Token.rename, Lexeme.rename, Lexeme.names, h]
  | data width items =>
      simp only [rename, names, List.flatMap_map, List.map_flatMap, DataItem.names_rename]
  | equ e | org e => exact Expr.symbols_rename f e
  | align e byte | fill e byte => simp [rename, names, hexpr]
  | segment name address => exact hexpr address
  | openLocal | closeLocal | target _ => rfl

theorem Statement.rename_of_names {s : Statement} (h : s.names = []) : s.rename f = s := by
  have hline := Line.rename_id ⟨none, some s⟩
  rw [Statement.rename_congr (g := id) (by simp [h])]
  simpa [Line.rename] using hline

theorem Statement.eq_of_rename {s s' : Statement} (h : s'.rename f = s.rename f)
    (hs : s.names = []) : s' = s := by
  have hs' : s'.names = [] := by
    have hnames := congrArg Statement.names h
    rw [names_rename, names_rename, hs] at hnames
    simpa using hnames
  rw [← rename_of_names hs', h, rename_of_names hs]

end Names

end Z80
