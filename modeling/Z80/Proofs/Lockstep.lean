import Mathlib
import Z80.Proofs.Correspondence

namespace Z80

def Item.rename (f : String → String) : Item → Item
  | instruction selection slots => instruction (selection.rename f) slots
  | data width items => data width (items.map (DataItem.rename f))
  | fill count byte default => fill count (byte.map (Expr.rename f)) default
  | org address => org address

def SameTexts (stamp stamp' : BuildStamp) (loc loc' : Location) (items : List DataItem) : Prop :=
  ∀ p, .predefined p ∈ items → stamp'.text loc' p = stamp.text loc p

theorem dataSize_rename {f : String → String} {stamp stamp' : BuildStamp} {loc loc' : Location}
    (width : DataWidth) {items : List DataItem} (h : SameTexts stamp stamp' loc loc' items) :
    dataSize stamp' loc' width (items.map (DataItem.rename f)) = dataSize stamp loc width items := by
  induction items with
  | nil => rfl
  | cons item items ih =>
      have hrest := ih fun p hp => h p (List.mem_cons_of_mem _ hp)
      have hitem : (item.rename f).size stamp' loc' width = item.size stamp loc width := by
        cases item with
        | expr e => rfl
        | text bytes adjust => rfl
        | predefined p => simp [DataItem.rename, DataItem.size, h p (List.mem_cons_self ..)]
      simp [dataSize, hitem, hrest]

namespace Respelling

variable {r : Respelling} {stamp stamp' : BuildStamp}

structure SamePlanned (r : Respelling) (stamp stamp' : BuildStamp) (line line' : PlannedLine) :
    Prop where
  place : r.place line.location line'.location
  address : line'.address = line.address
  scope : line'.scope = line.scope
  size : line'.size = line.size
  item : line'.item = line.item.rename (r.name line.scope)
  texts : ∀ width items, line.item = .data width items →
    SameTexts stamp stamp' line.location line'.location items

structure SameLayout (r : Respelling) (stamp stamp' : BuildStamp) (layout layout' : Layout) :
    Prop where
  address : layout'.address = layout.address
  scope : layout'.scope = layout.scope
  scopesOpened : layout'.scopesOpened = layout.scopesOpened
  target : layout'.target = layout.target
  symbols : r.SameTable layout.symbols layout'.symbols
  planned : List.Forall₂ (r.SamePlanned stamp stamp') layout.planned layout'.planned
  errors : List.Forall₂ r.SameFault layout.errors layout'.errors

structure SameLine (r : Respelling) (stamp stamp' : BuildStamp) (scope : Option Nat)
    (loc loc' : Location) (line line' : Line) : Prop where
  respelled : line' = line.rename (r.name scope)
  global : ∀ label, line.label = some label → label.scopeIn scope = none → r.Fixes label.name
  texts : ∀ width items, line.statement = some (.data width items) →
    SameTexts stamp stamp' loc loc' items

structure SameRead (r : Respelling) (stamp stamp' : BuildStamp) (scope : Option Nat)
    (read read' : Location × Except Error Line) : Prop where
  place : r.place read.1 read'.1
  line : Corresponds (r.SameLine stamp stamp' scope read.1 read'.1) read.2 read'.2

structure SameRules (r : Respelling) (env env' : Environment) : Prop where
  instructionSet : env'.instructionSet = env.instructionSet
  allowUndocumented : env'.allowUndocumented = env.allowUndocumented
  words : ∀ scope, env.instructionSet.Spares (r.name scope)

namespace SameLayout

variable {layout layout' : Layout} {env env' : Environment} {loc loc' : Location}

theorem here (h : r.SameLayout stamp stamp' layout layout') : layout'.here = layout.here := by
  simp [Layout.here, h.address]

theorem context (h : r.SameLayout stamp stamp' layout layout') :
    layout.context.Renames (r.name layout.scope) layout'.context := by
  have hctx := h.symbols.context (Or.inr (Eq.refl layout.scope)) layout.here
  simpa [Layout.context, h.scope, h.here] using hctx

theorem value (h : r.SameLayout stamp stamp' layout layout') (e : Expr) :
    Corresponds Eq (e.value layout.context)
      ((e.rename (r.name layout.scope)).value layout'.context) :=
  value_corresponds h.context e

theorem count (h : r.SameLayout stamp stamp' layout layout') (e : Expr) :
    Corresponds Eq (layout.count e) (layout'.count (e.rename (r.name layout.scope))) := by
  refine (h.value e).bind ?_
  rintro v _ rfl
  exact .refl _

theorem origin (h : r.SameLayout stamp stamp' layout layout') (e : Expr) :
    Corresponds Eq (layout.origin e) (layout'.origin (e.rename (r.name layout.scope))) := by
  refine (h.value e).bind ?_
  rintro v _ rfl
  exact .refl _

theorem constantValue (h : r.SameLayout stamp stamp' layout layout') (e : Expr) :
    Corresponds (fun v v' => v' = v.rename (r.name layout.scope)) (layout.constantValue e)
      (layout'.constantValue (e.rename (r.name layout.scope))) := by
  have htolerant := Expr.evalTolerant_rename h.context.here (e := e) fun x _ => h.context.value x
  simp only [Layout.constantValue, h.scope, Expr.isClosed_rename, htolerant]
  split
  · exact .ok rfl
  · cases e.evalTolerant layout.context with
    | ok v => exact .ok rfl
    | error fault => exact .error rfl

theorem mark (h : r.SameLayout stamp stamp' layout layout') (loc loc' : Location) :
    r.SameLayout stamp stamp' (layout.mark loc) (layout'.mark loc') :=
  ⟨h.address, h.scope, h.scopesOpened, h.target, h.symbols, h.planned, h.errors⟩

theorem withSymbols (h : r.SameLayout stamp stamp' layout layout') {table table' : Symbols}
    (htable : r.SameTable table table') :
    r.SameLayout stamp stamp' { layout with symbols := table }
      { layout' with symbols := table' } :=
  ⟨h.address, h.scope, h.scopesOpened, h.target, htable, h.planned, h.errors⟩

theorem fail (h : r.SameLayout stamp stamp' layout layout') {e e' : Error}
    (hplace : r.place loc loc') (hkind : e'.kind = e.kind) :
    r.SameLayout stamp stamp' (layout.fail loc e) (layout'.fail loc' e') :=
  ⟨h.address, h.scope, h.scopesOpened, h.target, h.symbols, h.planned,
    forall₂_concat h.errors ⟨hplace, hkind⟩⟩

theorem leave (h : r.SameLayout stamp stamp' layout layout') (statement statement' : Statement) :
    r.SameLayout stamp stamp' (layout.leave env statement) (layout'.leave env' statement') := by
  obtain ⟨fixups, hleave⟩ := Layout.leave_frame layout env statement
  obtain ⟨fixups', hleave'⟩ := Layout.leave_frame layout' env' statement'
  rw [hleave, hleave']
  exact ⟨h.address, h.scope, h.scopesOpened, h.target, h.symbols, h.planned, h.errors⟩

theorem defineSymbol (h : r.SameLayout stamp stamp' layout layout') (hplace : r.place loc loc')
    (statement : Option Statement) {label : Label}
    (hfixes : label.scopeIn layout.scope = none → r.Fixes label.name) :
    Corresponds Eq (layout.defineSymbol loc statement label).1
        (layout'.defineSymbol loc' (statement.map (Statement.rename (r.name layout.scope)))
          (label.rename (r.name layout.scope))).1 ∧
      r.SameTable (layout.defineSymbol loc statement label).2
        (layout'.defineSymbol loc' (statement.map (Statement.rename (r.name layout.scope)))
          (label.rename (r.name layout.scope))).2 := by
  have hscope : label.scopeIn layout.scope = none ∨
      label.scopeIn layout.scope = layout.scope := by
    unfold Label.scopeIn
    split
    · exact .inl rfl
    · exact .inr rfl
  have hscope' : (label.rename (r.name layout.scope)).scopeIn layout'.scope =
      label.scopeIn layout.scope := by
    rw [h.scope]
    rfl
  cases statement with
  | none =>
      simp only [Layout.defineSymbol, Option.map_none, hscope', h.address]
      exact h.symbols.define hscope hfixes .label _ loc loc'
  | some statement =>
      cases statement with
      | equ e =>
          have hvalue := h.constantValue e
          simp only [Layout.defineSymbol, Option.map_some, Statement.rename, hscope', h.here]
          generalize layout.constantValue e = value at hvalue ⊢
          generalize layout'.constantValue (e.rename (r.name layout.scope)) = value' at hvalue ⊢
          cases hvalue with
          | error hkind => exact ⟨.error hkind, h.symbols⟩
          | @ok value _ heq =>
              cases heq
              cases value with
              | value v => exact h.symbols.define hscope hfixes .constant v loc loc'
              | unresolved u => exact h.symbols.definePending hscope hfixes u layout.here hplace
      | _ =>
          simp only [Layout.defineSymbol, Option.map_some, Statement.rename, hscope', h.address]
          exact h.symbols.define hscope hfixes .label _ loc loc'

theorem defineLabel (h : r.SameLayout stamp stamp' layout layout') (hplace : r.place loc loc')
    {line line' : Line} (hline : r.SameLine stamp stamp' layout.scope loc loc' line line') :
    Corresponds Eq (layout.defineLabel loc line).1 (layout'.defineLabel loc' line').1 ∧
      r.SameLayout stamp stamp' (layout.defineLabel loc line).2
        (layout'.defineLabel loc' line').2 := by
  obtain ⟨rfl, hglobal, -⟩ := hline
  obtain ⟨label, statement⟩ := line
  cases label with
  | none => exact ⟨.ok rfl, h⟩
  | some label =>
      obtain ⟨hanswer, htable⟩ := h.defineSymbol hplace statement (hglobal label rfl)
      exact ⟨hanswer, h.withSymbols htable⟩

theorem place (h : r.SameLayout stamp stamp' layout layout') (hplace : r.place loc loc')
    (item : Item) (htexts : ∀ width items, item = .data width items →
      SameTexts stamp stamp' loc loc' items) (fixups fixups' : List Fixup) :
    Corresponds (r.SameLayout stamp stamp') (layout.place stamp loc item fixups)
      (layout'.place stamp' loc' (item.rename (r.name layout.scope)) fixups') := by
  have hsize : (item.rename (r.name layout.scope)).size stamp' loc' = item.size stamp loc := by
    cases item with
    | instruction selection slots => rfl
    | data width items => exact dataSize_rename width (htexts width items rfl)
    | fill count byte default => rfl
    | org address => rfl
  have hnext : ∀ stop, (item.rename (r.name layout.scope)).next stop = item.next stop := by
    intro stop
    cases item <;> rfl
  simp only [Layout.place, hsize, h.address, hnext]
  split
  · exact .error rfl
  · refine .ok ⟨rfl, h.scope, h.scopesOpened, h.target, h.symbols, ?_, h.errors⟩
    exact forall₂_concat h.planned ⟨hplace, rfl, h.scope, rfl, rfl, htexts⟩

theorem placeInstruction (h : r.SameLayout env.stamp env'.stamp layout layout')
    (hrules : r.SameRules env env') (hplace : r.place loc loc') (mnemonic : String)
    (operands : List Token) :
    Corresponds (r.SameLayout env.stamp env'.stamp)
      (layout.placeInstruction env loc mnemonic operands)
      (layout'.placeInstruction env' loc' mnemonic
        (operands.map (Token.rename (r.name layout.scope)))) := by
  simp only [Layout.placeInstruction, hrules.instructionSet, hrules.allowUndocumented]
  refine (select_corresponds (hrules.words _) h.context _ mnemonic operands).bind ?_
  rintro selection _ rfl
  refine (planSlots_corresponds h.context _ _ _ _).bind ?_
  rintro slots _ rfl
  exact h.place hplace (.instruction selection slots) (fun _ _ hdata => by cases hdata) _ _

theorem perform (h : r.SameLayout env.stamp env'.stamp layout layout')
    (hrules : r.SameRules env env') (hplace : r.place loc loc') (statement : Statement)
    (htexts : ∀ width items, statement = .data width items →
      SameTexts env.stamp env'.stamp loc loc' items) :
    Corresponds (r.SameLayout env.stamp env'.stamp) (layout.perform env loc statement)
      (layout'.perform env' loc' (statement.rename (r.name layout.scope))) := by
  have hnodata : ∀ {item : Item}, (∀ width items, item ≠ .data width items) →
      ∀ width items, item = .data width items →
        SameTexts env.stamp env'.stamp loc loc' items :=
    fun hne width items hdata => absurd hdata (hne width items)
  cases statement with
  | instruction mnemonic operands => exact h.placeInstruction hrules hplace mnemonic operands
  | data width items =>
      refine h.place hplace (.data width items) ?_ [] []
      rintro _ _ ⟨⟩
      exact htexts width items rfl
  | equ e => exact .ok h
  | org e =>
      refine (h.origin e).bind ?_
      rintro address _ rfl
      exact h.place hplace (.org address) (hnodata (by simp)) [] []
  | segment name address =>
      cases address with
      | none => exact .ok h
      | some e =>
          refine (h.origin e).bind ?_
          rintro address _ rfl
          exact h.place hplace (.org address) (hnodata (by simp)) [] []
  | align boundary byte =>
      refine (h.count boundary).bind ?_
      rintro n _ rfl
      split
      · exact .error rfl
      · rw [h.address, h.target]
        exact h.place hplace (.fill (Layout.padding n layout.address) byte layout.target.fill)
          (hnodata (by simp)) [] []
  | fill count byte =>
      refine (h.count count).bind ?_
      rintro n _ rfl
      rw [h.target]
      exact h.place hplace (.fill n byte layout.target.fill) (hnodata (by simp)) [] []
  | openLocal =>
      simp only [Layout.perform, Statement.rename, h.scope, h.scopesOpened]
      split
      · exact .error rfl
      · exact .ok ⟨h.address, rfl, rfl, h.target, h.symbols, h.planned, h.errors⟩
  | closeLocal =>
      simp only [Layout.perform, Statement.rename, h.scope]
      split
      · exact .ok ⟨h.address, rfl, h.scopesOpened, h.target, h.symbols, h.planned, h.errors⟩
      · exact .error rfl
  | target t => exact .ok ⟨h.address, h.scope, h.scopesOpened, rfl, h.symbols, h.planned, h.errors⟩

theorem stepRead (h : r.SameLayout env.stamp env'.stamp layout layout')
    (hrules : r.SameRules env env') {read read' : Location × Except Error Line}
    (hread : r.SameRead env.stamp env'.stamp layout.scope read read') :
    r.SameLayout env.stamp env'.stamp (Layout.stepRead env layout read)
      (Layout.stepRead env' layout' read') := by
  obtain ⟨loc, result⟩ := read
  obtain ⟨loc', result'⟩ := read'
  obtain ⟨hplace, hline⟩ := hread
  cases hline with
  | error hkind => exact h.fail hplace hkind
  | @ok line line' hline =>
      have hdefine := (h.mark loc loc').defineLabel hplace hline
      obtain ⟨rfl, -, htexts⟩ := hline
      simp only [Layout.stepRead, Layout.step]
      generalize hx : (layout.mark loc).defineLabel loc line = x at hdefine ⊢
      generalize (layout'.mark loc').defineLabel loc' (line.rename (r.name layout.scope)) = x'
        at hdefine ⊢
      obtain ⟨answer, labelled⟩ := x
      obtain ⟨answer', labelled'⟩ := x'
      obtain ⟨hanswer, hlabelled⟩ := hdefine
      dsimp only at hanswer hlabelled
      cases hanswer with
      | error hkind => exact hlabelled.fail hplace hkind
      | ok _ =>
          cases hs : line.statement with
          | none => simpa [Line.rename, hs] using hlabelled
          | some statement =>
              -- The label leaves the block open, so the statement is spelled as the label is.
              have hscope : labelled.scope = layout.scope := by
                rw [(Layout.defineLabel_frame hx).2]
                rfl
              have hperform := hlabelled.perform hrules hplace statement
                fun width items hdata => htexts width items (by rw [hs, hdata])
              rw [hscope] at hperform
              simp only [Line.rename, hs, Option.map_some]
              generalize labelled.perform env loc statement = next at hperform ⊢
              generalize labelled'.perform env' loc' (statement.rename (r.name layout.scope)) = next'
                at hperform ⊢
              cases hperform with
              | ok hnext => exact hnext
              | error hkind => exact (hlabelled.leave _ _).fail hplace hkind

end SameLayout

section Runs

variable {layout layout' : Layout} {env env' : Environment}
  {source source' : List (Location × Except Error Line)}

structure SameSource (r : Respelling) (env env' : Environment) (layout : Layout)
    (source source' : List (Location × Except Error Line)) : Prop where
  length : source'.length = source.length
  reads : ∀ n read read', source[n]? = some read → source'[n]? = some read' →
    r.SameRead env.stamp env'.stamp (Layout.reached env layout source n).scope read read'

theorem SameLayout.reached (h : r.SameLayout env.stamp env'.stamp layout layout')
    (hrules : r.SameRules env env') (hsource : r.SameSource env env' layout source source') (n : Nat) :
    r.SameLayout env.stamp env'.stamp (Layout.reached env layout source n)
      (Layout.reached env' layout' source' n) := by
  induction n with
  | zero => exact h
  | succ n ih =>
      cases hn : source[n]? with
      | none =>
          -- Behind the last line nothing happens in either run.
          have hlen : source.length ≤ n := List.getElem?_eq_none_iff.mp hn
          have hlen' : source'.length ≤ n := hsource.length ▸ hlen
          rw [Layout.reached_of_length_le (Nat.le_succ_of_le hlen),
            Layout.reached_of_length_le (Nat.le_succ_of_le hlen'),
            ← Layout.reached_of_length_le hlen, ← Layout.reached_of_length_le hlen']
          exact ih
      | some read =>
          have hlt : n < source'.length := by
            rw [hsource.length]
            exact (List.getElem?_eq_some_iff.mp hn).1
          obtain ⟨read', hn'⟩ : ∃ read', source'[n]? = some read' :=
            ⟨_, List.getElem?_eq_getElem hlt⟩
          rw [Layout.reached_succ hn, Layout.reached_succ hn']
          exact ih.stepRead hrules (hsource.reads n read read' hn hn')

theorem SameLayout.finish (h : r.SameLayout stamp stamp' layout layout') :
    r.SameLayout stamp stamp' layout.finish layout'.finish := by
  obtain ⟨htable, herrors⟩ := h.symbols.resolve
  exact ⟨h.address, h.scope, h.scopesOpened, h.target, htable, h.planned,
    List.rel_append h.errors herrors⟩

theorem SameLayout.ofLines (h : r.SameLayout env.stamp env'.stamp layout layout')
    (hrules : r.SameRules env env') (hsource : r.SameSource env env' layout source source') :
    r.SameLayout env.stamp env'.stamp (Layout.ofLines env layout source)
      (Layout.ofLines env' layout' source') := by
  have hlast := (h.reached hrules hsource source.length).finish
  have hall : source'.take source.length = source' := by rw [← hsource.length, List.take_length]
  simpa [Layout.ofLines, Layout.reached, hall] using hlast

end Runs

end Respelling

end Z80
