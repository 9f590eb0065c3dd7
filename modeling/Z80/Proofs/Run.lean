import Mathlib
import Z80.Layout
import Z80.Proofs.SymbolTable

namespace Z80

abbrev Blocks := Option Nat × Nat

def Statement.blocksAfter (blocks : Blocks) : Statement → Blocks
  | .openLocal => (some blocks.2, blocks.2 + 1)
  | .closeLocal => (none, blocks.2)
  | _ => blocks

def Line.blocksAfter (blocks : Blocks) (line : Line) : Blocks :=
  match line.statement with
  | some statement => statement.blocksAfter blocks
  | none => blocks

def blocksAt (source : List (Location × Except Error Line)) (n : Nat) : Blocks :=
  (source.take n).foldl (fun blocks read => match read.2 with
    | .ok line => line.blocksAfter blocks
    | .error _ => blocks) (none, 0)

def blockAt (source : List (Location × Except Error Line)) (n : Nat) : Option Nat :=
  (blocksAt source n).1

def Statement.isQuiet : Statement → Bool
  | .equ _ | .segment _ none | .openLocal | .closeLocal | .target _ => true
  | _ => false

namespace Layout

variable {layout labelled next : Layout} {env : Environment} {stamp : BuildStamp} {loc : Location}

inductive Plans (layout : Layout) (env : Environment) : Statement → Item → List Fixup → Prop
  | instruction {mnemonic : String} {operands : List Token} {selection : Selection}
      {slots : List Slot} :
      env.instructionSet.select env.allowUndocumented layout.context mnemonic operands =
        .ok selection →
      planSlots layout.context (selection.variant.spelling mnemonic) 0 selection.variant.opcode
        selection.bound = .ok slots →
      Plans layout env (.instruction mnemonic operands) (.instruction selection slots)
        (planFixups layout.context layout.planned.length 0 selection.variant.opcode selection.bound)
  | data {width : DataWidth} {items : List DataItem} :
      Plans layout env (.data width items) (.data width items) []
  | org {e : Expr} {address : UInt16} : layout.origin e = .ok address →
      Plans layout env (.org e) (.org address) []
  | segment {name : String} {e : Expr} {address : UInt16} : layout.origin e = .ok address →
      Plans layout env (.segment name (some e)) (.org address) []
  | align {e : Expr} {fill : Option Expr} {n : Nat} : layout.count e = .ok n → n ≠ 0 →
      Plans layout env (.align e fill) (.fill (padding n layout.address) fill layout.target.fill) []
  | fill {e : Expr} {fill : Option Expr} {n : Nat} : layout.count e = .ok n →
      Plans layout env (.fill e fill) (.fill n fill layout.target.fill) []

def lineOf (layout : Layout) (stamp : BuildStamp) (loc : Location) (item : Item) : PlannedLine :=
  ⟨loc, layout.address, layout.scope, item.size stamp loc, item⟩

def withItem (layout : Layout) (stamp : BuildStamp) (loc : Location) (item : Item)
    (fixups : List Fixup) : Layout :=
  { layout with
    address := (layout.lineOf stamp loc item).next
    planned := layout.planned ++ [layout.lineOf stamp loc item]
    fixups := layout.fixups ++ fixups }

theorem place_eq_ok {item : Item} {fixups : List Fixup} :
    layout.place stamp loc item fixups = .ok next ↔
      (0 < item.size stamp loc → (layout.lineOf stamp loc item).stop ≤ 0x10000) ∧
        next = layout.withItem stamp loc item fixups := by
  by_cases h : 0 < item.size stamp loc ∧ 0x10000 < (layout.lineOf stamp loc item).stop
  · have hp : layout.place stamp loc item fixups = .error (.operandOutOfRange
        ((layout.lineOf stamp loc item).stop - 1 : Nat) .imm16) := if_pos h
    rw [hp]
    constructor
    · intro hn
      cases hn
    · rintro ⟨hb, -⟩
      have := hb h.1
      omega
  · have hp : layout.place stamp loc item fixups = .ok (layout.withItem stamp loc item fixups) :=
      if_neg h
    have hb : 0 < item.size stamp loc → (layout.lineOf stamp loc item).stop ≤ 0x10000 := by
      omega
    rw [hp, Except.ok.injEq]
    exact ⟨fun hn => ⟨hb, hn.symm⟩, fun hn => hn.2.symm⟩

theorem perform_eq_ok {statement : Statement}
    (h : layout.perform env loc statement = .ok next) :
    (∃ item fixups, layout.Plans env statement item fixups ∧
      layout.place env.stamp loc item fixups = .ok next) ∨
    (statement.isQuiet = true ∧ ∃ blocks target,
      blocks = statement.blocksAfter (layout.scope, layout.scopesOpened) ∧
      next = { layout with scope := blocks.1, scopesOpened := blocks.2, target := target }) := by
  cases statement with
  | instruction mnemonic operands =>
      simp only [perform, placeInstruction] at h
      obtain ⟨selection, hs, h⟩ := bind_eq_ok.mp h
      obtain ⟨slots, hp, h⟩ := bind_eq_ok.mp h
      exact Or.inl ⟨_, _, .instruction hs hp, h⟩
  | data width items => exact Or.inl ⟨_, _, .data, h⟩
  | equ e =>
      cases h
      exact Or.inr ⟨rfl, _, _, rfl, rfl⟩
  | org e =>
      obtain ⟨address, ha, h⟩ := bind_eq_ok.mp h
      exact Or.inl ⟨_, _, .org ha, h⟩
  | align boundary fill =>
      obtain ⟨n, hn, h⟩ := bind_eq_ok.mp h
      by_cases hz : n = 0
      · simp [hz] at h
      · simp only [hz, if_false] at h
        exact Or.inl ⟨_, _, .align hn hz, h⟩
  | fill count fill =>
      obtain ⟨n, hn, h⟩ := bind_eq_ok.mp h
      exact Or.inl ⟨_, _, .fill hn, h⟩
  | segment name address =>
      cases address with
      | none =>
          cases h
          exact Or.inr ⟨rfl, _, _, rfl, rfl⟩
      | some e =>
          obtain ⟨address, ha, h⟩ := bind_eq_ok.mp h
          exact Or.inl ⟨_, _, .segment ha, h⟩
  | openLocal =>
      simp only [perform] at h
      split at h
      · cases h
      · cases h
        exact Or.inr ⟨rfl, _, _, rfl, rfl⟩
  | closeLocal =>
      simp only [perform] at h
      split at h
      · cases h
        exact Or.inr ⟨rfl, _, _, rfl, rfl⟩
      · cases h
  | target t =>
      cases h
      exact Or.inr ⟨rfl, _, _, rfl, rfl⟩

theorem perform_plans {statement : Statement} (h : layout.perform env loc statement = .ok next)
    (hq : statement.isQuiet = false) :
    ∃ item fixups, layout.Plans env statement item fixups ∧
      (0 < item.size env.stamp loc → (layout.lineOf env.stamp loc item).stop ≤ 0x10000) ∧
      next = layout.withItem env.stamp loc item fixups := by
  rcases perform_eq_ok h with ⟨item, fixups, hplans, hplace⟩ | ⟨hquiet, -⟩
  · exact ⟨item, fixups, hplans, place_eq_ok.mp hplace⟩
  · rw [hq] at hquiet
    cases hquiet

theorem perform_blocks {statement : Statement} (h : layout.perform env loc statement = .ok next) :
    (next.scope, next.scopesOpened) =
      statement.blocksAfter (layout.scope, layout.scopesOpened) := by
  rcases perform_eq_ok h with ⟨item, fixups, hplans, hplace⟩ | ⟨-, blocks, target, rfl, rfl⟩
  · obtain ⟨-, rfl⟩ := place_eq_ok.mp hplace
    cases hplans <;> rfl
  · rfl

theorem constantValue_eq_unresolved {e u : Expr} (h : layout.constantValue e = .ok (.unresolved u)) :
    u = e := by
  unfold constantValue at h
  split at h
  · cases h
    rfl
  · exact (Expr.evalTolerant_eq_unresolved (mapError_eq_ok.mp h)).1

theorem constantValue_eq_value {e : Expr} {v : Int32}
    (h : layout.constantValue e = .ok (.value v)) :
    e.eval layout.context = .ok v ∧ (layout.scope = none ∨ e.isClosed = true) := by
  unfold constantValue at h
  split at h
  · cases h
  · next hc =>
      refine ⟨Expr.evalTolerant_eq_value.mp (mapError_eq_ok.mp h), ?_⟩
      cases hs : layout.scope with
      | none => exact Or.inl rfl
      | some b => exact Or.inr (by simpa [hs] using hc)

inductive Defines (layout : Layout) (loc : Location) (line : Line) (label : Label) :
    Symbols → Prop
  | constant {e : Expr} {v : Int32} {table : Symbols} : line.statement = some (.equ e) →
      layout.constantValue e = .ok (.value v) →
      layout.symbols.define (label.scopeIn layout.scope) label.name .constant v loc =
        (.ok (), table) →
      Defines layout loc line label table
  | pending {e : Expr} {table : Symbols} : line.statement = some (.equ e) →
      layout.constantValue e = .ok (.unresolved e) →
      layout.symbols.definePending (label.scopeIn layout.scope) label.name e layout.here loc =
        (.ok (), table) →
      Defines layout loc line label table
  | label {table : Symbols} : (∀ e, line.statement ≠ some (.equ e)) →
      layout.symbols.define (label.scopeIn layout.scope) label.name .label
        (Int32.ofNat layout.address) loc = (.ok (), table) →
      Defines layout loc line label table

theorem defineSymbol_eq_ok {line : Line} {label : Label} {table : Symbols}
    (h : layout.defineSymbol loc line.statement label = (.ok (), table)) :
    layout.Defines loc line label table := by
  unfold defineSymbol at h
  split at h
  · next e he =>
      split at h
      · cases h
      · next v hv => exact .constant he hv h
      · next u hv =>
          cases constantValue_eq_unresolved hv
          exact .pending he hv h
  · next hne => exact .label hne h

theorem defineSymbol_refused {statement : Option Statement} {label : Label} {e : Error}
    {table : Symbols} (h : layout.defineSymbol loc statement label = (.error e, table)) :
    table = layout.symbols := by
  unfold defineSymbol at h
  split at h
  · split at h
    · exact (Prod.mk.inj h).2.symm
    · exact Symbols.define_refused h
    · exact Symbols.definePending_refused h
  · exact Symbols.define_refused h

theorem defineLabel_eq_ok {line : Line} (h : layout.defineLabel loc line = (.ok (), labelled)) :
    (line.label = none ∧ labelled = layout) ∨
    ∃ label table, line.label = some label ∧ layout.Defines loc line label table ∧
      labelled = { layout with symbols := table } := by
  unfold defineLabel at h
  cases hl : line.label with
  | none =>
      rw [hl] at h
      cases h
      exact Or.inl ⟨rfl, rfl⟩
  | some label =>
      rw [hl] at h
      obtain ⟨hanswer, rfl⟩ := Prod.mk.inj h
      refine Or.inr ⟨label, _, rfl, defineSymbol_eq_ok ?_, rfl⟩
      rw [← hanswer]

theorem defineLabel_refused {line : Line} {e : Error}
    (h : layout.defineLabel loc line = (.error e, labelled)) : labelled = layout := by
  unfold defineLabel at h
  split at h
  · cases h
  · next label _ =>
      obtain ⟨hanswer, rfl⟩ := Prod.mk.inj h
      have hpair : layout.defineSymbol loc line.statement label =
          (.error e, (layout.defineSymbol loc line.statement label).2) := by
        rw [← hanswer]
      rw [defineSymbol_refused hpair]

theorem Defines.grows {line : Line} {label : Label} {table : Symbols}
    (h : layout.Defines loc line label table) : layout.symbols.Grows table := by
  cases h with
  | constant _ _ h => exact Symbols.define_grows h
  | pending _ _ h => exact Symbols.definePending_grows h
  | label _ h => exact Symbols.define_grows h

theorem defineLabel_frame {line : Line} (h : layout.defineLabel loc line = (.ok (), labelled)) :
    layout.symbols.Grows labelled.symbols ∧
      labelled = { layout with symbols := labelled.symbols } := by
  rcases defineLabel_eq_ok h with ⟨-, rfl⟩ | ⟨label, table, -, hd, rfl⟩
  · exact ⟨Symbols.Grows.refl _, rfl⟩
  · exact ⟨hd.grows, rfl⟩

theorem perform_frame {statement : Statement} (h : layout.perform env loc statement = .ok next) :
    next.symbols = layout.symbols ∧ next.errors = layout.errors ∧
      next.addresses = layout.addresses := by
  rcases perform_eq_ok h with ⟨item, fixups, -, hplace⟩ | ⟨-, blocks, target, -, rfl⟩
  · obtain ⟨-, rfl⟩ := place_eq_ok.mp hplace
    exact ⟨rfl, rfl, rfl⟩
  · exact ⟨rfl, rfl, rfl⟩

structure Takes (env : Environment) (layout : Layout) (loc : Location) (line : Line)
    (labelled next : Layout) : Prop where
  label : (layout.mark loc).defineLabel loc line = (.ok (), labelled)
  statement : match line.statement with
    | none => next = labelled
    | some statement => labelled.perform env loc statement = .ok next

inductive Fails (env : Environment) (layout : Layout) (loc : Location) :
    Except Error Line → Error → Prop
  | unread {e : Error} : Fails env layout loc (.error e) e
  | label {line : Line} {e : Error} : ((layout.mark loc).defineLabel loc line).1 = .error e →
      Fails env layout loc (.ok line) e
  | statement {line : Line} {labelled : Layout} {statement : Statement} {e : Error} :
      (layout.mark loc).defineLabel loc line = (.ok (), labelled) →
      line.statement = some statement →
      labelled.perform env loc statement = .error e → Fails env layout loc (.ok line) e

structure Stays (layout next : Layout) : Prop where
  address : next.address = layout.address
  planned : next.planned = layout.planned
  symbols : layout.symbols.Grows next.symbols

theorem leave_frame (layout : Layout) (env : Environment) (statement : Statement) :
    ∃ fixups, layout.leave env statement = { layout with fixups := fixups } := by
  unfold leave
  split
  · dsimp only
    split
    · exact ⟨_, rfl⟩
    · exact ⟨_, rfl⟩
  · exact ⟨_, rfl⟩

theorem stepRead_cases (env : Environment) (layout : Layout)
    (source : Location × Except Error Line) :
    (∃ line labelled, source.2 = .ok line ∧
      Takes env layout source.1 line labelled (stepRead env layout source)) ∨
    ∃ e, Fails env layout source.1 source.2 e ∧
      (stepRead env layout source).errors = layout.errors ++ [(source.1, e)] ∧
      Stays layout (stepRead env layout source) := by
  obtain ⟨loc, result⟩ := source
  cases result with
  | error e => exact Or.inr ⟨e, .unread, rfl, rfl, rfl, Symbols.Grows.refl _⟩
  | ok line =>
      rcases hl : (layout.mark loc).defineLabel loc line with ⟨e | _, labelled⟩
      · cases defineLabel_refused hl
        have hstep : stepRead env layout (loc, .ok line) = (layout.mark loc).fail loc e := by
          simp only [stepRead, step, hl]
        rw [hstep]
        exact Or.inr ⟨e, .label (by rw [hl]), rfl, rfl, rfl, Symbols.Grows.refl _⟩
      · cases hs : line.statement with
        | none =>
            have hstep : stepRead env layout (loc, .ok line) = labelled := by
              simp only [stepRead, step, hl, hs]
            exact Or.inl ⟨line, labelled, rfl, hl, by rw [hs]; exact hstep⟩
        | some statement =>
            cases hp : labelled.perform env loc statement with
            | ok next =>
                have hstep : stepRead env layout (loc, .ok line) = next := by
                  simp only [stepRead, step, hl, hs, hp]
                exact Or.inl ⟨line, labelled, rfl, hl, by rw [hs, hstep]; exact hp⟩
            | error e =>
                obtain ⟨hgrows, hframe⟩ := defineLabel_frame hl
                obtain ⟨fixups, hleave⟩ := leave_frame labelled env statement
                have hstep : stepRead env layout (loc, .ok line) =
                    { layout.mark loc with
                      symbols := labelled.symbols
                      fixups := fixups
                      errors := layout.errors ++ [(loc, e)] } := by
                  simp only [stepRead, step, hl, hs, hp, hleave, fail]
                  rw [hframe]
                  rfl
                rw [hstep]
                exact Or.inr ⟨e, .statement hl hs hp, rfl, rfl, rfl, hgrows⟩

namespace Takes

variable {line : Line}

theorem labelled_eq (h : Takes env layout loc line labelled next) :
    layout.symbols.Grows labelled.symbols ∧
      labelled = { layout.mark loc with symbols := labelled.symbols } :=
  defineLabel_frame h.label

theorem perform (h : Takes env layout loc line labelled next) {statement : Statement}
    (hs : line.statement = some statement) : labelled.perform env loc statement = .ok next := by
  have := h.statement
  rwa [hs] at this

theorem frame (h : Takes env layout loc line labelled next) :
    next.symbols = labelled.symbols ∧ next.errors = layout.errors ∧
      next.addresses = layout.addresses ++ [(loc, layout.here)] := by
  have hl := h.labelled_eq.2
  have he : labelled.errors = layout.errors := by rw [hl]; rfl
  have ha : labelled.addresses = layout.addresses ++ [(loc, layout.here)] := by rw [hl]; rfl
  cases hs : line.statement with
  | none =>
      have hn := h.statement
      rw [hs] at hn
      cases hn
      exact ⟨rfl, he, ha⟩
  | some statement =>
      obtain ⟨hsym, herr, haddr⟩ := perform_frame (h.perform hs)
      exact ⟨hsym, herr.trans he, haddr.trans ha⟩

theorem grows (h : Takes env layout loc line labelled next) :
    layout.symbols.Grows next.symbols := by
  rw [h.frame.1]
  exact h.labelled_eq.1

theorem blocks (h : Takes env layout loc line labelled next) :
    (next.scope, next.scopesOpened) = line.blocksAfter (layout.scope, layout.scopesOpened) := by
  have hl := h.labelled_eq.2
  have hb : (labelled.scope, labelled.scopesOpened) = (layout.scope, layout.scopesOpened) := by
    rw [hl]; rfl
  cases hs : line.statement with
  | none =>
      have hn := h.statement
      rw [hs] at hn
      cases hn
      simp [Line.blocksAfter, hs, hb]
  | some statement =>
      rw [perform_blocks (h.perform hs), hb]
      simp [Line.blocksAfter, hs]

theorem plans (h : Takes env layout loc line labelled next) :
    (Stays layout next ∧ next.fixups = layout.fixups) ∨
    ∃ statement item fixups, line.statement = some statement ∧
      labelled.Plans env statement item fixups ∧
      (0 < item.size env.stamp loc → (layout.lineOf env.stamp loc item).stop ≤ 0x10000) ∧
      next.planned = layout.planned ++ [layout.lineOf env.stamp loc item] ∧
      next.address = (layout.lineOf env.stamp loc item).next ∧
      next.fixups = layout.fixups ++ fixups := by
  obtain ⟨hgrows, hl⟩ := h.labelled_eq
  have hstays : Stays layout labelled ∧ labelled.fixups = layout.fixups := by
    rw [hl]
    exact ⟨⟨rfl, rfl, hgrows⟩, rfl⟩
  cases hs : line.statement with
  | none =>
      have hn := h.statement
      rw [hs] at hn
      cases hn
      exact Or.inl hstays
  | some statement =>
      rcases perform_eq_ok (h.perform hs) with ⟨item, fixups, hplans, hplace⟩ | ⟨-, _, _, -, rfl⟩
      · obtain ⟨hbound, rfl⟩ := place_eq_ok.mp hplace
        have hline : labelled.lineOf env.stamp loc item = layout.lineOf env.stamp loc item := by
          rw [hl]
          rfl
        rw [hline] at hbound
        refine Or.inr ⟨statement, item, fixups, rfl, hplans, hbound, ?_⟩
        rw [hl]
        exact ⟨rfl, rfl, rfl⟩
      · exact Or.inl ⟨⟨hstays.1.address, hstays.1.planned, hstays.1.symbols⟩, hstays.2⟩

end Takes

structure Leads (layout next : Layout) : Prop where
  errors : layout.errors <+: next.errors
  planned : layout.planned <+: next.planned
  symbols : layout.symbols.Grows next.symbols

theorem Leads.refl (layout : Layout) : Leads layout layout :=
  ⟨List.prefix_rfl, List.prefix_rfl, Symbols.Grows.refl _⟩

theorem Leads.trans {last : Layout} (h : Leads layout next) (h' : Leads next last) :
    Leads layout last :=
  ⟨h.errors.trans h'.errors, h.planned.trans h'.planned, h.symbols.trans h'.symbols⟩

theorem stepRead_leads (env : Environment) (layout : Layout)
    (source : Location × Except Error Line) : Leads layout (stepRead env layout source) := by
  rcases stepRead_cases env layout source with ⟨line, labelled, -, h⟩ | ⟨e, -, herr, hstays⟩
  · obtain ⟨-, herr, -⟩ := h.frame
    refine ⟨by rw [herr], ?_, h.grows⟩
    rcases h.plans with ⟨hstays, -⟩ | ⟨statement, item, fixups, -, -, -, hplanned, -⟩
    · rw [hstays.planned]
    · rw [hplanned]
      exact List.prefix_append _ _
  · exact ⟨by rw [herr]; exact List.prefix_append _ _, by rw [hstays.planned], hstays.symbols⟩

def reached (env : Environment) (layout : Layout) (source : List (Location × Except Error Line))
    (n : Nat) : Layout :=
  (source.take n).foldl (stepRead env) layout

variable {source : List (Location × Except Error Line)} {n m : Nat}

theorem reached_succ {line : Location × Except Error Line} (h : source[n]? = some line) :
    reached env layout source (n + 1) = stepRead env (reached env layout source n) line := by
  simp [reached, List.take_add_one, h]

theorem reached_of_length_le (h : source.length ≤ n) :
    reached env layout source n = reached env layout source source.length := by
  simp [reached, List.take_of_length_le h]

theorem reached_induction {P : Layout → Prop} (env : Environment)
    (source : List (Location × Except Error Line)) (start : P layout)
    (step : ∀ layout, ∀ line ∈ source, P layout → P (stepRead env layout line)) (n : Nat) :
    P (reached env layout source n) := by
  induction n with
  | zero => exact start
  | succ n ih =>
      cases h : source[n]? with
      | some line =>
          rw [reached_succ h]
          exact step _ line (List.mem_of_getElem? h) ih
      | none =>
          have hlen : source.length ≤ n := List.getElem?_eq_none_iff.mp h
          rw [reached_of_length_le (Nat.le_succ_of_le hlen), ← reached_of_length_le hlen]
          exact ih

theorem reached_leads (env : Environment) (layout : Layout)
    (source : List (Location × Except Error Line)) (h : n ≤ m) :
    Leads (reached env layout source n) (reached env layout source m) := by
  have hm : reached env layout source m =
      reached env (reached env layout source n) (source.drop n) (m - n) := by
    have htake : source.take m = source.take n ++ (source.drop n).take (m - n) := by
      rw [← List.take_add, Nat.add_sub_cancel' h]
    simp [reached, htake, List.foldl_append]
  rw [hm]
  exact reached_induction env _ (Leads.refl _)
    (fun next line _ hn => hn.trans (stepRead_leads env next line)) _

theorem takes_of_clean {loc : Location} {result : Except Error Line}
    (clean : (reached env layout source source.length).errors = [])
    (h : source[n]? = some (loc, result)) :
    ∃ line labelled, result = .ok line ∧
      Takes env (reached env layout source n) loc line labelled
        (reached env layout source (n + 1)) := by
  have hn : n + 1 ≤ source.length := (List.getElem?_eq_some_iff.mp h).1
  have hnone : (reached env layout source (n + 1)).errors = [] := by
    have hpre := (reached_leads env layout source hn).errors
    rw [clean] at hpre
    exact List.prefix_nil.mp hpre
  rw [reached_succ h] at hnone ⊢
  rcases stepRead_cases env (reached env layout source n) (loc, result) with htakes | ⟨e, -, herr, -⟩
  · exact htakes
  · rw [herr] at hnone
    simp at hnone

theorem reached_blocks (start : (layout.scope, layout.scopesOpened) = (none, 0))
    (clean : (reached env layout source source.length).errors = []) (hn : n ≤ source.length) :
    ((reached env layout source n).scope, (reached env layout source n).scopesOpened) =
      blocksAt source n := by
  induction n with
  | zero => exact start
  | succ n ih =>
      obtain ⟨⟨loc, result⟩, hread⟩ : ∃ read, source[n]? = some read :=
        ⟨_, List.getElem?_eq_getElem hn⟩
      obtain ⟨line, labelled, rfl, htakes⟩ := takes_of_clean clean hread
      rw [htakes.blocks, ih (Nat.le_of_succ_le hn), blocksAt, blocksAt, List.take_add_one, hread]
      simp

theorem reached_addresses (start : layout.addresses = [])
    (clean : (reached env layout source source.length).errors = []) (hm : m ≤ source.length) :
    (reached env layout source m).addresses.length = m ∧
      ∀ n < m, ∀ loc result, source[n]? = some (loc, result) →
        (reached env layout source m).addresses[n]? =
          some (loc, (reached env layout source n).here) := by
  induction m with
  | zero =>
      have hnil : (reached env layout source 0).addresses = [] := start
      refine ⟨by rw [hnil]; rfl, ?_⟩
      intro n hn
      exact absurd hn (Nat.not_lt_zero n)
  | succ m ih =>
      obtain ⟨hlen, hget⟩ := ih (Nat.le_of_succ_le hm)
      obtain ⟨⟨loc', result'⟩, hread⟩ : ∃ read, source[m]? = some read :=
        ⟨_, List.getElem?_eq_getElem hm⟩
      obtain ⟨line, labelled, -, htakes⟩ := takes_of_clean clean hread
      have hnext := htakes.frame.2.2
      rw [hnext]
      refine ⟨by simp [hlen], ?_⟩
      intro n hn loc result hsource
      rcases Nat.lt_succ_iff_lt_or_eq.mp hn with hlt | rfl
      · rw [List.getElem?_append_left (by omega)]
        exact hget n hlt loc result hsource
      · rw [hread] at hsource
        cases hsource
        rw [List.getElem?_append_right (by omega), hlen]
        simp

def labelledAt (env : Environment) (layout : Layout)
    (source : List (Location × Except Error Line)) (n : Nat) : Layout :=
  match source[n]? with
  | some (loc, .ok line) => match ((reached env layout source n).mark loc).defineLabel loc line with
      | (.ok (), labelled) => labelled
      | (.error _, _) => reached env layout source n
  | _ => reached env layout source n

theorem Takes.labelledAt_eq {line : Line}
    (h : Takes env (reached env layout source n) loc line labelled next)
    (hsource : source[n]? = some (loc, .ok line)) : labelledAt env layout source n = labelled := by
  simp only [labelledAt, hsource, h.label]

structure Origin (env : Environment) (layout : Layout)
    (source : List (Location × Except Error Line)) (n : Nat) (i : Nat) (planned : PlannedLine)
    (line : Line) (labelled : Layout) : Prop where
  found : source[n]? = some (planned.location, .ok line)
  takes : Takes env (reached env layout source n) planned.location line labelled
    (reached env layout source (n + 1))
  plans : ∃ statement fixups, line.statement = some statement ∧
    labelled.Plans env statement planned.item fixups
  index : (reached env layout source n).planned.length = i
  address : planned.address = (reached env layout source n).address
  scope : planned.scope = (reached env layout source n).scope

theorem planned_origin {i : Nat} {planned : PlannedLine} (start : layout.planned = [])
    (h : (reached env layout source n).planned[i]? = some planned) :
    ∃ m line labelled, m < n ∧ Origin env layout source m i planned line labelled := by
  induction n with
  | zero =>
      have hnil : (reached env layout source 0).planned = [] := start
      rw [hnil] at h
      simp at h
  | succ n ih =>
      by_cases hold : (reached env layout source n).planned[i]? = some planned
      · obtain ⟨m, line, labelled, hm, ho⟩ := ih hold
        exact ⟨m, line, labelled, Nat.lt_succ_of_lt hm, ho⟩
      cases hsrc : source[n]? with
      | none =>
          have hlen : source.length ≤ n := List.getElem?_eq_none_iff.mp hsrc
          rw [reached_of_length_le (Nat.le_succ_of_le hlen), ← reached_of_length_le hlen] at h
          exact absurd h hold
      | some read =>
          have hsucc : reached env layout source (n + 1) =
              stepRead env (reached env layout source n) read := reached_succ hsrc
          rcases stepRead_cases env (reached env layout source n) read with
            ⟨line, labelled, hline, htakes⟩ | ⟨e, -, -, hstays⟩
          · rw [← hsucc] at htakes
            rcases htakes.plans with
              ⟨hstays, -⟩ | ⟨statement, item, fixups, hs, hplans, -, hplanned, -⟩
            · rw [hstays.planned] at h
              exact absurd h hold
            · -- The planned line is the one that this line adds at the end.
              rw [hplanned] at h
              have hge : (reached env layout source n).planned.length ≤ i := by
                by_contra hlt
                rw [List.getElem?_append_left (by omega)] at h
                exact hold h
              rw [List.getElem?_append_right hge, List.getElem?_singleton] at h
              split at h
              · next hi =>
                  cases h
                  refine ⟨n, line, labelled, Nat.lt_succ_self n, ?_, htakes,
                    ⟨statement, fixups, hs, hplans⟩, by omega, rfl, rfl⟩
                  rw [hsrc, ← hline]
                  rfl
              · cases h
          · rw [hsucc, hstays.planned] at h
            exact absurd h hold

end Layout

def Chained : Nat → List PlannedLine → Nat → Prop
  | start, [], stop => start = stop
  | start, line :: lines, stop => line.address = start ∧ Chained line.next lines stop

theorem chained_concat {line : PlannedLine} :
    ∀ {lines : List PlannedLine} {start stop : Nat}, Chained start lines stop →
      line.address = stop → Chained start (lines ++ [line]) line.next := by
  intro lines
  induction lines with
  | nil =>
      intro start stop h hl
      cases h
      exact ⟨hl, rfl⟩
  | cons first lines ih =>
      intro start stop h hl
      exact ⟨h.1, ih h.2 hl⟩

theorem advance_eq_add {address size : Nat} (h : address + size < 2 ^ 32) :
    advance address size = address + size :=
  Nat.mod_eq_of_lt h

structure PlannedLine.Sound (stamp : BuildStamp) (line : PlannedLine) : Prop where
  size : line.size = line.item.size stamp line.location
  start : line.address ≤ 0x10000
  stop : line.stop ≤ 0x10000

theorem PlannedLine.Sound.within_iff {stamp : BuildStamp} {line : PlannedLine}
    (h : line.Sound stamp) :
    line.address + line.size ≤ 0x10000 ↔ line.address + line.size < 2 ^ 32 := by
  constructor
  · omega
  · intro hlt
    rw [← advance_eq_add hlt]
    exact h.stop

structure Layout.Sound (start : Nat) (stamp : BuildStamp) (layout : Layout) : Prop where
  address : layout.address ≤ 0x10000
  chained : Chained start layout.planned layout.address
  lines : ∀ line ∈ layout.planned, line.Sound stamp

namespace Layout

variable {layout : Layout} {env : Environment} {start : Nat}

theorem next_lineOf_le {stamp : BuildStamp} {loc : Location} {item : Item}
    (h : (layout.lineOf stamp loc item).stop ≤ 0x10000) :
    (layout.lineOf stamp loc item).next ≤ 0x10000 := by
  cases item with
  | org address =>
      have := address.toNat_lt
      simp only [PlannedLine.next, lineOf, Item.next]
      omega
  | instruction selection slots => exact h
  | data width items => exact h
  | fill count fill default => exact h

theorem stepRead_sound (h : layout.Sound start env.stamp)
    (source : Location × Except Error Line) :
    (stepRead env layout source).Sound start env.stamp := by
  have hstays : Stays layout (stepRead env layout source) →
      (stepRead env layout source).Sound start env.stamp := by
    intro hs
    refine ⟨?_, ?_, ?_⟩
    · rw [hs.address]
      exact h.address
    · rw [hs.address, hs.planned]
      exact h.chained
    · rw [hs.planned]
      exact h.lines
  rcases stepRead_cases env layout source with ⟨line, labelled, -, htakes⟩ | ⟨e, -, -, hs⟩
  · rcases htakes.plans with
      ⟨hs, -⟩ | ⟨statement, item, fixups, -, -, hbound, hplanned, haddress, -⟩
    · exact hstays hs
    · have hstop : (layout.lineOf env.stamp source.1 item).stop ≤ 0x10000 := by
        by_cases hz : 0 < item.size env.stamp source.1
        · exact hbound hz
        · -- Nothing is written, so the line stops where it starts.
          have hzero : item.size env.stamp source.1 = 0 := Nat.eq_zero_of_not_pos hz
          have haddress := h.address
          simp only [PlannedLine.stop, advance, lineOf, hzero]
          omega
      refine ⟨?_, ?_, ?_⟩
      · rw [haddress]
        exact next_lineOf_le hstop
      · rw [haddress, hplanned]
        exact chained_concat h.chained rfl
      · rw [hplanned]
        intro line hline
        rcases List.mem_append.mp hline with hold | hnew
        · exact h.lines line hold
        · cases List.mem_singleton.mp hnew
          exact ⟨rfl, h.address, hstop⟩
  · exact hstays hs

theorem predefine_concat (defines : List (String × Int32)) (d : String × Int32) :
    predefine (defines ++ [d]) =
      ((predefine defines).define none d.1 .constant d.2 ⟨0, 0⟩).2 := by
  rw [predefine, List.foldl_append, List.foldl_cons, List.foldl_nil, ← predefine]

theorem predefine_exclusive (defines : List (String × Int32)) :
    (predefine defines).Exclusive := by
  induction defines using List.reverseRecOn with
  | nil => exact Symbols.empty_exclusive
  | append_singleton defines d ih =>
      rw [predefine_concat]
      exact (Symbols.define_grows rfl).exclusive ih

theorem entry_predefine {defines : List (String × Int32)}
    {entry : (Option Nat × String) × Symbol} (hentry : entry ∈ (predefine defines).entries) :
    ∃ d ∈ defines,
      entry = ((none, d.1), ⟨d.1, none, .constant, some d.2, ⟨0, 0⟩, none⟩) := by
  induction defines using List.reverseRecOn with
  | nil => cases hentry
  | append_singleton defines d ih =>
      rw [predefine_concat] at hentry
      rcases Symbols.entry_of_define rfl hentry with hold | heq
      · obtain ⟨d', hd', heq⟩ := ih hold
        exact ⟨d', List.mem_append_left _ hd', heq⟩
      · exact ⟨d, List.mem_append_right _ (List.mem_singleton_self d), heq⟩

theorem start_sound (address : UInt16) (defines : List (String × Int32)) (stamp : BuildStamp) :
    (Layout.start address defines).Sound address.toNat stamp := by
  refine ⟨?_, rfl, ?_⟩
  · exact Nat.le_of_lt address.toNat_lt
  · intro line hline
    cases hline

theorem reached_sound (h : layout.Sound start env.stamp)
    (source : List (Location × Except Error Line)) (n : Nat) :
    (reached env layout source n).Sound start env.stamp :=
  reached_induction env source h (fun _ line _ hl => stepRead_sound hl line) n

end Layout

end Z80
