import Mathlib
import Z80.Proofs.Matching
import Z80.Proofs.Program

namespace Z80

def Agreeing {α : Type} (x : Except Error α) : Prop :=
  ∀ e, x = .error e → e.kind ≠ .ambiguousEncoding

section Agreeing

variable {α β ε : Type}

theorem agreeing_ok (a : α) : Agreeing (.ok a) := by
  intro e h
  cases h

theorem agreeing_error {e : Error} (he : e.kind ≠ .ambiguousEncoding) :
    Agreeing (.error e : Except Error α) := by
  intro e' h
  cases h
  exact he

theorem Agreeing.bind {x : Except Error α} {f : α → Except Error β} (hx : Agreeing x)
    (hf : ∀ a, x = .ok a → Agreeing (f a)) : Agreeing (x >>= f) := by
  intro e h
  rcases bind_eq_error.mp h with h | ⟨a, ha, h⟩
  · exact hx e h
  · exact hf a ha e h

theorem agreeing_mapError {f : ε → Error} (hf : ∀ fault, (f fault).kind ≠ .ambiguousEncoding)
    (x : Except ε α) : Agreeing (x.mapError f) := by
  intro e h
  obtain ⟨fault, -, rfl⟩ := mapError_eq_error.mp h
  exact hf fault

theorem agreeing_ite {p : Prop} [Decidable p] {x y : Except Error α} (hx : p → Agreeing x)
    (hy : ¬p → Agreeing y) : Agreeing (if p then x else y) := by
  split
  · next h => exact hx h
  · next h => exact hy h

end Agreeing

namespace Line

theorem syntactic_agreeing {α : Type} (fault : SyntaxFault) :
    Agreeing (syntactic fault : Result α) :=
  agreeing_error (by simp [Error.kind])

theorem readList_agreeing {α : Type} {item : List Token → Result (α × List Token)}
    (hitem : ∀ ts, Agreeing (item ts)) (n : Nat) :
    ∀ ts, Agreeing (readList item n ts) := by
  induction n with
  | zero =>
      intro ts
      rw [readList]
      refine (hitem ts).bind ?_
      rintro ⟨a, rest⟩ -
      cases rest with
      | nil => exact agreeing_ok _
      | cons t rest => exact syntactic_agreeing _
  | succ n ih =>
      intro ts
      rw [readList]
      refine (hitem ts).bind ?_
      rintro ⟨a, rest⟩ -
      cases rest with
      | nil => exact agreeing_ok _
      | cons t rest =>
          refine agreeing_ite (fun _ => ?_) (fun _ => syntactic_agreeing _)
          exact (ih rest).bind fun _ _ => agreeing_ok _

theorem readExpr_agreeing (ts : List Token) : Agreeing (readExpr ts) :=
  agreeing_mapError (by simp [Error.kind]) _

theorem readExprs_agreeing (ts : List Token) : Agreeing (readExprs ts) :=
  readList_agreeing readExpr_agreeing _ _

theorem readSingle_agreeing (ts : List Token) : Agreeing (readSingle ts) := by
  refine (readExprs_agreeing ts).bind ?_
  intro es _
  split
  · exact agreeing_ok _
  · exact syntactic_agreeing _

theorem readWithFill_agreeing (ts : List Token) : Agreeing (readWithFill ts) := by
  refine (readExprs_agreeing ts).bind ?_
  intro es _
  split
  · exact agreeing_ok _
  · exact agreeing_ok _
  · exact syntactic_agreeing _

theorem textBytes_agreeing (cs : List Char) : Agreeing (textBytes cs) := by
  induction cs with
  | nil => exact agreeing_ok _
  | cons c cs ih =>
      refine agreeing_ite (fun _ => ?_) (fun _ => agreeing_error (by simp [Error.kind]))
      exact ih.bind fun _ _ => agreeing_ok _

theorem readAdjust_agreeing (ts : List Token) : Agreeing (readAdjust ts) := by
  cases ts with
  | nil => exact agreeing_ok _
  | cons t ts =>
      simp only [readAdjust]
      split
      · exact agreeing_ok _
      · exact (readExpr_agreeing ts).bind fun _ _ => agreeing_ok _

theorem readExprItem_agreeing (ts : List Token) : Agreeing (readExprItem ts) :=
  (readExpr_agreeing ts).bind fun _ _ => agreeing_ok _

theorem readByteItem_agreeing (ts : List Token) : Agreeing (readByteItem ts) := by
  cases ts with
  | nil => exact readExprItem_agreeing []
  | cons t ts =>
      simp only [readByteItem]
      split
      · refine (readAdjust_agreeing ts).bind ?_
        rintro ⟨adjust, rest⟩ -
        exact (textBytes_agreeing _).bind fun _ _ => agreeing_ok _
      · split
        · exact agreeing_ok _
        · exact readExprItem_agreeing _
      · exact readExprItem_agreeing _

theorem readData_agreeing (width : DataWidth) (ts : List Token) : Agreeing (readData width ts) := by
  cases width with
  | byte => exact readList_agreeing readByteItem_agreeing _ _
  | word | long => exact readList_agreeing readExprItem_agreeing _ _

theorem readStatement_agreeing (labelled : Bool) (mnemonic : String) (args : List Token) :
    Agreeing (readStatement labelled mnemonic args) := by
  unfold readStatement
  split
  · exact (readData_agreeing _ args).bind fun _ _ => agreeing_ok _
  · refine agreeing_ite (fun _ => ?_) (fun _ => syntactic_agreeing _)
    exact (readSingle_agreeing args).bind fun _ _ => agreeing_ok _
  · exact (readSingle_agreeing args).bind fun _ _ => agreeing_ok _
  · exact (readWithFill_agreeing args).bind fun _ _ => agreeing_ok _
  · exact (readWithFill_agreeing args).bind fun _ _ => agreeing_ok _
  · exact agreeing_ok _

theorem readSegment_agreeing (args : List Token) : Agreeing (readSegment args) := by
  unfold readSegment
  split
  · exact agreeing_ok _
  · refine agreeing_ite (fun _ => ?_) (fun _ => syntactic_agreeing _)
    refine (readExprs_agreeing _).bind fun es _ => ?_
    exact agreeing_ite (fun _ => syntactic_agreeing _) (fun _ => agreeing_ok _)
  · exact syntactic_agreeing _

theorem readTarget_agreeing (args : List Token) : Agreeing (readTarget args) := by
  unfold readTarget
  split
  · split
    · exact agreeing_ok _
    · exact syntactic_agreeing _
  · exact syntactic_agreeing _

theorem withoutArgs_agreeing (statement : Statement) (args : List Token) :
    Agreeing (withoutArgs statement args) := by
  cases args with
  | nil => exact agreeing_ok _
  | cons t args => exact syntactic_agreeing _

theorem readHash_agreeing (ts : List Token) : Agreeing (readHash ts) := by
  unfold readHash
  split
  · refine agreeing_ite (fun _ => readSegment_agreeing _) fun _ => ?_
    refine agreeing_ite (fun _ => withoutArgs_agreeing _ _) fun _ => ?_
    refine agreeing_ite (fun _ => withoutArgs_agreeing _ _) fun _ => ?_
    refine agreeing_ite (fun _ => readTarget_agreeing _) fun _ => ?_
    exact agreeing_error (by simp [Error.kind])
  · exact syntactic_agreeing _

theorem ofTokens_agreeing (ts : List Token) : Agreeing (ofTokens ts) := by
  unfold ofTokens
  split
  · exact (readHash_agreeing _).bind fun _ _ => agreeing_ok _
  · dsimp only
    split
    · exact agreeing_ok _
    · exact (readStatement_agreeing _ _ _).bind fun _ _ => agreeing_ok _
    · exact syntactic_agreeing _

theorem parse_agreeing (text : String) : Agreeing (parse text) :=
  (agreeing_mapError (by simp [Error.kind]) _).bind fun ts _ => ofTokens_agreeing _

end Line

namespace Symbols

variable {table : Symbols}

theorem define_agreeing (scope : Option Nat) (name : String) (kind : SymbolKind) (value : Int32)
    (loc : Location) : Agreeing (table.define scope name kind value loc).1 := by
  unfold define
  split
  · exact agreeing_ok _
  · split
    · exact agreeing_ok _
    · exact agreeing_error (by simp [Error.kind])

theorem definePending_agreeing (scope : Option Nat) (name : String) (e : Expr) (address : UInt16)
    (loc : Location) : Agreeing (table.definePending scope name e address loc).1 := by
  unfold definePending
  split
  · exact agreeing_ok _
  · exact agreeing_error (by simp [Error.kind])

theorem roundErrors_kind {fault : Location × Error} (h : fault ∈ table.roundErrors) :
    fault.2.kind = .arithmetic := by
  obtain ⟨s, -, hs⟩ := List.mem_filterMap.mp h
  unfold fault? at hs
  split at hs
  · cases hs
    rfl
  · cases hs

theorem rounds_kind {fault : Location × Error} (n : Nat) (h : fault ∈ (rounds n table).errors) :
    fault.2.kind = .arithmetic := by
  induction n generalizing table with
  | zero => cases h
  | succ n ih =>
      simp only [rounds] at h
      split at h
      · rcases List.mem_append.mp h with h | h
        · exact roundErrors_kind h
        · exact ih h
      · cases h

theorem resolve_kind {fault : Location × Error} (h : fault ∈ table.resolve.errors) :
    fault.2.kind = .arithmetic ∨ fault.2.kind = .undefinedSymbol := by
  rcases List.mem_append.mp h with h | h
  · exact Or.inl (rounds_kind _ h)
  · obtain ⟨s, -, hs⟩ := List.mem_filterMap.mp h
    obtain ⟨p, -, rfl⟩ := Option.map_eq_some_iff.mp hs
    exact Or.inr rfl

end Symbols

theorem Expr.value_agreeing (ctx : Context) (e : Expr) : Agreeing (e.value ctx) := by
  refine agreeing_mapError ?_ _
  intro fault
  cases fault with
  | undefined name => simp [EvalFault.toError, Error.kind]
  | arithmetic fault => simp [EvalFault.toError, Error.kind]

theorem InstructionSet.select_agreeing (set : InstructionSet) (allowUndocumented : Bool)
    (ctx : Context) (mnemonic : String) (operands : List Token) :
    Agreeing (set.select allowUndocumented ctx mnemonic operands) := by
  unfold select
  split
  · exact agreeing_error (by simp [Error.kind])
  · split
    · exact agreeing_ite (fun _ => agreeing_ok _) (fun _ => agreeing_error (by simp [Error.kind]))
    · split
      · exact agreeing_error (by simp [Error.kind])
      · exact agreeing_error (by simp [Error.kind])

theorem planSlots_agreeing (ctx : Context) (spelling : String) {opcode : List OpcodeItem} :
    ∀ {bound : List Binding}, bound.map Binding.placeholder =
        opcode.filterMap OpcodeItem.placeholder? →
      ∀ offset, Agreeing (planSlots ctx spelling offset opcode bound) := by
  induction opcode with
  | nil =>
      intro bound _ offset
      simp only [planSlots]
      exact agreeing_ok _
  | cons item opcode ih =>
      intro bound hbound offset
      cases item with
      | byte b =>
          simp only [planSlots]
          exact ih (by simpa [List.filterMap_cons, OpcodeItem.placeholder?] using hbound) _
      | slot p =>
          cases bound with
          | nil => simp [OpcodeItem.placeholder?] at hbound
          | cons b bound =>
              have hrest : bound.map Binding.placeholder =
                  opcode.filterMap OpcodeItem.placeholder? := by
                simp only [List.map_cons, List.filterMap_cons, OpcodeItem.placeholder?,
                  List.cons.injEq] at hbound
                exact hbound.2
              simp only [planSlots]
              refine agreeing_ite (fun _ => ?_) (fun _ => ?_)
              · refine (Expr.value_agreeing ctx b.expr).bind fun v _ => ?_
                exact (ih hrest _).bind fun _ _ => agreeing_ok _
              · exact (ih hrest _).bind fun _ _ => agreeing_ok _

namespace Layout

variable {layout : Layout} {env : Environment} {loc : Location}

theorem count_agreeing (layout : Layout) (e : Expr) : Agreeing (layout.count e) := by
  refine (Expr.value_agreeing _ e).bind fun n _ => ?_
  refine agreeing_ite (fun _ => agreeing_error (by simp [Error.kind])) fun _ => ?_
  exact agreeing_ite (fun _ => agreeing_error (by simp [Error.kind])) (fun _ => agreeing_ok _)

theorem origin_agreeing (layout : Layout) (e : Expr) : Agreeing (layout.origin e) := by
  refine (Expr.value_agreeing _ e).bind fun n _ => ?_
  exact agreeing_ite (fun _ => agreeing_ok _) (fun _ => agreeing_error (by simp [Error.kind]))

theorem place_agreeing (layout : Layout) (stamp : BuildStamp) (loc : Location) (item : Item)
    (fixups : List Fixup) : Agreeing (layout.place stamp loc item fixups) := by
  unfold place
  exact agreeing_ite (fun _ => agreeing_error (by simp [Error.kind])) (fun _ => agreeing_ok _)

theorem constantValue_agreeing (layout : Layout) (e : Expr) :
    Agreeing (layout.constantValue e) := by
  unfold constantValue
  exact agreeing_ite (fun _ => agreeing_ok _) (fun _ => agreeing_mapError (by simp [Error.kind]) _)

theorem defineLabel_agreeing (layout : Layout) (loc : Location) (line : Line) :
    Agreeing (layout.defineLabel loc line).1 := by
  unfold defineLabel
  split
  · exact agreeing_ok _
  · dsimp only [defineSymbol]
    split
    · next e _ =>
        have hvalue := constantValue_agreeing layout e
        split
        · next fault herror => exact agreeing_error (hvalue fault herror)
        · exact Symbols.define_agreeing _ _ _ _ _
        · exact Symbols.definePending_agreeing _ _ _ _ _
    · exact Symbols.define_agreeing _ _ _ _ _

theorem placeInstruction_agreeing (sound : env.instructionSet.check = .ok ()) (layout : Layout)
    (loc : Location) (mnemonic : String) (operands : List Token) :
    Agreeing (layout.placeInstruction env loc mnemonic operands) := by
  unfold placeInstruction
  refine (InstructionSet.select_agreeing _ _ _ _ _).bind fun selection hs => ?_
  refine (planSlots_agreeing _ _ (InstructionSet.select_binds sound hs) 0).bind fun slots _ => ?_
  exact place_agreeing _ _ _ _ _

theorem perform_agreeing (sound : env.instructionSet.check = .ok ()) (layout : Layout)
    (loc : Location) (statement : Statement) : Agreeing (layout.perform env loc statement) := by
  cases statement with
  | instruction mnemonic operands => exact placeInstruction_agreeing sound layout loc mnemonic operands
  | data width items => exact place_agreeing _ _ _ _ _
  | equ e => exact agreeing_ok _
  | org e => exact (origin_agreeing _ e).bind fun _ _ => place_agreeing _ _ _ _ _
  | align boundary fill =>
      refine (count_agreeing _ boundary).bind fun n _ => ?_
      exact agreeing_ite (fun _ => agreeing_error (by simp [Error.kind]))
        (fun _ => place_agreeing _ _ _ _ _)
  | fill count fill => exact (count_agreeing _ count).bind fun _ _ => place_agreeing _ _ _ _ _
  | segment name address =>
      cases address with
      | none => exact agreeing_ok _
      | some e => exact (origin_agreeing _ e).bind fun _ _ => place_agreeing _ _ _ _ _
  | openLocal =>
      exact agreeing_ite (fun _ => agreeing_error (by simp [Error.kind])) (fun _ => agreeing_ok _)
  | closeLocal =>
      exact agreeing_ite (fun _ => agreeing_ok _) (fun _ => agreeing_error (by simp [Error.kind]))
  | target t => exact agreeing_ok _

def InAgreement (layout : Layout) : Prop :=
  ∀ fault ∈ layout.errors, fault.2.kind ≠ .ambiguousEncoding

theorem stepRead_inAgreement (sound : env.instructionSet.check = .ok ())
    {source : Location × Except Error Line} (hread : Agreeing source.2) (h : layout.InAgreement) :
    (stepRead env layout source).InAgreement := by
  intro fault hfault
  rcases stepRead_cases env layout source with ⟨line, labelled, -, htakes⟩ | ⟨e, hfails, herr, -⟩
  · obtain ⟨-, herr, -⟩ := htakes.frame
    rw [herr] at hfault
    exact h fault hfault
  · rw [herr] at hfault
    rcases List.mem_append.mp hfault with hold | hnew
    · exact h fault hold
    · cases List.mem_singleton.mp hnew
      obtain ⟨loc, result⟩ := source
      cases hfails with
      | unread => exact hread e rfl
      | label he => exact defineLabel_agreeing _ _ _ e he
      | statement _ _ he => exact perform_agreeing sound _ _ _ e he

end Layout

namespace Placeholder

theorem check_agreeing (p : Placeholder) (v : Int32) : Agreeing (p.check v) :=
  agreeing_ite (fun _ => agreeing_ok _) (fun _ => agreeing_error (by simp [Error.kind]))

theorem encode_agreeing (p : Placeholder) (v : Int32) (next : Nat) :
    Agreeing (p.encode v next) := by
  cases p with
  | imm8 | imm16 | disp8 => exact (check_agreeing _ v).bind fun _ _ => agreeing_ok _
  | branch =>
      exact agreeing_ite (fun _ => agreeing_ok _) (fun _ => agreeing_error (by simp [Error.kind]))

end Placeholder

section Encoding

variable (ctx : Context) (next : Nat) (stamp : BuildStamp) (loc : Location) (width : DataWidth)

theorem putOperand_agreeing (bytes : List UInt8) (offset : Nat) (p : Placeholder) (v : Int32) :
    Agreeing (putOperand next bytes offset p v) :=
  (p.encode_agreeing v next).bind fun _ _ => agreeing_ok _

theorem putSlots_agreeing (slots : List Slot) :
    ∀ bytes, Agreeing (putSlots next bytes slots) := by
  induction slots with
  | nil => exact fun _ => agreeing_ok _
  | cons slot slots ih =>
      intro bytes
      simp only [putSlots]
      split
      · exact ih bytes
      · exact (putOperand_agreeing next bytes _ _ _).bind fun bytes _ => ih bytes

theorem putFixups_agreeing (fixups : List Fixup) :
    ∀ bytes, Agreeing (putFixups ctx next bytes fixups) := by
  induction fixups with
  | nil => exact fun _ => agreeing_ok _
  | cons fixup fixups ih =>
      intro bytes
      refine (fixup.expr.value_agreeing ctx).bind fun v _ => ?_
      exact (putOperand_agreeing next bytes _ _ v).bind fun bytes _ => ih bytes

theorem byteValue_agreeing (v : Int32) : Agreeing (byteValue v) :=
  (Placeholder.imm8.check_agreeing v).bind fun _ _ => agreeing_ok _

theorem DataWidth.encode_agreeing (v : Int32) : Agreeing (width.encode v) := by
  cases width with
  | byte | word => exact (Placeholder.check_agreeing _ v).bind fun _ _ => agreeing_ok _
  | long => exact agreeing_ok _

theorem adjustLast_agreeing (bytes : List UInt8) (op : BinaryOp) (e : Expr) :
    Agreeing (adjustLast ctx bytes op e) := by
  unfold adjustLast
  split
  · exact agreeing_error (by simp [Error.kind])
  · refine (Expr.value_agreeing ctx _).bind fun v _ => ?_
    exact (byteValue_agreeing v).bind fun _ _ => agreeing_ok _

theorem appendItem_agreeing (bytes : List UInt8) (item : DataItem) :
    Agreeing (appendItem ctx stamp loc width bytes item) := by
  cases item with
  | expr e =>
      refine (e.value_agreeing ctx).bind fun v _ => ?_
      exact (width.encode_agreeing v).bind fun _ _ => agreeing_ok _
  | text text adjust =>
      cases adjust with
      | none => exact agreeing_ok _
      | some adjust => exact adjustLast_agreeing ctx _ _ _
  | predefined p => exact agreeing_ok _

theorem appendItems_agreeing (items : List DataItem) :
    ∀ bytes, Agreeing (appendItems ctx stamp loc width bytes items) := by
  induction items with
  | nil => exact fun _ => agreeing_ok _
  | cons item items ih =>
      intro bytes
      exact (appendItem_agreeing ctx stamp loc width bytes item).bind fun bytes _ => ih bytes

theorem encodeFill_agreeing (count : Nat) (fill : Option Expr) (default : UInt8) :
    Agreeing (encodeFill ctx count fill default) := by
  cases fill with
  | none => exact agreeing_ok _
  | some e =>
      refine (e.value_agreeing ctx).bind fun v _ => ?_
      exact (byteValue_agreeing v).bind fun _ _ => agreeing_ok _

end Encoding

theorem PlannedLine.encode_agreeing (line : PlannedLine) (symbols : Symbols) (stamp : BuildStamp)
    (fixups : List Fixup) : Agreeing (line.encode symbols stamp fixups) := by
  obtain ⟨location, address, scope, size, item⟩ := line
  cases item with
  | instruction selection slots =>
      refine (putSlots_agreeing _ slots _).bind fun bytes _ => ?_
      exact putFixups_agreeing _ _ fixups bytes
  | data width items => exact appendItems_agreeing _ _ _ _ items _
  | fill count fill default => exact encodeFill_agreeing _ _ _ _
  | org address => exact agreeing_ok _

namespace Config

variable {config : Config} {seconds : Nat} {files : List SourceFile}

theorem environment_check (config : Config) (stamp : BuildStamp) :
    (config.environment stamp).instructionSet.check = .ok () := by
  have hset : (config.environment stamp).instructionSet = InstructionSet.builtin := rfl
  rw [hset]
  exact InstructionSet.builtin_check

theorem program_inAgreement (config : Config) (seconds : Nat) (files : List SourceFile) :
    (config.program seconds files).InAgreement := by
  have hbefore : (config.before seconds files (readLines files).length).InAgreement := by
    refine Layout.reached_induction _ _ ?_ ?_ _
    · intro fault hfault
      cases hfault
    · intro layout source hsource h
      obtain ⟨text, -, rfl⟩ := List.mem_map.mp hsource
      exact Layout.stepRead_inAgreement (config.environment_check _) (Line.parse_agreeing _) h
  rw [program_eq]
  intro fault hfault
  rcases List.mem_append.mp hfault with hfault | hfault
  · exact hbefore fault hfault
  · rcases Symbols.resolve_kind hfault with hk | hk
    · simp [hk]
    · simp [hk]

theorem written_inAgreement (clean : (config.program seconds files).errors = []) :
    ∀ fault ∈ (config.written seconds files).errors, fault.2.kind ≠ .ambiguousEncoding := by
  have hfaults := (program_ready clean).write_errors
  rw [← written] at hfaults
  generalize (config.written seconds files).errors = faults at hfaults ⊢
  generalize (config.program seconds files).planned.zipIdx.filter _ = lines at hfaults
  induction hfaults with
  | nil =>
      intro fault hfault
      cases hfault
  | cons h _ ih =>
      intro fault hfault
      rcases List.mem_cons.mp hfault with rfl | hfault
      · obtain ⟨e, he, rfl⟩ := h
        exact PlannedLine.encode_agreeing _ _ _ _ e he
      · exact ih fault hfault

theorem assemble_inAgreement {ds : List Diagnostic}
    (h : config.assemble seconds files = .error ds) :
    ∀ d ∈ ds, d.kind ≠ .ambiguousEncoding := by
  intro d hd
  by_cases clean : (config.program seconds files).errors = []
  · rw [assemble_of_clean clean] at h
    split at h
    · cases h
    · cases h
      obtain ⟨fault, hfault, rfl⟩ := List.mem_map.mp hd
      exact written_inAgreement clean fault hfault
  · rw [assemble_of_faulty clean] at h
    cases h
    obtain ⟨fault, hfault, rfl⟩ := List.mem_map.mp hd
    exact program_inAgreement config seconds files fault (List.mem_mergeSort.mp hfault)

end Config

end Z80
