import Mathlib
import Z80.Proofs.Program
import Z80.Proofs.Stability

namespace Z80

namespace Symbols

def asMeantIn (table now : Symbols) (scope : Option Nat) (address : UInt16) : Context where
  value? name :=
    (table.find? (if (now.find? scope name).isSome then scope else none) name).bind Symbol.value?
  here := address

variable {now table : Symbols} {scope : Option Nat} {address : UInt16}

theorem Keeps.extends_asMeantIn (h : now.Keeps table) (scope : Option Nat) (address : UInt16) :
    (now.context scope address).Extends (table.asMeantIn now scope address) := by
  refine ⟨rfl, ?_⟩
  intro name v hv
  obtain ⟨s, hs, hvalue⟩ := value?_eq_some.mp hv
  cases hl : now.find? scope name with
  | some t =>
      rw [lookup_of_find? hl] at hs
      cases hs
      simp [asMeantIn, hl, h.known scope name s v hl hvalue, hvalue]
  | none =>
      rw [lookup_of_absent hl] at hs
      simp [asMeantIn, hl, h.known none name s v hs hvalue, hvalue]

theorem Keeps.asMeantIn_eq (h : now.Keeps table) {name : String}
    (hname : (table.find? scope name).isSome → (now.find? scope name).isSome) :
    (table.asMeantIn now scope address).value? name =
      (table.context scope address).value? name := by
  change _ = (table.lookup scope name).bind Symbol.value?
  cases hl : table.find? scope name with
  | some s =>
      have hnow : (now.find? scope name).isSome = true := hname (by rw [hl]; rfl)
      rw [lookup_of_find? hl]
      simp [asMeantIn, hnow, hl]
  | none =>
      have hnow : (now.find? scope name).isSome = false := by
        cases hs : (now.find? scope name).isSome with
        | false => rfl
        | true =>
            have := h.defined scope name hs
            rw [hl] at this
            cases this
      rw [lookup_of_absent hl]
      simp [asMeantIn, hnow]

end Symbols

namespace Layout

variable {layout next : Layout} {env : Environment} {ctx : Context} {loc : Location} {e : Expr}

theorem origin_eq_ok {address : UInt16} :
    layout.origin e = .ok address ↔
      ∃ v, e.eval layout.context = .ok v ∧ v.toInt = address.toNat := by
  unfold origin
  rw [bind_eq_ok]
  constructor
  · rintro ⟨v, hv, h⟩
    split at h
    · next hrange =>
        cases h
        refine ⟨v, Expr.value_eq_ok.mp hv, ?_⟩
        rw [UInt16.toNat_ofNat_of_lt' (by simp only [UInt16.size]; omega)]
        omega
    · cases h
  · rintro ⟨v, hv, h⟩
    have hlt := address.toNat_lt
    refine ⟨v, Expr.value_eq_ok.mpr hv, ?_⟩
    rw [if_pos (by omega), h, Int.toNat_natCast, UInt16.ofNat_toNat]
    rfl

theorem count_eq_ok {k : Nat} :
    layout.count e = .ok k ↔
      ∃ v, e.eval layout.context = .ok v ∧ v.toInt = k ∧ k ≤ 0x10000 := by
  unfold count
  rw [bind_eq_ok]
  constructor
  · rintro ⟨v, hv, h⟩
    split at h
    · cases h
    · split at h
      · cases h
      · cases h
        exact ⟨v, Expr.value_eq_ok.mp hv, by omega, by omega⟩
  · rintro ⟨v, hv, h, hk⟩
    refine ⟨v, Expr.value_eq_ok.mpr hv, ?_⟩
    rw [if_neg (by omega), if_neg (by omega), h, Int.toNat_natCast]
    rfl

def deciders (layout : Layout) (env : Environment) : Statement → List Expr
  | .instruction mnemonic operands =>
      match env.instructionSet.select env.allowUndocumented layout.context mnemonic operands with
      | .ok selection => (selection.demands operands).map Prod.fst
      | .error _ => []
  | .org e | .segment _ (some e) | .align e _ | .fill e _ => [e]
  | .data _ _ | .equ _ | .segment _ none | .openLocal | .closeLocal | .target _ => []

def StandsIn (layout : Layout) (env : Environment) (ctx : Context) : Statement → Prop
  | .instruction mnemonic operands => ∃ selection,
      env.instructionSet.select env.allowUndocumented layout.context mnemonic operands =
        .ok selection ∧
      env.instructionSet.select env.allowUndocumented ctx mnemonic operands = .ok selection
  | .org e | .segment _ (some e) => ∃ address v,
      layout.origin e = .ok address ∧ e.eval ctx = .ok v ∧ v.toInt = address.toNat
  | .align e _ | .fill e _ => ∃ k v, layout.count e = .ok k ∧ e.eval ctx = .ok v ∧ v.toInt = k
  | .data _ _ | .equ _ | .segment _ none | .openLocal | .closeLocal | .target _ => True

theorem origin_stands {address : UInt16} (h : layout.origin e = .ok address) :
    (∃ address v, layout.origin e = .ok address ∧ e.eval ctx = .ok v ∧ v.toInt = address.toNat) ↔
      e.eval ctx = e.eval layout.context := by
  obtain ⟨v, hv, hvalue⟩ := origin_eq_ok.mp h
  rw [hv]
  constructor
  · rintro ⟨address', v', haddress', hv', hvalue'⟩
    rw [h] at haddress'
    cases haddress'
    rw [hv', Int32.toInt_inj.mp (hvalue'.trans hvalue.symm)]
  · intro hv'
    exact ⟨address, v, h, hv', hvalue⟩

theorem count_stands {k : Nat} (h : layout.count e = .ok k) :
    (∃ k v, layout.count e = .ok k ∧ e.eval ctx = .ok v ∧ v.toInt = (k : Nat)) ↔
      e.eval ctx = e.eval layout.context := by
  obtain ⟨v, hv, hvalue, -⟩ := count_eq_ok.mp h
  rw [hv]
  constructor
  · rintro ⟨k', v', hk', hv', hvalue'⟩
    rw [h] at hk'
    cases hk'
    rw [hv', Int32.toInt_inj.mp (hvalue'.trans hvalue.symm)]
  · intro hv'
    exact ⟨k, v, h, hv', hvalue⟩

theorem select_stands {mnemonic : String} {operands : List Token} {selection : Selection}
    (hd : env.instructionSet.isDecisive = true)
    (h : env.instructionSet.select env.allowUndocumented layout.context mnemonic operands =
      .ok selection) :
    layout.StandsIn env ctx (.instruction mnemonic operands) ↔
      ∀ e ∈ layout.deciders env (.instruction mnemonic operands),
        e.eval ctx = e.eval layout.context := by
  have hdemands := InstructionSet.select_demands h
  have hstable : env.instructionSet.select env.allowUndocumented ctx mnemonic operands =
      .ok selection ↔ ∀ d ∈ selection.demands operands, d.1.eval ctx = .ok d.2 :=
    InstructionSet.select_stable hd h
  simp only [StandsIn, deciders, h, Except.ok.injEq, exists_eq_left', hstable, List.mem_map,
    forall_exists_index, and_imp]
  constructor
  · rintro hall e d hd rfl
    rw [hall d hd, hdemands d hd]
  · intro hall d hd
    rw [hall d.1 d hd rfl, hdemands d hd]

theorem quiet_undecided {statement : Statement} (hq : statement.isQuiet = true) :
    layout.deciders env statement = [] ∧ layout.StandsIn env ctx statement := by
  cases statement with
  | instruction _ _ | data _ _ | org _ | align _ _ | fill _ _ => cases hq
  | segment name address =>
      cases address with
      | none => exact ⟨rfl, trivial⟩
      | some e => cases hq
  | equ _ | openLocal | closeLocal | target _ => exact ⟨rfl, trivial⟩

theorem standsIn_iff {statement : Statement} (hd : env.instructionSet.isDecisive = true)
    (h : layout.perform env loc statement = .ok next) :
    layout.StandsIn env ctx statement ↔
      ∀ e ∈ layout.deciders env statement, e.eval ctx = e.eval layout.context := by
  rcases perform_eq_ok h with ⟨item, fixups, hplans, -⟩ | ⟨hquiet, -⟩
  · cases hplans with
    | instruction hselect _ => exact select_stands hd hselect
    | data => simp [StandsIn, deciders]
    | org horigin => simpa [StandsIn, deciders] using origin_stands horigin
    | segment horigin => simpa [StandsIn, deciders] using origin_stands horigin
    | align hcount _ => simpa [StandsIn, deciders] using count_stands hcount
    | fill hcount => simpa [StandsIn, deciders] using count_stands hcount
  · obtain ⟨hnone, hstands⟩ := @quiet_undecided layout env ctx statement hquiet
    simp [hnone, hstands]

theorem deciders_known {statement : Statement} (h : layout.perform env loc statement = .ok next) :
    ∀ e ∈ layout.deciders env statement, ∃ v, e.eval layout.context = .ok v := by
  intro e he
  rcases perform_eq_ok h with ⟨item, fixups, hplans, -⟩ | ⟨hquiet, -⟩
  · cases hplans with
    | instruction hselect _ =>
        simp only [deciders, hselect, List.mem_map] at he
        obtain ⟨d, hd, rfl⟩ := he
        exact ⟨d.2, InstructionSet.select_demands hselect d hd⟩
    | data => cases he
    | org horigin | segment horigin =>
        cases List.mem_singleton.mp he
        obtain ⟨v, hv, -⟩ := origin_eq_ok.mp horigin
        exact ⟨v, hv⟩
    | align hcount _ | fill hcount =>
        cases List.mem_singleton.mp he
        obtain ⟨v, hv, -⟩ := count_eq_ok.mp hcount
        exact ⟨v, hv⟩
  · rw [(@quiet_undecided layout env layout.context statement hquiet).1] at he
    cases he

end Layout

namespace Config

variable {config : Config} {seconds : Nat} {files : List SourceFile} {n : Nat} {loc : Location}
  {line : Line} {statement : Statement}

theorem environment_isDecisive (config : Config) (stamp : BuildStamp) :
    (config.environment stamp).instructionSet.isDecisive = true := by
  have hset : (config.environment stamp).instructionSet = InstructionSet.builtin := rfl
  rw [hset]
  exact InstructionSet.builtin_isDecisive

theorem labelled_context (clean : (config.program seconds files).errors = [])
    (hn : (readLines files)[n]? = some (loc, .ok line)) :
    (config.labelled seconds files n).context =
      (config.labelled seconds files n).symbols.context (blockAt (readLines files) n)
        (config.before seconds files n).here := by
  have hlt : n < (readLines files).length := (List.getElem?_eq_some_iff.mp hn).1
  have hlabelled := (takes_labelled clean hn).labelled_eq.2
  rw [← before_scope clean hlt.le, hlabelled]
  rfl

theorem labelled_keeps (clean : (config.program seconds files).errors = [])
    (hn : (readLines files)[n]? = some (loc, .ok line)) :
    (config.labelled seconds files n).symbols.Keeps (config.program seconds files).symbols := by
  have hlt : n < (readLines files).length := (List.getElem?_eq_some_iff.mp hn).1
  rw [← (takes_labelled clean hn).frame.1]
  exact before_keeps config seconds files hlt

theorem planned_by (clean : (config.program seconds files).errors = [])
    (hn : (readLines files)[n]? = some (loc, .ok line)) (hs : line.statement = some statement)
    (hq : statement.isQuiet = false) :
    ∃ planned fixups, planned ∈ (config.program seconds files).planned ∧
      planned.location = loc ∧
      (config.labelled seconds files n).Plans (config.environment (stampOf seconds files))
        statement planned.item fixups := by
  have hlt : n < (readLines files).length := (List.getElem?_eq_some_iff.mp hn).1
  have htakes := takes_labelled clean hn
  obtain ⟨item, fixups, hplans, -, hnext⟩ := Layout.perform_plans (htakes.perform hs) hq
  have hleads := Layout.reached_leads (config.environment (stampOf seconds files))
    (Layout.start config.startAddress config.defines) (readLines files) hlt
  refine ⟨(config.labelled seconds files n).lineOf (stampOf seconds files) loc item, fixups, ?_, rfl,
    hplans⟩
  rw [program_eq]
  refine hleads.planned.subset ?_
  change _ ∈ (config.before seconds files (n + 1)).planned
  rw [hnext]
  exact List.mem_append_right _ (List.mem_singleton_self _)

def StandsAt (config : Config) (seconds : Nat) (files : List SourceFile) (n : Nat) (ctx : Context)
    (statement : Statement) : Prop :=
  (config.labelled seconds files n).StandsIn (config.environment (stampOf seconds files)) ctx
    statement

def decidersAt (config : Config) (seconds : Nat) (files : List SourceFile) (n : Nat)
    (statement : Statement) : List Expr :=
  (config.labelled seconds files n).deciders (config.environment (stampOf seconds files)) statement

def meantAt (config : Config) (seconds : Nat) (files : List SourceFile) (n : Nat) (table : Symbols)
    (here : UInt16) : Context :=
  table.asMeantIn (config.labelled seconds files n).symbols (blockAt (readLines files) n) here

theorem eval_meantAt (clean : (config.program seconds files).errors = [])
    (hn : (readLines files)[n]? = some (loc, .ok line)) (hs : line.statement = some statement)
    {e : Expr} (he : e ∈ config.decidersAt seconds files n statement) :
    e.eval (config.meantAt seconds files n (config.program seconds files).symbols
        (config.before seconds files n).here) =
      e.eval (config.labelled seconds files n).context := by
  have hperform := (takes_labelled clean hn).perform hs
  obtain ⟨v, hv⟩ := Layout.deciders_known hperform e he
  rw [hv]
  rw [labelled_context clean hn] at hv
  exact Expr.eval_ok_of_extends ((labelled_keeps clean hn).extends_asMeantIn _ _) hv

theorem standsAt_iff (clean : (config.program seconds files).errors = [])
    (hn : (readLines files)[n]? = some (loc, .ok line)) (hs : line.statement = some statement)
    (ctx : Context) :
    config.StandsAt seconds files n ctx statement ↔
      ∀ e ∈ config.decidersAt seconds files n statement, e.eval ctx =
        e.eval (config.meantAt seconds files n (config.program seconds files).symbols
          (config.before seconds files n).here) := by
  have hperform := (takes_labelled clean hn).perform hs
  rw [StandsAt, Layout.standsIn_iff (config.environment_isDecisive _) hperform]
  refine forall₂_congr ?_
  intro e he
  rw [eval_meantAt clean hn hs he]

theorem decisions_stand_iff (config : Config) (seconds : Nat) (files : List SourceFile)
    (a : Assembly) (h : config.assemble seconds files = .ok a) (n : Nat) (loc : Location)
    (line : Line) (statement : Statement)
    (hn : (readLines files)[n]? = some (loc, .ok line)) (hs : line.statement = some statement) :
    ∃ here, a.addresses[n]? = some (loc, here) ∧
      (statement.isQuiet = false → ∃ planned fixups,
        planned ∈ (config.program seconds files).planned ∧ planned.location = loc ∧
        (config.labelled seconds files n).Plans (config.environment (stampOf seconds files))
          statement planned.item fixups) ∧
      config.StandsAt seconds files n (config.meantAt seconds files n a.symbols here) statement ∧
      (config.StandsAt seconds files n (a.symbols.context (blockAt (readLines files) n) here)
          statement ↔
        ∀ e ∈ config.decidersAt seconds files n statement,
          e.eval (a.symbols.context (blockAt (readLines files) n) here) =
            e.eval (config.meantAt seconds files n a.symbols here)) ∧
      ((∀ e ∈ config.decidersAt seconds files n statement, ∀ x ∈ e.symbols,
          (a.symbols.find? (blockAt (readLines files) n) x).isSome →
          ((config.labelled seconds files n).symbols.find?
            (blockAt (readLines files) n) x).isSome) →
        config.StandsAt seconds files n (a.symbols.context (blockAt (readLines files) n) here)
          statement) := by
  obtain ⟨clean, -, rfl⟩ := assemble_eq_ok.mp h
  have hiff := standsAt_iff clean hn hs
  refine ⟨_, address_recorded clean hn, planned_by clean hn hs, ?_, hiff _, ?_⟩
  · exact (hiff _).mpr fun e _ => rfl
  · intro hlate
    refine (hiff _).mpr ?_
    intro e he
    apply Expr.eval_congr
    · rfl
    · intro x hx
      exact ((labelled_keeps clean hn).asMeantIn_eq (hlate e he x hx)).symm

def bitOperands : List Token :=
  [⟨.name "n", 5⟩, ⟨.punct .comma, 6⟩, ⟨.keyword .a, 7⟩]

def earlyBit : List SourceFile :=
  [⟨"<input>", "n equ 3\n#local\nn equ 5\n bit n,a\n#endlocal\n"⟩]

def lateBit : List SourceFile :=
  [⟨"<input>", "n equ 3\n#local\n bit n,a\nn equ 5\n#endlocal\n"⟩]

theorem earlyBit_stands :
    ∃ a here, ({} : Config).assemble 0 earlyBit = .ok a ∧
      (readLines earlyBit)[3]? = some (⟨0, 4⟩, .ok ⟨none, some (.instruction "bit" bitOperands)⟩) ∧
      a.addresses[3]? = some (⟨0, 4⟩, here) ∧
      ({} : Config).StandsAt 0 earlyBit 3 (a.symbols.context (blockAt (readLines earlyBit) 3) here)
        (.instruction "bit" bitOperands) := by
  have hread : (readLines earlyBit)[3]? =
      some (⟨0, 4⟩, .ok ⟨none, some (.instruction "bit" bitOperands)⟩) := by decide +kernel
  have ha := (@assemble_eq_ok {} 0 earlyBit _).mpr ⟨by decide +kernel, by decide +kernel, rfl⟩
  obtain ⟨here, haddress, -, -, -, hstands⟩ :=
    decisions_stand_iff {} 0 earlyBit _ ha 3 _ _ _ hread rfl
  exact ⟨_, here, ha, hread, haddress, hstands (by decide +kernel)⟩

theorem lateBit_falls :
    ∃ a here, ({} : Config).assemble 0 lateBit = .ok a ∧ a.image.bytes = [0xcb, 0x5f] ∧
      (readLines lateBit)[2]? = some (⟨0, 3⟩, .ok ⟨none, some (.instruction "bit" bitOperands)⟩) ∧
      a.addresses[2]? = some (⟨0, 3⟩, here) ∧
      ¬({} : Config).StandsAt 0 lateBit 2 (a.symbols.context (blockAt (readLines lateBit) 2) here)
        (.instruction "bit" bitOperands) := by
  have ha := (@assemble_eq_ok {} 0 lateBit _).mpr ⟨by decide +kernel, by decide +kernel, rfl⟩
  refine ⟨_, 0, ha, by decide +kernel, by decide +kernel, by decide +kernel, ?_⟩
  rintro ⟨selection, hearly, hfinal⟩
  rw [← hfinal] at hearly
  revert hearly
  decide +kernel

end Config

end Z80
