import Mathlib
import Z80.Proofs.TwoPasses

namespace Z80

namespace Layout

variable {layout labelled : Layout} {loc : Location} {line : Line} {s : Symbol} {p : Pending}

theorem pending_of_defineLabel (h : layout.defineLabel loc line = (.ok (), labelled))
    (hs : s ∈ labelled.symbols.toList) (hp : s.pending? = some p) :
    s ∈ layout.symbols.toList ∨
      (line.statement = some (.equ p.expr) ∧ s.definedAt = loc ∧ p.address = layout.here) := by
  rcases defineLabel_eq_ok h with ⟨-, rfl⟩ | ⟨label, table, -, hdefines, rfl⟩
  · exact .inl hs
  · cases hdefines with
    | constant _ _ hdefine | label _ hdefine =>
        rcases Symbols.mem_of_define hdefine hs with hs | rfl
        · exact .inl hs
        · cases hp
    | pending hequ _ hdefine =>
        obtain ⟨-, rfl⟩ := Symbols.definePending_eq_ok.mp hdefine
        rw [Symbols.toList_append] at hs
        rcases List.mem_append.mp hs with hs | hs
        · exact .inl hs
        · cases List.mem_singleton.mp hs
          cases hp
          exact .inr ⟨hequ, rfl, rfl⟩

theorem defineLabel_of_new {label : Label} (hlabel : line.label = some label)
    (hequ : ∀ e, line.statement ≠ some (.equ e))
    (hnew : layout.symbols.find? (label.scopeIn layout.scope) label.name = none) :
    ∃ labelled s, layout.defineLabel loc line = (.ok (), labelled) ∧
      labelled.symbols.find? (label.scopeIn layout.scope) label.name = some s ∧
      s.kind = .label ∧ s.value? = some (Int32.ofNat layout.address) := by
  let s : Symbol := ⟨label.name, label.scopeIn layout.scope, .label,
    some (Int32.ofNat layout.address), loc, none⟩
  let table := layout.symbols.append (label.scopeIn layout.scope, label.name) s
  have hdefine : layout.defineSymbol loc line.statement label = (.ok (), table) := by
    have hlabelled : layout.symbols.define (label.scopeIn layout.scope) label.name .label
        (Int32.ofNat layout.address) loc = (.ok (), table) :=
      Symbols.define_eq_ok.mpr (.inl ⟨hnew, rfl⟩)
    cases hs : line.statement with
    | none => exact hlabelled
    | some statement =>
        cases statement with
        | equ e => exact absurd hs (hequ e)
        | _ => exact hlabelled
  refine ⟨{ layout with symbols := table }, s, ?_, Symbols.find?_append_self hnew, rfl, rfl⟩
  simp only [defineLabel, hlabel, hdefine]

end Layout

namespace Config

variable {config : Config} {seconds : Nat} {files : List SourceFile} {n : Nat} {loc : Location}
  {line : Line}

inductive EvaluatesIn (config : Config) (seconds : Nat) (files : List SourceFile) (n : Nat)
    (loc : Location) : Context → Prop
  | constant : EvaluatesIn config seconds files n loc
      ((config.before seconds files n).mark loc).context
  | decision : EvaluatesIn config seconds files n loc (config.labelled seconds files n).context
  | pending {k : Nat} {s : Symbol} {p : Pending} :
      s ∈ (config.before seconds files (readLines files).length).symbols.toList →
      s.definedAt = loc → s.pending? = some p →
      EvaluatesIn config seconds files n loc ((Symbols.rounds k
        (config.before seconds files (readLines files).length).symbols).table.context p.scope
          p.address)
  | written {planned : PlannedLine} : planned ∈ (config.program seconds files).planned →
      planned.location = loc →
      EvaluatesIn config seconds files n loc
        ((config.program seconds files).symbols.context planned.scope planned.here)

theorem pending_origin (clean : (config.program seconds files).errors = []) {s : Symbol}
    {p : Pending} (hp : s.pending? = some p) (hn : n ≤ (readLines files).length)
    (hs : s ∈ (config.before seconds files n).symbols.toList) :
    ∃ m line, (readLines files)[m]? = some (s.definedAt, .ok line) ∧
      p.address = (config.before seconds files m).here := by
  induction n with
  | zero =>
      obtain ⟨entry, hentry, rfl⟩ := List.mem_map.mp hs
      obtain ⟨d, -, rfl⟩ := Layout.entry_predefine hentry
      cases hp
  | succ n ih =>
      obtain ⟨⟨loc, result⟩, hread⟩ : ∃ read, (readLines files)[n]? = some read :=
        ⟨_, List.getElem?_eq_getElem hn⟩
      obtain ⟨line, -, rfl, -⟩ := Layout.takes_of_clean (program_clean clean).1 hread
      have htakes := takes_labelled clean hread
      rw [htakes.frame.1] at hs
      rcases Layout.pending_of_defineLabel htakes.label hs hp with hs | ⟨-, rfl, hplace⟩
      · exact ih (Nat.le_of_succ_le hn) hs
      · exact ⟨n, line, hread, hplace⟩

theorem here_recorded (clean : (config.program seconds files).errors = [])
    (hn : (readLines files)[n]? = some (loc, .ok line)) {ctx : Context}
    (hctx : config.EvaluatesIn seconds files n loc ctx) :
    ctx.here = (config.before seconds files n).here := by
  cases hctx with
  | constant => rfl
  | decision =>
      have hlabelled := (takes_labelled clean hn).labelled_eq.2
      rw [hlabelled]
      rfl
  | pending hs hloc hp =>
      obtain ⟨m, line', hm, hplace⟩ := pending_origin clean hp le_rfl hs
      rw [hloc] at hm
      cases readLines_unique hn hm
      exact hplace
  | written hplanned hloc =>
      obtain ⟨i, hi⟩ := List.mem_iff_getElem?.mp hplanned
      obtain ⟨m, source, labelled, origin⟩ := program_origin hi
      have hm := origin.found
      rw [hloc] at hm
      cases readLines_unique hn hm
      change UInt16.ofNat _ = UInt16.ofNat _
      rw [origin.address]
      rfl

theorem label_eq_here_iff {layout : Layout} (h : layout.address ≤ 0x10000) :
    (Int32.ofNat layout.address = Int32.ofNat layout.here.toNat ↔ layout.address ≠ 0x10000) ∧
      (layout.address = 0x10000 → layout.here = 0) := by
  have hhere : layout.here.toNat = layout.address % 0x10000 := by simp [Layout.here]
  constructor
  · rw [← Int32.toInt_inj, Int32.toInt_ofNat_of_lt (by omega), Int32.toInt_ofNat_of_lt (by omega)]
    omega
  · intro hfull
    simp [Layout.here, hfull]

theorem label_agrees_iff (config : Config) (seconds : Nat) (files : List SourceFile) (a : Assembly)
    (h : config.assemble seconds files = .ok a) (n : Nat) (loc : Location) (line : Line)
    (hn : (readLines files)[n]? = some (loc, .ok line)) :
    ∃ here address, a.addresses[n]? = some (loc, here) ∧
      address = (config.before seconds files n).address ∧ address ≤ 0x10000 ∧
      (∀ ctx, config.EvaluatesIn seconds files n loc ctx →
        Expr.here.eval ctx = .ok (Int32.ofNat here.toNat)) ∧
      (∀ line' label, line'.label = some label → (∀ e, line'.statement ≠ some (.equ e)) →
        (config.before seconds files n).symbols.find?
          (label.scopeIn (blockAt (readLines files) n)) label.name = none →
        ∃ labelled s,
          ((config.before seconds files n).mark loc).defineLabel loc line' = (.ok (), labelled) ∧
          labelled.symbols.find? (label.scopeIn (blockAt (readLines files) n)) label.name =
            some s ∧
          s.kind = .label ∧ s.value? = some (Int32.ofNat address)) ∧
      (∀ label, line.label = some label → (∀ e, line.statement ≠ some (.equ e)) →
        ∃ s, a.symbols.find? (label.scopeIn (blockAt (readLines files) n)) label.name = some s ∧
          s.kind = .label ∧ s.value? = some (Int32.ofNat address)) ∧
      (Int32.ofNat address = Int32.ofNat here.toNat ↔ address ≠ 0x10000) ∧
      (address = 0x10000 → here = 0) := by
  obtain ⟨clean, -, rfl⟩ := assemble_eq_ok.mp h
  have hlt : n < (readLines files).length := (List.getElem?_eq_some_iff.mp hn).1
  have haddress := (before_sound config seconds files n).address
  refine ⟨_, _, address_recorded clean hn, rfl, haddress, ?_, ?_, ?_, label_eq_here_iff haddress⟩
  · intro ctx hctx
    rw [Expr.eval, here_recorded clean hn hctx]
  · intro line' label hlabel hequ hnew
    rw [← before_scope clean hlt.le] at hnew ⊢
    exact @Layout.defineLabel_of_new ((config.before seconds files n).mark loc) loc line' label
      hlabel hequ hnew
  · intro label hlabel hequ
    exact label_known clean hn hlabel hequ

def fullMemory : List SourceFile :=
  [⟨"<input>", "  org 0xFFFF\nlast: nop\nend:\nlen equ $\n"⟩]

theorem fullMemory_last :
    ∃ a here s, ({} : Config).assemble 0 fullMemory = .ok a ∧
      (readLines fullMemory)[1]? =
        some (⟨0, 2⟩, .ok ⟨some ⟨"last", false⟩, some (.instruction "nop" [])⟩) ∧
      a.addresses[1]? = some (⟨0, 2⟩, here) ∧ a.symbols.find? none "last" = some s ∧
      s.value? = some (Int32.ofNat here.toNat) := by
  have hread : (readLines fullMemory)[1]? =
      some (⟨0, 2⟩, .ok ⟨some ⟨"last", false⟩, some (.instruction "nop" [])⟩) := by decide +kernel
  have hblock : blockAt (readLines fullMemory) 1 = none := by decide +kernel
  have ha := (@assemble_eq_ok {} 0 fullMemory _).mpr ⟨by decide +kernel, by decide +kernel, rfl⟩
  obtain ⟨here, address, haddress, hcounted, -, -, -, hlabel, hagree, -⟩ :=
    label_agrees_iff {} 0 fullMemory _ ha 1 _ _ hread
  obtain ⟨s, hs, -, hvalue⟩ := hlabel ⟨"last", false⟩ rfl (by simp)
  rw [hblock] at hs
  have hroom : address ≠ 0x10000 := by
    rw [hcounted]
    decide +kernel
  exact ⟨_, here, s, ha, hread, haddress, hs, hvalue.trans (congrArg _ (hagree.mpr hroom))⟩

theorem fullMemory_end :
    ∃ a s t, ({} : Config).assemble 0 fullMemory = .ok a ∧
      a.addresses[2]? = some (⟨0, 3⟩, 0) ∧ a.addresses[3]? = some (⟨0, 4⟩, 0) ∧
      a.symbols.find? none "end" = some s ∧ s.value? = some 0x10000 ∧
      a.symbols.find? none "len" = some t ∧ t.value? = some 0 := by
  have ha := (@assemble_eq_ok {} 0 fullMemory _).mpr ⟨by decide +kernel, by decide +kernel, rfl⟩
  let s : Symbol := ⟨"end", none, .label, some 0x10000, ⟨0, 3⟩, none⟩
  let t : Symbol := ⟨"len", none, .constant, some 0, ⟨0, 4⟩, none⟩
  exact ⟨_, s, t, ha, by decide +kernel, by decide +kernel, by decide +kernel, rfl,
    by decide +kernel, rfl⟩

end Config

end Z80
