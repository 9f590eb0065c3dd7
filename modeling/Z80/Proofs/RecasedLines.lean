import Mathlib
import Z80.Proofs.LetterCase
import Z80.Proofs.Spelling
import Z80.Proofs.Stability
import Z80.Proofs.WrittenAlike

namespace Z80

section Extends

variable {c c' : Context} {next next' : List Token → Fit}

def Outlasts (next next' : List Token → Fit) : Prop :=
  ∀ ts, (next ts).unresolved? = none → next' ts = next ts

theorem unresolved?_bind (b : Binding) (f : Fit) : (f.bind b).unresolved? = f.unresolved? := by
  cases f <;> rfl

theorem Outlasts.literal (h : Outlasts next next') (t : PatternToken) :
    Outlasts (fitLiteral t next) (fitLiteral t next') := by
  intro ts
  cases ts with
  | nil => exact fun _ => rfl
  | cons u ts =>
      simp only [fitLiteral]
      split
      · exact h ts
      · exact fun _ => rfl

theorem Outlasts.slot (h : Outlasts next next') (p : Placeholder) :
    Outlasts (fitSlot p next) (fitSlot p next') := by
  intro ts
  unfold fitSlot
  cases Expr.readBare ts with
  | error fault => exact fun _ => rfl
  | ok read =>
      intro hts
      rw [unresolved?_bind] at hts
      exact congrArg (Fit.bind ⟨p, read.1⟩) (h read.2 hts)

theorem Outlasts.number (h : Outlasts next next') (hc : c.Extends c') (n : Int32) :
    Outlasts (fitNumber c n next) (fitNumber c' n next') := by
  intro ts
  unfold fitNumber
  cases Expr.readBare ts with
  | error fault => exact fun _ => rfl
  | ok read =>
      by_cases hknown : ∀ u, read.1.evalTolerant c ≠ .ok (.unresolved u)
      · simp only [Expr.evalTolerant_of_extends hc hknown]
        split
        · split
          · exact h read.2
          · exact fun _ => rfl
        · exact fun _ => rfl
        · exact fun _ => rfl
      · push Not at hknown
        obtain ⟨u, hu⟩ := hknown
        simp only [hu]
        intro hts
        cases hts

theorem Outlasts.displacement (h : Outlasts next next') :
    Outlasts (fitDisplacement next) (fitDisplacement next') := by
  intro ts
  cases ts with
  | nil => exact fun _ => rfl
  | cons t ts =>
      simp only [fitDisplacement_cons]
      split
      · exact h.slot .disp8 ts
      split
      · exact h.slot .disp8 (t :: ts)
      split
      · intro hts
        rw [unresolved?_bind] at hts
        rw [h (t :: ts) hts]
      · exact fun _ => rfl

theorem fitParts_outlasts (hc : c.Extends c') (parts : List PatternPart) :
    Outlasts (fitParts c parts) (fitParts c' parts) := by
  induction parts with
  | nil => exact fun _ _ => rfl
  | cons part parts ih =>
      cases part with
      | literal t => exact ih.literal t
      | number n => exact ih.number hc n
      | slot p => exact ih.slot p
      | displacement => exact ih.displacement

end Extends

section Symbols

variable {f : String → String}

def Fit.symbols : Fit → List String
  | matched bound => bound.flatMap fun b => b.expr.symbols
  | mismatch => []
  | unresolved name => [name]

def Context.nameless (here : UInt16) : Context :=
  ⟨fun _ => none, here⟩

def Statement.references (here : UInt16) : Statement → List String
  | instruction mnemonic operands =>
      ((InstructionSet.builtin.variants? mnemonic).getD []).flatMap fun v =>
        (fit (.nameless here) v.pattern operands).symbols
  | s => s.names

def Line.references (here : UInt16) (line : Line) : List String :=
  line.statement.toList.flatMap (Statement.references here)

theorem symbols_bound_rename (bound : List Binding) :
    (Fit.matched (bound.map (Binding.rename f))).symbols = (Fit.matched bound).symbols.map f := by
  simp [Fit.symbols, Binding.rename, List.flatMap_map, List.map_flatMap]

theorem rename_of_bound {bound : List Binding} (h : (Fit.matched bound).symbols = []) :
    bound.map (Binding.rename f) = bound := by
  rw [Fit.symbols, List.flatMap_eq_nil_iff] at h
  have hbound : ∀ b ∈ bound, b.rename f = id b := by
    intro b hb
    rw [Binding.rename, Expr.rename_of_symbols (h b hb), id]
  rw [List.map_congr_left hbound, List.map_id]

theorem Fit.Renames.eq_of_eq {a a' b b' : Fit} (ha : Renames f a a') (hb : Renames f b b')
    (heq : b' = a') (hsymbols : a.symbols = []) : b = a := by
  cases ha with
  | mismatch =>
      cases hb with
      | mismatch => rfl
      | matched _ | unresolved _ _ => cases heq
  | unresolved name name' => cases hsymbols
  | matched bound =>
      cases hb with
      | mismatch | unresolved _ _ => cases heq
      | matched bound' =>
          have hbound' : (Fit.matched bound').symbols = [] := by
            rw [← List.map_eq_nil_iff, ← symbols_bound_rename (f := f), heq, symbols_bound_rename,
              hsymbols, List.map_nil]
          rw [← rename_of_bound hbound', ← rename_of_bound hsymbols]
          exact heq

end Symbols

section Selections

variable {m : TokenMap} {ts us : List Token}

theorem fit_mapped (m : TokenMap) (here : UInt16) (pattern : List PatternToken) (ts : List Token) :
    Fit.Renames m.name (fit (.nameless here) pattern ts)
      (fit (.nameless here) pattern (ts.map m.token)) :=
  fitParts_alike (Expr.readsAlike_token m) ⟨rfl, fun _ => rfl⟩ (fun t _ => m.takes_token t) ts

theorem fit_eq {ctx : Context} {pattern : List PatternToken}
    (h : us.map m.token = ts.map m.token)
    (hsymbols : (fit (.nameless ctx.here) pattern ts).symbols = []) :
    fit ctx pattern us = fit ctx pattern ts := by
  have hextends : (Context.nameless ctx.here).Extends ctx := ⟨rfl, fun _ _ hx => nomatch hx⟩
  have hfit := (fit_mapped m ctx.here pattern ts).eq_of_eq (fit_mapped m ctx.here pattern us)
    (by rw [h]) hsymbols
  have hknown : (fit (.nameless ctx.here) pattern ts).unresolved? = none := by
    generalize fit (.nameless ctx.here) pattern ts = f at hsymbols ⊢
    cases f with
    | unresolved name => cases hsymbols
    | matched _ | mismatch => rfl
  -- Without symbols in the operands it does not matter which names the context knows.
  calc fit ctx pattern us
      = fit (.nameless ctx.here) pattern us :=
        fitParts_outlasts hextends _ us (by rw [← hknown, ← hfit]; rfl)
    _ = fit (.nameless ctx.here) pattern ts := hfit
    _ = fit ctx pattern ts := (fitParts_outlasts hextends _ ts hknown).symm

theorem select_eq {ctx : Context} {mnemonic : String} (h : us.map m.token = ts.map m.token)
    (hrefers : (Statement.instruction mnemonic ts).references ctx.here = []) (allow : Bool) :
    Corresponds Eq (InstructionSet.builtin.select allow ctx mnemonic ts)
      (InstructionSet.builtin.select allow ctx mnemonic us) := by
  unfold InstructionSet.select
  cases hvariants : InstructionSet.builtin.variants? mnemonic with
  | none => exact .error rfl
  | some variants =>
      rw [Statement.references, hvariants, Option.getD_some, List.flatMap_eq_nil_iff] at hrefers
      have hfit : ∀ v ∈ variants, fit ctx v.pattern us = fit ctx v.pattern ts :=
        fun v hv => fit_eq h (hrefers v hv)
      have hfirst : Selection.first? ctx us variants = Selection.first? ctx ts variants := by
        rw [Selection.first?, Selection.first?, ← List.head?_filterMap, ← List.head?_filterMap]
        refine congrArg List.head? (List.filterMap_congr fun v hv => ?_)
        rw [Selection.ofVariant?, Selection.ofVariant?, hfit v hv]
      have hobstacle : Selection.obstacle? ctx us variants =
          Selection.obstacle? ctx ts variants := by
        rw [Selection.obstacle?, Selection.obstacle?, ← List.head?_filterMap,
          ← List.head?_filterMap]
        exact congrArg List.head? (List.filterMap_congr fun v hv => by rw [hfit v hv])
      simp only [hfirst, hobstacle]
      cases Selection.first? ctx ts variants with
      | some selection => exact .refl _
      | none =>
          cases Selection.obstacle? ctx ts variants with
          | some name => exact .error rfl
          | none => exact .error rfl

end Selections

namespace TokenMap

variable {m : TokenMap}

inductive SpelledAlike (m : TokenMap) : Statement → Statement → Prop
  | instruction {mnemonic : String} {ts us : List Token} : us.map m.token = ts.map m.token →
      SpelledAlike m (.instruction mnemonic ts) (.instruction mnemonic us)
  | segment {name name' : String} {address address' : Option Expr} :
      address'.map (Expr.rename m.name) = address.map (Expr.rename m.name) →
      SpelledAlike m (.segment name address) (.segment name' address')
  | other {s s' : Statement} : (∀ here, s.references here = s.names) →
      s'.rename m.name = s.rename m.name → SpelledAlike m s s'

theorem spelledAlike {s s' : Statement} (h : m.statement s' = m.statement s) :
    SpelledAlike m s s' := by
  cases s with
  | instruction mnemonic ts =>
      cases s' with
      | instruction mnemonic' us =>
          simp only [statement, Statement.instruction.injEq] at h
          obtain ⟨rfl, hmap⟩ := h
          exact .instruction hmap
      | _ => cases h
  | segment name address =>
      cases s' with
      | segment name' address' =>
          simp only [statement, Statement.segment.injEq] at h
          exact .segment h.2
      | _ => cases h
  | _ =>
      cases s' with
      | instruction _ _ | segment _ _ => cases h
      | _ => exact .other (fun _ => rfl) h

end TokenMap

namespace Layout

variable {m : TokenMap}

theorem perform_mapped (config : Config) (stamp : BuildStamp) (layout : Layout) (loc : Location)
    {s s' : Statement} (h : m.statement s' = m.statement s)
    (hrefers : s.references layout.here = []) :
    Corresponds Eq (layout.perform (config.environment stamp) loc s)
      (layout.perform (config.environment stamp) loc s') := by
  cases TokenMap.spelledAlike h with
  | @instruction mnemonic ts us hmap =>
      refine (select_eq hmap hrefers config.allowUndocumented).bind ?_
      rintro selection _ rfl
      exact .refl _
  | @segment name name' address address' haddress =>
      -- Nobody looks at the name of a segment.
      have hsame : Statement.segment name address' = .segment name address :=
        Statement.eq_of_rename (f := m.name) (by simp [Statement.rename, haddress]) hrefers
      cases hsame
      cases address with
      | none => exact .ok rfl
      | some e => exact .refl _
  | other hnames hrename =>
      rw [hnames] at hrefers
      rw [Statement.eq_of_rename hrename hrefers]
      exact .refl _

def LeavesError (layout : Layout) (fault : Location × Error) (next : Layout) : Prop :=
  next.errors = layout.errors ++ [fault] ∧ next.symbols = layout.symbols

theorem leavesError (layout : Layout) (env : Environment) (s : Statement) (loc : Location)
    (e : Error) :
    LeavesError layout (loc, e) (((layout.mark loc).leave env s).fail loc e) := by
  obtain ⟨fixups, hleave⟩ := leave_frame (layout.mark loc) env s
  rw [hleave]
  exact ⟨rfl, rfl⟩

theorem LeavesError.finish {layout next : Layout} {fault : Location × Error}
    (h : LeavesError layout fault next) :
    next.finish.errors = layout.errors ++ fault :: layout.symbols.resolve.errors := by
  rw [Layout.finish, h.1, h.2, List.append_assoc]
  rfl

theorem stepRead_mapped (config : Config) (stamp : BuildStamp) (layout : Layout) (loc : Location)
    {r r' : Except Error Line} (h : Corresponds (fun l l' => m.line l' = m.line l) r r')
    (hlabel : ∀ l, r = .ok l → l.label = none)
    (hrefers : ∀ l, r = .ok l → l.references layout.here = []) :
    stepRead (config.environment stamp) layout (loc, r') =
        stepRead (config.environment stamp) layout (loc, r) ∨
      ∃ e e', e'.kind = e.kind ∧
        LeavesError layout (loc, e) (stepRead (config.environment stamp) layout (loc, r)) ∧
        LeavesError layout (loc, e') (stepRead (config.environment stamp) layout (loc, r')) := by
  cases h with
  | error hkind => exact .inr ⟨_, _, hkind, ⟨rfl, rfl⟩, rfl, rfl⟩
  | @ok l l' hline =>
      have hnone := hlabel l rfl
      have hfree := hrefers l rfl
      obtain ⟨label, statement⟩ := l
      obtain ⟨label', statement'⟩ := l'
      cases hnone
      simp only [TokenMap.line, Line.mk.injEq, Option.map_none, Option.map_eq_none_iff] at hline
      obtain ⟨rfl, hstatement⟩ := hline
      cases statement with
      | none =>
          rw [Option.map_none, Option.map_eq_none_iff] at hstatement
          rw [hstatement]
          exact .inl rfl
      | some s =>
          rw [Option.map_some, Option.map_eq_some_iff] at hstatement
          obtain ⟨s', rfl, hs⟩ := hstatement
          have hstatement : s.references layout.here = [] := by
            simpa [Line.references] using hfree
          have hperform := perform_mapped config stamp (layout.mark loc) loc hs hstatement
          simp only [stepRead, step, defineLabel]
          generalize (layout.mark loc).perform _ loc s = x at hperform ⊢
          generalize (layout.mark loc).perform _ loc s' = x' at hperform ⊢
          cases hperform with
          | ok heq =>
              cases heq
              exact .inl rfl
          | error hkind => exact .inr ⟨_, _, hkind, leavesError .., leavesError ..⟩

end Layout

namespace Config

variable {config : Config} {seconds : Nat} {files files' : List SourceFile}

theorem sameOutcome_of_program (hstamp : stampOf seconds files' = stampOf seconds files)
    (h : config.program seconds files' = config.program seconds files) :
    SameOutcome Eq (config.assemble seconds files) (config.assemble seconds files') := by
  have hkinds : ∀ faults : List (Location × Error),
      (faults.map fun x => Diagnostic.ofError files' x.1 x.2).map Diagnostic.kind =
        (faults.map fun x => Diagnostic.ofError files x.1 x.2).map Diagnostic.kind := by
    intro faults
    rw [List.map_map, List.map_map]
    rfl
  by_cases clean : (config.program seconds files).errors = []
  · have hwritten : config.written seconds files' = config.written seconds files := by
      rw [written, written, h, hstamp]
    rw [assemble_of_clean clean, assemble_of_clean (h ▸ clean), hwritten, h]
    split
    · exact .ok rfl
    · exact .error (hkinds _)
  · rw [assemble_of_faulty clean, assemble_of_faulty (h ▸ clean), h]
    exact .error (hkinds _)

def SameFault (x x' : Location × Error) : Prop :=
  x'.1 = x.1 ∧ x'.2.kind = x.2.kind

theorem sameOutcome_of_faults (hfaulty : (config.program seconds files).errors ≠ [])
    (h : List.Forall₂ SameFault (config.program seconds files).errors
      (config.program seconds files').errors) :
    SameOutcome Eq (config.assemble seconds files) (config.assemble seconds files') := by
  have hfaulty' : (config.program seconds files').errors ≠ [] := by
    intro hnil
    rw [hnil] at h
    exact hfaulty (List.forall₂_nil_right_iff.mp h)
  have hsorted : List.Forall₂ SameFault
      ((config.program seconds files).errors.mergeSort fun x y => x.1.le y.1)
      ((config.program seconds files').errors.mergeSort fun x y => x.1.le y.1) :=
    forall₂_mergeSort (fun a a' b b' ha hb => by rw [ha.1, hb.1]) h
  rw [assemble_of_faulty hfaulty, assemble_of_faulty hfaulty']
  refine .error ?_
  rw [List.map_map, List.map_map]
  exact forall₂_map_eq hsorted fun _ _ hsame => hsame.2

theorem program_oneLine (config : Config) (seconds : Nat) {name text : String}
    (h : '\n' ∉ text.toList) (hne : text.toList ≠ []) :
    config.program seconds [⟨name, text⟩] =
      (Layout.stepRead (config.environment (stampOf seconds [⟨name, text⟩]))
        (Layout.start config.startAddress config.defines) (⟨0, 1⟩, Line.parse text)).finish := by
  rw [program, readLines_oneLine h hne]
  rfl

theorem letterCase_irrelevant (config : Config) (seconds : Nat) (line line' : String)
    (hcase : Text.Recased line.toList line'.toList) (hline : '\n' ∉ line.toList)
    (hliteral : ¬Token.HoldsLiteral line)
    (hlabel : ∀ l, Line.parse line = .ok l → l.label = none)
    (hrefers : ∀ l, Line.parse line = .ok l → l.references config.startAddress = []) :
    SameOutcome Eq (config.assembleText seconds line) (config.assembleText seconds line') := by
  by_cases hne : line.toList = []
  · have hline' : line' = line := by
      rw [Text.Recased, hne, List.map_nil, List.map_eq_nil_iff, ← hne, String.toList_inj] at hcase
      exact hcase
    rw [hline']
    exact sameOutcome_of_program rfl rfl
  have hline' : '\n' ∉ line'.toList := by
    intro hmem
    have hplain := hcase.forall_eq Text.caseless_newline
      (fun d hd => beq_eq_false_iff_ne.mpr (ne_of_mem_of_not_mem hd hline)) _ hmem
    cases hplain
  have hne' : line'.toList ≠ [] := by
    intro hnil
    rw [hnil] at hcase
    exact hne hcase.symm.nil
  have hhere : (Layout.start config.startAddress config.defines).here = config.startAddress :=
    UInt16.ofNat_toNat
  rw [← hhere] at hrefers
  rcases Layout.stepRead_mapped config (stampOf seconds [⟨"<input>", line⟩]) _ ⟨0, 1⟩
    (Line.parse_recased hcase hliteral) hlabel hrefers with heq | ⟨e, e', hkind, herror, herror'⟩
  · refine sameOutcome_of_program rfl ?_
    rw [program_oneLine config seconds hline hne, ← heq, program_oneLine config seconds hline' hne']
    rfl
  · have hfaults : (config.program seconds [⟨"<input>", line⟩]).errors =
        (⟨0, 1⟩, e) :: (Layout.predefine config.defines).resolve.errors := by
      rw [program_oneLine config seconds hline hne]
      exact herror.finish
    have hfaults' : (config.program seconds [⟨"<input>", line'⟩]).errors =
        (⟨0, 1⟩, e') :: (Layout.predefine config.defines).resolve.errors := by
      rw [program_oneLine config seconds hline' hne']
      exact herror'.finish
    refine sameOutcome_of_faults (by simp [hfaults]) ?_
    rw [hfaults, hfaults']
    exact .cons ⟨rfl, hkind⟩ (List.forall₂_same.mpr fun _ _ => ⟨rfl, rfl⟩)

def rotateLoad : String :=
  " Ld b,rLc (iX+0x1F) ; it's"

def rotateLoadRecased : String :=
  " lD B,RlC (Ix+0X1f) ; IT'S"

theorem rotateLoad_recased :
    Text.Recased rotateLoad.toList rotateLoadRecased.toList ∧ '\n' ∉ rotateLoad.toList ∧
      ¬Token.HoldsLiteral rotateLoad ∧
      (∃ l, Line.parse rotateLoad = .ok l ∧ l.label = none ∧ l.references 0 = []) ∧
      ∃ a, ({} : Config).assembleText 0 rotateLoad = .ok a ∧
        a.image.bytes = [0xDD, 0xCB, 0x1F, 0x00] ∧
        ({} : Config).assembleText 0 rotateLoadRecased = .ok a := by
  have hcase : Text.Recased rotateLoad.toList rotateLoadRecased.toList := by
    rw [Text.Recased]
    decide +kernel
  have hline : '\n' ∉ rotateLoad.toList := by decide +kernel
  have hliteral : ¬Token.HoldsLiteral rotateLoad := by
    have hscan : (Token.scan rotateLoad).map (·.any fun t => t.lexeme.isLiteral) = .ok false := by
      decide +kernel
    obtain ⟨ts, hts, hnone⟩ := map_eq_ok.mp hscan
    rw [Token.holdsLiteral_iff hts]
    simpa using hnone
  have hread : (Line.parse rotateLoad).map (fun l => (l.label, l.references 0)) =
      .ok (none, []) := by
    decide +kernel
  obtain ⟨l, hl, hfree⟩ := map_eq_ok.mp hread
  obtain ⟨hlabel, hrefers⟩ := Prod.mk.inj hfree
  have hbytes : (({} : Config).assembleText 0 rotateLoad).map (·.image.bytes) =
      .ok [0xDD, 0xCB, 0x1F, 0x00] := by
    decide +kernel
  obtain ⟨a, ha, hbytes⟩ := map_eq_ok.mp hbytes
  refine ⟨hcase, hline, hliteral, ⟨l, hl, hlabel, hrefers⟩, a, ha, hbytes, ?_⟩
  have hsame := letterCase_irrelevant {} 0 rotateLoad rotateLoadRecased hcase hline hliteral
    (fun l' hl' => by cases hl.symm.trans hl'; exact hlabel)
    (fun l' hl' => by cases hl.symm.trans hl'; exact hrefers)
  rw [ha] at hsame
  generalize ({} : Config).assembleText 0 rotateLoadRecased = r at hsame ⊢
  cases hsame with
  | ok heq => rw [heq]

end Config

end Z80
