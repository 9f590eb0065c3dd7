import Mathlib
import Z80.Proofs.Matching
import Z80.Proofs.Program

namespace Z80

theorem InstructionSet.select_false (set : InstructionSet) (ctx : Context) (mnemonic : String)
    (operands : List Token) :
    set.select false ctx mnemonic operands =
      (set.select true ctx mnemonic operands >>= fun selection =>
        if selection.variant.documented then .ok selection
        else .error (.undocumented (selection.variant.spelling mnemonic))) := by
  unfold select
  cases set.variants? mnemonic with
  | none => rfl
  | some variants =>
      simp only [Bool.false_or, Bool.true_or, if_true]
      generalize Selection.first? ctx operands variants = chosen
      generalize Selection.obstacle? ctx operands variants = obstacle
      cases chosen with
      | some selection => rfl
      | none => cases obstacle <;> rfl

def Environment.permitting (env : Environment) (allow : Bool) : Environment :=
  { env with allowUndocumented := allow }

def Statement.DocumentedIn (set : InstructionSet) (ctx : Context) (statement : Statement) : Prop :=
  ∀ mnemonic operands selection, statement = .instruction mnemonic operands →
    set.select true ctx mnemonic operands = .ok selection → selection.variant.documented = true

namespace Layout

variable {layout labelled next : Layout} {env : Environment} {loc : Location} {line : Line}
  {source : List (Location × Except Error Line)} {n : Nat}

theorem placeInstruction_strict {mnemonic : String} {operands : List Token} :
    layout.placeInstruction (env.permitting false) loc mnemonic operands = .ok next ↔
      layout.placeInstruction (env.permitting true) loc mnemonic operands = .ok next ∧
        (Statement.instruction mnemonic operands).DocumentedIn env.instructionSet layout.context := by
  simp only [placeInstruction, Environment.permitting, InstructionSet.select_false, bind_eq_ok]
  constructor
  · rintro ⟨selection, ⟨chosen, hchosen, hcheck⟩, hrest⟩
    split at hcheck
    · next hdocumented =>
        cases hcheck
        refine ⟨⟨selection, hchosen, hrest⟩, ?_⟩
        rintro _ _ other ⟨⟩ hother
        rw [hchosen] at hother
        cases hother
        exact hdocumented
    · cases hcheck
  · rintro ⟨⟨selection, hselection, hrest⟩, hdocumented⟩
    have hvariant := hdocumented mnemonic operands selection rfl hselection
    exact ⟨selection, ⟨selection, hselection, if_pos hvariant⟩, hrest⟩

theorem perform_strict {statement : Statement} :
    layout.perform (env.permitting false) loc statement = .ok next ↔
      layout.perform (env.permitting true) loc statement = .ok next ∧
        statement.DocumentedIn env.instructionSet layout.context := by
  cases statement with
  | instruction mnemonic operands => exact placeInstruction_strict
  | segment name address =>
      cases address <;> exact ⟨fun h => ⟨h, fun _ _ _ heq => by cases heq⟩, fun h => h.1⟩
  | _ => exact ⟨fun h => ⟨h, fun _ _ _ heq => by cases heq⟩, fun h => h.1⟩

theorem takes_strict :
    Takes (env.permitting false) layout loc line labelled next ↔
      Takes (env.permitting true) layout loc line labelled next ∧
        ∀ statement, line.statement = some statement →
          statement.DocumentedIn env.instructionSet labelled.context := by
  constructor
  · rintro ⟨hlabel, hstatement⟩
    cases hs : line.statement with
    | none =>
        rw [hs] at hstatement
        exact ⟨⟨hlabel, by rw [hs]; exact hstatement⟩, fun _ h => by cases h⟩
    | some statement =>
        rw [hs] at hstatement
        obtain ⟨hperform, hdocumented⟩ := perform_strict.mp hstatement
        refine ⟨⟨hlabel, by rw [hs]; exact hperform⟩, ?_⟩
        rintro _ ⟨⟩
        exact hdocumented
  · rintro ⟨⟨hlabel, hstatement⟩, hdocumented⟩
    refine ⟨hlabel, ?_⟩
    cases hs : line.statement with
    | none => rwa [hs] at hstatement
    | some statement =>
        rw [hs] at hstatement
        exact perform_strict.mpr ⟨hstatement, hdocumented statement hs⟩

theorem Takes.stepRead_eq (h : Takes env layout loc line labelled next) :
    stepRead env layout (loc, .ok line) = next := by
  obtain ⟨hlabel, hstatement⟩ := h
  simp only [stepRead, step, hlabel]
  cases hs : line.statement with
  | none =>
      rw [hs] at hstatement
      exact hstatement.symm
  | some statement =>
      rw [hs] at hstatement
      simp only [hstatement]

theorem reached_eq_of_takes {env env' : Environment}
    (h : ∀ (n : Nat) loc result, source[n]? = some (loc, result) → ∃ line labelled,
      result = .ok line ∧ Takes env' (reached env layout source n) loc line labelled
        (reached env layout source (n + 1)))
    (hn : n ≤ source.length) : reached env' layout source n = reached env layout source n := by
  induction n with
  | zero => rfl
  | succ n ih =>
      obtain ⟨⟨loc, result⟩, hread⟩ : ∃ read, source[n]? = some read :=
        ⟨_, List.getElem?_eq_getElem hn⟩
      obtain ⟨line, labelled, rfl, htakes⟩ := h n loc result hread
      rw [reached_succ hread, ih (Nat.le_of_succ_le hn)]
      exact htakes.stepRead_eq

theorem reached_of_strict (env : Environment)
    (clean : (reached (env.permitting false) layout source source.length).errors = [])
    (hn : n ≤ source.length) :
    reached (env.permitting true) layout source n =
      reached (env.permitting false) layout source n := by
  refine reached_eq_of_takes ?_ hn
  intro n loc result hread
  obtain ⟨line, labelled, hline, htakes⟩ := takes_of_clean clean hread
  exact ⟨line, labelled, hline, (takes_strict.mp htakes).1⟩

def AllDocumented (env : Environment) (layout : Layout)
    (source : List (Location × Except Error Line)) : Prop :=
  ∀ (n : Nat) (loc : Location) (line : Line) (statement : Statement),
    source[n]? = some (loc, .ok line) → line.statement = some statement →
    statement.DocumentedIn env.instructionSet
      (labelledAt (env.permitting true) layout source n).context

theorem allDocumented_of_strict (env : Environment)
    (clean : (reached (env.permitting false) layout source source.length).errors = []) :
    AllDocumented env layout source := by
  intro n loc line statement hread hs
  have hn : n < source.length := (List.getElem?_eq_some_iff.mp hread).1
  obtain ⟨_, labelled, ⟨⟩, htakes⟩ := takes_of_clean clean hread
  obtain ⟨hpermissive, hdocumented⟩ := takes_strict.mp htakes
  rw [← reached_of_strict env clean hn.le] at hpermissive
  rw [hpermissive.labelledAt_eq hread]
  exact hdocumented statement hs

theorem reached_of_documented (env : Environment)
    (clean : (reached (env.permitting true) layout source source.length).errors = [])
    (hdocumented : AllDocumented env layout source) (hn : n ≤ source.length) :
    reached (env.permitting false) layout source n =
      reached (env.permitting true) layout source n := by
  refine reached_eq_of_takes ?_ hn
  intro n loc result hread
  obtain ⟨line, labelled, rfl, htakes⟩ := takes_of_clean clean hread
  refine ⟨line, labelled, rfl, takes_strict.mpr ⟨htakes, ?_⟩⟩
  intro statement hs
  have hline := hdocumented n loc line statement hread hs
  rwa [htakes.labelledAt_eq hread] at hline

end Layout

namespace Config

def permitting (config : Config) (allow : Bool) : Config :=
  { config with allowUndocumented := allow }

def Selects (config : Config) (seconds : Nat) (files : List SourceFile) (n : Nat)
    (selection : Selection) : Prop :=
  ∃ loc line mnemonic operands, (readLines files)[n]? = some (loc, .ok line) ∧
    line.statement = some (.instruction mnemonic operands) ∧
    InstructionSet.builtin.select config.allowUndocumented (config.labelled seconds files n).context
      mnemonic operands = .ok selection

variable {config : Config} {seconds : Nat} {files : List SourceFile}

theorem allDocumented_iff :
    Layout.AllDocumented (config.environment (stampOf seconds files))
        (Layout.start config.startAddress config.defines) (readLines files) ↔
      ∀ n selection, (config.permitting true).Selects seconds files n selection →
        selection.variant.documented = true := by
  constructor
  · rintro h n selection ⟨loc, line, mnemonic, operands, hread, hs, hselect⟩
    exact h n loc line _ hread hs mnemonic operands selection rfl hselect
  · rintro h n loc line _ hread hs mnemonic operands selection rfl hselect
    exact h n selection ⟨loc, line, mnemonic, operands, hread, hs, hselect⟩

theorem program_of_strict (clean : ((config.permitting false).program seconds files).errors = []) :
    (config.permitting true).program seconds files =
      (config.permitting false).program seconds files := by
  rw [program_eq, program_eq]
  exact congrArg Layout.finish
    (Layout.reached_of_strict (config.environment (stampOf seconds files)) (program_clean clean).1 le_rfl)

theorem program_of_documented (clean : ((config.permitting true).program seconds files).errors = [])
    (h : ∀ n selection, (config.permitting true).Selects seconds files n selection →
      selection.variant.documented = true) :
    (config.permitting false).program seconds files =
      (config.permitting true).program seconds files := by
  rw [program_eq, program_eq]
  exact congrArg Layout.finish
    (Layout.reached_of_documented (config.environment (stampOf seconds files)) (program_clean clean).1
      (allDocumented_iff.mpr h) le_rfl)

theorem assemble_of_strict {a : Assembly}
    (h : (config.permitting false).assemble seconds files = .ok a) :
    (config.permitting true).assemble seconds files = .ok a := by
  rw [assemble_eq_ok] at h ⊢
  rw [written, program_of_strict h.1]
  exact h

theorem documented_of_strict {a : Assembly}
    (h : (config.permitting false).assemble seconds files = .ok a) :
    ∀ n selection, (config.permitting true).Selects seconds files n selection →
      selection.variant.documented = true :=
  allDocumented_iff.mp
    (Layout.allDocumented_of_strict (config.environment (stampOf seconds files))
      (program_clean (assemble_eq_ok.mp h).1).1)

theorem refusal_conservative (config : Config) (seconds : Nat) (files : List SourceFile) :
    (∀ a, (config.permitting false).assemble seconds files = .ok a →
        (config.permitting true).assemble seconds files = .ok a) ∧
      (∀ a, (config.permitting true).assemble seconds files = .ok a →
        ((config.permitting false).assemble seconds files = .ok a ↔
            ∀ n selection, (config.permitting true).Selects seconds files n selection →
              selection.variant.documented = true) ∧
          ((∃ a', (config.permitting false).assemble seconds files = .ok a') ↔
            ∀ n selection, (config.permitting true).Selects seconds files n selection →
              selection.variant.documented = true)) ∧
      ∀ ctx mnemonic operands, InstructionSet.builtin.select false ctx mnemonic operands =
        (InstructionSet.builtin.select true ctx mnemonic operands >>= fun selection =>
          if selection.variant.documented then .ok selection
          else .error (.undocumented (selection.variant.spelling mnemonic))) := by
  refine ⟨fun a => assemble_of_strict, ?_, InstructionSet.builtin.select_false⟩
  intro a ha
  have hback : (∀ n selection, (config.permitting true).Selects seconds files n selection →
      selection.variant.documented = true) →
      (config.permitting false).assemble seconds files = .ok a := by
    intro h
    rw [assemble_eq_ok] at ha ⊢
    rw [written, program_of_documented ha.1 h]
    exact ha
  exact ⟨⟨documented_of_strict, hback⟩,
    ⟨fun ⟨_, ha'⟩ => documented_of_strict ha', fun h => ⟨a, hback h⟩⟩⟩

def twoShifts : List SourceFile :=
  [⟨"<input>", " sla b\n sll b\n"⟩]

theorem twoShifts_refused :
    (∃ a, (({} : Config).permitting true).assemble 0 twoShifts = .ok a ∧
        a.image.bytes = [0xCB, 0x20, 0xCB, 0x30]) ∧
      ¬∃ a, (({} : Config).permitting false).assemble 0 twoShifts = .ok a := by
  have ha := (@assemble_eq_ok (({} : Config).permitting true) 0 twoShifts _).mpr
    ⟨by decide +kernel, by decide +kernel, rfl⟩
  refine ⟨⟨_, ha, by decide +kernel⟩, ?_⟩
  intro hstrict
  have hdocumented := ((refusal_conservative {} 0 twoShifts).2.1 _ ha).2.mp hstrict
  have hread : (readLines twoShifts)[1]? =
      some (⟨0, 2⟩, .ok ⟨none, some (.instruction "sll" [⟨.keyword .b, 5⟩])⟩) := by decide +kernel
  have hselect : ((InstructionSet.builtin.select true
      ((({} : Config).permitting true).labelled 0 twoShifts 1).context "sll"
      [⟨.keyword .b, 5⟩]).toOption.map fun selection => selection.variant.documented) =
      some false := by decide +kernel
  obtain ⟨selection, hselection, hundocumented⟩ := Option.map_eq_some_iff.mp hselect
  rw [hdocumented 1 selection ⟨_, _, _, _, hread, rfl, toOption_eq_some.mp hselection⟩]
    at hundocumented
  cases hundocumented

end Config

end Z80
