import Mathlib
import Z80.Proofs.Definitions
import Z80.Proofs.TwoPasses

namespace Z80

theorem Location.le_eq_true {x y : Location} :
    x.le y = true ↔ x.file < y.file ∨ (x.file = y.file ∧ x.line ≤ y.line) := by
  simp [le]

theorem Location.le_antisymm {x y : Location} (h : x.le y = true) (h' : y.le x = true) : x = y := by
  rw [le_eq_true] at h h'
  obtain ⟨file, line⟩ := x
  obtain ⟨file', line'⟩ := y
  simp only [mk.injEq] at h h' ⊢
  omega

theorem Location.le_trans {x y z : Location} (h : x.le y = true) (h' : y.le z = true) :
    x.le z = true := by
  rw [le_eq_true] at h h' ⊢
  omega

theorem Location.le_of_lt {x y : Location} (h : y.le x = false) : x.le y = true := by
  rw [le_eq_false] at h
  rw [le_eq_true]
  omega

theorem sorted_sublist {files : List SourceFile} {faults : List (Location × Error)}
    (h : (faults.map Prod.fst).Subperm ((readLines files).map Prod.fst)) :
    ((faults.mergeSort fun x y => x.1.le y.1).map Prod.fst).Sublist
      ((readLines files).map Prod.fst) := by
  let le : Location → Location → Prop := fun x y => x.le y = true
  have : Std.Antisymm le := ⟨fun _ _ => Location.le_antisymm⟩
  have hperm : ((faults.mergeSort fun x y => x.1.le y.1).map Prod.fst).Perm
      (faults.map Prod.fst) := (List.mergeSort_perm _ _).map _
  have hsorted : ((faults.mergeSort fun x y => x.1.le y.1).map Prod.fst).Pairwise le := by
    refine List.pairwise_map.mpr (List.pairwise_mergeSort ?_ ?_ _)
    · intro x y z
      exact Location.le_trans
    · intro x y
      cases hle : x.1.le y.1 with
      | true => rfl
      | false => exact Location.le_of_lt hle
  exact List.sublist_of_subperm_of_pairwise (hperm.subperm.trans h) hsorted
    ((readLines_pairwise files).imp Location.le_of_lt)

theorem sublist_ordered {files : List SourceFile} {places : List Location}
    (h : places.Sublist ((readLines files).map Prod.fst)) :
    places.Pairwise fun x y => x.file < y.file ∨ (x.file = y.file ∧ x.line < y.line) :=
  ((readLines_pairwise files).sublist h).imp Location.le_eq_false.mp

def faultAt {α : Type} (loc : Location) : Except Error α → Option (Location × Error)
  | .ok _ => none
  | .error e => some (loc, e)

theorem faultAt_eq_some {α : Type} {loc loc' : Location} {result : Except Error α} {e : Error} :
    faultAt loc result = some (loc', e) ↔ loc = loc' ∧ result = .error e := by
  cases result <;> simp [faultAt]

theorem filterMap_places {α : Type} {place : α → Location} {fault? : α → Option (Location × Error)}
    (h : ∀ x loc e, fault? x = some (loc, e) → place x = loc) (xs : List α) :
    ((xs.filterMap fault?).map Prod.fst).Sublist (xs.map place) := by
  induction xs with
  | nil => exact List.Sublist.refl _
  | cons x xs ih =>
      cases hx : fault? x with
      | none =>
          rw [List.filterMap_cons_none hx]
          exact ih.cons _
      | some fault =>
          rw [List.filterMap_cons_some hx, List.map_cons, List.map_cons, h x fault.1 fault.2 hx]
          exact ih.cons_cons _

namespace Symbols

variable {table table' : Symbols}

def waitingAt (table : Symbols) : List Location :=
  (table.toList.filter Symbol.isPending).map Symbol.definedAt

theorem waitingAt_append (table : Symbols) (key : Option Nat × String) (s : Symbol) :
    (table.append key s).waitingAt =
      table.waitingAt ++ if s.isPending then [s.definedAt] else [] := by
  cases hp : s.isPending <;> simp [waitingAt, hp]

theorem waitingAt_of_define {scope : Option Nat} {name : String} {kind : SymbolKind} {v : Int32}
    {loc : Location} (h : table.define scope name kind v loc = (.ok (), table')) :
    table'.waitingAt = table.waitingAt := by
  rcases define_eq_ok.mp h with ⟨-, rfl⟩ | ⟨_, _, _, _, _, rfl⟩
  · simp [waitingAt_append, Symbol.isPending]
  · rfl

theorem mem_resolve_errors (exclusive : table.Exclusive) {loc : Location} {e : Error} :
    (loc, e) ∈ table.resolve.errors ↔
      ∃ s ∈ table.toList, s.definedAt = loc ∧ table.Blames s e := by
  rw [(resolve_errors exclusive).mem_iff, List.mem_filterMap]
  refine exists_congr fun s => and_congr_right fun _ => ?_
  rw [blames_iff_verdict exclusive, verdict_location]
  cases (rounds table.size table).table.verdict s <;> simp

theorem resolve_errors_subperm (exclusive : table.Exclusive) :
    (table.resolve.errors.map Prod.fst).Subperm table.waitingAt := by
  have hplaces : ∀ s loc e, (rounds table.size table).table.verdict s = some (loc, e) →
      s.definedAt = loc := by
    intro s loc e h
    rw [verdict_location] at h
    obtain ⟨_, -, h⟩ := Option.map_eq_some_iff.mp h
    exact congrArg Prod.fst h
  have hperm := (resolve_errors exclusive).map Prod.fst
  rw [filterMap_verdict] at hperm
  exact hperm.subperm.trans (filterMap_places hplaces _).subperm

end Symbols

namespace Layout

variable {layout labelled next : Layout} {env : Environment} {loc : Location} {line : Line}
  {result : Except Error Line} {e : Error}

theorem defineLabel_waitingAt (h : layout.defineLabel loc line = (.ok (), labelled)) :
    labelled.symbols.waitingAt = layout.symbols.waitingAt ∨
      ((∃ e, line.statement = some (.equ e)) ∧
        labelled.symbols.waitingAt = layout.symbols.waitingAt ++ [loc]) := by
  rcases defineLabel_eq_ok h with ⟨-, rfl⟩ | ⟨label, table, -, hdefines, rfl⟩
  · exact .inl rfl
  · cases hdefines with
    | constant _ _ hdefine | label _ hdefine => exact .inl (Symbols.waitingAt_of_define hdefine)
    | pending hequ _ hdefine =>
        obtain ⟨-, rfl⟩ := Symbols.definePending_eq_ok.mp hdefine
        exact .inr ⟨⟨_, hequ⟩, Symbols.waitingAt_append _ _ _⟩

theorem Fails.stepRead (h : Fails env layout loc result e) :
    (stepRead env layout (loc, result)).errors = layout.errors ++ [(loc, e)] ∧
      (stepRead env layout (loc, result)).symbols.waitingAt = layout.symbols.waitingAt := by
  cases h with
  | unread => exact ⟨rfl, rfl⟩
  | @label line e hlabel =>
      rcases hl : (layout.mark loc).defineLabel loc line with ⟨answer, labelled⟩
      rw [hl] at hlabel
      cases hlabel
      cases defineLabel_refused hl
      simp only [Layout.stepRead, step, hl]
      exact ⟨rfl, rfl⟩
  | @statement line labelled statement e hlabel hstatement hperform =>
      obtain ⟨fixups, hleave⟩ := leave_frame labelled env statement
      simp only [Layout.stepRead, step, hlabel, hstatement, hperform, hleave]
      constructor
      · rcases defineLabel_eq_ok hlabel with ⟨-, rfl⟩ | ⟨_, _, -, -, rfl⟩ <;> rfl
      · rcases defineLabel_waitingAt hlabel with hsame | ⟨⟨e, hequ⟩, -⟩
        · exact hsame
        · -- A constant is all that its line says, and nothing can go wrong with it any more.
          rw [hstatement] at hequ
          cases hequ
          cases hperform

def suspects (layout : Layout) : List Location :=
  layout.errors.map Prod.fst ++ layout.symbols.waitingAt

theorem stepRead_suspects (env : Environment) (layout : Layout)
    (source : Location × Except Error Line) :
    (stepRead env layout source).suspects.Subperm (layout.suspects ++ [source.1]) := by
  rcases stepRead_cases env layout source with ⟨line, labelled, -, htakes⟩ | ⟨e, hfails, -⟩
  · obtain ⟨hsymbols, herrors, -⟩ := htakes.frame
    rw [suspects, hsymbols, herrors, suspects, List.append_assoc]
    rcases defineLabel_waitingAt htakes.label with hsame | ⟨-, hmore⟩
    · rw [hsame]
      exact (List.Sublist.append_left (List.sublist_append_left _ _) _).subperm
    · rw [hmore]
      exact List.Subperm.refl _
  · obtain ⟨herrors, hwaiting⟩ := hfails.stepRead
    rw [suspects, herrors, hwaiting, suspects, List.map_append, List.append_assoc,
      List.append_assoc]
    exact (List.perm_append_comm.append_left _).subperm

theorem foldl_suspects (env : Environment) (source : List (Location × Except Error Line)) :
    ∀ layout : Layout, (source.foldl (stepRead env) layout).suspects.Subperm
      (layout.suspects ++ source.map Prod.fst) := by
  induction source with
  | nil =>
      intro layout
      rw [List.map_nil, List.append_nil]
      exact List.Subperm.refl _
  | cons line source ih =>
      intro layout
      have hstep := (stepRead_suspects env layout line).append
        (List.Subperm.refl (source.map Prod.fst))
      rw [List.append_assoc] at hstep
      exact (ih (stepRead env layout line)).trans hstep

theorem mem_stepRead_errors {loc' : Location} :
    (loc', e) ∈ (stepRead env layout (loc, result)).errors ↔
      (loc', e) ∈ layout.errors ∨ (loc = loc' ∧ Fails env layout loc result e) := by
  constructor
  · intro h
    rcases stepRead_cases env layout (loc, result) with ⟨_, _, -, htakes⟩ | ⟨e', hfails, herrors, -⟩
    · rw [htakes.frame.2.1] at h
      exact .inl h
    · rw [herrors, List.mem_append, List.mem_singleton] at h
      rcases h with h | h
      · exact .inl h
      · cases h
        exact .inr ⟨rfl, hfails⟩
  · rintro (h | ⟨rfl, hfails⟩)
    · exact (stepRead_leads env layout (loc, result)).errors.subset h
    · rw [hfails.stepRead.1]
      exact List.mem_append_right _ (List.mem_singleton_self _)

theorem mem_reached_errors (start : layout.errors = [])
    (source : List (Location × Except Error Line)) {n : Nat} (hn : n ≤ source.length) :
    (loc, e) ∈ (reached env layout source n).errors ↔
      ∃ m < n, ∃ result, source[m]? = some (loc, result) ∧
        Fails env (reached env layout source m) loc result e := by
  induction n with
  | zero => simp [reached, start]
  | succ n ih =>
      obtain ⟨⟨loc', result⟩, hread⟩ : ∃ read, source[n]? = some read :=
        ⟨_, List.getElem?_eq_getElem hn⟩
      rw [reached_succ hread, mem_stepRead_errors, ih (Nat.le_of_succ_le hn)]
      constructor
      · rintro (⟨m, hm, hfails⟩ | ⟨rfl, hfails⟩)
        · exact ⟨m, Nat.lt_succ_of_lt hm, hfails⟩
        · exact ⟨n, Nat.lt_succ_self n, result, hread, hfails⟩
      · rintro ⟨m, hm, result', hread', hfails⟩
        rcases Nat.lt_succ_iff_lt_or_eq.mp hm with hlt | rfl
        · exact .inl ⟨m, hlt, result', hread', hfails⟩
        · rw [hread] at hread'
          cases hread'
          exact .inr ⟨rfl, hfails⟩

theorem faultsFrom_eq (symbols : Symbols) (stamp : BuildStamp) (lines : List PlannedLine) :
    ∀ n, faultsFrom symbols stamp n lines = (lines.zipIdx n).filterMap fun line =>
      faultAt line.1.location (line.1.encode symbols stamp (line.1.fixups line.2)) := by
  induction lines with
  | nil => exact fun _ => rfl
  | cons line lines ih =>
      intro n
      rw [faultsFrom, List.zipIdx_cons, List.filterMap_cons, ih (n + 1)]
      cases line.encode symbols stamp (line.fixups n) <;> rfl

theorem Ready.write_errors_eq {address : UInt16} {stamp : BuildStamp}
    (h : layout.Ready address.toNat stamp) :
    (layout.write address stamp).errors = layout.planned.zipIdx.filterMap fun line =>
      faultAt line.1.location (layout.emitted address stamp line) := by
  rw [h.write_faults, faultsFrom_eq]
  refine List.filterMap_congr fun line hline => ?_
  rw [h.emitted_eq (List.mem_zipIdx_iff_getElem?.mp hline)]

theorem waitingAt_start (address : UInt16) (defines : List (String × Int32)) :
    (start address defines).symbols.waitingAt = [] := by
  refine List.map_eq_nil_iff.mpr (List.filter_eq_nil_iff.mpr ?_)
  intro s hs
  obtain ⟨entry, hentry, rfl⟩ := List.mem_map.mp hs
  obtain ⟨d, -, rfl⟩ := entry_predefine hentry
  exact Bool.false_ne_true

end Layout

namespace Config

variable {config : Config} {seconds : Nat} {files : List SourceFile} {loc : Location} {e : Error}

inductive FirstFault (config : Config) (seconds : Nat) (files : List SourceFile) :
    Location → Error → Prop
  | line {n : Nat} {loc : Location} {result : Except Error Line} {e : Error} :
      (readLines files)[n]? = some (loc, result) →
      Layout.Fails (config.environment (stampOf seconds files)) (config.before seconds files n) loc
        result e →
      FirstFault config seconds files loc e
  | constant {s : Symbol} {e : Error} :
      s ∈ (config.before seconds files (readLines files).length).symbols.toList →
      (config.before seconds files (readLines files).length).symbols.Blames s e →
      FirstFault config seconds files s.definedAt e

inductive SecondFault (config : Config) (seconds : Nat) (files : List SourceFile) :
    Location → Error → Prop
  | line {n : Nat} {line : PlannedLine} {e : Error} :
      (config.program seconds files).planned[n]? = some line →
      config.emitted seconds files (line, n) = .error e →
      SecondFault config seconds files line.location e

theorem mem_program_errors :
    (loc, e) ∈ (config.program seconds files).errors ↔ config.FirstFault seconds files loc e := by
  have herrors : (config.program seconds files).errors =
      (config.before seconds files (readLines files).length).errors ++
        (config.before seconds files (readLines files).length).symbols.resolve.errors := by
    rw [program_eq]
    rfl
  rw [herrors, List.mem_append, Symbols.mem_resolve_errors (before_exclusive config seconds files),
    before, Layout.mem_reached_errors rfl (readLines files) le_rfl]
  constructor
  · rintro (⟨n, -, result, hread, hfails⟩ | ⟨s, hs, rfl, hblames⟩)
    · exact .line hread hfails
    · exact .constant hs hblames
  · rintro (⟨hread, hfails⟩ | ⟨hs, hblames⟩)
    · exact .inl ⟨_, (List.getElem?_eq_some_iff.mp hread).1, _, hread, hfails⟩
    · exact .inr ⟨_, hs, rfl, hblames⟩

theorem program_errors_subperm (config : Config) (seconds : Nat) (files : List SourceFile) :
    ((config.program seconds files).errors.map Prod.fst).Subperm
      ((readLines files).map Prod.fst) := by
  have hlines : (config.before seconds files (readLines files).length).suspects.Subperm
      ((readLines files).map Prod.fst) := by
    have h := Layout.foldl_suspects (config.environment (stampOf seconds files)) (readLines files)
      (Layout.start config.startAddress config.defines)
    have hstart : (Layout.start config.startAddress config.defines).suspects = [] :=
      Layout.waitingAt_start _ _
    rw [hstart, List.nil_append] at h
    rwa [before, Layout.reached, List.take_length]
  have hconstants := Symbols.resolve_errors_subperm (before_exclusive config seconds files)
  rw [program_eq, Layout.finish, List.map_append]
  exact ((List.Subperm.refl _).append hconstants).trans hlines

theorem mem_written_errors (clean : (config.program seconds files).errors = []) :
    (loc, e) ∈ (config.written seconds files).errors ↔ config.SecondFault seconds files loc e := by
  rw [written, (program_ready clean).write_errors_eq, List.mem_filterMap]
  constructor
  · rintro ⟨⟨line, n⟩, hline, hfault⟩
    obtain ⟨rfl, hemitted⟩ := faultAt_eq_some.mp hfault
    exact .line (List.mem_zipIdx_iff_getElem?.mp hline) hemitted
  · rintro ⟨hline, hemitted⟩
    exact ⟨_, List.mem_zipIdx_iff_getElem?.mpr hline, faultAt_eq_some.mpr ⟨rfl, hemitted⟩⟩

theorem written_errors_sublist (clean : (config.program seconds files).errors = []) :
    ((config.written seconds files).errors.map Prod.fst).Sublist
      ((readLines files).map Prod.fst) := by
  have hplaces : ∀ (line : PlannedLine × Nat) (loc : Location) (e : Error),
      faultAt line.1.location (config.emitted seconds files line) = some (loc, e) →
        line.1.location = loc :=
    fun _ _ _ h => (faultAt_eq_some.mp h).1
  have hplanned := filterMap_places hplaces (config.program seconds files).planned.zipIdx
  have hlocations : (config.program seconds files).planned.zipIdx.map
      (fun line => line.1.location) =
        (config.program seconds files).planned.map PlannedLine.location := by
    have hfst := List.zipIdx_map_fst 0 (config.program seconds files).planned
    rw [← congrArg (List.map PlannedLine.location) hfst, List.map_map]
    rfl
  rw [hlocations] at hplanned
  rw [written, (program_ready clean).write_errors_eq]
  exact hplanned.trans (program_sublist config seconds files)

theorem diagnostics_in_order (config : Config) (seconds : Nat) (files : List SourceFile)
    (ds : List Diagnostic) (h : config.assemble seconds files = .error ds) :
    ∃ faults : List (Location × Error),
      ds = faults.map (fun fault => Diagnostic.ofError files fault.1 fault.2) ∧ faults ≠ [] ∧
      (faults.map Prod.fst).Sublist ((readLines files).map Prod.fst) ∧
      (faults.map Prod.fst).Pairwise
        (fun x y => x.file < y.file ∨ (x.file = y.file ∧ x.line < y.line)) ∧
      ((∀ loc e, (loc, e) ∈ faults ↔ config.FirstFault seconds files loc e) ∨
        (∀ loc e, ¬config.FirstFault seconds files loc e) ∧
          ∀ loc e, (loc, e) ∈ faults ↔ config.SecondFault seconds files loc e) := by
  by_cases clean : (config.program seconds files).errors = []
  · have hsub := written_errors_sublist clean
    rw [assemble_of_clean clean] at h
    split at h
    · cases h
    · next hwritten =>
        cases h
        refine ⟨_, rfl, hwritten, hsub, sublist_ordered hsub, .inr ⟨?_, ?_⟩⟩
        · intro loc e hfault
          rw [← mem_program_errors, clean] at hfault
          cases hfault
        · exact fun loc e => mem_written_errors clean
  · have hsub := sorted_sublist (program_errors_subperm config seconds files)
    rw [assemble_of_faulty clean] at h
    cases h
    refine ⟨_, rfl, ?_, hsub, sublist_ordered hsub, .inl ?_⟩
    · intro hnil
      have hperm := List.mergeSort_perm (config.program seconds files).errors fun x y => x.1.le y.1
      rw [hnil] at hperm
      exact clean hperm.nil_eq.symm
    · intro loc e
      rw [List.mem_mergeSort]
      exact mem_program_errors

def tangledProgram : List SourceFile :=
  [⟨"main.s", "size equ 10/rest\n frob 1\ntotal equ size+missing\n"⟩,
    ⟨"tail.s", "rest equ 0\nsize equ 3\n"⟩]

theorem tangledProgram_in_order :
    (({} : Config).program 0 tangledProgram).errors.map Prod.fst =
        [⟨0, 2⟩, ⟨1, 2⟩, ⟨0, 1⟩, ⟨0, 3⟩] ∧
      ∃ ds, ({} : Config).assemble 0 tangledProgram = .error ds ∧
        ∃ faults : List (Location × Error),
          ds = faults.map (fun fault => Diagnostic.ofError tangledProgram fault.1 fault.2) ∧
          (faults.map Prod.fst).Pairwise
            (fun x y => x.file < y.file ∨ (x.file = y.file ∧ x.line < y.line)) ∧
          ∀ loc e, (loc, e) ∈ faults ↔ ({} : Config).FirstFault 0 tangledProgram loc e := by
  have hplaces : (({} : Config).program 0 tangledProgram).errors.map Prod.fst =
      [⟨0, 2⟩, ⟨1, 2⟩, ⟨0, 1⟩, ⟨0, 3⟩] := by decide +kernel
  have faulty : (({} : Config).program 0 tangledProgram).errors ≠ [] := by
    intro hnil
    simp [hnil] at hplaces
  have hfails := assemble_of_faulty faulty
  obtain ⟨faults, hds, -, -, hordered, hfirst | ⟨hnone, -⟩⟩ :=
    diagnostics_in_order {} 0 tangledProgram _ hfails
  · exact ⟨hplaces, _, hfails, faults, hds, hordered, hfirst⟩
  · obtain ⟨fault, hfault⟩ := List.exists_mem_of_ne_nil _ faulty
    exact absurd (mem_program_errors.mp hfault) (hnone fault.1 fault.2)

end Config

end Z80
