import Mathlib
import Z80.Proofs.Writing

namespace Z80

theorem zipIdx_pairwise {α : Type} (xs : List α) : xs.zipIdx.Pairwise fun x y => x.2 < y.2 := by
  have hrange : (xs.zipIdx.map Prod.snd).Pairwise (· < ·) := by
    rw [List.zipIdx_map_snd]
    exact List.pairwise_lt_range'
  exact List.pairwise_map.mp hrange

theorem Location.le_refl (loc : Location) : loc.le loc = true := by
  simp [le]

theorem Location.le_eq_false {x y : Location} :
    y.le x = false ↔ x.file < y.file ∨ (x.file = y.file ∧ x.line < y.line) := by
  simp only [le, Bool.or_eq_false_iff, Bool.and_eq_false_iff, decide_eq_false_iff_not,
    beq_eq_false_iff_ne]
  omega

theorem readLines_pairwise (files : List SourceFile) :
    ((readLines files).map Prod.fst).Pairwise fun x y => y.le x = false := by
  simp only [readLines, sourceLines, List.map_map, List.map_flatMap]
  apply List.pairwise_flatMap.mpr
  constructor
  · intro file _
    refine List.pairwise_map.mpr ((zipIdx_pairwise _).imp ?_)
    intro x y hlt
    exact Location.le_eq_false.mpr (.inr ⟨rfl, Nat.succ_lt_succ hlt⟩)
  · refine (zipIdx_pairwise files).imp ?_
    intro x y hlt loc hx loc' hy
    obtain ⟨line, -, rfl⟩ := List.mem_map.mp hx
    obtain ⟨line', -, rfl⟩ := List.mem_map.mp hy
    exact Location.le_eq_false.mpr (.inl hlt)

theorem readLines_nodup (files : List SourceFile) : ((readLines files).map Prod.fst).Nodup := by
  refine (readLines_pairwise files).imp ?_
  rintro loc _ hlt rfl
  rw [Location.le_refl] at hlt
  cases hlt

theorem readLines_unique {files : List SourceFile} {n m : Nat} {loc : Location}
    {result result' : Except Error Line} (hn : (readLines files)[n]? = some (loc, result))
    (hm : (readLines files)[m]? = some (loc, result')) : n = m := by
  have hlt : n < ((readLines files).map Prod.fst).length := by
    rw [List.length_map]
    exact (List.getElem?_eq_some_iff.mp hn).1
  refine (List.getElem?_inj hlt (readLines_nodup files)).mp ?_
  rw [List.getElem?_map, List.getElem?_map, hn, hm]
  rfl

namespace Layout

variable {layout : Layout} {env : Environment}

theorem planned_sublist (start : layout.planned = [])
    (source : List (Location × Except Error Line)) (n : Nat) :
    ((reached env layout source n).planned.map PlannedLine.location).Sublist
      ((source.take n).map Prod.fst) := by
  induction n with
  | zero => simp [reached, start]
  | succ n ih =>
      cases hsrc : source[n]? with
      | none =>
          have hlen : source.length ≤ n := List.getElem?_eq_none_iff.mp hsrc
          rw [reached_of_length_le (Nat.le_succ_of_le hlen), ← reached_of_length_le hlen,
            List.take_of_length_le (Nat.le_succ_of_le hlen)]
          rwa [List.take_of_length_le hlen] at ih
      | some read =>
          have htake : source.take (n + 1) = source.take n ++ [read] := by
            simp [List.take_add_one, hsrc]
          rw [reached_succ hsrc, htake, List.map_append]
          rcases stepRead_cases env (reached env layout source n) read with
            ⟨line, labelled, -, htakes⟩ | ⟨e, -, -, hstays⟩
          · rcases htakes.plans with ⟨hstays, -⟩ | ⟨statement, item, fixups, -, -, -, hplanned, -⟩
            · rw [hstays.planned]
              exact ih.trans (List.sublist_append_left _ _)
            · rw [hplanned, List.map_append]
              exact ih.append (List.Sublist.refl _)
          · rw [hstays.planned]
            exact ih.trans (List.sublist_append_left _ _)

end Layout

namespace Config

variable {config : Config} {seconds : Nat} {files : List SourceFile}

theorem reached_layout_sound (config : Config) (stamp : BuildStamp)
    (source : List (Location × Except Error Line)) (n : Nat) :
    (Layout.reached (config.environment stamp) (Layout.start config.startAddress config.defines)
      source n).Sound config.startAddress.toNat stamp := by
  have hstart : (Layout.start config.startAddress config.defines).Sound config.startAddress.toNat
      (config.environment stamp).stamp := Layout.start_sound _ _ _
  exact Layout.reached_sound hstart source n

theorem layout_eq (config : Config) (stamp : BuildStamp)
    (source : List (Location × Except Error Line)) :
    config.layout stamp source = (Layout.reached (config.environment stamp)
      (Layout.start config.startAddress config.defines) source source.length).finish := by
  simp [layout, Layout.ofLines, Layout.reached]

theorem layout_clean {stamp : BuildStamp} {source : List (Location × Except Error Line)}
    (clean : (config.layout stamp source).errors = []) :
    (Layout.reached (config.environment stamp) (Layout.start config.startAddress config.defines)
        source source.length).errors = [] ∧
      (Layout.reached (config.environment stamp) (Layout.start config.startAddress config.defines)
        source source.length).symbols.resolve.errors = [] := by
  rw [layout_eq] at clean
  exact List.append_eq_nil_iff.mp clean

theorem layout_ready {stamp : BuildStamp} {source : List (Location × Except Error Line)}
    (clean : (config.layout stamp source).errors = []) :
    (config.layout stamp source).Ready config.startAddress.toNat stamp := by
  have hlast := (layout_clean clean).1
  rw [layout_eq]
  have hsound := reached_layout_sound config stamp source source.length
  have haligned : (Layout.reached (config.environment stamp)
      (Layout.start config.startAddress config.defines) source source.length).Aligned :=
    Layout.reached_aligned (fun _ => rfl) _ _
  exact ⟨⟨hsound.address, hsound.chained, hsound.lines⟩, haligned hlast,
    Layout.planned_slotted rfl _ _⟩

theorem assembleLines_eq_ok {stamp : BuildStamp} {source : List (Location × Except Error Line)}
    {a : Assembly} :
    config.assembleLines stamp source = .ok a ↔
      (config.layout stamp source).errors = [] ∧
      ((config.layout stamp source).write config.startAddress stamp).errors = [] ∧
      a = ⟨((config.layout stamp source).write config.startAddress stamp).image,
        (config.layout stamp source).symbols, (config.layout stamp source).addresses⟩ := by
  simp only [assembleLines, List.isEmpty_iff]
  split
  case isTrue clean =>
      split
      case isTrue hwritten => simp [clean, hwritten, eq_comm]
      case isFalse hwritten => simp [hwritten]
  case isFalse faulty => simp [faulty]

def stampOf (seconds : Nat) (files : List SourceFile) : BuildStamp :=
  BuildStamp.ofSeconds seconds (files.map SourceFile.name)

def before (config : Config) (seconds : Nat) (files : List SourceFile) (n : Nat) : Layout :=
  Layout.reached (config.environment (stampOf seconds files))
    (Layout.start config.startAddress config.defines) (readLines files) n

def program (config : Config) (seconds : Nat) (files : List SourceFile) : Layout :=
  config.layout (stampOf seconds files) (readLines files)

theorem program_eq (config : Config) (seconds : Nat) (files : List SourceFile) :
    config.program seconds files = (config.before seconds files (readLines files).length).finish :=
  layout_eq config (stampOf seconds files) (readLines files)

theorem program_clean (clean : (config.program seconds files).errors = []) :
    (config.before seconds files (readLines files).length).errors = [] ∧
      (config.before seconds files (readLines files).length).symbols.resolve.errors = [] :=
  layout_clean clean

theorem before_sound (config : Config) (seconds : Nat) (files : List SourceFile) (n : Nat) :
    (config.before seconds files n).Sound config.startAddress.toNat (stampOf seconds files) :=
  reached_layout_sound config (stampOf seconds files) (readLines files) n

theorem program_ready (clean : (config.program seconds files).errors = []) :
    (config.program seconds files).Ready config.startAddress.toNat (stampOf seconds files) :=
  layout_ready clean

theorem writing_before (clean : (config.program seconds files).errors = []) {n : Nat}
    (hn : n ≤ (readLines files).length) :
    ((config.program seconds files).writing config.startAddress (stampOf seconds files)
      (config.before seconds files n).planned.length).address =
        (config.before seconds files n).address := by
  have hleads := Layout.reached_leads (config.environment (stampOf seconds files))
    (Layout.start config.startAddress config.defines) (readLines files) hn
  have hplanned : (config.before seconds files n).planned <+:
      (config.program seconds files).planned := by
    rw [program_eq]
    exact hleads.planned
  obtain ⟨rest, hrest⟩ := hplanned
  exact ((program_ready clean).writes_first hrest.symm (before_sound config seconds files n).chained).1

theorem before_scope (clean : (config.program seconds files).errors = []) {n : Nat}
    (hn : n ≤ (readLines files).length) :
    (config.before seconds files n).scope = blockAt (readLines files) n :=
  congrArg Prod.fst (Layout.reached_blocks rfl (program_clean clean).1 hn)

theorem address_recorded (clean : (config.program seconds files).errors = []) {n : Nat}
    {loc : Location} {result : Except Error Line}
    (h : (readLines files)[n]? = some (loc, result)) :
    (config.program seconds files).addresses[n]? =
      some (loc, (config.before seconds files n).here) := by
  have hlt : n < (readLines files).length := (List.getElem?_eq_some_iff.mp h).1
  rw [program_eq]
  exact (Layout.reached_addresses rfl (program_clean clean).1 le_rfl).2 n hlt loc result h

def labelled (config : Config) (seconds : Nat) (files : List SourceFile) (n : Nat) : Layout :=
  Layout.labelledAt (config.environment (stampOf seconds files))
    (Layout.start config.startAddress config.defines) (readLines files) n

theorem takes_labelled (clean : (config.program seconds files).errors = []) {n : Nat}
    {loc : Location} {line : Line} (h : (readLines files)[n]? = some (loc, .ok line)) :
    Layout.Takes (config.environment (stampOf seconds files)) (config.before seconds files n) loc
      line (config.labelled seconds files n) (config.before seconds files (n + 1)) := by
  obtain ⟨line', labelled', hline, htakes⟩ := Layout.takes_of_clean (program_clean clean).1 h
  cases hline
  rw [labelled, htakes.labelledAt_eq h]
  exact htakes

theorem label_defines (clean : (config.program seconds files).errors = []) {n : Nat}
    {loc : Location} {line : Line} {label : Label}
    (hn : (readLines files)[n]? = some (loc, .ok line)) (hlabel : line.label = some label) :
    ((config.before seconds files n).mark loc).Defines loc line label
      (config.before seconds files (n + 1)).symbols := by
  have htakes := takes_labelled clean hn
  rcases Layout.defineLabel_eq_ok htakes.label with ⟨hnone, -⟩ | ⟨label', table, hl, hdefines, heq⟩
  · rw [hnone] at hlabel
    cases hlabel
  · rw [hlabel] at hl
    cases hl
    rw [htakes.frame.1, heq]
    exact hdefines

theorem before_grows (config : Config) (seconds : Nat) (files : List SourceFile) {n : Nat}
    (hn : n ≤ (readLines files).length) :
    (config.before seconds files n).symbols.Grows
      (config.before seconds files (readLines files).length).symbols :=
  (Layout.reached_leads _ _ _ hn).symbols

theorem before_exclusive (config : Config) (seconds : Nat) (files : List SourceFile) :
    (config.before seconds files (readLines files).length).symbols.Exclusive :=
  (before_grows config seconds files (Nat.zero_le _)).exclusive
    (Layout.predefine_exclusive config.defines)

theorem before_keeps (config : Config) (seconds : Nat) (files : List SourceFile) {n : Nat}
    (hn : n ≤ (readLines files).length) :
    (config.before seconds files n).symbols.Keeps (config.program seconds files).symbols := by
  rw [program_eq]
  exact (before_grows config seconds files hn).keeps_of_settles
    (before_exclusive config seconds files).resolve_settles

def written (config : Config) (seconds : Nat) (files : List SourceFile) : Writing :=
  (config.program seconds files).write config.startAddress (stampOf seconds files)

theorem assemble_of_clean (clean : (config.program seconds files).errors = []) :
    config.assemble seconds files =
      if (config.written seconds files).errors = [] then
        .ok ⟨(config.written seconds files).image, (config.program seconds files).symbols,
          (config.program seconds files).addresses⟩
      else .error ((config.written seconds files).errors.map fun fault =>
        Diagnostic.ofError files fault.1 fault.2) := by
  have hlines : config.assembleLines (stampOf seconds files) (readLines files) =
      if (config.written seconds files).errors.isEmpty then
        .ok ⟨(config.written seconds files).image, (config.program seconds files).symbols,
          (config.program seconds files).addresses⟩
      else .error (config.written seconds files).errors := by
    have hempty : (config.program seconds files).errors.isEmpty = true := by rw [clean]; rfl
    exact if_pos hempty
  rw [assemble, ← stampOf, hlines]
  cases (config.written seconds files).errors with
  | nil => rfl
  | cons fault faults => rfl

theorem assemble_of_faulty (faulty : (config.program seconds files).errors ≠ []) :
    config.assemble seconds files =
      .error (((config.program seconds files).errors.mergeSort fun x y => x.1.le y.1).map
        fun fault => Diagnostic.ofError files fault.1 fault.2) := by
  have hlines : config.assembleLines (stampOf seconds files) (readLines files) =
      .error ((config.program seconds files).errors.mergeSort fun x y => x.1.le y.1) := by
    have hempty : ¬(config.program seconds files).errors.isEmpty = true := by simpa using faulty
    exact if_neg hempty
  rw [assemble, ← stampOf, hlines]
  rfl

theorem assemble_eq_ok {a : Assembly} :
    config.assemble seconds files = .ok a ↔
      (config.program seconds files).errors = [] ∧ (config.written seconds files).errors = [] ∧
      a = ⟨(config.written seconds files).image, (config.program seconds files).symbols,
        (config.program seconds files).addresses⟩ := by
  rw [assemble, mapError_eq_ok]
  exact assembleLines_eq_ok

end Config

end Z80
