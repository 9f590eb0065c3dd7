import Mathlib
import Z80.Proofs.Disagreement
import Z80.Proofs.Spelling

namespace Z80

namespace Config

variable {config : Config} {seconds : Nat} {files : List SourceFile}

def emitted (config : Config) (seconds : Nat) (files : List SourceFile)
    (line : PlannedLine × Nat) : Except Error (List UInt8) :=
  (config.program seconds files).emitted config.startAddress (stampOf seconds files) line

def inTurn (config : Config) (seconds : Nat) (files : List SourceFile) (n : Nat) : List Fixup :=
  (config.program seconds files).inTurn config.startAddress (stampOf seconds files) n

def direct (config : Config) (seconds : Nat) (files : List SourceFile) (line : PlannedLine) :
    Option (List UInt8) :=
  line.direct (config.program seconds files).symbols (stampOf seconds files)

theorem program_origin {n : Nat} {line : PlannedLine}
    (h : (config.program seconds files).planned[n]? = some line) :
    ∃ m source labelled, Layout.Origin (config.environment (stampOf seconds files))
      (Layout.start config.startAddress config.defines) (readLines files) m n line source
      labelled := by
  rw [program_eq] at h
  obtain ⟨m, source, labelled, -, origin⟩ := Layout.planned_origin rfl h
  exact ⟨m, source, labelled, origin⟩

theorem program_sublist (config : Config) (seconds : Nat) (files : List SourceFile) :
    ((config.program seconds files).planned.map PlannedLine.location).Sublist
      ((readLines files).map Prod.fst) := by
  have h := @Layout.planned_sublist (Layout.start config.startAddress config.defines)
    (config.environment (stampOf seconds files)) rfl (readLines files) (readLines files).length
  rw [List.take_length] at h
  rw [program_eq]
  exact h

theorem written_bytes (clean : (config.program seconds files).errors = []) :
    (config.written seconds files).image.bytes =
      (config.program seconds files).planned.flatMap fun line =>
        (config.direct seconds files line).getD [] := by
  have h := (program_ready clean).write_writes.bytes
  rw [Writing.start, Image.empty, List.nil_append] at h
  exact h

theorem assemble_ok_iff (clean : (config.program seconds files).errors = []) :
    (∃ a, config.assemble seconds files = .ok a) ↔
      ∀ line ∈ (config.program seconds files).planned,
        (config.direct seconds files line).isSome := by
  have hiff := (program_ready clean).write_errors_eq_nil
  constructor
  · rintro ⟨a, ha⟩
    exact hiff.mp (assemble_eq_ok.mp ha).2.1
  · intro hall
    exact ⟨_, assemble_eq_ok.mpr ⟨clean, hiff.mpr hall, rfl⟩⟩

theorem diagnostics_of_clean (clean : (config.program seconds files).errors = [])
    {ds : List Diagnostic} (h : config.assemble seconds files = .error ds) :
    List.Forall₂ (fun d line => ∃ e, config.emitted seconds files line = .error e ∧
        d = Diagnostic.ofError files line.1.location e) ds
      ((config.program seconds files).planned.zipIdx.filter fun line =>
        (config.direct seconds files line.1).isNone) := by
  rw [assemble_of_clean clean] at h
  split at h
  · cases h
  · cases h
    rw [List.forall₂_map_left_iff]
    refine (program_ready clean).write_errors.imp ?_
    rintro fault line ⟨e, he, rfl⟩
    exact ⟨e, he, rfl⟩

theorem assemble_emits_direct_encodings (config : Config) (seconds : Nat)
    (files : List SourceFile) (clean : (config.program seconds files).errors = []) :
    (∀ n line, (config.program seconds files).planned[n]? = some line →
      (∃ m source labelled, Layout.Origin (config.environment (stampOf seconds files))
        (Layout.start config.startAddress config.defines) (readLines files) m n line source
        labelled) ∧
      config.inTurn seconds files n = line.fixups n ∧
      ∀ bytes, config.emitted seconds files (line, n) = .ok bytes ↔
        config.direct seconds files line = some bytes) ∧
    (config.program seconds files).planned.zipIdx.flatMap
      (fun line => config.inTurn seconds files line.2) = (config.program seconds files).fixups ∧
    ((∃ a, config.assemble seconds files = .ok a) ↔
      ∀ line ∈ (config.program seconds files).planned,
        (config.direct seconds files line).isSome) ∧
    (∀ a, config.assemble seconds files = .ok a →
      a.image.bytes = (config.program seconds files).planned.flatMap fun line =>
        (config.direct seconds files line).getD []) ∧
    (∀ ds, config.assemble seconds files = .error ds →
      List.Forall₂ (fun d line => ∃ e, config.emitted seconds files line = .error e ∧
          d = Diagnostic.ofError files line.1.location e) ds
        ((config.program seconds files).planned.zipIdx.filter fun line =>
          (config.direct seconds files line.1).isNone)) ∧
    ((config.program seconds files).planned.map PlannedLine.location).Sublist
      ((readLines files).map Prod.fst) := by
  have ready := program_ready clean
  refine ⟨?_, ready.inTurn_all, assemble_ok_iff clean, ?_,
    fun ds hds => diagnostics_of_clean clean hds, program_sublist config seconds files⟩
  · intro n line hn
    exact ⟨program_origin hn, (ready.reaches hn).2, fun bytes => ready.emitted_eq_ok hn⟩
  · intro a ha
    obtain ⟨-, -, rfl⟩ := assemble_eq_ok.mp ha
    exact written_bytes clean

def shadowedSample : List SourceFile :=
  [⟨"sample.s", "n equ 1\n org 0x100\nstart: ld hl,later+n\n jr start\n#local\n ld (ix+n),$-200\n" ++
    "n equ 7\n#endlocal\nlater: dw later-$\n"⟩]

theorem shadowedSample_emitted :
    (({} : Config).program 0 shadowedSample).errors = [] ∧
      ∃ a, ({} : Config).assemble 0 shadowedSample = .ok a ∧
        a.image.bytes = [0x21, 0x0a, 0x01, 0x18, 0xfb, 0xdd, 0x36, 0x07, 0x3d, 0x00, 0x00] := by
  have clean : (({} : Config).program 0 shadowedSample).errors = [] := by decide +kernel
  obtain ⟨-, -, hok, hbytes, -⟩ := assemble_emits_direct_encodings {} 0 shadowedSample clean
  obtain ⟨a, ha⟩ := hok.mpr (by decide +kernel)
  refine ⟨clean, a, ha, ?_⟩
  rw [hbytes a ha]
  decide +kernel

theorem emitted_length (clean : (config.program seconds files).errors = []) {n : Nat}
    {line : PlannedLine} {bytes : List UInt8}
    (hn : (config.program seconds files).planned[n]? = some line)
    (h : config.emitted seconds files (line, n) = .ok bytes) : bytes.length = line.size := by
  have ready := program_ready clean
  have hdirect := (ready.emitted_eq_ok hn).mp h
  have hsound := ready.sound.lines line (List.mem_of_getElem? hn)
  rw [PlannedLine.direct_length hdirect, hsound.size]

theorem records_within_iff (clean : (config.program seconds files).errors = []) {r : Emission}
    (h : r ∈ (config.written seconds files).image.records) :
    r.address.toNat + r.length ≤ 0x10000 ↔ r.length < 2 ^ 32 - 2 ^ 16 := by
  have ready := program_ready clean
  rcases ready.write_writes.records r h with hr | ⟨line, hline, haddress, hlength, hsize⟩
  · cases hr
  · have hsound := ready.sound.lines line hline
    have hstart := hsound.start
    rw [haddress, hlength]
    constructor
    · omega
    · intro hlt
      have hwithin := hsound.within_iff.mpr (by omega)
      have hbelow : line.address < 0x10000 := by omega
      have hhere : line.here.toNat = line.address := UInt16.toNat_ofNat_of_lt' hbelow
      rwa [hhere]

theorem label_known (clean : (config.program seconds files).errors = []) {n : Nat} {loc : Location}
    {line : Line} {label : Label} (hn : (readLines files)[n]? = some (loc, .ok line))
    (hlabel : line.label = some label) (hequ : ∀ e, line.statement ≠ some (.equ e)) :
    ∃ s, (config.program seconds files).symbols.find?
        (label.scopeIn (blockAt (readLines files) n)) label.name = some s ∧
      s.kind = .label ∧
      s.value? = some (Int32.ofNat (config.before seconds files n).address) := by
  have hlt : n < (readLines files).length := (List.getElem?_eq_some_iff.mp hn).1
  rw [← before_scope clean hlt.le]
  cases label_defines clean hn hlabel with
  | constant he _ _ => exact absurd he (hequ _)
  | pending he _ _ => exact absurd he (hequ _)
  | label _ hdefine =>
      obtain ⟨s, hs, hkind, hvalue⟩ := Symbols.define_find? hdefine
      exact ⟨s, (before_keeps config seconds files hlt).known _ _ s _ hs hvalue, hkind, hvalue⟩

theorem passes_agree (config : Config) (seconds : Nat) (files : List SourceFile) :
    (∀ ds, config.assemble seconds files = .error ds → ∀ d ∈ ds, d.kind ≠ .ambiguousEncoding) ∧
    (InstructionSet.builtin.check = .ok () ∧
      ∀ allowUndocumented ctx mnemonic operands selection,
        InstructionSet.builtin.select allowUndocumented ctx mnemonic operands = .ok selection →
        selection.bound.map Binding.placeholder = selection.variant.placeholders) ∧
    ((config.program seconds files).errors = [] →
      ∀ n line, (config.program seconds files).planned[n]? = some line →
        ((config.program seconds files).writing config.startAddress (stampOf seconds files)
          n).address = line.address ∧
        ∀ bytes, config.emitted seconds files (line, n) = .ok bytes →
          bytes.length = line.size) ∧
    (∀ n, (config.before seconds files n).address ≤ 0x10000 ∧
      ∀ line ∈ (config.before seconds files n).planned,
        (line.address + line.size) % 2 ^ 32 ≤ 0x10000 ∧
        (line.address + line.size ≤ 0x10000 ↔ line.address + line.size < 2 ^ 32)) ∧
    (∀ a, config.assemble seconds files = .ok a →
      (∀ r ∈ a.image.records,
        (r.address.toNat + r.length ≤ 0x10000 ↔ r.length < 2 ^ 32 - 2 ^ 16)) ∧
      ∀ n loc line label, (readLines files)[n]? = some (loc, .ok line) →
        line.label = some label → (∀ e, line.statement ≠ some (.equ e)) →
        ∃ s v, a.symbols.find? (label.scopeIn (blockAt (readLines files) n)) label.name = some s ∧
          s.kind = .label ∧ s.value? = some v ∧
          v.toInt = ((config.program seconds files).writing config.startAddress
            (stampOf seconds files) (config.before seconds files n).planned.length).address) := by
  refine ⟨fun ds h => assemble_inAgreement h, ⟨InstructionSet.builtin_check, ?_⟩, ?_, ?_, ?_⟩
  · intro allowUndocumented ctx mnemonic operands selection h
    exact InstructionSet.select_binds InstructionSet.builtin_check h
  · intro clean n line hn
    exact ⟨((program_ready clean).reaches hn).1, fun bytes h => emitted_length clean hn h⟩
  · intro n
    have hsound := before_sound config seconds files n
    refine ⟨hsound.address, fun line hline => ?_⟩
    exact ⟨(hsound.lines line hline).stop, (hsound.lines line hline).within_iff⟩
  · intro a ha
    obtain ⟨clean, -, rfl⟩ := assemble_eq_ok.mp ha
    refine ⟨fun r hr => records_within_iff clean hr, ?_⟩
    intro n loc line label hn hlabel hequ
    obtain ⟨s, hs, hkind, hvalue⟩ := label_known clean hn hlabel hequ
    refine ⟨s, _, hs, hkind, hvalue, ?_⟩
    have hlt : n < (readLines files).length := (List.getElem?_eq_some_iff.mp hn).1
    have haddress := (before_sound config seconds files n).address
    rw [writing_before clean hlt.le, Int32.toInt_ofNat_of_lt (by omega)]

section LongData

variable {name : String} {n : Nat}

def fileNames (n : Nat) : List Char :=
  (List.replicate n ",__file__".toList).flatten

def longData (name : String) (n : Nat) : SourceFile :=
  ⟨name, String.ofList (' ' :: ("db".toList ++ ' ' :: ("nowhere".toList ++ fileNames n)))⟩

def longItems (n : Nat) : List DataItem :=
  .expr (.symbol "nowhere") :: List.replicate n (.predefined .file)

inductive ListsFiles : Nat → List Token → Prop
  | nil : ListsFiles 0 []
  | cons {n : Nat} {t u : Token} {ts : List Token} : t.lexeme = .punct .comma →
      u.lexeme = .name "__file__" → ListsFiles n ts → ListsFiles (n + 1) (t :: u :: ts)

theorem fileNames_breaks (n : Nat) : Lexeme.Breaks (fileNames n) := by
  intro c hc
  cases n with
  | zero => cases hc
  | succ n =>
      cases hc
      decide

theorem scans_fileNames (n : Nat) : Token.Scans (fileNames n) (ListsFiles n) := by
  induction n with
  | zero => exact Token.scans_nil .nil
  | succ n ih =>
      have hname : Lexeme.Leads "__file__".toList (.name "__file__") (fileNames n) :=
        Lexeme.leads_name (by decide) (by decide) (fileNames_breaks n)
      have hcomma : Lexeme.Leads ",".toList (.punct .comma) ("__file__".toList ++ fileNames n) :=
        Lexeme.leads_punct (p := .comma) (.inr (by decide)) _
      refine (Token.Scans.lexeme hcomma (Token.Scans.lexeme hname ih)).mono ?_
      rintro _ ⟨t, _, rfl, ht, u, ts, rfl, hu, hts⟩
      exact .cons ht hu hts

theorem ListsFiles.stops {ts : List Token} (h : ListsFiles n ts) : Expr.Stops Expr.levels ts := by
  cases h with
  | nil =>
      intro t ht
      cases ht
  | cons ht _ _ => exact Expr.stops_of_closing (.inr ht)

theorem ListsFiles.not_comment {ts : List Token} (h : ListsFiles n ts) :
    ∀ t ∈ ts, ∀ s, t.lexeme ≠ .comment s := by
  induction h with
  | nil => simp
  | cons ht hu _ ih => simpa [ht, hu] using ih

theorem ListsFiles.length {ts : List Token} (h : ListsFiles n ts) : ts.length = 2 * n := by
  induction h with
  | nil => rfl
  | cons _ _ _ ih =>
      simp only [List.length_cons, ih]
      omega

theorem ListsFiles.readList {ts : List Token} (h : ListsFiles n ts) :
    ∀ {m : Nat} {t : Token} {item : DataItem}, n ≤ m →
      Line.readByteItem (t :: ts) = .ok (item, ts) →
      Line.readList Line.readByteItem m (t :: ts) =
        .ok (item :: List.replicate n (.predefined .file)) := by
  induction h with
  | nil =>
      intro m t item _ hitem
      cases m <;> simp [Line.readList, hitem, bind, Except.bind, pure, Except.pure]
  | @cons n comma u ts hcomma hu _ ih =>
      intro m t item hm hitem
      obtain ⟨m, rfl⟩ : ∃ k, m = k + 1 := ⟨m - 1, by omega⟩
      have hfile : Line.readByteItem (u :: ts) = .ok (.predefined .file, ts) := by
        have hname : Predefined.ofName? "__file__" = some .file := by decide
        simp [Line.readByteItem, hu, hname]
      have hrest := ih (Nat.le_of_succ_le_succ hm) hfile
      simp [Line.readList, hitem, hcomma, hrest, bind, Except.bind, pure, Except.pure,
        List.replicate_succ]

theorem parse_longData (name : String) (n : Nat) :
    Line.parse (longData name n).text = .ok ⟨none, some (.data .byte (longItems n))⟩ := by
  have hnowhere : Lexeme.Leads "nowhere".toList (.name "nowhere") (fileNames n) :=
    Lexeme.leads_name (by decide) (by decide) (fileNames_breaks n)
  have hdb : Lexeme.Leads "db".toList (.name "db") (' ' :: ("nowhere".toList ++ fileNames n)) :=
    Lexeme.leads_name (by decide) (by decide) (Lexeme.breaks_blank _)
  obtain ⟨_, hscan, ⟨_, column⟩, ts, rfl, rfl, hts⟩ := Token.scanFrom_leads hdb
    (Token.Scans.lexeme hnowhere (scans_fileNames n)).blank false 1
  have hdrop : Line.dropComment (⟨.name "db", 1⟩ :: ⟨.name "nowhere", column⟩ :: ts) =
      ⟨.name "db", 1⟩ :: ⟨.name "nowhere", column⟩ :: ts := by
    refine dropComment_eq ?_
    simpa using hts.not_comment
  have hread : Expr.read (⟨.name "nowhere", column⟩ :: ts) = .ok (.symbol "nowhere", ts) :=
    Expr.read_eq_ok.mpr ⟨[⟨.name "nowhere", column⟩], rfl,
      .operand (.operand (.operand (.operand (.operand (.operand (.token rfl)))))), hts.stops⟩
  have hitem : Line.readByteItem (⟨.name "nowhere", column⟩ :: ts) =
      .ok (.expr (.symbol "nowhere"), ts) := by
    have hnone : Predefined.ofName? "nowhere" = none := by decide
    simp [Line.readByteItem, hnone, Line.readExprItem, Line.readExpr, hread, Except.mapError, bind,
      Except.bind, pure, Except.pure]
  have hlist := hts.readList (m := ts.length + 1) (by have := hts.length; omega) hitem
  have hlower : Text.lower "db" = "db" := by decide
  have hdirective : Directive.ofName? "db" = some (.data .byte) := by decide
  rw [Line.parse, Token.scan, longData, String.toList_ofList, Token.scanFrom_blank, hscan]
  change Line.ofTokens (Line.dropComment _) = _
  rw [hdrop]
  simp [Line.ofTokens, Line.splitLabel, Line.readStatement, hlower, hdirective, Line.readData,
    Line.readItems, hlist, longItems, bind, Except.bind, pure, Except.pure]

theorem readLines_longData (name : String) (n : Nat) :
    readLines [longData name n] =
      [(⟨0, 1⟩, .ok ⟨none, some (.data .byte (longItems n))⟩)] := by
  have hline : '\n' ∉ (longData name n).text.toList := by
    have hnames := (scans_fileNames n).oneLine
    simp [longData, hnames]
  rw [← parse_longData name n]
  exact readLines_oneLine hline (by simp)

theorem dataSize_longItems (name : String) (n seconds : Nat) :
    dataSize (stampOf seconds [longData name n]) ⟨0, 1⟩ .byte (longItems n) =
      1 + n * name.utf8ByteSize := by
  have hfiles : ∀ m, dataSize (stampOf seconds [longData name n]) ⟨0, 1⟩ .byte
      (List.replicate m (.predefined .file)) = m * name.utf8ByteSize := by
    intro m
    induction m with
    | zero => simp [dataSize]
    | succ m ih =>
        rw [List.replicate_succ, dataSize, ih, Nat.succ_mul, Nat.add_comm]
        rfl
  rw [longItems, dataSize, hfiles]
  rfl

def longLayout (seconds : Nat) (name : String) (n : Nat) : Layout :=
  ((Layout.start 0 []).mark ⟨0, 1⟩).withItem (stampOf seconds [longData name n]) ⟨0, 1⟩
    (.data .byte (longItems n)) []

theorem before_longData (h : (1 + n * name.utf8ByteSize) % 2 ^ 32 ≤ 0x10000) (seconds : Nat) :
    ({} : Config).before seconds [longData name n] 1 = longLayout seconds name n := by
  have hstop : (((Layout.start 0 []).mark ⟨0, 1⟩).lineOf (stampOf seconds [longData name n]) ⟨0, 1⟩
      (.data .byte (longItems n))).stop ≤ 0x10000 := by
    rw [← dataSize_longItems name n seconds, ← Nat.zero_add (dataSize _ _ _ _)] at h
    exact h
  have hperform : ((Layout.start 0 []).mark ⟨0, 1⟩).perform
      (({} : Config).environment (stampOf seconds [longData name n])) ⟨0, 1⟩
      (.data .byte (longItems n)) = .ok (longLayout seconds name n) :=
    Layout.place_eq_ok.mpr ⟨fun _ => hstop, rfl⟩
  have hstep : Layout.stepRead (({} : Config).environment (stampOf seconds [longData name n]))
      (Layout.start 0 []) (⟨0, 1⟩, .ok ⟨none, some (.data .byte (longItems n))⟩) =
        longLayout seconds name n := by
    simp only [Layout.stepRead, Layout.step, Layout.defineLabel, hperform]
  rw [before, readLines_longData]
  exact hstep

theorem longData_wraps (name : String) (n : Nat)
    (h : (1 + n * name.utf8ByteSize) % 2 ^ 32 ≤ 0x10000) (seconds : Nat) :
    (∃ line ∈ (({} : Config).before seconds [longData name n] 1).planned,
      line.address + line.size = 1 + n * name.utf8ByteSize) ∧
    ({} : Config).assemble seconds [longData name n] =
      .error [⟨name, 1, .undefinedSymbol, "Undefined symbol: `nowhere`"⟩] := by
  have hbefore := before_longData h seconds
  constructor
  · rw [hbefore]
    refine ⟨_, List.mem_singleton_self _, ?_⟩
    rw [← dataSize_longItems name n seconds]
    exact Nat.zero_add _
  · have hprogram : ({} : Config).program seconds [longData name n] =
        (longLayout seconds name n).finish := by
      rw [program_eq, readLines_longData]
      exact congrArg Layout.finish hbefore
    have hlines : ({} : Config).assembleLines (stampOf seconds [longData name n])
        (readLines [longData name n]) = .error [(⟨0, 1⟩, .undefinedSymbol "nowhere")] := by
      rw [program] at hprogram
      simp only [assembleLines, hprogram]
      rfl
    rw [assemble]
    exact congrArg _ hlines

def wideName (n : Nat) : String :=
  String.ofList (List.replicate n 'f')

theorem utf8ByteSize_wideName (n : Nat) : (wideName n).utf8ByteSize = n := by
  rw [← String.utf8Len_toList, wideName, String.toList_ofList]
  induction n with
  | zero => rfl
  | succ n ih =>
      rw [List.replicate_succ, String.utf8Len_cons, ih]
      rfl

theorem wrappedData_planned :
    (∃ line ∈ (({} : Config).before 0 [longData (wideName (2 ^ 18)) (2 ^ 14)] 1).planned,
      line.address + line.size = 2 ^ 32 + 1) ∧
    ({} : Config).assemble 0 [longData (wideName (2 ^ 18)) (2 ^ 14)] =
      .error [⟨wideName (2 ^ 18), 1, .undefinedSymbol, "Undefined symbol: `nowhere`"⟩] := by
  have hsize := utf8ByteSize_wideName (2 ^ 18)
  have h := longData_wraps (wideName (2 ^ 18)) (2 ^ 14) (by rw [hsize]; decide) 0
  rwa [hsize] at h

end LongData

end Config

end Z80
