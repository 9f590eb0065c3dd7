import Mathlib
import Z80.Proofs.Grammar
import Z80.Proofs.Lexing
import Z80.Proofs.ReportOrder
import Z80.Proofs.Spelling
import Z80.Proofs.WrittenAlike

namespace Z80

namespace Lexeme

variable {c : Char} {cs : List Char} {afterValue : Bool} {column : Nat}

theorem scan_context (hc : c ≠ '%') {result : Lexeme × Nat}
    (h : scan afterValue column c cs = .ok result) (afterValue' : Bool) (column' : Nat) :
    scan afterValue' column' c cs = .ok result := by
  have hpercent : (c == '%') = false := beq_eq_false_iff_ne.mpr hc
  cases hp : Punct.ofChar? c <;>
  · simp only [scan, hpercent, hp, Bool.false_and, Bool.false_eq_true, if_false] at h ⊢
    split_ifs at h ⊢ <;> exact h

theorem name_of_scan {s : String} {taken : Nat}
    (h : scan afterValue column c cs = .ok (name s, taken)) :
    Text.isNameStart c = true ∧ s = String.ofList (c :: cs.takeWhile Text.isNameRest) ∧
      Keyword.ofName? s = none := by
  obtain ⟨more, rest, rfl, -, hspells⟩ := spells_of_scan h
  obtain ⟨hname, hrest, hword⟩ := hspells.of_name rfl
  obtain ⟨hstart, hmore⟩ := Bool.and_eq_true_iff.mp hname
  rw [takeWhile_append_stop (List.all_eq_true.mp hmore) hrest]
  exact ⟨hstart, ofWord_eq_name hword⟩

end Lexeme

namespace Token

theorem le_column {cs : List Char} : ∀ {skip : Nat} {afterValue : Bool} {column : Nat}
    {ts : List Token}, scanFrom skip afterValue column cs = .ok ts → ∀ t ∈ ts, column ≤ t.column := by
  induction cs with
  | nil =>
      intro skip afterValue column ts h
      cases skip <;> cases h <;> simp
  | cons c cs ih =>
      intro skip afterValue column ts h t ht
      cases skip with
      | succ skip => exact Nat.le_of_add_right_le (ih h t ht)
      | zero =>
          unfold scanFrom at h
          split at h
          · exact Nat.le_of_add_right_le (ih h t ht)
          · obtain ⟨⟨lexeme, taken⟩, -, h⟩ := bind_eq_ok.mp h
            obtain ⟨rest, hrest, h⟩ := bind_eq_ok.mp h
            cases h
            rcases List.mem_cons.mp ht with rfl | ht
            · exact le_rfl
            · exact Nat.le_of_add_right_le (ih hrest t ht)

theorem scanFrom_none {cs : List Char} : ∀ {skip : Nat} {afterValue : Bool} {column : Nat},
    scanFrom skip afterValue column cs = .ok [] →
      ∀ column', scanFrom skip afterValue column' cs = .ok [] := by
  induction cs with
  | nil =>
      intro skip afterValue column _ column'
      cases skip <;> rfl
  | cons c cs ih =>
      intro skip afterValue column h column'
      cases skip with
      | succ skip => exact ih h _
      | zero =>
          unfold scanFrom at h ⊢
          split at h
          · next hblank =>
              rw [if_pos hblank]
              exact ih h _
          · obtain ⟨_, -, h⟩ := bind_eq_ok.mp h
            obtain ⟨_, -, h⟩ := bind_eq_ok.mp h
            cases h

theorem scan_single {text : String} {l : Lexeme} (h : scan text = .ok [⟨l, 0⟩]) :
    ∃ c cs taken, text.toList = c :: cs ∧ Text.isBlank c = false ∧
      Lexeme.scan false 0 c cs = .ok (l, taken) ∧
      ∀ column, scanFrom taken l.endsValue column cs = .ok [] := by
  unfold scan at h
  cases htext : text.toList with
  | nil =>
      rw [htext] at h
      cases h
  | cons c cs =>
      rw [htext, scanFrom] at h
      split at h
      · have hle := le_column h _ (List.mem_singleton_self _)
        have hpos := c.utf8Size_pos
        simp only at hle
        omega
      · next hblank =>
          obtain ⟨⟨lexeme, taken⟩, hlexeme, h⟩ := bind_eq_ok.mp h
          obtain ⟨rest, hrest, h⟩ := bind_eq_ok.mp h
          cases h
          exact ⟨c, cs, taken, rfl, by simpa using hblank, hlexeme, scanFrom_none hrest⟩

theorem isName_of_scan {text : String} (h : scan text = .ok [⟨.name text, 0⟩]) :
    Text.isName text.toList = true ∧ Keyword.ofName? text = none := by
  obtain ⟨c, cs, taken, htext, -, hscan, -⟩ := scan_single h
  obtain ⟨hstart, hspelling, hkeyword⟩ := Lexeme.name_of_scan hscan
  have hrun : cs.takeWhile Text.isNameRest = cs := by
    have hlist := congrArg String.toList hspelling
    rw [htext, String.toList_ofList] at hlist
    exact (List.cons.inj hlist).2.symm
  refine ⟨?_, hkeyword⟩
  rw [htext, Text.isName, hstart, Bool.true_and, List.all_eq_true]
  exact List.takeWhile_eq_self_iff.mp hrun

theorem scanFrom_single {text : String} {l : Lexeme} (h : scan text = .ok [⟨l, 0⟩])
    (hpercent : text.toList.head? ≠ some '%') (afterValue : Bool) (column : Nat) :
    scanFrom 0 afterValue column text.toList = .ok [⟨l, column⟩] := by
  obtain ⟨c, cs, taken, htext, hblank, hscan, hrest⟩ := scan_single h
  have hc : c ≠ '%' := by
    rintro rfl
    exact hpercent (by rw [htext]; rfl)
  rw [htext, scanFrom, if_neg (by simp [hblank]), Lexeme.scan_context hc hscan]
  simp [hrest, bind, Except.bind, pure, Except.pure]

theorem scanFrom_percent (column : Nat) (cs : List Char) :
    scanFrom 0 true column ('%' :: cs) = (do
      let rest ← scanFrom 0 false (column + 1) cs
      return ⟨.punct .percent, column⟩ :: rest) :=
  rfl

end Token

def IsLiteral (text : String) (value : Int32) : Prop :=
  ∃ l, Token.scan text = .ok [⟨l, 0⟩] ∧ Expr.ofLexeme? l = some (.number value)

def constantLine (d : String × Int32) (literal : String) : String :=
  d.1 ++ " equ " ++ literal

theorem read_literal {l : Lexeme} {value : Int32} (h : Expr.ofLexeme? l = some (.number value))
    (column : Nat) : Expr.read [⟨l, column⟩] = .ok (.number value, []) := by
  obtain ⟨hsign, hparen⟩ := Expr.prefixOp?_of_ofLexeme? h
  have hoperand : Expr.readOperand 1 [⟨l, column⟩] = .ok (.number value, []) := by
    simp [Expr.readOperand, hsign, hparen, h]
  simp [Expr.read, Expr.readLevels, Expr.levels, Expr.readLevel, Expr.readChain, hoperand, bind,
    Except.bind]

theorem dropComment_cons (t u : Token) (ts : List Token) :
    Line.dropComment (t :: u :: ts) = t :: Line.dropComment (u :: ts) := by
  unfold Line.dropComment
  rw [List.getLast?_cons_cons, List.dropLast_cons_cons]
  split <;> rfl

theorem ofTokens_equ (name : String) (column : Nat) (ts : List Token) :
    Line.ofTokens (⟨.name name, 0⟩ :: ⟨.name "equ", column⟩ :: ts) = (do
      let e ← Line.readSingle ts
      return ⟨some ⟨name, false⟩, some (.equ e)⟩) := by
  have hlower : Text.lower "equ" = "equ" := by decide
  have hdirective : Directive.ofName? "equ" = some .equ := by decide
  simp [Line.ofTokens, Line.splitLabel, Line.readStatement, hlower, hdirective]

section ConstantLine

variable {d : String × Int32} {literal : String}

theorem scan_constantLine (hname : Token.scan d.1 = .ok [⟨.name d.1, 0⟩]) (literal : String) :
    ∃ column column', Token.scan (constantLine d literal) = (do
      let ts ← Token.scanFrom 0 true column' literal.toList
      return ⟨.name d.1, 0⟩ :: ⟨.name "equ", column⟩ :: ts) := by
  obtain ⟨hword, hkeyword⟩ := Token.isName_of_scan hname
  have htext : (constantLine d literal).toList =
      d.1.toList ++ ' ' :: ("equ".toList ++ ' ' :: literal.toList) := by
    simp [constantLine]
  have hlead := Lexeme.leads_name hword hkeyword
    (Lexeme.breaks_blank ("equ".toList ++ ' ' :: literal.toList))
  have hequ := Lexeme.leads_name (w := "equ") (by decide) (by decide)
    (Lexeme.breaks_blank literal.toList)
  obtain ⟨column, hfirst⟩ := Token.scanFrom_lead hlead false 0
  obtain ⟨column', hsecond⟩ := Token.scanFrom_lead hequ (Lexeme.name d.1).endsValue (column + 1)
  refine ⟨column + 1, column' + 1, ?_⟩
  rw [Token.scan, htext, hfirst, Token.scanFrom_blank, hsecond, Token.scanFrom_blank, bind_assoc]
  rfl

theorem parse_constantLine (hname : Token.scan d.1 = .ok [⟨.name d.1, 0⟩])
    (hliteral : IsLiteral literal d.2) (hpercent : literal.toList.head? ≠ some '%') :
    Line.parse (constantLine d literal) = .ok ⟨some ⟨d.1, false⟩, some (.equ (.number d.2))⟩ := by
  obtain ⟨l, hsingle, hvalue⟩ := hliteral
  obtain ⟨column, column', hscan⟩ := scan_constantLine hname literal
  rw [Token.scanFrom_single hsingle hpercent] at hscan
  have hcomment : Line.dropComment [⟨l, column'⟩] = [⟨l, column'⟩] := by
    refine dropComment_eq ?_
    intro u hu s
    cases List.mem_singleton.mp hu
    rintro rfl
    cases hvalue
  have hvalue : Line.readSingle [⟨l, column'⟩] = .ok (.number d.2) := by
    simp [Line.readSingle, Line.readExprs, Line.readItems, Line.readList, Line.readExpr,
      read_literal hvalue, Except.mapError, bind, Except.bind, pure, Except.pure]
  rw [Line.parse, hscan]
  change Line.ofTokens (Line.dropComment _) = _
  rw [dropComment_cons, dropComment_cons, hcomment, ofTokens_equ, hvalue]
  rfl

theorem parse_percentLine (hname : Token.scan d.1 = .ok [⟨.name d.1, 0⟩])
    (hpercent : literal.toList.head? = some '%') :
    ∃ e, Line.parse (constantLine d literal) = .error e := by
  obtain ⟨cs, hcs⟩ := List.head?_eq_some_iff.mp hpercent
  obtain ⟨column, column', hscan⟩ := scan_constantLine hname literal
  rw [hcs, Token.scanFrom_percent] at hscan
  rw [Line.parse, hscan]
  cases Token.scanFrom 0 false (column' + 1) cs with
  | error e => exact ⟨_, rfl⟩
  | ok ts =>
      obtain ⟨us, hus⟩ : ∃ us, Line.dropComment (⟨.punct .percent, column'⟩ :: ts) =
          ⟨.punct .percent, column'⟩ :: us := by
        cases ts with
        | nil => exact ⟨[], rfl⟩
        | cons t ts => exact ⟨_, dropComment_cons _ t ts⟩
      change ∃ e, Line.ofTokens (Line.dropComment _) = .error e
      rw [dropComment_cons, dropComment_cons, hus, ofTokens_equ]
      exact ⟨_, rfl⟩

theorem parse_constantLines {defines : List (String × Int32)} {literals : List String}
    (hnames : ∀ d ∈ defines, Token.scan d.1 = .ok [⟨.name d.1, 0⟩])
    (hliterals : List.Forall₂ (fun d literal => IsLiteral literal d.2) defines literals)
    (hpercent : ∀ literal ∈ literals, literal.toList.head? ≠ some '%') :
    List.Forall₂ (fun d literal => Line.parse (constantLine d literal) =
      .ok ⟨some ⟨d.1, false⟩, some (.equ (.number d.2))⟩) defines literals := by
  induction hliterals with
  | nil => exact .nil
  | @cons d literal defines literals hliteral _ ih =>
      have hfirst := parse_constantLine (hnames d (List.mem_cons_self ..)) hliteral
        (hpercent literal (List.mem_cons_self ..))
      exact .cons hfirst (ih (fun d' hd' => hnames d' (List.mem_cons_of_mem _ hd'))
        fun l hl => hpercent l (List.mem_cons_of_mem _ hl))

end ConstantLine

def presetSymbol (d : String × Int32) : Symbol :=
  ⟨d.1, none, .constant, some d.2, ⟨0, 0⟩, none⟩

def presetEntry (d : String × Int32) : (Option Nat × String) × Symbol :=
  ((none, d.1), presetSymbol d)

theorem Layout.predefine_entries {defines : List (String × Int32)}
    (hnodup : (defines.map Prod.fst).Nodup) :
    (predefine defines).entries = defines.map presetEntry := by
  induction defines using List.reverseRecOn with
  | nil => rfl
  | append_singleton defines d ih =>
      rw [List.map_append, List.nodup_append] at hnodup
      obtain ⟨hfirst, -, hdisjoint⟩ := hnodup
      have habsent : (predefine defines).find? none d.1 = none := by
        rw [Symbols.find?, ih hfirst, Option.map_eq_none_iff, List.find?_eq_none]
        intro entry hentry
        obtain ⟨d', hd', rfl⟩ := List.mem_map.mp hentry
        have hne := hdisjoint d'.1 (List.mem_map_of_mem hd') d.1 (by simp)
        simp [presetEntry, hne]
      have hdefine : (predefine defines).define none d.1 .constant d.2 ⟨0, 0⟩ =
          (.ok (), (predefine defines).append (none, d.1) (presetSymbol d)) :=
        Symbols.define_eq_ok.mpr (.inl ⟨habsent, rfl⟩)
      rw [predefine_concat, hdefine, List.map_append, ← ih hfirst]
      rfl

def Location.inNextFile (loc : Location) : Location :=
  ⟨loc.file + 1, loc.line⟩

def leadReads (lines : List String) : List (Location × Except Error Line) :=
  lines.zipIdx.map fun line => (⟨0, line.2 + 1⟩, Line.parse line.1)

theorem mem_leadReads {lines : List String} {line : String} (h : line ∈ lines) :
    ∃ loc, (loc, Line.parse line) ∈ leadReads lines := by
  obtain ⟨n, hn⟩ := List.mem_iff_getElem?.mp h
  exact ⟨⟨0, n + 1⟩, List.mem_map.mpr ⟨(line, n), List.mem_zipIdx_iff_getElem?.mpr hn, rfl⟩⟩

theorem readLines_cons (lead : SourceFile) (files : List SourceFile) :
    readLines (lead :: files) = leadReads (Text.lines lead.text) ++
      (readLines files).map fun read => (read.1.inNextFile, read.2) := by
  simp only [readLines, sourceLines, List.zipIdx_cons, List.zipIdx_succ, List.flatMap_cons,
    List.map_append, List.flatMap_map, List.map_flatMap, List.map_map, leadReads]
  rfl

namespace Respelling

def behindLead : Respelling :=
  keeping fun loc loc' => loc' = loc.inNextFile

theorem behindLead_ordered : behindLead.Ordered := by
  rintro ⟨file, line⟩ _ ⟨file', line'⟩ _ rfl rfl
  change (decide (file + 1 < file' + 1) || (file + 1 == file' + 1 && decide (line ≤ line'))) =
    (decide (file < file') || (file == file' && decide (line ≤ line')))
  simp

variable {stamp stamp' : BuildStamp} {layout layout' : Layout} {d : String × Int32}

theorem SameLayout.lead_line (h : behindLead.SameLayout stamp stamp' layout layout')
    (hscope : layout.scope = none) (habsent : layout.symbols.find? none d.1 = none)
    (env : Environment) (loc : Location) :
    behindLead.SameLayout stamp stamp'
      { layout with symbols := layout.symbols.append (none, d.1) (presetSymbol d) }
      (Layout.stepRead env layout'
        (loc, .ok ⟨some ⟨d.1, false⟩, some (.equ (.number d.2))⟩)) := by
  have hdefine : layout.symbols.define none d.1 .constant d.2 ⟨0, 0⟩ =
      (.ok (), layout.symbols.append (none, d.1) (presetSymbol d)) :=
    Symbols.define_eq_ok.mpr (.inl ⟨habsent, rfl⟩)
  obtain ⟨hanswer, hsame⟩ := h.symbols.define (Or.inl (Eq.refl none) : none = none ∨ none = none)
    (fun _ => keeping_fixes d.1) .constant d.2 ⟨0, 0⟩ loc
  rcases hdefine' : layout'.symbols.define none d.1 .constant d.2 loc with ⟨answer, table'⟩
  rw [hdefine] at hanswer hsame
  change Corresponds _ _ (layout'.symbols.define none d.1 .constant d.2 loc).1 at hanswer
  change SameTable _ _ (layout'.symbols.define none d.1 .constant d.2 loc).2 at hsame
  rw [hdefine'] at hanswer hsame
  cases hanswer with
  | ok _ =>
      have hscope' : (layout'.mark loc).scope = none := h.scope.trans hscope
      have hsymbol : (layout'.mark loc).defineSymbol loc (some (.equ (.number d.2)))
          ⟨d.1, false⟩ = (.ok (), table') := by
        have hvalue : (layout'.mark loc).constantValue (.number d.2) = .ok (.value d.2) := by
          simp only [Layout.constantValue, hscope']
          rfl
        simp only [Layout.defineSymbol, hvalue, Label.scopeIn, hscope']
        exact hdefine'
      have hstep : Layout.stepRead env layout'
          (loc, .ok ⟨some ⟨d.1, false⟩, some (.equ (.number d.2))⟩) =
          { layout'.mark loc with symbols := table' } := by
        simp only [Layout.stepRead, Layout.step, Layout.defineLabel, hsymbol]
        rfl
      rw [hstep]
      exact ⟨h.address, h.scope, h.scopesOpened, h.target, hsame, h.planned, h.errors⟩

theorem SameLayout.lead_lines {defines : List (String × Int32)} {literals : List String}
    (hlines : List.Forall₂ (fun d literal => Line.parse (constantLine d literal) =
      .ok ⟨some ⟨d.1, false⟩, some (.equ (.number d.2))⟩) defines literals)
    (env : Environment) :
    ∀ {k : Nat} {layout layout' : Layout}, (defines.map Prod.fst).Nodup →
      behindLead.SameLayout stamp stamp' layout layout' → layout.scope = none →
      (∀ d ∈ defines, layout.symbols.find? none d.1 = none) →
      behindLead.SameLayout stamp stamp'
        { layout with symbols := ⟨layout.symbols.entries ++ defines.map presetEntry⟩ }
        ((((List.zipWith constantLine defines literals).zipIdx k).map fun line =>
          ((⟨0, line.2 + 1⟩ : Location), Line.parse line.1)).foldl (Layout.stepRead env)
            layout') := by
  induction hlines with
  | nil =>
      intro k layout layout' _ h _ _
      simpa using h
  | @cons d literal defines literals hline _ ih =>
      intro k layout layout' hnodup h hscope habsent
      rw [List.map_cons, List.nodup_cons] at hnodup
      have hstep := h.lead_line hscope (habsent d (List.mem_cons_self ..)) env ⟨0, k + 1⟩
      -- The names are all different, so those still to come stay absent.
      have hrest : ∀ d' ∈ defines,
          (layout.symbols.append (none, d.1) (presetSymbol d)).find? none d'.1 = none := by
        intro d' hd'
        have hne : d.1 ≠ d'.1 := fun heq => hnodup.1 (heq ▸ List.mem_map_of_mem hd')
        rw [Symbols.find?_append, habsent d' (List.mem_cons_of_mem _ hd')]
        simp [hne]
      have hall := ih (k := k + 1) hnodup.2 hstep hscope hrest
      simp only [List.zipWith_cons_cons, List.zipIdx_cons, List.map_cons, List.foldl_cons, hline]
      simpa [Symbols.append, presetEntry] using hall

theorem SameLayout.lead {defines : List (String × Int32)} {literals : List String}
    (hlines : List.Forall₂ (fun d literal => Line.parse (constantLine d literal) =
      .ok ⟨some ⟨d.1, false⟩, some (.equ (.number d.2))⟩) defines literals)
    (hnodup : (defines.map Prod.fst).Nodup) (address : UInt16) (stamp : BuildStamp)
    (env : Environment) :
    behindLead.SameLayout stamp env.stamp (Layout.start address defines)
      ((leadReads (List.zipWith constantLine defines literals)).foldl (Layout.stepRead env)
        (Layout.start address [])) := by
  have hstart : behindLead.SameLayout stamp env.stamp (Layout.start address [])
      (Layout.start address []) := .start address (by simp)
  have hall := SameLayout.lead_lines hlines env (k := 0) hnodup hstart rfl fun _ _ => rfl
  have hpreset : Layout.start address defines = { Layout.start address [] with
      symbols := ⟨(Layout.start address []).symbols.entries ++ defines.map presetEntry⟩ } := by
    have hentries : Layout.predefine defines = ⟨defines.map presetEntry⟩ :=
      congrArg Symbols.mk (Layout.predefine_entries hnodup)
    simp only [Layout.start, hentries]
    rfl
  rw [hpreset]
  exact hall

end Respelling

namespace Config

theorem sameSource_behindLead (config : Config) (seconds : Nat) (lead : SourceFile)
    (files : List SourceFile) :
    Respelling.behindLead.SameSource (config.environment (stampOf seconds files))
      (config.environment (stampOf seconds (lead :: files)))
      (Layout.start config.startAddress config.defines) (readLines files)
      ((readLines files).map fun read => (read.1.inNextFile, read.2)) := by
  refine ⟨by simp, ?_⟩
  rintro n ⟨loc, result⟩ read' hn hn'
  rw [List.getElem?_map, hn] at hn'
  cases hn'
  refine ⟨rfl, ?_⟩
  cases result with
  | error e => exact .error rfl
  | ok line =>
      refine .ok (Respelling.keeping_line ?_)
      intro width items _ p _
      cases p <;> rfl

theorem sameLayout_lead (config : Config) (seconds : Nat) (files : List SourceFile)
    {lead : SourceFile} {literals : List String} (hnodup : (config.defines.map Prod.fst).Nodup)
    (hlines : List.Forall₂ (fun d literal => Line.parse (constantLine d literal) =
      .ok ⟨some ⟨d.1, false⟩, some (.equ (.number d.2))⟩) config.defines literals)
    (hlead : Text.lines lead.text = List.zipWith constantLine config.defines literals) :
    Respelling.behindLead.SameLayout (stampOf seconds files) (stampOf seconds (lead :: files))
      (config.layout (stampOf seconds files) (readLines files))
      ({ config with defines := [] }.layout (stampOf seconds (lead :: files))
        (readLines (lead :: files))) := by
  have hstart := Respelling.SameLayout.lead hlines hnodup config.startAddress
    (config.environment (stampOf seconds files)).stamp
    (config.environment (stampOf seconds (lead :: files)))
  have hrules : Respelling.behindLead.SameRules (config.environment (stampOf seconds files))
      (config.environment (stampOf seconds (lead :: files))) :=
    ⟨rfl, rfl, Respelling.keeping_spares _⟩
  have hall := hstart.ofLines hrules (sameSource_behindLead config seconds lead files)
  rw [← hlead] at hall
  rw [readLines_cons, layout, layout, Layout.ofLines, Layout.ofLines, List.foldl_append]
  exact hall

theorem not_ok_of_unread {config : Config} {stamp : BuildStamp}
    {source : List (Location × Except Error Line)} {loc : Location} {e : Error}
    (h : (loc, .error e) ∈ source) (a : Assembly) : config.assembleLines stamp source ≠ .ok a := by
  intro ha
  obtain ⟨clean, -⟩ := assembleLines_eq_ok.mp ha
  obtain ⟨n, hn⟩ := List.mem_iff_getElem?.mp h
  obtain ⟨line, -, hline, -⟩ := Layout.takes_of_clean (layout_clean clean).1 hn
  cases hline

theorem unread_of_percent {defines : List (String × Int32)} {literals : List String}
    {literal : String} (hnames : ∀ d ∈ defines, Token.scan d.1 = .ok [⟨.name d.1, 0⟩])
    (hlength : defines.length = literals.length) (hmem : literal ∈ literals)
    (hpercent : literal.toList.head? = some '%') :
    ∃ loc e, (loc, .error e) ∈ leadReads (List.zipWith constantLine defines literals) := by
  obtain ⟨n, hn, rfl⟩ := List.mem_iff_getElem.mp hmem
  have hd : n < defines.length := hlength ▸ hn
  obtain ⟨e, he⟩ := parse_percentLine (hnames _ (List.getElem_mem hd)) hpercent
  have hline : constantLine defines[n] literals[n] ∈ List.zipWith constantLine defines literals :=
    List.mem_iff_getElem.mpr ⟨n, by simp [hd, hn], by simp⟩
  obtain ⟨loc, hloc⟩ := mem_leadReads hline
  rw [he] at hloc
  exact ⟨loc, e, hloc⟩

theorem assemble_nil (config : Config) (seconds : Nat) :
    ∃ a, config.assemble seconds [] = .ok a := by
  have clean : (config.program seconds []).errors = [] := by
    have h := program_errors_subperm config seconds []
    exact List.map_eq_nil_iff.mp (List.subperm_nil.mp h)
  have done : (config.written seconds []).errors = [] :=
    List.map_eq_nil_iff.mp (List.sublist_nil.mp (written_errors_sublist clean))
  exact ⟨_, assemble_eq_ok.mpr ⟨clean, done, rfl⟩⟩

theorem presets_as_lead_file (config : Config) (lead : SourceFile) (literals : List String)
    (hnodup : (config.defines.map Prod.fst).Nodup)
    (hnames : ∀ d ∈ config.defines, Token.scan d.1 = .ok [⟨.name d.1, 0⟩])
    (hliterals : List.Forall₂ (fun d literal => IsLiteral literal d.2) config.defines literals)
    (hlead : Text.lines lead.text = List.zipWith constantLine config.defines literals) :
    ((∀ seconds files, SameOutcome SameProduct (config.assemble seconds files)
        ({ config with defines := [] }.assemble seconds (lead :: files))) ↔
      ∀ literal ∈ literals, literal.toList.head? ≠ some '%') ∧
    ∀ seconds files, (∃ a, { config with defines := [] }.assemble seconds (lead :: files) = .ok a) ↔
      (∃ a, config.assemble seconds files = .ok a) ∧
        ∀ literal ∈ literals, literal.toList.head? ≠ some '%' := by
  have agree (hpercent : ∀ literal ∈ literals, literal.toList.head? ≠ some '%') (seconds : Nat)
      (files : List SourceFile) : SameOutcome SameProduct (config.assemble seconds files)
        ({ config with defines := [] }.assemble seconds (lead :: files)) := by
    have hlayout := sameLayout_lead config seconds files hnodup
      (parse_constantLines hnames hliterals hpercent) hlead
    exact (hlayout.assembleLines rfl Respelling.behindLead_ordered).assemble
      fun _ _ hsame => hsame.product
  have unread (seconds : Nat) (files : List SourceFile) (a : Assembly)
      (ha : { config with defines := [] }.assemble seconds (lead :: files) = .ok a) :
      ∀ literal ∈ literals, literal.toList.head? ≠ some '%' := by
    intro literal hmem hpercent
    obtain ⟨loc, e, hunread⟩ := unread_of_percent hnames hliterals.length_eq hmem hpercent
    have hread : (loc, .error e) ∈ readLines (lead :: files) := by
      rw [readLines_cons, hlead]
      exact List.mem_append_left _ hunread
    rw [assemble, mapError_eq_ok] at ha
    exact not_ok_of_unread hread a ha
  refine ⟨⟨fun hall => ?_, agree⟩, fun seconds files => ⟨?_, ?_⟩⟩
  · -- The empty program always assembles, so a lead file that is refused shows on it.
    obtain ⟨a, ha⟩ := (hall 0 []).ok_iff.mp (assemble_nil config 0)
    exact unread 0 [] a ha
  · rintro ⟨a, ha⟩
    have hpercent := unread seconds files a ha
    exact ⟨(agree hpercent seconds files).ok_iff.mpr ⟨a, ha⟩, hpercent⟩
  · rintro ⟨hok, hpercent⟩
    exact (agree hpercent seconds files).ok_iff.mp hok

def needsConstants : List SourceFile :=
  [⟨"main", " db base+1,mark\n"⟩]

theorem needsConstants_lead :
    SameOutcome SameProduct
        (({ defines := [("base", 64), ("mark", 65)] } : Config).assemble 0 needsConstants)
        (({} : Config).assemble 0 (⟨"defs", "base equ 40h\nmark equ 'A'"⟩ :: needsConstants)) ∧
      ∃ a, ({ defines := [("base", 64), ("mark", 65)] } : Config).assemble 0 needsConstants = .ok a ∧
        a.image.bytes = [0x41, 0x41] := by
  have ha := (@assemble_eq_ok { defines := [("base", 64), ("mark", 65)] } 0 needsConstants _).mpr
    ⟨by decide +kernel, by decide +kernel, rfl⟩
  have hliterals : List.Forall₂ (fun (d : String × Int32) literal => IsLiteral literal d.2)
      [("base", 64), ("mark", 65)] ["40h", "'A'"] :=
    .cons ⟨.number "40h" 64, by decide +kernel, rfl⟩ (.cons ⟨.char 'A', by decide +kernel, rfl⟩ .nil)
  exact ⟨(presets_as_lead_file { defines := [("base", 64), ("mark", 65)] }
    ⟨"defs", "base equ 40h\nmark equ 'A'"⟩ ["40h", "'A'"] (by decide +kernel) (by decide +kernel)
    hliterals (by decide +kernel)).1.mpr (by decide +kernel) 0 needsConstants, _, ha,
    by decide +kernel⟩

theorem percentLead_unread :
    IsLiteral "%101" 5 ∧
      ¬SameOutcome SameProduct
        (({ defines := [("n", 5)] } : Config).assemble 0 [⟨"main", " db n\n"⟩])
        (({} : Config).assemble 0 [⟨"defs", "n equ %101\n"⟩, ⟨"main", " db n\n"⟩]) := by
  refine ⟨⟨.number "%101" 5, by decide +kernel, rfl⟩, ?_⟩
  obtain ⟨a, ha⟩ : ∃ a, ({ defines := [("n", 5)] } : Config).assemble 0 [⟨"main", " db n\n"⟩] =
      .ok a := ⟨_, assemble_eq_ok.mpr ⟨by decide +kernel, by decide +kernel, rfl⟩⟩
  obtain ⟨reports, hreports⟩ : ∃ reports, ({} : Config).assemble 0
      [⟨"defs", "n equ %101\n"⟩, ⟨"main", " db n\n"⟩] = .error reports :=
    ⟨_, assemble_of_faulty (by decide +kernel)⟩
  rw [ha, hreports]
  intro hsame
  cases hsame

end Config

end Z80
