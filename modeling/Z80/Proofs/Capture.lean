import Mathlib
import Z80.Proofs.FirstMatch
import Z80.Proofs.Spelling
import Z80.Proofs.Stability

namespace Z80

namespace Expr

theorem phrase_of_operand {ts : List Token} {e : Expr} (h : Phrase [] ts e) (ls : List Level) :
    Phrase ls ts e := by
  induction ls with
  | nil => exact h
  | cons level ls ih => exact .operand ih

theorem Bare.unique {used rest used' rest' : List Token} {e e' : Expr} (h : Bare used e)
    (hstops : Stops levels rest) (h' : Bare used' e') (hstops' : Stops levels rest')
    (heq : used ++ rest = used' ++ rest') : used = used' ∧ e = e' ∧ rest = rest' := by
  have hread := readBare_eq_ok.mpr ⟨used, rfl, h, hstops⟩
  rw [readBare_eq_ok.mpr ⟨used', heq, h', hstops'⟩] at hread
  cases hread
  exact ⟨List.append_cancel_right heq, rfl, rfl⟩

theorem levels_leftParen {level : Level} (h : level ∈ levels) : level .leftParen = none := by
  simp only [levels, List.mem_cons, List.not_mem_nil, or_false] at h
  rcases h with rfl | rfl | rfl | rfl | rfl | rfl <;> rfl

theorem foreign_keyword (k : Keyword) : Foreign (.keyword k) :=
  ⟨rfl, by simp, fun _ _ => rfl⟩

end Expr

theorem bare_of_ofLexeme? {u : Token} {e : Expr} (h : Expr.ofLexeme? u.lexeme = some e) :
    Expr.Bare [u] e := by
  refine ⟨Expr.phrase_of_operand (.token h) _, ?_⟩
  intro t ht
  cases ht
  exact (Expr.prefixOp?_of_ofLexeme? h).2

theorem Decimal.bare {used : List Token} {v : Int} (h : Decimal used v) :
    Expr.Bare used (.number (Int32.ofInt v)) := by
  cases h with
  | plain hn hu => exact bare_of_ofLexeme? (by rw [hu]; rfl)
  | @negative sign u n hn hsign hu =>
      have hnumber : Expr.Phrase [] [u] (.number (Int32.ofNat n)) := .token (by rw [hu]; rfl)
      have hphrase := Expr.Phrase.signed (t := sign) (by rw [hsign]; rfl) hnumber
      have hvalue : Expr.prefixed .neg (.number (Int32.ofNat n)) = .number (Int32.ofInt (-n)) := by
        have hne : (Int32.ofNat n).toInt ≠ -2147483648 := by
          rw [Int32.toInt_ofNat_of_lt hn]
          omega
        simp only [Expr.prefixed, if_neg hne, Expr.number.injEq]
        rw [Int32.ofInt_neg]
        rfl
      rw [hvalue] at hphrase
      refine ⟨Expr.phrase_of_operand hphrase _, ?_⟩
      intro t ht
      cases ht
      simp [hsign]

section Keywords

def Lexeme.keyword? : Lexeme → Option Keyword
  | keyword k => some k
  | _ => none

def PatternToken.keyword? : PatternToken → Option Keyword
  | keyword k => some k
  | _ => none

variable {ctx : Context} {pattern : List PatternToken} {ts rest used : List Token} {e : Expr}

theorem keywords_bare (h : Expr.Bare used e) :
    used.filterMap (fun u => u.lexeme.keyword?) = [] := by
  rw [List.filterMap_eq_nil_iff]
  intro u hu
  cases hl : u.lexeme with
  | keyword k => exact absurd (hl ▸ Expr.foreign_keyword k) (h.not_foreign u hu)
  | punct _ | name _ | number _ _ | text _ | char _ | comment _ => rfl

theorem keyword?_of_spells {t : PatternToken} {l : Lexeme} (h : t.Spells l) :
    l.keyword? = t.keyword? := by
  cases h <;> rfl

theorem Run.keywords {bound : List Binding} (h : Run ctx pattern ts bound rest) :
    ts.filterMap (fun u => u.lexeme.keyword?) =
      pattern.filterMap PatternToken.keyword? ++ rest.filterMap (fun u => u.lexeme.keyword?) := by
  induction h with
  | done => simp
  | literal hspells _ ih =>
      simp only [List.filterMap_cons, keyword?_of_spells hspells, ih]
      split <;> simp
  | number hused _ _ ih | slot hused _ ih =>
      simp [keywords_bare hused, ih, List.filterMap_cons, PatternToken.keyword?]
  | minus _ hused _ ih =>
      rw [List.filterMap_append, keywords_bare hused, ih]
      rfl
  | omitted _ _ ih =>
      rw [ih]
      rfl

end Keywords

theorem PatternToken.spells_of_lexeme? {t : PatternToken} {l : Lexeme} (h : t.lexeme? = some l) :
    (∃ n, t = .number n) ∨ t.Spells l := by
  cases t with
  | punct p =>
      cases h
      exact .inr .punct
  | keyword k =>
      cases h
      exact .inr .keyword
  | word w =>
      cases h
      exact .inr (.word rfl)
  | number n => exact .inl ⟨n, rfl⟩
  | slot p => cases h

theorem bare_of_number {u : Token} {n : Int32}
    (h : (PatternToken.number n).lexeme? = some u.lexeme) : Expr.Bare [u] (.number n) := by
  simp only [PatternToken.lexeme?, Option.some.injEq] at h
  exact bare_of_ofLexeme? (by rw [← h]; rfl)

def PatternToken.isValue : PatternToken → Bool
  | number _ | word _ | slot _ => true
  | punct _ | keyword _ => false

section Writing

variable {t : PatternToken} {pattern : List PatternToken} {values : List Int} {ts : List Token}

def numbersFor (placeholders : List Placeholder) (values : List Int) : List Binding :=
  List.zipWith (fun p v => ⟨p, .number (Int32.ofInt v)⟩) placeholders values

theorem Written.fits (h : Written pattern values ts) (ctx : Context) :
    Fits ctx pattern ts (numbersFor (pattern.filterMap PatternToken.placeholder?) values) := by
  unfold Fits
  induction h with
  | nil => exact .done
  | @token t pattern values u ts hu _ ih =>
      rw [List.filterMap_cons_none (PatternToken.placeholder?_of_lexeme? hu)]
      rcases PatternToken.spells_of_lexeme? hu with ⟨n, rfl⟩ | hspells
      · exact .number (bare_of_number hu) rfl ih
      · exact .literal hspells ih
  | slot hused _ ih => exact .slot hused.bare ih

theorem Written.keywords (h : Written pattern values ts) :
    ts.filterMap (fun u => u.lexeme.keyword?) = pattern.filterMap PatternToken.keyword? := by
  simpa using Run.keywords (h.fits ⟨fun _ => none, 0⟩)

theorem follows_value {u : PatternToken} (ht : t.isValue = true) (h : t.mayPrecede u = true) :
    (∃ p, u = .punct p ∧ ∀ level ∈ Expr.levels, level p = none) ∨ ∃ n, u = .number n := by
  have hcomma : ∀ level ∈ Expr.levels, level .comma = none :=
    fun level hlevel => (Expr.levels_closing hlevel).2
  have hright : ∀ level ∈ Expr.levels, level .rightParen = none :=
    fun level hlevel => (Expr.levels_closing hlevel).1
  have hleft : ∀ level ∈ Expr.levels, level .leftParen = none :=
    fun level hlevel => Expr.levels_leftParen hlevel
  unfold PatternToken.mayPrecede at h
  split at h
  · cases ht
  · cases ht
  · simp only [Bool.or_eq_true, beq_iff_eq] at h
    rcases h with rfl | rfl
    · exact .inl ⟨_, rfl, hcomma⟩
    · exact .inl ⟨_, rfl, hright⟩
  · simp only [Bool.or_eq_true, beq_iff_eq] at h
    rcases h with rfl | rfl
    · exact .inl ⟨_, rfl, hcomma⟩
    · exact .inl ⟨_, rfl, hright⟩
  · exact .inl ⟨_, rfl, hleft⟩
  · exact .inr ⟨_, rfl⟩
  · cases h

theorem Written.stops (hpattern : Writable (t :: pattern)) (ht : t.isValue = true)
    (h : Written pattern values ts) : Expr.Stops Expr.levels ts := by
  cases h with
  | nil => simp [Expr.Stops]
  | @token t' pattern _ u ts hu _ =>
      have hfollows := follows_value ht (List.isChain_cons_cons.mp hpattern.joined).1
      intro w hw level hlevel
      cases hw
      rcases hfollows with ⟨p, rfl, hp⟩ | ⟨n, rfl⟩
      · simp only [PatternToken.lexeme?, Option.some.injEq] at hu
        rw [← hu]
        exact hp level hlevel
      · simp only [PatternToken.lexeme?, Option.some.injEq] at hu
        rw [← hu]
        rfl
  | slot _ _ =>
      have hfollows := follows_value ht (List.isChain_cons_cons.mp hpattern.joined).1
      simp at hfollows

theorem Written.punct {u : Token} {q : Punct} (h : Written pattern values (u :: ts))
    (hu : u.lexeme = .punct q) :
    (∃ pattern', pattern = .punct q :: pattern' ∧ Written pattern' values ts) ∨
      (q = .minus ∧ ∃ p pattern', pattern = .slot p :: pattern') := by
  generalize hts : u :: ts = us at h
  cases h with
  | nil => cases hts
  | @token t pattern _ v us hv hrest =>
      cases hts
      rw [hu] at hv
      cases t with
      | punct p =>
          cases hv
          exact .inl ⟨pattern, rfl, hrest⟩
      | keyword _ | number _ | word _ | slot _ => cases hv
  | @slot p pattern v values used us hused _ =>
      cases hused with
      | plain _ hv =>
          cases hts
          rw [hu] at hv
          cases hv
      | negative _ hsign _ =>
          cases hts
          rw [hu] at hsign
          cases hsign
          exact .inr ⟨rfl, p, pattern, rfl⟩

end Writing

def captureLiteral (t : PatternToken) (accepts : List PatternToken → Bool) :
    List PatternToken → Bool
  | [] => false
  | u :: pattern => match u.lexeme? with
      | some l => t.takes l && accepts pattern
      | none => t == .punct .minus

def captureOperand (among : Int32 → Bool) (accepts : List PatternToken → Bool) :
    List PatternToken → Bool
  | [] => false
  | .number n :: pattern => among n && accepts pattern
  | .word _ :: pattern | .slot _ :: pattern => accepts pattern
  | u :: _ => !u.closes

def captureDisplacement (accepts : List PatternToken → Bool) : List PatternToken → Bool
  | .punct .plus :: pattern => captureOperand (fun _ => true) accepts pattern
  | .punct .rightParen :: pattern => accepts (.punct .rightParen :: pattern)
  | .punct .minus :: _ | .slot _ :: _ => true
  | _ => false

def PatternPart.captures (accepts : List PatternToken → Bool) :
    PatternPart → List PatternToken → Bool
  | literal t => captureLiteral t accepts
  | number n => captureOperand (· == n) accepts
  | slot _ => captureOperand (fun _ => true) accepts
  | displacement => captureDisplacement accepts

def captureParts : List PatternPart → List PatternToken → Bool
  | [], pattern => pattern.isEmpty
  | part :: parts, pattern => part.captures (captureParts parts) pattern

section Covering

variable {ctx : Context} {next : List Token → Fit} {accepts : List PatternToken → Bool}

def Covers (next : List Token → Fit) (accepts : List PatternToken → Bool) : Prop :=
  ∀ pattern values ts bound, Writable pattern → Written pattern values ts →
    next ts = .matched bound → accepts pattern = true

theorem Covers.literal (h : Covers next accepts) (t : PatternToken) :
    Covers (fitLiteral t next) (captureLiteral t accepts) := by
  intro pattern values ts bound hpattern hwritten hfit
  obtain ⟨w, rest, rfl, hspells, hnext⟩ := (fitLiteral_eq (by simp)).mp hfit
  generalize hts : w :: rest = ts at hwritten
  cases hwritten with
  | nil => cases hts
  | @token t' pattern _ u _ hu hrest =>
      cases hts
      have haccepts := h pattern values rest bound hpattern.tail hrest hnext
      simp [captureLiteral, hu, PatternToken.takes_iff.mpr hspells, haccepts]
  | @slot p pattern v values used us hused hrest =>
      cases hused with
      | plain _ hu =>
          cases hts
          rw [hu] at hspells
          cases hspells
      | negative _ hsign hu =>
          cases hts
          rw [hsign] at hspells
          cases hspells
          rfl

theorem Covers.operand (h : Covers next accepts) {among : Int32 → Bool}
    {pattern : List PatternToken} {values : List Int} {used rest : List Token} {e : Expr}
    {bound : List Binding} (hpattern : Writable pattern)
    (hwritten : Written pattern values (used ++ rest)) (hused : Expr.Bare used e)
    (hstops : Expr.Stops Expr.levels rest) (hamong : ∀ n, e = .number n → among n = true)
    (hnext : next rest = .matched bound) : captureOperand among accepts pattern = true := by
  generalize hts : used ++ rest = ts at hwritten
  cases hwritten with
  | nil => exact absurd (List.append_eq_nil_iff.mp hts).1 hused.1.ne_nil
  | @token t pattern _ u us hu hrest =>
      have haccepts : ∀ {e'}, Expr.Bare [u] e' → t.isValue = true → e = e' ∧ accepts pattern = true := by
        intro e' hu' ht
        obtain ⟨-, rfl, rfl⟩ := hused.unique hstops hu' (hrest.stops hpattern ht) hts
        exact ⟨rfl, h pattern values rest bound hpattern.tail hrest hnext⟩
      cases t with
      | number n =>
          obtain ⟨rfl, hrest'⟩ := haccepts (bare_of_number hu) rfl
          simp [captureOperand, hamong n rfl, hrest']
      | word w =>
          have hname : Expr.ofLexeme? u.lexeme = some (.symbol w) := by
            simp only [PatternToken.lexeme?, Option.some.injEq] at hu
            rw [← hu]
            rfl
          exact (haccepts (bare_of_ofLexeme? hname) rfl).2
      | punct p | keyword k =>
          have hread := Expr.readBare_eq_ok.mpr ⟨used, rfl, hused, hstops⟩
          rw [hts] at hread
          have htakes := (PatternToken.spells_of_lexeme? hu).resolve_left (by simp)
          simp only [captureOperand, Bool.not_eq_true', Bool.eq_false_iff]
          intro hcloses
          exact PatternToken.readBare_of_closes hcloses (PatternToken.takes_iff.mpr htakes) hread
      | slot p => cases hu
  | @slot p pattern v values used' us hused' hrest =>
      obtain ⟨-, -, rfl⟩ := hused.unique hstops hused'.bare (hrest.stops hpattern rfl) hts
      exact h pattern values rest bound hpattern.tail hrest hnext

theorem Covers.slot (h : Covers next accepts) (p : Placeholder) :
    Covers (fitSlot p next) (captureOperand (fun _ => true) accepts) := by
  intro pattern values ts bound hpattern hwritten hfit
  obtain ⟨used, e, rest, rfl, hused, hstops, hnext⟩ := (fitSlot_eq (by simp)).mp hfit
  obtain ⟨bound', hnext', -⟩ := fitBind_eq_matched.mp hnext
  exact h.operand hpattern hwritten hused hstops (fun _ _ => rfl) hnext'

theorem Covers.number (h : Covers next accepts) (n : Int32) :
    Covers (fitNumber ctx n next) (captureOperand (· == n) accepts) := by
  intro pattern values ts bound hpattern hwritten hfit
  rcases (fitNumber_eq (by simp)).mp hfit with
    ⟨used, e, rest, rfl, hused, hstops, heval, hnext⟩ | ⟨name, -, hname⟩
  · refine h.operand hpattern hwritten hused hstops ?_ hnext
    rintro m rfl
    cases heval
    simp
  · cases hname

theorem Covers.displacement (h : Covers next accepts) :
    Covers (fitDisplacement next) (captureDisplacement accepts) := by
  intro pattern values ts bound hpattern hwritten hfit
  rcases (fitDisplacement_eq (by simp)).mp hfit with
    ⟨w, used, e, rest, rfl, hw, hused, hstops, hnext⟩ |
    ⟨w, used, e, rest, rfl, hw, -, -, -⟩ | ⟨w, rest, rfl, hw, hnext⟩
  · obtain ⟨bound', hnext', -⟩ := fitBind_eq_matched.mp hnext
    rcases hwritten.punct hw with ⟨pattern', rfl, hwritten'⟩ | ⟨hminus, -⟩
    · exact h.operand hpattern.tail hwritten' hused hstops (fun _ _ => rfl) hnext'
    · cases hminus
  · rcases hwritten.punct hw with ⟨pattern', rfl, -⟩ | ⟨-, p, pattern', rfl⟩
    · rfl
    · rfl
  · obtain ⟨bound', hnext', -⟩ := fitBind_eq_matched.mp hnext
    have haccepts := h pattern values _ bound' hpattern hwritten hnext'
    rcases hwritten.punct hw with ⟨pattern', rfl, -⟩ | ⟨hminus, -⟩
    · exact haccepts
    · cases hminus

theorem covers_parts (ctx : Context) (parts : List PatternPart) :
    Covers (fitParts ctx parts) (captureParts parts) := by
  induction parts with
  | nil =>
      intro pattern values ts bound _ hwritten hfit
      cases hwritten with
      | nil => rfl
      | token _ _ => cases hfit
      | slot hused _ => cases hused <;> cases hfit
  | cons part parts ih =>
      cases part with
      | literal t => exact ih.literal t
      | number n => exact ih.number n
      | slot p => exact ih.slot p
      | displacement => exact ih.displacement

end Covering

def firstKeyword? (v : Variant) : Option Keyword :=
  v.pattern.findSome? PatternToken.keyword?

def isResolved (group : List Variant) : Bool :=
  group.all fun v =>
    (group.find? fun u => captureParts u.parts v.pattern).any fun u => u.pattern == v.pattern

def isOrdered (variants : List Variant) : Bool :=
  (variants.map firstKeyword?).eraseDups.all fun k =>
    isResolved (variants.filter fun v => firstKeyword? v == k)

section Ordered

variable {ctx : Context} {u v : Variant} {variants : List Variant} {values : List Int}
  {ts : List Token} {bound : List Binding}

theorem captures_of_fit (hv : Writable v.pattern) (hts : Written v.pattern values ts)
    (h : fit ctx u.pattern ts = .matched bound) : captureParts u.parts v.pattern = true :=
  covers_parts ctx u.parts v.pattern values ts bound hv hts h

theorem firstKeyword?_of_fit (hu : isSpaced u.pattern = true) (hts : Written v.pattern values ts)
    (h : fit ctx u.pattern ts = .matched bound) : firstKeyword? u = firstKeyword? v := by
  have hrun := Run.keywords ((fit_matched_iff hu).mp h)
  rw [hts.keywords, List.filterMap_nil, List.append_nil] at hrun
  rw [firstKeyword?, firstKeyword?, ← List.head?_filterMap, ← List.head?_filterMap, hrun]

theorem first?_spelled (hspaced : ∀ u ∈ variants, isSpaced u.pattern = true)
    (hordered : isOrdered variants = true) (hv : v ∈ variants) (hplain : Writable v.pattern)
    (hts : Written v.pattern values ts) {first : Variant}
    (hfirst : variants.find? (fun u => u.pattern = v.pattern) = some first) :
    Selection.first? ctx ts variants = some ⟨first, numbersFor v.patternPlaceholders values⟩ := by
  obtain ⟨hpattern, before, after, rfl, hbefore⟩ := List.find?_eq_some_iff_append.mp hfirst
  have hsame : first.pattern = v.pattern := by simpa using hpattern
  have hfits : fit ctx first.pattern ts = .matched (numbersFor v.patternPlaceholders values) := by
    rw [fit_matched_iff (hspaced first (by simp)), hsame]
    exact hts.fits ctx
  refine Selection.first?_eq_some.mpr ⟨before, after, rfl, hfits, ?_⟩
  intro u hu found hfit
  have hkey := firstKeyword?_of_fit (hspaced u (by simp [hu])) hts hfit
  have hkeys : firstKeyword? v ∈ ((before ++ first :: after).map firstKeyword?).eraseDups := by
    rw [List.mem_eraseDups]
    exact List.mem_map_of_mem hv
  have hgroup := List.all_eq_true.mp hordered _ hkeys
  have hresolved := List.all_eq_true.mp hgroup v (List.mem_filter.mpr ⟨hv, by simp⟩)
  -- A variant before the first one that fits would be captured before it, and have its pattern.
  rw [List.filter_append, List.find?_append] at hresolved
  have hmem : u ∈ before.filter fun w => firstKeyword? w == firstKeyword? v :=
    List.mem_filter.mpr ⟨hu, beq_iff_eq.mpr hkey⟩
  have hsome : ((before.filter fun w => firstKeyword? w == firstKeyword? v).find? fun w =>
      captureParts w.parts v.pattern).isSome = true :=
    List.find?_isSome.mpr ⟨u, hmem, captures_of_fit hplain hts hfit⟩
  obtain ⟨w, hw⟩ := Option.isSome_iff_exists.mp hsome
  rw [hw] at hresolved
  have hwpattern : w.pattern = v.pattern := by simpa using hresolved
  have hwmem := (List.mem_filter.mp (List.mem_of_find?_eq_some hw)).1
  simpa [hwpattern] using hbefore w hwmem

end Ordered

def isCanonical (entry : String × List Variant) : Bool :=
  isMnemonic entry.1 && isOrdered entry.2 && entry.2.all fun v =>
    v.pattern.all PatternToken.isPlain && decide (v.pattern.IsChain fun t u => t.mayPrecede u = true)

namespace InstructionSet

variable {mnemonic : String} {variants : List Variant} {v : Variant}

theorem builtin_isCanonical : builtin.entries.all isCanonical = true := by
  decide +kernel

theorem builtin_nodup : (builtin.entries.map Prod.fst).Nodup := by
  decide +kernel

theorem isCanonical_of_mem (h : (mnemonic, variants) ∈ builtin.entries) :
    isMnemonic mnemonic = true ∧ isOrdered variants = true ∧ ∀ v ∈ variants, Writable v.pattern := by
  have hentry := List.all_eq_true.mp builtin_isCanonical _ h
  simp only [isCanonical, Bool.and_eq_true, List.all_eq_true, decide_eq_true_eq] at hentry
  obtain ⟨⟨hname, hordered⟩, hvariants⟩ := hentry
  exact ⟨hname, hordered, fun v hv => ⟨(hvariants v hv).1, (hvariants v hv).2⟩⟩

theorem variants?_of_mem (h : (mnemonic, variants) ∈ builtin.entries) :
    builtin.variants? mnemonic = some variants := by
  obtain ⟨before, after, hentries⟩ := List.append_of_mem h
  have hnodup := builtin_nodup
  rw [hentries, List.map_append, List.nodup_append] at hnodup
  refine List.lookup_eq_some_iff.mpr ⟨before, after, hentries, fun entry hentry => ?_⟩
  exact bne_iff_ne.mpr (hnodup.2.2 _ (List.mem_map_of_mem hentry) mnemonic (by simp)).symm

theorem select_spelled (h : (mnemonic, variants) ∈ builtin.entries) (hv : v ∈ variants)
    {values : List Int} {ts : List Token} (hts : Written v.pattern values ts) {first : Variant}
    (hfirst : variants.find? (fun u => u.pattern = v.pattern) = some first) (ctx : Context) :
    builtin.select true ctx mnemonic ts = .ok ⟨first, numbersFor v.patternPlaceholders values⟩ := by
  obtain ⟨-, hordered, hplain⟩ := isCanonical_of_mem h
  have hvariants := variants?_of_mem h
  have hspaced := fun u (hu : u ∈ variants) => isSpaced_of_variants? hvariants hu
  exact select_eq_ok.mpr
    ⟨variants, hvariants, first?_spelled hspaced hordered hv (hplain v hv) hts hfirst, rfl⟩

end InstructionSet

end Z80
