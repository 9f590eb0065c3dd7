import Mathlib
import Z80.Assembly
import Z80.Proofs.Grammar
import Z80.Proofs.Scanning

namespace Z80

def PatternToken.gap (t : PatternToken) : String :=
  if t.isWord then " " else ""

def spellOperands : List PatternToken → List Int → String
  | [], _ => ""
  | .slot _ :: pattern, v :: values => toString v ++ spellOperands pattern values
  | t :: pattern, values => t.text ++ t.gap ++ spellOperands pattern values

def spellInstruction (mnemonic : String) (pattern : List PatternToken) (values : List Int) :
    String :=
  "  " ++ mnemonic ++ " " ++ spellOperands pattern values

namespace PatternToken

def lexeme? : PatternToken → Option Lexeme
  | punct p => some (.punct p)
  | keyword k => some (.keyword k)
  | number n => some (.number (toString n.toInt) n)
  | word w => some (.name w)
  | slot _ => none

theorem placeholder?_of_lexeme? {t : PatternToken} {l : Lexeme} (h : t.lexeme? = some l) :
    t.placeholder? = none := by
  cases t with
  | slot p => cases h
  | punct p | keyword k | number n | word w => rfl

def isPlain : PatternToken → Bool
  | punct p => puncts.contains p
  | keyword _ | slot _ => true
  | number n => 0 ≤ n.toInt
  | word w => Text.isName w.toList && (Keyword.ofName? w).isNone

def mayPrecede : PatternToken → PatternToken → Bool
  | punct _, _ => true
  | keyword _, punct _ => true
  | number _, u | slot _, u => u == .punct .comma || u == .punct .rightParen
  | word _, punct .leftParen | word _, number _ => true
  | _, _ => false

end PatternToken

structure Writable (pattern : List PatternToken) : Prop where
  plain : ∀ t ∈ pattern, t.isPlain = true
  joined : pattern.IsChain fun t u => t.mayPrecede u = true

inductive Decimal : List Token → Int → Prop
  | plain {u : Token} {n : Nat} : n < 2147483648 →
      u.lexeme = .number (toString n) (Int32.ofNat n) → Decimal [u] n
  | negative {sign u : Token} {n : Nat} : n < 2147483648 → sign.lexeme = .punct .minus →
      u.lexeme = .number (toString n) (Int32.ofNat n) → Decimal [sign, u] (-n)

inductive Written : List PatternToken → List Int → List Token → Prop
  | nil : Written [] [] []
  | token {t : PatternToken} {pattern : List PatternToken} {values : List Int} {u : Token}
      {ts : List Token} : t.lexeme? = some u.lexeme → Written pattern values ts →
      Written (t :: pattern) values (u :: ts)
  | slot {p : Placeholder} {pattern : List PatternToken} {v : Int} {values : List Int}
      {used ts : List Token} : Decimal used v → Written pattern values ts →
      Written (.slot p :: pattern) (v :: values) (used ++ ts)

section Reading

variable {t : PatternToken} {pattern : List PatternToken} {values : List Int} {ts : List Token}

theorem Writable.tail (h : Writable (t :: pattern)) : Writable pattern :=
  ⟨fun u hu => h.plain u (List.mem_cons_of_mem _ hu), h.joined.tail⟩

theorem Writable.head (h : Writable (t :: pattern)) : t.isPlain = true :=
  h.plain t (List.mem_cons_self ..)

theorem spellOperands_token {l : Lexeme} (hl : t.lexeme? = some l) (pattern : List PatternToken)
    (values : List Int) : (spellOperands (t :: pattern) values).toList =
      t.text.toList ++ (t.gap.toList ++ (spellOperands pattern values).toList) := by
  cases t with
  | slot p => cases hl
  | punct p | keyword k | number n | word w => simp [spellOperands]

theorem Writable.punct {p : Punct} (h : Writable (.punct p :: pattern)) :
    p ∈ PatternToken.puncts := by
  simpa [PatternToken.isPlain] using h.head

theorem Writable.breaks (h : Writable (t :: pattern))
    (ht : ∀ u, t.mayPrecede u = true → ∃ p, u = .punct p) (values : List Int) :
    Lexeme.Breaks (spellOperands pattern values).toList := by
  cases pattern with
  | nil => simp [spellOperands, Lexeme.Breaks]
  | cons u pattern =>
      obtain ⟨p, rfl⟩ := ht u (List.isChain_cons_cons.mp h.joined).1
      rw [spellOperands_token rfl]
      exact Lexeme.breaks_punct h.tail.punct _

theorem operand_precedes {u : PatternToken}
    (h : (u == .punct .comma || u == .punct .rightParen) = true) : ∃ p, u = .punct p := by
  simp only [Bool.or_eq_true, beq_iff_eq] at h
  rcases h with rfl | rfl
  · exact ⟨_, rfl⟩
  · exact ⟨_, rfl⟩

theorem Writable.leads {l : Lexeme} (h : Writable (t :: pattern)) (hl : t.lexeme? = some l)
    (values : List Int) :
    Lexeme.Leads t.text.toList l (t.gap.toList ++ (spellOperands pattern values).toList) := by
  cases t with
  | punct p =>
      cases hl
      exact Lexeme.leads_punct (.inr h.punct) _
  | keyword k =>
      cases hl
      refine Lexeme.leads_keyword k (h.breaks ?_ values)
      intro u hu
      cases u with
      | punct p => exact ⟨p, rfl⟩
      | keyword _ | number _ | word _ | slot _ => cases hu
  | number n =>
      have hn : 0 ≤ n.toInt := by simpa [PatternToken.isPlain] using h.head
      obtain ⟨m, hm⟩ := Int.eq_ofNat_of_zero_le hn
      have hlt : m < 2147483648 := by
        have := Int32.toInt_lt n
        omega
      have hvalue : Int32.ofNat m = n := by
        rw [← Int32.toInt_inj, Int32.toInt_ofNat_of_lt hlt, hm]
      have htext : toString n.toInt = toString m := by
        rw [hm]
        rfl
      have hleads := Lexeme.leads_number (n := m) (by omega)
        (h.breaks (fun u hu => operand_precedes hu) values)
      rw [hvalue] at hleads
      cases hl
      rw [PatternToken.text, htext]
      exact hleads
  | word w =>
      have hw : Text.isName w.toList = true ∧ Keyword.ofName? w = none := by
        simpa [PatternToken.isPlain] using h.head
      have hgap : (PatternToken.word w).gap = " " := rfl
      cases hl
      rw [hgap]
      exact Lexeme.leads_name hw.1 hw.2 (Lexeme.breaks_blank _)
  | slot p => cases hl

theorem scans_gap (t : PatternToken) {rest : List Char} {P : List Token → Prop}
    (h : Token.Scans rest P) : Token.Scans (t.gap.toList ++ rest) P := by
  unfold PatternToken.gap
  split
  · exact h.blank
  · exact h

theorem scans_decimal {v : Int} {rest : List Char} {P : List Token → Prop}
    (hv : -2147483648 < v ∧ v < 2147483648) (hbreaks : Lexeme.Breaks rest)
    (hrest : Token.Scans rest P) :
    Token.Scans ((toString v).toList ++ rest) fun ts =>
      ∃ used us, ts = used ++ us ∧ Decimal used v ∧ P us := by
  cases v with
  | ofNat n =>
      have hn : n < 2147483648 := by
        have := hv.2
        rw [Int.ofNat_eq_natCast] at this
        omega
      refine (Token.Scans.lexeme (Lexeme.leads_number (by omega) hbreaks) hrest).mono ?_
      rintro ts ⟨u, us, rfl, hu, hus⟩
      exact ⟨[u], us, rfl, .plain hn hu, hus⟩
  | negSucc n =>
      have hn : n + 1 < 2147483648 := by
        have := hv.1
        rw [Int.negSucc_eq] at this
        omega
      have htext : (toString (Int.negSucc n)).toList ++ rest =
          Punct.minus.text.toList ++ ((toString (n + 1)).toList ++ rest) := by
        have : toString (Int.negSucc n) = "-" ++ toString (n + 1) := rfl
        simp [this, Punct.text]
      rw [htext]
      have hdigits := Token.Scans.lexeme (Lexeme.leads_number (n := n + 1) (by omega) hbreaks) hrest
      refine (Token.Scans.lexeme (Lexeme.leads_punct (.inl rfl) _) hdigits).mono ?_
      rintro ts ⟨sign, us, rfl, hsign, u, us', rfl, hu, hus⟩
      exact ⟨[sign, u], us', rfl, .negative hn hsign hu, hus⟩

theorem scans_operands (h : Writable pattern) (hvalues :
      List.Forall₂ (fun _ v => -2147483648 < v ∧ v < 2147483648)
        (pattern.filterMap PatternToken.placeholder?) values) :
    Token.Scans (spellOperands pattern values).toList (Written pattern values) := by
  induction pattern generalizing values with
  | nil =>
      cases hvalues
      exact Token.scans_nil .nil
  | cons t pattern ih =>
      cases hl : t.lexeme? with
      | some l =>
          rw [List.filterMap_cons_none (PatternToken.placeholder?_of_lexeme? hl)] at hvalues
          have hrest := scans_gap t (ih h.tail hvalues)
          rw [spellOperands_token hl]
          refine (Token.Scans.lexeme (h.leads hl values) hrest).mono ?_
          rintro ts ⟨u, us, rfl, hu, hus⟩
          exact .token (by rw [hl, hu]) hus
      | none =>
          cases t with
          | punct p | keyword k | number n | word w => cases hl
          | slot p =>
              cases hvalues with
              | @cons _ v _ values hv hvalues =>
                  have hbreaks := h.breaks (fun u hu => operand_precedes hu) values
                  rw [spellOperands, String.toList_append]
                  refine (scans_decimal hv hbreaks (ih h.tail hvalues)).mono ?_
                  rintro ts ⟨used, us, rfl, hused, hus⟩
                  exact .slot hused hus

theorem Written.ordinary (hplain : Writable pattern) (h : Written pattern values ts) :
    ∀ u ∈ ts, u.lexeme ≠ .punct .colon ∧ ∀ s, u.lexeme ≠ .comment s := by
  induction h with
  | nil => simp
  | @token t pattern values u ts hu _ ih =>
      intro w hw
      rcases List.mem_cons.mp hw with rfl | hw
      · cases t with
        | punct p =>
            have hp := hplain.punct
            simp only [PatternToken.lexeme?, Option.some.injEq] at hu
            rw [← hu]
            refine ⟨?_, by simp⟩
            rintro ⟨⟩
            exact absurd hp (by decide)
        | keyword k | number n | word w =>
            simp only [PatternToken.lexeme?, Option.some.injEq] at hu
            simp [← hu]
        | slot p => cases hu
      · exact ih hplain.tail w hw
  | @slot p pattern v values used ts hused _ ih =>
      intro w hw
      rcases List.mem_append.mp hw with hw | hw
      · cases hused with
        | plain _ hu =>
            cases List.mem_singleton.mp hw
            simp [hu]
        | negative _ hsign hu =>
            simp only [List.mem_cons, List.not_mem_nil, or_false] at hw
            rcases hw with rfl | rfl
            · simp [hsign]
            · simp [hu]
      · exact ih hplain.tail w hw

end Reading

def isMnemonic (w : String) : Bool :=
  Text.isName w.toList && (Keyword.ofName? w).isNone && Text.lower w == w &&
    (Directive.ofName? w).isNone

section Lines

variable {mnemonic : String} {pattern : List PatternToken} {values : List Int} {ts : List Token}

theorem scan_spellInstruction (hname : isMnemonic mnemonic = true)
    (hrest : Token.Scans (spellOperands pattern values).toList (Written pattern values)) :
    '\n' ∉ (spellInstruction mnemonic pattern values).toList ∧
    ∃ ts, Token.scan (spellInstruction mnemonic pattern values) =
      .ok (⟨.name mnemonic, 2⟩ :: ts) ∧ Written pattern values ts := by
  simp only [isMnemonic, Bool.and_eq_true, Option.isNone_iff_eq_none] at hname
  have hleads := Lexeme.leads_name hname.1.1.1 hname.1.1.2
    (Lexeme.breaks_blank (spellOperands pattern values).toList)
  have htext : (spellInstruction mnemonic pattern values).toList =
      ' ' :: ' ' :: (mnemonic.toList ++ ' ' :: (spellOperands pattern values).toList) := by
    simp [spellInstruction]
  rw [Token.scan, htext, Token.scanFrom_blank, Token.scanFrom_blank]
  refine ⟨?_, Token.scanFrom_leads hleads hrest.blank false 2⟩
  simpa using Token.oneLine_leads hleads hrest.blank

theorem ofTokens_instruction (hname : isMnemonic mnemonic = true) {column : Nat}
    (hcolumn : column ≠ 0) (hts : ∀ u ∈ ts.head?, u.lexeme ≠ .punct .colon) :
    Line.ofTokens (⟨.name mnemonic, column⟩ :: ts) =
      .ok ⟨none, some (.instruction mnemonic ts)⟩ := by
  simp only [isMnemonic, Bool.and_eq_true, Option.isNone_iff_eq_none, beq_iff_eq] at hname
  have hlabel : Line.splitLabel (⟨.name mnemonic, column⟩ :: ts) =
      (none, ⟨.name mnemonic, column⟩ :: ts) := by
    simp only [Line.splitLabel]
    split
    · exact absurd rfl (hts _ rfl)
    · exact absurd rfl (hts _ rfl)
    · rw [if_neg hcolumn]
  have hstatement : Line.readStatement false (Text.lower mnemonic) ts =
      .ok (.instruction mnemonic ts) := by
    simp [Line.readStatement, hname]
  simp [Line.ofTokens, hlabel, hstatement, bind, Except.bind, pure, Except.pure]

theorem dropComment_eq (h : ∀ u ∈ ts, ∀ s, u.lexeme ≠ .comment s) : Line.dropComment ts = ts := by
  unfold Line.dropComment
  split
  · next hlast => exact absurd rfl (h _ (List.mem_of_getLast? hlast) _)
  · rfl

theorem pieces_oneLine {cs : List Char} (h : '\n' ∉ cs) : Text.pieces cs = [cs] := by
  induction cs with
  | nil => rfl
  | cons c cs ih =>
      simp only [List.mem_cons, not_or] at h
      have hreturn : (cs.head? == some '\n') = false := by
        rw [beq_eq_false_iff_ne]
        intro hhead
        exact h.2 (List.mem_of_mem_head? hhead)
      simp [Text.pieces, Ne.symm h.1, hreturn, ih h.2]

theorem readLines_oneLine {name text : String} (h : '\n' ∉ text.toList) (hne : text.toList ≠ []) :
    readLines [⟨name, text⟩] = [(⟨0, 1⟩, Line.parse text)] := by
  have hlines : Text.lines text = [text] := by
    simp [Text.lines, pieces_oneLine h, Text.dropEmptyLast, hne]
  simp [readLines, sourceLines, hlines]

theorem readLines_spellInstruction (hname : isMnemonic mnemonic = true) (hpattern : Writable pattern)
    (hvalues : List.Forall₂ (fun _ v => -2147483648 < v ∧ v < 2147483648)
      (pattern.filterMap PatternToken.placeholder?) values) (name : String) :
    ∃ ts, readLines [⟨name, spellInstruction mnemonic pattern values⟩] =
      [(⟨0, 1⟩, .ok ⟨none, some (.instruction mnemonic ts)⟩)] ∧ Written pattern values ts := by
  obtain ⟨hline, ts, hscan, hts⟩ :=
    scan_spellInstruction hname (scans_operands hpattern hvalues)
  have hordinary := hts.ordinary hpattern
  have hdrop : Line.dropComment (⟨.name mnemonic, 2⟩ :: ts) = ⟨.name mnemonic, 2⟩ :: ts := by
    apply dropComment_eq
    intro u hu
    rcases List.mem_cons.mp hu with rfl | hu
    · simp
    · exact (hordinary u hu).2
  have hparse : Line.parse (spellInstruction mnemonic pattern values) =
      .ok ⟨none, some (.instruction mnemonic ts)⟩ := by
    rw [Line.parse, hscan]
    change Line.ofTokens (Line.dropComment (⟨.name mnemonic, 2⟩ :: ts)) = _
    rw [hdrop]
    exact ofTokens_instruction hname (by simp)
      fun u hu => (hordinary u (List.mem_of_mem_head? hu)).1
  refine ⟨ts, ?_, hts⟩
  rw [readLines_oneLine hline (by simp [spellInstruction]), hparse]

end Lines

end Z80
