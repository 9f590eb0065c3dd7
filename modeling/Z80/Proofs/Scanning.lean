import Mathlib
import Z80.Pattern
import Z80.Token.Lexer

namespace Z80

theorem takeWhile_append_stop {α : Type} {p : α → Bool} {xs rest : List α}
    (hxs : ∀ x ∈ xs, p x = true) (hrest : ∀ x ∈ rest.head?, p x = false) :
    (xs ++ rest).takeWhile p = xs := by
  rw [List.takeWhile_append_of_pos hxs]
  cases rest with
  | nil => simp
  | cons x rest => simp [hrest x rfl]

namespace Text

variable {c : Char}

theorem toNat_range {low high : Char} (h : low.val ≤ c.val ∧ c.val ≤ high.val) :
    low.toNat ≤ c.toNat ∧ c.toNat ≤ high.toNat :=
  ⟨UInt32.le_iff_toNat_le.mp h.1, UInt32.le_iff_toNat_le.mp h.2⟩

theorem isDigit_range (h : c.isDigit = true) : 48 ≤ c.toNat ∧ c.toNat ≤ 57 := by
  simp only [Char.isDigit, Bool.and_eq_true, decide_eq_true_eq] at h
  exact @toNat_range c '0' '9' h

theorem toLower_of_range (h : c.toNat < 65 ∨ 90 < c.toNat) : c.toLower = c := by
  apply Char.toLower_eq_of_not_isUpper
  intro hupper
  simp only [Char.isUpper, decide_eq_true_eq] at hupper
  have : 65 ≤ c.toNat ∧ c.toNat ≤ 90 := @toNat_range c 'A' 'Z' hupper
  omega

theorem isNameStart_range (h : isNameStart c = true) :
    c.toNat = 46 ∨ (65 ≤ c.toNat ∧ c.toNat ≤ 122) := by
  simp only [isNameStart, Char.isAlpha, Char.isUpper, Char.isLower, Bool.or_eq_true,
    Bool.and_eq_true, decide_eq_true_eq, beq_iff_eq] at h
  rcases h with ((h | h) | rfl) | rfl
  · have : 65 ≤ c.toNat ∧ c.toNat ≤ 90 := @toNat_range c 'A' 'Z' h
    omega
  · have : 97 ≤ c.toNat ∧ c.toNat ≤ 122 := @toNat_range c 'a' 'z' h
    omega
  · decide
  · decide

theorem isNameRest_eq (c : Char) : isNameRest c = (isNameStart c || c.isDigit) := by
  simp only [isNameRest, isNameStart, Char.isAlphanum]
  cases c.isAlpha <;> cases c.isDigit <;> simp

theorem not_isBlank (h : isNameRest c = true) : isBlank c = false := by
  have hrange : 46 ≤ c.toNat ∧ c.toNat ≤ 122 := by
    rw [isNameRest_eq, Bool.or_eq_true] at h
    rcases h with h | h
    · have := isNameStart_range h
      omega
    · have := isDigit_range h
      omega
  simp only [isBlank, Bool.or_eq_false_iff, Bool.and_eq_false_iff, decide_eq_false_iff_not,
    beq_eq_false_iff_ne, ne_eq]
  omega

theorem isNameRest_of_isName {cs : List Char} (h : isName cs = true) :
    ∀ d ∈ cs, isNameRest d = true := by
  cases cs with
  | nil => cases h
  | cons c cs =>
      obtain ⟨hc, hcs⟩ := Bool.and_eq_true_iff.mp h
      intro d hd
      rcases List.mem_cons.mp hd with rfl | hd
      · rw [isNameRest_eq, hc]
        rfl
      · exact List.all_eq_true.mp hcs d hd

end Text

namespace Numeral

variable {cs : List Char} {c : Char} {n : Nat}

theorem digit?_of_isDigit (h : c.isDigit = true) : digit? 10 c = some (c.toNat - 48) := by
  have hlt : c.toNat - 48 < 10 := by
    have := Text.isDigit_range h
    omega
  simp [digit?, digitValue?, h, hlt]

theorem valueFrom_digits (h : ∀ c ∈ cs, c.isDigit = true) (n : Nat) :
    valueFrom 10 n cs = some (Nat.ofDigitChars 10 cs n) := by
  induction cs generalizing n with
  | nil => simp [valueFrom]
  | cons c cs ih =>
      have hrest := ih fun d hd => h d (List.mem_cons_of_mem _ hd)
      have hzero : '0'.toNat = 48 := rfl
      simp only [valueFrom, digit?_of_isDigit (h c (List.mem_cons_self ..)), hrest,
        Nat.ofDigitChars_cons, hzero, Nat.mul_comm]

theorem toLower_of_isDigit (h : c.isDigit = true) : c.toLower = c := by
  have hdigit := Text.isDigit_range h
  exact Text.toLower_of_range (by omega)

theorem digits?_eq_none {form : Form} (hform : form ≠ .decimal) (h : ∀ c ∈ cs, c.isDigit = true) :
    form.digits? cs = none := by
  have hbefore : ∀ mark : Char, mark.isDigit = false → before? mark cs = none := by
    intro mark hmark
    have hlast : cs.getLast? ≠ some mark := by
      intro hlast
      rw [h mark (List.mem_of_getLast? hlast)] at hmark
      cases hmark
    simp [before?, hlast]
  have hafter : ∀ mark : Char, mark.isDigit = false → after? ['0', mark] cs = none := by
    intro mark hmark
    have hfront : ['0', mark].isPrefixOf cs = false := by
      rw [Bool.eq_false_iff, ne_eq, List.isPrefixOf_iff_prefix]
      intro hfront
      rw [h mark (hfront.subset (by simp))] at hmark
      cases hmark
    simp [after?, hfront]
  cases form with
  | hexMarkedAfter => simp [Form.digits?, Form.unmarked?, hbefore 'h' rfl]
  | hexMarkedBefore => simp [Form.digits?, Form.unmarked?, hafter 'x' rfl]
  | binaryMarkedAfter => simp [Form.digits?, Form.unmarked?, hbefore 'b' rfl]
  | binaryMarkedBefore => simp [Form.digits?, Form.unmarked?, hafter 'b' rfl]
  | decimal => exact absurd rfl hform

theorem isDigit_of_mem_toDigits (hc : c ∈ Nat.toDigits 10 n) : c.isDigit = true :=
  Nat.isDigit_of_mem_toDigits (by simp) (by simp) hc

theorem ofSpelling?_toDigits (h : n < 4294967296) :
    ofSpelling? (Nat.toDigits 10 n) = some (UInt32.ofNat n) := by
  have hdigits : ∀ c ∈ Nat.toDigits 10 n, c.isDigit = true := fun c => isDigit_of_mem_toDigits
  have hlower : (Nat.toDigits 10 n).map Char.toLower = Nat.toDigits 10 n := by
    rw [List.map_congr_left fun c hc => toLower_of_isDigit (hdigits c hc)]
    exact List.map_id _
  have hall : isDigits 10 (Nat.toDigits 10 n) = true := by
    simp only [isDigits, Bool.and_eq_true, Bool.not_eq_true', List.isEmpty_eq_false_iff,
      List.all_eq_true]
    refine ⟨Nat.toDigits_ne_nil, fun c hc => ?_⟩
    simp [isDigit, digit?_of_isDigit (hdigits c hc)]
  have hdecimal : Form.decimal.digits? (Nat.toDigits 10 n) = some (Nat.toDigits 10 n) := by
    simp [Form.digits?, Form.unmarked?, Form.radix, hall]
  have hfind : (Form.all.find? fun form => (form.digits? (Nat.toDigits 10 n)).isSome) =
      some .decimal := by
    simp [Form.all, digits?_eq_none _ hdigits, hdecimal]
  have hword : word? 10 (Nat.toDigits 10 n) = some (UInt32.ofNat n) := by
    simp [word?, value?, valueFrom_digits hdigits, Nat.toDigits_ne_nil,
      Nat.ofDigitChars_ten_toDigits, h]
  simp [ofSpelling?, hlower, hfind, hdecimal, Form.radix, hword]

end Numeral

namespace Lexeme

variable {c : Char} {cs rest : List Char}

def marks : List Char :=
  [';', '<', '>', '$', '%', '+', '-', '*', '/', '&', '|', '^', '~', ':', ',', '(', ')', '#']

def Breaks (rest : List Char) : Prop :=
  ∀ c ∈ rest.head?, Text.isNameRest c = false ∧ c ≠ '\''

structure Leads (cs : List Char) (l : Lexeme) (rest : List Char) : Prop where
  visible : ∀ c ∈ cs, Text.isBlank c = false
  scan : ∃ c more, cs = c :: more ∧ ∀ afterValue column,
    Lexeme.scan afterValue column c (more ++ rest) = .ok (l, more.length)

theorem not_mem_marks {p : Char → Bool} (hc : p c = true) (hp : (marks.all fun d => !p d) = true) :
    c ∉ marks := by
  intro hmem
  have := List.all_eq_true.mp hp c hmem
  simp [hc] at this

theorem ofChar?_of_not_mem (h : c ∉ marks) : Punct.ofChar? c = none := by
  simp only [marks, List.mem_cons, List.not_mem_nil, or_false, not_or] at h
  simp [Punct.ofChar?, h]

theorem numberRun_append (hcs : ∀ c ∈ cs, c.isDigit = true) (hrest : Breaks rest) :
    numberRun (cs ++ rest) = cs := by
  refine takeWhile_append_stop ?_ ?_
  · intro c hc
    simp [Char.isAlphanum, hcs c hc]
  · intro c hc
    have := (hrest c hc).1
    simp only [Text.isNameRest, Bool.or_eq_false_iff] at this
    exact this.1.1

theorem scan_digit (hc : c.isDigit = true) (afterValue : Bool) (column : Nat) (cs : List Char) :
    scan afterValue column c cs = (do
      let lexeme ← ofNumber (c :: numberRun cs) (Numeral.ofSpelling? (c :: numberRun cs))
      return (lexeme, (numberRun cs).length)) := by
  have hmark := not_mem_marks hc (by decide)
  have hpunct := ofChar?_of_not_mem hmark
  simp only [marks, List.mem_cons, List.not_mem_nil, or_false, not_or] at hmark
  simp [scan, hmark, hpunct, hc]

theorem scan_nameStart (hc : Text.isNameStart c = true) (afterValue : Bool) (column : Nat)
    (cs : List Char) :
    scan afterValue column c cs =
      let run := cs.takeWhile Text.isNameRest
      if (c :: run).map Char.toLower == ['a', 'f'] && startsWith (· == '\'') (cs.drop run.length) then
        .ok (keyword .afShadow, run.length + 1)
      else .ok (ofWord (c :: run), run.length) := by
  have hmark := not_mem_marks hc (by decide)
  have hpunct := ofChar?_of_not_mem hmark
  have hdigit : c.isDigit = false := by
    rw [Bool.eq_false_iff]
    intro hdigit
    have := Text.isDigit_range hdigit
    have := Text.isNameStart_range hc
    omega
  have hquotes : c ≠ '\'' ∧ c ≠ '"' := by
    constructor
    · rintro rfl
      cases hc
    · rintro rfl
      cases hc
  simp only [marks, List.mem_cons, List.not_mem_nil, or_false, not_or] at hmark
  simp [scan, hmark, hpunct, hdigit, hquotes, hc]

theorem leads_number {n : Nat} (hn : n < 4294967296) (hrest : Breaks rest) :
    Leads (toString n).toList (number (toString n) (Int32.ofNat n)) rest := by
  obtain ⟨c, cs, hcs⟩ := List.exists_cons_of_ne_nil (Nat.toDigits_ne_nil : Nat.toDigits 10 n ≠ [])
  have hspelling : toString n = String.ofList (c :: cs) := by
    rw [← hcs, Nat.toString_eq_ofList_toDigits]
  have hdigits : ∀ d ∈ c :: cs, d.isDigit = true := by
    rw [← hcs]
    exact fun d => Numeral.isDigit_of_mem_toDigits
  rw [hspelling, String.toList_ofList]
  refine ⟨fun d hd => Text.not_isBlank (by simp [Text.isNameRest_eq, hdigits d hd]), c, cs, rfl, ?_⟩
  intro afterValue column
  have hc : c.isDigit = true := hdigits c (List.mem_cons_self ..)
  have hvalue : Numeral.ofSpelling? (c :: cs) = some (UInt32.ofNat n) := by
    rw [← hcs]
    exact Numeral.ofSpelling?_toDigits hn
  have hrun := numberRun_append (fun d hd => hdigits d (List.mem_cons_of_mem _ hd)) hrest
  rw [scan_digit hc, hrun, hvalue]
  rfl

theorem leads_word (hname : Text.isName cs = true) (hrest : Breaks rest) :
    Leads cs (ofWord cs) rest := by
  refine ⟨fun d hd => Text.not_isBlank (Text.isNameRest_of_isName hname d hd), ?_⟩
  cases cs with
  | nil => cases hname
  | cons c cs =>
      refine ⟨c, cs, rfl, ?_⟩
      intro afterValue column
      obtain ⟨hc, hcs⟩ := Bool.and_eq_true_iff.mp hname
      have hrun : (cs ++ rest).takeWhile Text.isNameRest = cs :=
        takeWhile_append_stop (List.all_eq_true.mp hcs) fun d hd => (hrest d hd).1
      have hshadow : startsWith (· == '\'') rest = false := by
        cases rest with
        | nil => rfl
        | cons d rest => simpa [startsWith] using (hrest d rfl).2
      simp [scan_nameStart hc, hrun, hshadow]

theorem leads_name {w : String} (hname : Text.isName w.toList = true)
    (hkeyword : Keyword.ofName? w = none) (hrest : Breaks rest) : Leads w.toList (name w) rest := by
  have hword : ofWord w.toList = name w := by simp [ofWord, hkeyword]
  rw [← hword]
  exact leads_word hname hrest

theorem ofWord_keyword {k : Keyword} (hk : k ≠ .afShadow) :
    Text.isName k.name.toList = true ∧ ofWord k.name.toList = keyword k := by
  cases k <;> first | exact absurd rfl hk | decide

theorem leads_keyword (k : Keyword) (hrest : Breaks rest) :
    Leads k.name.toList (keyword k) rest := by
  by_cases hk : k = .afShadow
  · subst hk
    -- The quote belongs to the register, so this is no run of name characters.
    exact ⟨by simp [Keyword.name, Text.isBlank], 'a', ['f', '\''], by decide, fun _ _ => rfl⟩
  · obtain ⟨hname, hword⟩ := ofWord_keyword hk
    rw [← hword]
    exact leads_word hname hrest

theorem leads_punct {p : Punct} (hp : p = .minus ∨ p ∈ PatternToken.puncts) (rest : List Char) :
    Leads p.text.toList (punct p) rest := by
  simp only [PatternToken.puncts, List.mem_cons, List.not_mem_nil, or_false] at hp
  rcases hp with rfl | rfl | rfl | rfl | rfl
  · exact ⟨by simp [Punct.text, Text.isBlank], '-', [], rfl, fun _ _ => rfl⟩
  · exact ⟨by simp [Punct.text, Text.isBlank], '(', [], rfl, fun _ _ => rfl⟩
  · exact ⟨by simp [Punct.text, Text.isBlank], ')', [], rfl, fun _ _ => rfl⟩
  · exact ⟨by simp [Punct.text, Text.isBlank], ',', [], rfl, fun _ _ => rfl⟩
  · exact ⟨by simp [Punct.text, Text.isBlank], '+', [], rfl, fun _ _ => rfl⟩

theorem breaks_punct {p : Punct} (hp : p ∈ PatternToken.puncts) (rest : List Char) :
    Breaks (p.text.toList ++ rest) := by
  simp only [PatternToken.puncts, List.mem_cons, List.not_mem_nil, or_false] at hp
  rcases hp with rfl | rfl | rfl | rfl <;>
  · intro c hc
    cases hc
    decide

theorem breaks_blank (rest : List Char) : Breaks (' ' :: rest) := by
  intro c hc
  cases hc
  decide

end Lexeme

namespace Token

variable {cs rest : List Char} {l : Lexeme}

theorem scanFrom_skip (cs rest : List Char) (afterValue : Bool) : ∀ column,
    scanFrom cs.length afterValue column (cs ++ rest) =
      scanFrom 0 afterValue (column + String.utf8Len cs) rest := by
  induction cs with
  | nil => exact fun column => rfl
  | cons c cs ih =>
      intro column
      rw [String.utf8Len_cons, Nat.add_comm _ c.utf8Size, ← Nat.add_assoc]
      exact ih (column + c.utf8Size)

structure Scans (cs : List Char) (P : List Token → Prop) : Prop where
  oneLine : '\n' ∉ cs
  tokens : ∀ afterValue column, ∃ ts, scanFrom 0 afterValue column cs = .ok ts ∧ P ts

variable {P Q : List Token → Prop}

theorem Scans.mono (h : Scans cs P) (himp : ∀ ts, P ts → Q ts) : Scans cs Q := by
  refine ⟨h.oneLine, fun afterValue column => ?_⟩
  obtain ⟨ts, hts, hp⟩ := h.tokens afterValue column
  exact ⟨ts, hts, himp ts hp⟩

theorem scans_nil (h : P []) : Scans [] P :=
  ⟨by simp, fun _ _ => ⟨[], rfl, h⟩⟩

theorem scanFrom_blank (afterValue : Bool) (column : Nat) (cs : List Char) :
    scanFrom 0 afterValue column (' ' :: cs) = scanFrom 0 afterValue (column + 1) cs :=
  rfl

theorem Scans.blank (h : Scans cs P) : Scans (' ' :: cs) P :=
  ⟨by simpa using h.oneLine, fun afterValue column => h.tokens afterValue (column + 1)⟩

theorem scanFrom_lead (h : Lexeme.Leads cs l rest) (afterValue : Bool) (column : Nat) :
    ∃ column', scanFrom 0 afterValue column (cs ++ rest) = (do
      let ts ← scanFrom 0 l.endsValue column' rest
      return ⟨l, column⟩ :: ts) := by
  obtain ⟨c, more, rfl, hscan⟩ := h.scan
  refine ⟨column + c.utf8Size + String.utf8Len more, ?_⟩
  simp [scanFrom, h.visible c (List.mem_cons_self ..), hscan, scanFrom_skip, bind, Except.bind]

theorem scanFrom_leads (h : Lexeme.Leads cs l rest) (hrest : Scans rest P) (afterValue : Bool)
    (column : Nat) :
    ∃ ts, scanFrom 0 afterValue column (cs ++ rest) = .ok (⟨l, column⟩ :: ts) ∧ P ts := by
  obtain ⟨column', hlead⟩ := scanFrom_lead h afterValue column
  obtain ⟨ts, hts, hp⟩ := hrest.tokens l.endsValue column'
  refine ⟨ts, ?_, hp⟩
  rw [hlead, hts]
  rfl

theorem oneLine_leads (h : Lexeme.Leads cs l rest) (hrest : Scans rest P) : '\n' ∉ cs ++ rest := by
  intro hmem
  rcases List.mem_append.mp hmem with hmem | hmem
  · exact absurd (h.visible _ hmem) (by decide)
  · exact hrest.oneLine hmem

theorem Scans.lexeme (h : Lexeme.Leads cs l rest) (hrest : Scans rest P) :
    Scans (cs ++ rest) fun ts => ∃ u us, ts = u :: us ∧ u.lexeme = l ∧ P us := by
  refine ⟨oneLine_leads h hrest, fun afterValue column => ?_⟩
  obtain ⟨ts, hts, hp⟩ := scanFrom_leads h hrest afterValue column
  exact ⟨_, hts, _, ts, rfl, rfl, hp⟩

end Token

end Z80
