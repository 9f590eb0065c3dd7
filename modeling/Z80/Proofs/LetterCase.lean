import Mathlib
import Z80.Proofs.Lexing
import Z80.Proofs.TokenMaps

namespace Z80

namespace Text

def Caseless {α : Type} (p : Char → α) : Prop :=
  ∀ c, p c.toLower = p c

def Recased (cs cs' : List Char) : Prop :=
  cs'.map Char.toLower = cs.map Char.toLower

variable {α : Type} {p : Char → α} {c c' d : Char} {cs cs' : List Char}

theorem caseless_of_ascii [DecidableEq α]
    (h : ∀ n : Fin 128, p (Char.ofNat n).toLower = p (Char.ofNat n)) : Caseless p := by
  intro c
  by_cases hc : c.toNat < 128
  · have hascii := h ⟨c.toNat, hc⟩
    rwa [Char.ofNat_toNat] at hascii
  · rw [toLower_of_range (by omega)]

theorem Caseless.eq (hp : Caseless p) (h : c'.toLower = c.toLower) : p c' = p c := by
  rw [← hp c', h, hp c]

structure Traits where
  isBlank : Bool
  isNewline : Bool
  isNameStart : Bool
  isNameRest : Bool
  isAlpha : Bool
  isAlphanum : Bool
  isDigit : Bool
  digitValue? : Option Nat
  utf8Size : Nat
deriving DecidableEq

def traits (c : Char) : Traits where
  isBlank := isBlank c
  isNewline := c == '\n'
  isNameStart := isNameStart c
  isNameRest := isNameRest c
  isAlpha := c.isAlpha
  isAlphanum := c.isAlphanum
  isDigit := c.isDigit
  digitValue? := Numeral.digitValue? c
  utf8Size := c.utf8Size

theorem caseless_traits : Caseless traits :=
  caseless_of_ascii (by decide +kernel)

theorem caseless_isBlank : Caseless isBlank :=
  fun c => congrArg Traits.isBlank (caseless_traits c)

theorem caseless_newline : Caseless (· == '\n') :=
  fun c => congrArg Traits.isNewline (caseless_traits c)

theorem caseless_isNameStart : Caseless isNameStart :=
  fun c => congrArg Traits.isNameStart (caseless_traits c)

theorem caseless_isNameRest : Caseless isNameRest :=
  fun c => congrArg Traits.isNameRest (caseless_traits c)

theorem caseless_isAlpha : Caseless Char.isAlpha :=
  fun c => congrArg Traits.isAlpha (caseless_traits c)

theorem caseless_isAlphanum : Caseless Char.isAlphanum :=
  fun c => congrArg Traits.isAlphanum (caseless_traits c)

theorem caseless_isDigit : Caseless Char.isDigit :=
  fun c => congrArg Traits.isDigit (caseless_traits c)

theorem caseless_utf8Size : Caseless Char.utf8Size :=
  fun c => congrArg Traits.utf8Size (caseless_traits c)

theorem caseless_digit? (radix : Nat) : Caseless (Numeral.digit? radix) := by
  intro c
  rw [Numeral.digit?, Numeral.digit?]
  exact congrArg (·.filter (· < radix)) (congrArg Traits.digitValue? (caseless_traits c))

theorem caseless_isDigitOf (radix : Nat) : Caseless (Numeral.isDigit radix) := by
  intro c
  rw [Numeral.isDigit, Numeral.isDigit, caseless_digit?]

theorem eq_of_toLower (hd : d.isAlpha = false) (h : c.toLower = d.toLower) : c = d := by
  have hlower : ∀ e : Char, e.isAlpha = false → e.toLower = e := by
    intro e he
    refine Char.toLower_eq_of_not_isUpper ?_
    intro hupper
    simp [Char.isAlpha, hupper] at he
  have hc : c.isAlpha = false := by rw [caseless_isAlpha.eq h, hd]
  rw [← hlower c hc, h, hlower d hd]

namespace Recased

theorem symm (h : Recased cs cs') : Recased cs' cs :=
  Eq.symm h

theorem cons (h : Recased (c :: cs) cs') :
    ∃ c' more, cs' = c' :: more ∧ c'.toLower = c.toLower ∧ Recased cs more :=
  List.map_eq_cons_iff.mp h

theorem mark (hd : d.isAlpha = false) (h : Recased (d :: cs) cs') :
    ∃ more, cs' = d :: more ∧ Recased cs more := by
  obtain ⟨c', more, rfl, hc, hmore⟩ := h.cons
  exact ⟨more, by rw [eq_of_toLower hd hc], hmore⟩

theorem nil (h : Recased [] cs') : cs' = [] :=
  List.map_eq_nil_iff.mp h

theorem append {more : List Char} (h : Recased (cs ++ more) cs') :
    ∃ xs ys, cs' = xs ++ ys ∧ Recased cs xs ∧ Recased more ys := by
  rw [Recased, List.map_append] at h
  exact List.map_eq_append_iff.mp h

theorem map_eq (h : Recased cs cs') (hp : Caseless p) : cs'.map p = cs.map p := by
  have hlower : ∀ xs : List Char, xs.map p = (xs.map Char.toLower).map p := by
    intro xs
    rw [List.map_map]
    exact List.map_congr_left fun c _ => (hp c).symm
  rw [hlower cs', h, ← hlower cs]

theorem forall_eq {b : α} (h : Recased cs cs') (hp : Caseless p) (hall : ∀ d ∈ cs, p d = b) :
    ∀ d ∈ cs', p d = b := by
  intro d hd
  have hmem : p d ∈ cs'.map p := List.mem_map_of_mem hd
  rw [h.map_eq hp] at hmem
  obtain ⟨e, he, heq⟩ := List.mem_map.mp hmem
  rw [← heq, hall e he]

theorem isName_eq (h : Recased cs cs') : isName cs' = isName cs := by
  cases cs with
  | nil => rw [h.nil]
  | cons c cs =>
      obtain ⟨c', more, rfl, hc, hmore⟩ := h.cons
      have hall : more.all isNameRest = cs.all isNameRest := by
        have hmap := congrArg (List.all · id) (hmore.map_eq caseless_isNameRest)
        simpa only [List.all_map, Function.id_comp] using hmap
      rw [isName, isName, caseless_isNameStart.eq hc, hall]

theorem valueFrom_eq {radix : Nat} (h : Recased cs cs') (n : Nat) :
    Numeral.valueFrom radix n cs' = Numeral.valueFrom radix n cs := by
  induction cs generalizing cs' n with
  | nil => rw [h.nil]
  | cons c cs ih =>
      obtain ⟨c', more, rfl, hc, hmore⟩ := h.cons
      rw [Numeral.valueFrom, Numeral.valueFrom, (caseless_digit? radix).eq hc]
      cases Numeral.digit? radix c with
      | none => rfl
      | some d => exact ih hmore _

theorem word?_eq (h : Recased cs cs') (radix : Nat) :
    Numeral.word? radix cs' = Numeral.word? radix cs := by
  have hempty : cs'.isEmpty = cs.isEmpty := by
    simpa only [List.isEmpty_map] using congrArg List.isEmpty h
  rw [Numeral.word?, Numeral.word?, Numeral.value?, Numeral.value?, hempty, h.valueFrom_eq]

theorem lower_eq (h : Recased cs cs') : lower (String.ofList cs') = lower (String.ofList cs) := by
  rw [lower, lower, String.toList_ofList, String.toList_ofList, h]

theorem utf8Len_eq (h : Recased cs cs') : String.utf8Len cs' = String.utf8Len cs := by
  induction cs generalizing cs' with
  | nil => rw [h.nil]
  | cons c cs ih =>
      obtain ⟨c', more, rfl, hc, hmore⟩ := h.cons
      rw [String.utf8Len_cons, String.utf8Len_cons, ih hmore, caseless_utf8Size.eq hc]

theorem head?_or {next? next?' : Option Char} (h : Recased cs cs')
    (hnext : Recased next?.toList next?'.toList) :
    Recased (cs.head?.or next?).toList (cs'.head?.or next?').toList := by
  cases cs with
  | nil =>
      cases h.nil
      exact hnext
  | cons c cs =>
      obtain ⟨c', more, rfl, hc, -⟩ := h.cons
      exact congrArg (fun c => [c]) hc

theorem next_eq {next? next?' : Option Char} {b : α} (h : Recased next?.toList next?'.toList)
    (hp : Caseless p) (hall : ∀ d ∈ next?, p d = b) : ∀ d ∈ next?', p d = b := by
  intro d hd
  refine h.forall_eq hp ?_ d (Option.mem_toList.mpr hd)
  exact fun e he => hall e (Option.mem_toList.mp he)

end Recased

theorem lower_lower (s : String) : lower (lower s) = lower s := by
  rw [lower, lower, String.toList_ofList, List.map_map]
  exact congrArg String.ofList
    (List.map_congr_left fun c _ => Char.toLower_toLower_eq_toLower c)

end Text

def TokenMap.folded : TokenMap where
  name := Text.lower
  spelling _ _ := ""
  comment _ := ""
  column := id
  name_lower := Text.lower_lower
  column_eq_zero _ := Iff.rfl

namespace Lexeme

open Text

variable {afterValue : Bool} {next? next?' : Option Char} {cs cs' : List Char} {l : Lexeme}

def isLiteral : Lexeme → Bool
  | text _ | char _ => true
  | _ => false

def Folds (l l' : Lexeme) : Prop :=
  TokenMap.folded.lexeme 0 l' = TokenMap.folded.lexeme 0 l

theorem ofWord_recased (h : Recased cs cs') : Folds (ofWord cs) (ofWord cs') := by
  have hkeyword : Keyword.ofName? (String.ofList cs') = Keyword.ofName? (String.ofList cs) := by
    rw [Keyword.ofName?, Keyword.ofName?, h.lower_eq]
  rw [Folds, ofWord, ofWord, hkeyword]
  cases Keyword.ofName? (String.ofList cs) with
  | some k => rfl
  | none => exact congrArg name h.lower_eq

theorem isLiteral_ofLiteral (quote : Char) (chars : List Char) :
    (ofLiteral quote chars).isLiteral = true := by
  rcases ofLiteral_cases quote chars with ⟨c, -, -, heq⟩ | heq <;> rw [heq] <;> rfl

inductive Closes (quote : Char) : List Char → Prop
  | close {cs : List Char} : Closes quote (quote :: cs)
  | escape {d : Char} {cs : List Char} : Closes quote cs → Closes quote ('\\' :: d :: cs)
  | plain {c : Char} {cs : List Char} : c ≠ '\\' → c ≠ quote → Closes quote cs →
      Closes quote (c :: cs)

theorem Literal.closes {quote : Char} {chars : List Char} (h : Literal quote cs chars)
    (rest : List Char) : Closes quote (cs ++ rest) := by
  induction h with
  | close => exact .close
  | escape _ _ ih => exact .escape ih
  | plain hescape hquote _ ih => exact .plain hescape hquote ih

theorem Closes.recased {quote : Char} (hquote : quote.isAlpha = false) (h : Closes quote cs) :
    ∀ {cs' : List Char}, Recased cs cs' → Closes quote cs' := by
  induction h with
  | close =>
      intro cs' hcs
      obtain ⟨more, rfl, -⟩ := hcs.mark hquote
      exact .close
  | escape _ ih =>
      intro cs' hcs
      obtain ⟨more, rfl, hmore⟩ := hcs.mark (by decide)
      obtain ⟨d, rest, rfl, -, hrest⟩ := hmore.cons
      exact .escape (ih hrest)
  | plain hescape hplain _ ih =>
      intro cs' hcs
      obtain ⟨c', more, rfl, hc, hmore⟩ := hcs.cons
      refine .plain ?_ ?_ (ih hmore)
      · rintro rfl
        exact hescape (eq_of_toLower (by decide) hc.symm)
      · rintro rfl
        exact hplain (eq_of_toLower hquote hc.symm)

theorem Spells.closes_of_isLiteral (h : Spells afterValue next? cs l) (hl : l.isLiteral = true) :
    ∃ quote body, cs = quote :: body ∧ (quote = '\'' ∨ quote = '"') ∧
      ∀ rest, Closes quote (body ++ rest) := by
  cases h with
  | comment | shiftLeft | shiftRight | dollar | percent | mark | hexadecimal | binary | numeral |
    shadow => cases hl
  | @literal quote cs _ hquote hcs => exact ⟨quote, cs, rfl, hquote, hcs.closes⟩
  | word _ _ _ => rcases ofWord_cases cs with ⟨k, heq⟩ | heq <;> rw [heq] at hl <;> cases hl

theorem Spells.recased (h : Spells afterValue next? cs l) (hcs : Recased cs cs')
    (hnext : Recased next?.toList next?'.toList) (hl : l.isLiteral = false) :
    ∃ l', Spells afterValue next?' cs' l' ∧ Folds l l' := by
  cases h with
  | comment hnone =>
      subst hnone
      obtain ⟨more, rfl, -⟩ := hcs.mark (by decide)
      exact ⟨_, .comment (Option.toList_eq_nil_iff.mp hnext.nil), rfl⟩
  | shiftLeft =>
      obtain ⟨more, rfl, hmore⟩ := hcs.mark (by decide)
      obtain ⟨rest, rfl, hrest⟩ := hmore.mark (by decide)
      cases hrest.nil
      exact ⟨_, .shiftLeft, rfl⟩
  | shiftRight =>
      obtain ⟨more, rfl, hmore⟩ := hcs.mark (by decide)
      obtain ⟨rest, rfl, hrest⟩ := hmore.mark (by decide)
      cases hrest.nil
      exact ⟨_, .shiftRight, rfl⟩
  | dollar hdigit =>
      obtain ⟨more, rfl, hmore⟩ := hcs.mark (by decide)
      cases hmore.nil
      exact ⟨_, .dollar (hnext.next_eq (caseless_isDigitOf 16) hdigit), rfl⟩
  | percent hdigit =>
      obtain ⟨more, rfl, hmore⟩ := hcs.mark (by decide)
      cases hmore.nil
      refine ⟨_, .percent fun d hd hvalue => ?_, rfl⟩
      exact hnext.next_eq (caseless_isDigitOf 2) (fun e he => hdigit e he hvalue) d hd
  | @mark c p hc hp =>
      have halpha : c.isAlpha = false := by
        have hmarks : (marks.all fun d => !d.isAlpha) = true := by decide
        simpa using List.all_eq_true.mp hmarks c (mem_marks hp)
      obtain ⟨more, rfl, hmore⟩ := hcs.mark halpha
      cases hmore.nil
      exact ⟨_, .mark hc hp, rfl⟩
  | @hexadecimal c run w hc hrun hrest hw =>
      obtain ⟨more, rfl, hmore⟩ := hcs.mark (by decide)
      obtain ⟨c', run', rfl, hc', -⟩ := hmore.cons
      refine ⟨_, .hexadecimal ?_ (hmore.forall_eq caseless_isAlphanum hrun)
        (hnext.next_eq caseless_isAlphanum hrest) ((hmore.word?_eq 16).trans hw), rfl⟩
      rw [(caseless_isDigitOf 16).eq hc', hc]
  | @binary c run w hvalue hc hrun hrest hw =>
      obtain ⟨more, rfl, hmore⟩ := hcs.mark (by decide)
      obtain ⟨c', run', rfl, hc', -⟩ := hmore.cons
      refine ⟨_, .binary hvalue ?_ (hmore.forall_eq caseless_isAlphanum hrun)
        (hnext.next_eq caseless_isAlphanum hrest) ((hmore.word?_eq 2).trans hw), rfl⟩
      rw [(caseless_isDigitOf 2).eq hc', hc]
  | @numeral c run w hc hrun hrest hw =>
      obtain ⟨c', run', rfl, hc', hrun'⟩ := hcs.cons
      refine ⟨_, .numeral ?_ (hrun'.forall_eq caseless_isAlphanum hrun)
        (hnext.next_eq caseless_isAlphanum hrest) ?_, rfl⟩
      · rw [caseless_isDigit.eq hc', hc]
      · rw [← hw, Numeral.ofSpelling?, Numeral.ofSpelling?, hcs]
  | @literal quote _ chars _ _ =>
      rw [isLiteral_ofLiteral] at hl
      cases hl
  | shadow hname haf =>
      obtain ⟨word, last, rfl, hword, hlast⟩ := hcs.append
      obtain ⟨more, rfl, hmore⟩ := hlast.mark (by decide)
      cases hmore.nil
      exact ⟨_, .shadow (hword.isName_eq.trans hname) (Eq.trans hword haf), rfl⟩
  | word hname hrest hshadow =>
      refine ⟨_, .word (hcs.isName_eq.trans hname) (hnext.next_eq caseless_isNameRest hrest) ?_,
        ofWord_recased hcs⟩
      rintro haf rfl
      obtain ⟨more, hquote, hmore⟩ := hnext.symm.mark (by decide)
      cases hmore.nil
      exact hshadow (Eq.trans hcs.symm haf) (by simpa using hquote)

end Lexeme

namespace Token

open Text

variable {next? : Option Char} {afterValue ended : Bool} {column : Nat} {cs cs' : List Char}
  {ts : List Token}

theorem endsValue_folds {l l' : Lexeme} (h : l.Folds l') : l'.endsValue = l.endsValue := by
  have hfolded : ∀ k : Lexeme, (TokenMap.folded.lexeme 0 k).endsValue = k.endsValue := by
    intro k
    cases k <;> rfl
  rw [← hfolded, h, hfolded]

theorem Reads.recased (h : Reads next? afterValue column cs ts ended)
    (hts : ∀ t ∈ ts, t.lexeme.isLiteral = false) :
    ∀ {cs' : List Char}, Recased cs cs' → ∃ us, Reads next? afterValue column cs' us ended ∧
      us.map TokenMap.folded.token = ts.map TokenMap.folded.token := by
  induction h with
  | done =>
      intro cs' hcs
      cases hcs.nil
      exact ⟨[], .done, rfl⟩
  | @blank _ _ _ c _ _ hblank _ ih =>
      intro cs' hcs
      obtain ⟨c', more, rfl, hc, hmore⟩ := hcs.cons
      obtain ⟨us, hus, hfolded⟩ := ih hts hmore
      refine ⟨us, .blank ?_ ?_, hfolded⟩
      · rw [caseless_isBlank.eq hc, hblank]
      · rwa [caseless_utf8Size.eq hc]
  | @token _ _ column used more l ts hspells _ ih =>
      intro cs' hcs
      obtain ⟨hl, hrest⟩ := List.forall_mem_cons.mp hts
      obtain ⟨used', more', rfl, hused, hmore⟩ := hcs.append
      obtain ⟨us, hus, hfolded⟩ := ih hrest hmore
      obtain ⟨l', hspells', hl'⟩ := hspells.recased hused (hmore.head?_or rfl) hl
      refine ⟨⟨l', column⟩ :: us, .token hspells' ?_, ?_⟩
      · rwa [endsValue_folds hl', hused.utf8Len_eq]
      · rw [List.map_cons, List.map_cons, hfolded]
        exact congrArg (fun k => ⟨k, column⟩ :: ts.map TokenMap.folded.token) hl'

structure LiteralBehind (afterValue : Bool) (column : Nat) (cs front : List Char)
    (ts : List Token) : Prop where
  literal : ∃ quote rest ended, cs = front ++ quote :: rest ∧ (quote = '\'' ∨ quote = '"') ∧
    Lexeme.Closes quote rest ∧ Reads (some quote) afterValue column front ts ended

theorem Reads.firstLiteral (h : Reads next? afterValue column cs ts ended) {t : Token}
    (ht : t ∈ ts) (hliteral : t.lexeme.isLiteral = true) :
    ∃ front us, LiteralBehind afterValue column cs front us ∧
      ∀ u ∈ us, u.lexeme.isLiteral = false := by
  induction h with
  | done => cases ht
  | @blank _ _ _ c _ _ hblank _ ih =>
      obtain ⟨front, us, ⟨quote, rest, ended, rfl, hquote, hcloses, hfront⟩, hus⟩ := ih ht
      exact ⟨c :: front, us, ⟨quote, rest, ended, rfl, hquote, hcloses, .blank hblank hfront⟩, hus⟩
  | @token afterValue _ column used more l ts hspells _ ih =>
      by_cases hl : l.isLiteral = true
      · obtain ⟨quote, body, rfl, hquote, hcloses⟩ := hspells.closes_of_isLiteral hl
        exact ⟨[], [], ⟨quote, body ++ more, afterValue, rfl, hquote, hcloses more, .done⟩, by simp⟩
      · have hmem : t ∈ ts := by
          rcases List.mem_cons.mp ht with rfl | hmem
          · exact absurd hliteral hl
          · exact hmem
        obtain ⟨front, us, ⟨quote, rest, ended, rfl, hquote, hcloses, hfront⟩, hus⟩ := ih hmem
        refine ⟨used ++ front, ⟨l, column⟩ :: us,
          ⟨quote, rest, ended, ?_, hquote, hcloses, ?_⟩, ?_⟩
        · rw [List.append_assoc]
        · refine .token ?_ hfront
          rw [List.head?_append, Option.or_assoc] at hspells
          exact hspells
        · exact List.forall_mem_cons.mpr ⟨by simpa using hl, hus⟩

def HoldsLiteral (line : String) : Prop :=
  ∃ front ts, LiteralBehind false 0 line.toList front ts

variable {line line' : String}

theorem isLiteral_of_scanFrom {quote : Char} (hquote : quote = '\'' ∨ quote = '"')
    (h : scanFrom 0 afterValue column (quote :: cs) = .ok ts) :
    ∃ t ∈ ts, t.lexeme.isLiteral = true := by
  have hblank : ¬Text.isBlank quote = true := by
    rcases hquote with rfl | rfl <;> decide
  rw [scanFrom, if_neg hblank] at h
  obtain ⟨⟨l, n⟩, hl, h⟩ := bind_eq_ok.mp h
  obtain ⟨us, -, h⟩ := bind_eq_ok.mp h
  cases h
  rw [Lexeme.scan_quote hquote] at hl
  obtain ⟨⟨chars, k⟩, -, hl⟩ := bind_eq_ok.mp hl
  cases hl
  exact ⟨_, List.mem_cons_self .., Lexeme.isLiteral_ofLiteral quote chars⟩

theorem holdsLiteral_iff (h : scan line = .ok ts) :
    HoldsLiteral line ↔ ∃ t ∈ ts, t.lexeme.isLiteral = true := by
  constructor
  · rintro ⟨front, us, quote, rest, ended, hline, hquote, -, hfront⟩
    have hnext : Reads (quote :: rest).head? false 0 front us ended := hfront
    rw [scan, hline, hnext.scanFrom_eq] at h
    obtain ⟨vs, hvs, h⟩ := bind_eq_ok.mp h
    cases h
    obtain ⟨t, ht, hliteral⟩ := isLiteral_of_scanFrom hquote hvs
    exact ⟨t, List.mem_append_right us ht, hliteral⟩
  · rintro ⟨t, ht, hliteral⟩
    obtain ⟨ended, hreads⟩ := reads_of_scanFrom h
    obtain ⟨front, us, hbehind, -⟩ := hreads.firstLiteral ht hliteral
    exact ⟨front, us, hbehind⟩

theorem HoldsLiteral.of_recased (hcase : Recased line.toList line'.toList)
    (h : scan line' = .ok ts) {t : Token} (ht : t ∈ ts) (hliteral : t.lexeme.isLiteral = true) :
    HoldsLiteral line := by
  obtain ⟨ended, hreads⟩ := reads_of_scanFrom h
  obtain ⟨front, us, ⟨quote, rest, ended', hline, hquote, hcloses, hfront⟩, hus⟩ :=
    hreads.firstLiteral ht hliteral
  have hmark : quote.isAlpha = false := by rcases hquote with rfl | rfl <;> rfl
  have hsymm := hcase.symm
  rw [hline] at hsymm
  obtain ⟨front', more, hline', hcase', hmore⟩ := hsymm.append
  obtain ⟨rest', rfl, hrest⟩ := hmore.mark hmark
  obtain ⟨us', hfront', -⟩ := hfront.recased hus hcase'
  exact ⟨front', us', quote, rest', ended', hline', hquote, hcloses.recased hmark hrest, hfront'⟩

theorem scan_of_recased (hcase : Recased line.toList line'.toList)
    (h : scan line = .ok ts) (hts : ∀ t ∈ ts, t.lexeme.isLiteral = false) :
    ∃ us, scan line' = .ok us ∧ us.map TokenMap.folded.token = ts.map TokenMap.folded.token := by
  obtain ⟨ended, hreads⟩ := reads_of_scanFrom h
  obtain ⟨us, hus, hfolded⟩ := hreads.recased hts hcase
  exact ⟨us, hus.scanFrom_ok, hfolded⟩

end Token

namespace Line

variable {line line' : String}

theorem parse_recased (hcase : Text.Recased line.toList line'.toList)
    (hline : ¬Token.HoldsLiteral line) :
    Corresponds (fun l l' => TokenMap.folded.line l' = TokenMap.folded.line l) (parse line)
      (parse line') := by
  unfold parse
  cases hscan : Token.scan line with
  | ok ts =>
      have hts : ∀ t ∈ ts, t.lexeme.isLiteral = false := by
        simpa [Token.holdsLiteral_iff hscan] using hline
      obtain ⟨us, hus, hfolded⟩ := Token.scan_of_recased hcase hscan hts
      rw [hus]
      exact ofTokens_corresponds TokenMap.folded hfolded
  | error fault =>
      cases hscan' : Token.scan line' with
      | error fault' => exact .error rfl
      | ok us =>
          -- Either line would have the tokens of the other, or both would hold a literal.
          by_cases hus : ∀ t ∈ us, t.lexeme.isLiteral = false
          · obtain ⟨ts, hts, -⟩ := Token.scan_of_recased hcase.symm hscan' hus
            rw [hscan] at hts
            cases hts
          · push Not at hus
            obtain ⟨t, ht, hliteral⟩ := hus
            refine absurd (Token.HoldsLiteral.of_recased hcase hscan' ht ?_) hline
            simpa using hliteral

end Line

end Z80
