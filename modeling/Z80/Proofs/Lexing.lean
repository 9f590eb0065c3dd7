import Mathlib
import Z80.Proofs.Evaluation
import Z80.Proofs.Scanning

namespace Z80

theorem exists_takeWhile {α : Type} (p : α → Bool) (xs : List α) :
    ∃ rest, xs = xs.takeWhile p ++ rest ∧ ∀ x ∈ rest.head?, p x = false := by
  refine ⟨xs.dropWhile p, List.takeWhile_append_dropWhile.symm, ?_⟩
  intro x hx
  have := List.head?_dropWhile_not p xs
  rw [hx] at this
  simpa using this

theorem Numeral.isAlphanum_of_isDigit {radix : Nat} {c : Char} (h : isDigit radix c = true) :
    c.isAlphanum = true := by
  have hvalue : digitValue? c ≠ none := by
    intro hnone
    simp [isDigit, digit?, hnone] at h
  have hrange : c.isDigit = true ∨ (97 ≤ c.toNat ∧ c.toNat ≤ 102) ∨
      (65 ≤ c.toNat ∧ c.toNat ≤ 70) := by
    by_contra hnone
    simp only [not_or] at hnone
    exact hvalue (by simp [digitValue?, hnone])
  simp only [Char.isAlphanum, Char.isAlpha, Char.isUpper, Char.isLower, Bool.or_eq_true,
    Bool.and_eq_true, decide_eq_true_eq, UInt32.le_iff_toNat_le]
  change ((65 ≤ c.toNat ∧ c.toNat ≤ 90) ∨ (97 ≤ c.toNat ∧ c.toNat ≤ 122)) ∨ _
  rcases hrange with hdigit | h | h
  · exact .inr hdigit
  · omega
  · omega

namespace Lexeme

inductive Literal (quote : Char) : List Char → List Char → Prop
  | close : Literal quote [quote] []
  | escape {d e : Char} {cs chars : List Char} : unescape d = .ok e → Literal quote cs chars →
      Literal quote ('\\' :: d :: cs) (e :: chars)
  | plain {c : Char} {cs chars : List Char} : c ≠ '\\' → c ≠ quote → Literal quote cs chars →
      Literal quote (c :: cs) (c :: chars)

section Literals

variable {quote : Char} {cs chars : List Char} {n : Nat}

theorem literal_of_close (hquote : quote ≠ '\\') (rest : List Char) :
    literal quote (quote :: rest) = .ok ([], 1) := by
  cases rest <;> simp [literal, hquote]

theorem literal_of_plain {c : Char} (hescape : c ≠ '\\') (hquote : c ≠ quote) (rest : List Char) :
    literal quote (c :: rest) = (do
      let (chars, n) ← literal quote rest
      return (c :: chars, n + 1)) := by
  cases rest with
  | nil => simp [literal, hescape, hquote, bind, Except.bind]
  | cons d rest => simp [literal, hescape, hquote]

theorem Literal.literal_eq (h : Literal quote cs chars) (hquote : quote ≠ '\\') (rest : List Char) :
    literal quote (cs ++ rest) = .ok (chars, cs.length) := by
  induction h with
  | close => exact literal_of_close hquote rest
  | escape hd _ ih => simp [literal, hd, ih, bind, Except.bind, pure, Except.pure]
  | plain hescape hplain _ ih =>
      rw [List.cons_append, literal_of_plain hescape hplain, ih]
      rfl

theorem literal_of_eq_ok (h : literal quote cs = .ok (chars, n)) :
    ∃ more rest, cs = more ++ rest ∧ n = more.length ∧ Literal quote more chars := by
  fun_induction literal quote cs generalizing chars n with
  | case1 => cases h
  | case2 => cases h
  | case3 c hescape hclose =>
      cases h
      cases beq_iff_eq.mp hclose
      exact ⟨[quote], [], rfl, rfl, .close⟩
  | case4 => cases h
  | case5 c d cs hescape ih =>
      obtain ⟨e, he, h⟩ := bind_eq_ok.mp h
      obtain ⟨⟨inner, m⟩, hinner, h⟩ := bind_eq_ok.mp h
      cases h
      obtain ⟨more, rest, rfl, rfl, hmore⟩ := ih hinner
      cases beq_iff_eq.mp hescape
      exact ⟨'\\' :: d :: more, rest, rfl, rfl, .escape he hmore⟩
  | case6 c d cs hescape hclose =>
      cases h
      cases beq_iff_eq.mp hclose
      exact ⟨[quote], d :: cs, rfl, rfl, .close⟩
  | case7 c d cs hescape hclose ih =>
      obtain ⟨⟨inner, m⟩, hinner, h⟩ := bind_eq_ok.mp h
      cases h
      obtain ⟨more, rest, hcs, rfl, hmore⟩ := ih hinner
      refine ⟨c :: more, rest, by rw [hcs]; rfl, rfl, .plain ?_ ?_ hmore⟩
      · simpa using hescape
      · simpa using hclose

end Literals

inductive Spells (afterValue : Bool) (next? : Option Char) : List Char → Lexeme → Prop
  | comment {cs : List Char} : next? = none →
      Spells afterValue next? (';' :: cs) (comment (String.ofList cs))
  | shiftLeft : Spells afterValue next? ['<', '<'] (punct .shiftLeft)
  | shiftRight : Spells afterValue next? ['>', '>'] (punct .shiftRight)
  | dollar : (∀ d ∈ next?, Numeral.isDigit 16 d = false) →
      Spells afterValue next? ['$'] (punct .dollar)
  | percent : (∀ d ∈ next?, afterValue = false → Numeral.isDigit 2 d = false) →
      Spells afterValue next? ['%'] (punct .percent)
  | mark {c : Char} {p : Punct} : c ≠ '%' → Punct.ofChar? c = some p →
      Spells afterValue next? [c] (punct p)
  | hexadecimal {c : Char} {run : List Char} {w : UInt32} : Numeral.isDigit 16 c = true →
      (∀ d ∈ c :: run, d.isAlphanum = true) → (∀ d ∈ next?, d.isAlphanum = false) →
      Numeral.word? 16 (c :: run) = some w →
      Spells afterValue next? ('$' :: c :: run)
        (number (String.ofList ('$' :: c :: run)) w.toInt32)
  | binary {c : Char} {run : List Char} {w : UInt32} : afterValue = false →
      Numeral.isDigit 2 c = true →
      (∀ d ∈ c :: run, d.isAlphanum = true) → (∀ d ∈ next?, d.isAlphanum = false) →
      Numeral.word? 2 (c :: run) = some w →
      Spells afterValue next? ('%' :: c :: run)
        (number (String.ofList ('%' :: c :: run)) w.toInt32)
  | numeral {c : Char} {run : List Char} {w : UInt32} : c.isDigit = true →
      (∀ d ∈ run, d.isAlphanum = true) → (∀ d ∈ next?, d.isAlphanum = false) →
      Numeral.ofSpelling? (c :: run) = some w →
      Spells afterValue next? (c :: run) (number (String.ofList (c :: run)) w.toInt32)
  | literal {quote : Char} {cs chars : List Char} : quote = '\'' ∨ quote = '"' →
      Literal quote cs chars → Spells afterValue next? (quote :: cs) (ofLiteral quote chars)
  | shadow {cs : List Char} : Text.isName cs = true → cs.map Char.toLower = ['a', 'f'] →
      Spells afterValue next? (cs ++ ['\'']) (keyword .afShadow)
  | word {cs : List Char} : Text.isName cs = true → (∀ d ∈ next?, Text.isNameRest d = false) →
      (cs.map Char.toLower = ['a', 'f'] → next? ≠ some '\'') →
      Spells afterValue next? cs (ofWord cs)

section Scanning

variable {afterValue : Bool} {column n : Nat} {c : Char} {cs more rest : List Char} {l : Lexeme}

theorem ofNumber_ok {spelling : List Char} {value : Option UInt32} {r : Lexeme × Nat}
    (h : (do
      let lexeme ← ofNumber spelling value
      return (lexeme, n)) = .ok r) :
    ∃ w, value = some w ∧ r = (number (String.ofList spelling) w.toInt32, n) := by
  obtain ⟨l, hl, h⟩ := bind_eq_ok.mp h
  cases value with
  | none => cases hl
  | some w =>
      cases hl
      cases h
      exact ⟨w, rfl, rfl⟩

theorem startsWith_eq_true {p : Char → Bool} :
    startsWith p cs = true ↔ ∃ d more, cs = d :: more ∧ p d = true := by
  cases cs <;> simp [startsWith]

theorem startsWith_eq_false {p : Char → Bool} :
    startsWith p cs = false ↔ ∀ d ∈ cs.head?, p d = false := by
  cases cs <;> simp [startsWith]

theorem exists_numberRun (cs : List Char) : ∃ rest, cs = numberRun cs ++ rest ∧
    (∀ d ∈ numberRun cs, d.isAlphanum = true) ∧ ∀ d ∈ rest.head?, d.isAlphanum = false := by
  obtain ⟨rest, hcs, hrest⟩ := exists_takeWhile Char.isAlphanum cs
  exact ⟨rest, hcs, fun d hd => List.mem_takeWhile_imp hd, hrest⟩

theorem numberRun_eq (hmore : ∀ d ∈ more, d.isAlphanum = true)
    (hrest : ∀ d ∈ rest.head?, d.isAlphanum = false) : numberRun (more ++ rest) = more :=
  takeWhile_append_stop hmore hrest

theorem numberRun_of_digit {radix : Nat} {d : Char} (hd : Numeral.isDigit radix d = true)
    (cs : List Char) : numberRun (d :: cs) = d :: numberRun cs :=
  List.takeWhile_cons_of_pos (Numeral.isAlphanum_of_isDigit hd)

theorem scan_dollar (afterValue : Bool) (column : Nat) (cs : List Char) :
    scan afterValue column '$' cs =
      if startsWith (Numeral.isDigit 16) cs then do
        let lexeme ← ofNumber ('$' :: numberRun cs) (Numeral.word? 16 (numberRun cs))
        return (lexeme, (numberRun cs).length)
      else .ok (punct .dollar, 0) :=
  rfl

theorem scan_percent (afterValue : Bool) (column : Nat) (cs : List Char) :
    scan afterValue column '%' cs =
      if !afterValue && startsWith (Numeral.isDigit 2) cs then do
        let lexeme ← ofNumber ('%' :: numberRun cs) (Numeral.word? 2 (numberRun cs))
        return (lexeme, (numberRun cs).length)
      else .ok (punct .percent, 0) :=
  rfl

theorem scan_mark {p : Punct} (hc : c ≠ '%') (hp : Punct.ofChar? c = some p) (afterValue : Bool)
    (column : Nat) (cs : List Char) : scan afterValue column c cs = .ok (punct p, 0) := by
  have hother : c ≠ ';' ∧ c ≠ '<' ∧ c ≠ '>' ∧ c ≠ '$' := by
    refine ⟨?_, ?_, ?_, ?_⟩ <;>
    · rintro rfl
      cases hp
  simp [scan, hother, hc, hp]

theorem scan_quote (hc : c = '\'' ∨ c = '"') (afterValue : Bool) (column : Nat) (cs : List Char) :
    scan afterValue column c cs = (do
      let (chars, n) ← literal c cs
      return (ofLiteral c chars, n)) := by
  rcases hc with rfl | rfl <;> rfl

inductive Starts : Char → List Char → Prop
  | comment (cs : List Char) : Starts ';' cs
  | shiftLeft (cs : List Char) : Starts '<' ('<' :: cs)
  | shiftRight (cs : List Char) : Starts '>' ('>' :: cs)
  | dollar (cs : List Char) : Starts '$' cs
  | percent (cs : List Char) : Starts '%' cs
  | mark {c : Char} {p : Punct} (cs : List Char) : c ≠ '%' → Punct.ofChar? c = some p → Starts c cs
  | digit {c : Char} (cs : List Char) : c.isDigit = true → Starts c cs
  | quote {c : Char} (cs : List Char) : c = '\'' ∨ c = '"' → Starts c cs
  | word {c : Char} (cs : List Char) : Text.isNameStart c = true → Starts c cs

theorem starts_of_scan {r : Lexeme × Nat} (h : scan afterValue column c cs = .ok r) :
    Starts c cs := by
  by_cases hpercent : c = '%'
  · subst hpercent
    exact .percent cs
  unfold scan at h
  split at h
  case isTrue hcomment =>
    cases beq_iff_eq.mp hcomment
    exact .comment cs
  split at h
  case isTrue hshift =>
    obtain ⟨hfirst, hcs⟩ := Bool.and_eq_true_iff.mp hshift
    obtain ⟨d, rest, rfl, hd⟩ := startsWith_eq_true.mp hcs
    cases beq_iff_eq.mp hfirst
    cases beq_iff_eq.mp hd
    exact .shiftLeft rest
  split at h
  case isTrue hshift =>
    obtain ⟨hfirst, hcs⟩ := Bool.and_eq_true_iff.mp hshift
    obtain ⟨d, rest, rfl, hd⟩ := startsWith_eq_true.mp hcs
    cases beq_iff_eq.mp hfirst
    cases beq_iff_eq.mp hd
    exact .shiftRight rest
  split at h
  case isTrue hdollar =>
    cases beq_iff_eq.mp hdollar
    exact .dollar cs
  rw [if_neg (by simp [hpercent])] at h
  cases hmark : Punct.ofChar? c with
  | some p => exact .mark cs hpercent hmark
  | none =>
      simp only [hmark] at h
      split at h
      case isTrue hdigit => exact .digit cs hdigit
      split at h
      case isTrue hquote => exact .quote cs (by simpa using hquote)
      split at h
      case isTrue hstart => exact .word cs hstart
      cases h

def Spelled (afterValue : Bool) (c : Char) (cs : List Char) (l : Lexeme) (n : Nat) : Prop :=
  ∃ more rest, cs = more ++ rest ∧ n = more.length ∧ Spells afterValue rest.head? (c :: more) l

theorem spelled_comment (h : scan afterValue column ';' cs = .ok (l, n)) :
    Spelled afterValue ';' cs l n := by
  cases h
  exact ⟨cs, [], by simp, rfl, .comment rfl⟩

theorem spelled_shiftLeft (h : scan afterValue column '<' ('<' :: cs) = .ok (l, n)) :
    Spelled afterValue '<' ('<' :: cs) l n := by
  cases h
  exact ⟨['<'], cs, rfl, rfl, .shiftLeft⟩

theorem spelled_shiftRight (h : scan afterValue column '>' ('>' :: cs) = .ok (l, n)) :
    Spelled afterValue '>' ('>' :: cs) l n := by
  cases h
  exact ⟨['>'], cs, rfl, rfl, .shiftRight⟩

theorem exists_digits {radix : Nat} (h : startsWith (Numeral.isDigit radix) cs = true) :
    ∃ d run rest, cs = d :: run ++ rest ∧ numberRun cs = d :: run ∧
      Numeral.isDigit radix d = true ∧ (∀ x ∈ d :: run, x.isAlphanum = true) ∧
      ∀ x ∈ rest.head?, x.isAlphanum = false := by
  obtain ⟨d, tail, rfl, hd⟩ := startsWith_eq_true.mp h
  obtain ⟨rest, htail, hrun, hrest⟩ := exists_numberRun tail
  refine ⟨d, numberRun tail, rest, by rw [List.cons_append, ← htail],
    numberRun_of_digit hd tail, hd, ?_, hrest⟩
  exact List.forall_mem_cons.mpr ⟨Numeral.isAlphanum_of_isDigit hd, hrun⟩

theorem spelled_dollar (h : scan afterValue column '$' cs = .ok (l, n)) :
    Spelled afterValue '$' cs l n := by
  rw [scan_dollar] at h
  split at h
  case isTrue hdigit =>
    obtain ⟨d, run, rest, hcs, hrun, hd, hall, hrest⟩ := exists_digits hdigit
    rw [hrun] at h
    obtain ⟨w, hw, heq⟩ := ofNumber_ok h
    cases heq
    exact ⟨d :: run, rest, hcs, rfl, .hexadecimal hd hall hrest hw⟩
  case isFalse hdigit =>
    cases h
    exact ⟨[], cs, rfl, rfl, .dollar (startsWith_eq_false.mp (by simpa using hdigit))⟩

theorem spelled_percent (h : scan afterValue column '%' cs = .ok (l, n)) :
    Spelled afterValue '%' cs l n := by
  rw [scan_percent] at h
  split at h
  case isTrue hbinary =>
    obtain ⟨hvalue, hdigit⟩ := Bool.and_eq_true_iff.mp hbinary
    obtain ⟨d, run, rest, hcs, hrun, hd, hall, hrest⟩ := exists_digits hdigit
    rw [hrun] at h
    obtain ⟨w, hw, heq⟩ := ofNumber_ok h
    cases heq
    exact ⟨d :: run, rest, hcs, rfl, .binary (by simpa using hvalue) hd hall hrest hw⟩
  case isFalse hbinary =>
    cases h
    refine ⟨[], cs, rfl, rfl, .percent fun d hd hvalue => ?_⟩
    rw [hvalue] at hbinary
    exact startsWith_eq_false.mp (by simpa using hbinary) d hd

theorem spelled_mark {p : Punct} (hc : c ≠ '%') (hp : Punct.ofChar? c = some p)
    (h : scan afterValue column c cs = .ok (l, n)) : Spelled afterValue c cs l n := by
  rw [scan_mark hc hp] at h
  cases h
  exact ⟨[], cs, rfl, rfl, .mark hc hp⟩

theorem spelled_digit (hc : c.isDigit = true) (h : scan afterValue column c cs = .ok (l, n)) :
    Spelled afterValue c cs l n := by
  rw [scan_digit hc] at h
  obtain ⟨w, hw, heq⟩ := ofNumber_ok h
  cases heq
  obtain ⟨rest, hcs, hrun, hrest⟩ := exists_numberRun cs
  exact ⟨numberRun cs, rest, hcs, rfl, .numeral hc hrun hrest hw⟩

theorem spelled_quote (hc : c = '\'' ∨ c = '"') (h : scan afterValue column c cs = .ok (l, n)) :
    Spelled afterValue c cs l n := by
  rw [scan_quote hc] at h
  obtain ⟨⟨chars, m⟩, hliteral, heq⟩ := bind_eq_ok.mp h
  cases heq
  obtain ⟨more, rest, rfl, rfl, hmore⟩ := literal_of_eq_ok hliteral
  exact ⟨more, rest, rfl, rfl, .literal hc hmore⟩

theorem spelled_word (hc : Text.isNameStart c = true)
    (h : scan afterValue column c cs = .ok (l, n)) : Spelled afterValue c cs l n := by
  obtain ⟨rest, hcs, hrest⟩ := exists_takeWhile Text.isNameRest cs
  have hdrop : cs.drop (cs.takeWhile Text.isNameRest).length = rest := by
    nth_rewrite 2 [hcs]
    exact List.drop_left
  have hname : Text.isName (c :: cs.takeWhile Text.isNameRest) = true := by
    rw [Text.isName, hc, Bool.true_and, List.all_eq_true]
    exact fun d hd => List.mem_takeWhile_imp hd
  simp only [scan_nameStart hc, hdrop] at h
  split at h
  case isTrue hshadow =>
    obtain ⟨haf, hquote⟩ := Bool.and_eq_true_iff.mp hshadow
    obtain ⟨d, tail, rfl, hd⟩ := startsWith_eq_true.mp hquote
    cases beq_iff_eq.mp hd
    cases h
    refine ⟨cs.takeWhile Text.isNameRest ++ ['\''], tail, ?_, by simp, ?_⟩
    · nth_rewrite 1 [hcs]
      simp
    · exact .shadow hname (beq_iff_eq.mp haf)
  case isFalse hshadow =>
    cases h
    refine ⟨cs.takeWhile Text.isNameRest, rest, hcs, rfl, .word hname hrest ?_⟩
    intro haf hquote
    obtain ⟨tail, rfl⟩ := List.head?_eq_some_iff.mp hquote
    exact hshadow (by rw [haf]; rfl)

theorem spells_of_scan (h : scan afterValue column c cs = .ok (l, n)) :
    Spelled afterValue c cs l n := by
  cases starts_of_scan h with
  | comment => exact spelled_comment h
  | shiftLeft => exact spelled_shiftLeft h
  | shiftRight => exact spelled_shiftRight h
  | dollar => exact spelled_dollar h
  | percent => exact spelled_percent h
  | mark _ hc hp => exact spelled_mark hc hp h
  | digit _ hc => exact spelled_digit hc h
  | quote _ hc => exact spelled_quote hc h
  | word _ hc => exact spelled_word hc h

theorem mem_marks {p : Punct} (hp : Punct.ofChar? c = some p) : c ∈ marks := by
  by_contra hmem
  rw [ofChar?_of_not_mem hmem] at hp
  cases hp

theorem isBlank_of_mark {p : Punct} (hp : Punct.ofChar? c = some p) : Text.isBlank c = false := by
  have hmarks : (marks.all fun d => !Text.isBlank d) = true := by decide
  simpa using List.all_eq_true.mp hmarks c (mem_marks hp)

theorem text_of_mark {p : Punct} (hp : Punct.ofChar? c = some p) : p.text.toList = [c] := by
  have hmarks : (marks.all fun d => (Punct.ofChar? d).all fun p => p.text.toList == [d]) = true := by
    decide
  simpa [hp] using List.all_eq_true.mp hmarks c (mem_marks hp)

theorem Spells.scan_eq (h : Spells afterValue rest.head? cs l) :
    ∃ c more, cs = c :: more ∧ Text.isBlank c = false ∧
      ∀ column, scan afterValue column c (more ++ rest) = .ok (l, more.length) := by
  cases h with
  | @comment cs hnext =>
      cases List.head?_eq_none_iff.mp hnext
      exact ⟨';', cs, rfl, rfl, fun column => by simp [scan]⟩
  | shiftLeft => exact ⟨'<', ['<'], rfl, rfl, fun column => rfl⟩
  | shiftRight => exact ⟨'>', ['>'], rfl, rfl, fun column => rfl⟩
  | dollar hnext =>
      refine ⟨'$', [], rfl, rfl, fun column => ?_⟩
      rw [List.nil_append, scan_dollar, startsWith_eq_false.mpr hnext]
      rfl
  | percent hnext =>
      refine ⟨'%', [], rfl, rfl, fun column => ?_⟩
      rw [List.nil_append, scan_percent]
      cases afterValue with
      | true => rfl
      | false =>
          rw [startsWith_eq_false.mpr fun d hd => hnext d hd rfl]
          rfl
  | @mark c p hc hp => exact ⟨c, [], rfl, isBlank_of_mark hp, fun column => scan_mark hc hp ..⟩
  | @hexadecimal d run w hd hrun hnext hw =>
      refine ⟨'$', d :: run, rfl, rfl, fun column => ?_⟩
      have hdigit : startsWith (Numeral.isDigit 16) (d :: run ++ rest) = true := hd
      rw [scan_dollar, hdigit, numberRun_eq hrun hnext, hw]
      rfl
  | @binary d run w hvalue hd hrun hnext hw =>
      refine ⟨'%', d :: run, rfl, rfl, fun column => ?_⟩
      have hdigit : startsWith (Numeral.isDigit 2) (d :: run ++ rest) = true := hd
      rw [scan_percent, hvalue, hdigit, numberRun_eq hrun hnext, hw]
      rfl
  | @numeral c run w hc hrun hnext hw =>
      refine ⟨c, run, rfl, ?_, fun column => ?_⟩
      · exact Text.not_isBlank (by simp [Text.isNameRest_eq, hc])
      · rw [scan_digit hc, numberRun_eq hrun hnext, hw]
        rfl
  | @literal quote cs chars hquote hcs =>
      refine ⟨quote, cs, rfl, ?_, fun column => ?_⟩
      · rcases hquote with rfl | rfl <;> rfl
      · have hliteral := hcs.literal_eq (by rcases hquote with rfl | rfl <;> decide) rest
        rw [scan_quote hquote, hliteral]
        rfl
  | @shadow cs hname haf =>
      cases cs with
      | nil => cases hname
      | cons c more =>
          obtain ⟨hc, hmore⟩ := Bool.and_eq_true_iff.mp hname
          refine ⟨c, more ++ ['\''], rfl, ?_, fun column => ?_⟩
          · exact Text.not_isBlank (Text.isNameRest_of_isName hname c (List.mem_cons_self ..))
          · have hrun : (more ++ '\'' :: rest).takeWhile Text.isNameRest = more :=
              takeWhile_append_stop (List.all_eq_true.mp hmore) (by simp [Text.isNameRest])
            simp [scan_nameStart hc, hrun, haf, startsWith]
  | @word cs hname hnext hshadow =>
      cases cs with
      | nil => cases hname
      | cons c more =>
          obtain ⟨hc, hmore⟩ := Bool.and_eq_true_iff.mp hname
          refine ⟨c, more, rfl, ?_, fun column => ?_⟩
          · exact Text.not_isBlank (Text.isNameRest_of_isName hname c (List.mem_cons_self ..))
          · have hrun : (more ++ rest).takeWhile Text.isNameRest = more :=
              takeWhile_append_stop (List.all_eq_true.mp hmore) hnext
            have hplain : ((c :: more).map Char.toLower == ['a', 'f'] &&
                startsWith (· == '\'') rest) = false := by
              rw [Bool.and_eq_false_iff, beq_eq_false_iff_ne, startsWith_eq_false]
              by_cases haf : (c :: more).map Char.toLower = ['a', 'f']
              · right
                intro d hd
                rw [beq_eq_false_iff_ne]
                rintro rfl
                exact hshadow haf hd
              · exact .inl haf
            simp only [scan_nameStart hc, hrun, List.drop_left, hplain]
            rfl

end Scanning

section Neighbours

variable {afterValue : Bool} {next? next?' : Option Char} {cs : List Char} {l : Lexeme}

theorem ofLiteral_cases (quote : Char) (chars : List Char) :
    (∃ c, quote = '\'' ∧ chars = [c] ∧ ofLiteral quote chars = char c) ∨
      ofLiteral quote chars = text (String.ofList chars) := by
  unfold ofLiteral
  split
  · next c =>
      split
      · next hquote => exact .inl ⟨c, beq_iff_eq.mp hquote, rfl, rfl⟩
      · exact .inr (by simp [Char.toString])
  · exact .inr rfl

theorem ofWord_cases (word : List Char) :
    (∃ k, ofWord word = keyword k) ∨ ofWord word = name (String.ofList word) := by
  unfold ofWord
  split
  · next k _ => exact .inl ⟨k, rfl⟩
  · exact .inr rfl

theorem ofWord_eq_name {word : List Char} {s : String} (h : ofWord word = name s) :
    s = String.ofList word ∧ Keyword.ofName? s = none := by
  unfold ofWord at h
  split at h
  · cases h
  · next hkeyword =>
      cases h
      exact ⟨rfl, hkeyword⟩

theorem Spells.ne_nil (h : Spells afterValue next? cs l) : cs ≠ [] := by
  cases h with
  | word hname _ _ =>
      rintro rfl
      cases hname
  | comment | shiftLeft | shiftRight | dollar | percent | mark | hexadecimal | binary | numeral |
    literal | shadow => simp

theorem Spells.last (h : Spells afterValue next? cs l) {s : String}
    (hl : l = Lexeme.comment s) :
    next? = none := by
  cases h with
  | comment hnext => exact hnext
  | shiftLeft | shiftRight | dollar | percent | mark | hexadecimal | binary | numeral | shadow =>
      cases hl
  | @literal quote _ chars _ _ =>
      rcases ofLiteral_cases quote chars with ⟨c, -, -, heq⟩ | heq <;> rw [heq] at hl <;> cases hl
  | word _ _ _ =>
      rcases ofWord_cases cs with ⟨k, heq⟩ | heq <;> rw [heq] at hl <;> cases hl

theorem Spells.of_name (h : Spells afterValue next? cs l) {s : String} (hl : l = name s) :
    Text.isName cs = true ∧ (∀ d ∈ next?, Text.isNameRest d = false) ∧ ofWord cs = name s := by
  cases h with
  | comment | shiftLeft | shiftRight | dollar | percent | mark | hexadecimal | binary | numeral |
    shadow => cases hl
  | @literal quote _ chars _ _ =>
      rcases ofLiteral_cases quote chars with ⟨c, -, -, heq⟩ | heq <;> rw [heq] at hl <;> cases hl
  | word hname hnext _ => exact ⟨hname, hnext, hl⟩

theorem Spells.before (h : Spells afterValue next? cs l)
    (hlast : (∃ s, l = Lexeme.comment s) → next?' = none)
    (hbreak : ∀ d ∈ next?', Text.isNameRest d = false ∧ d ≠ '\'') :
    Spells afterValue next?' cs l := by
  have hrun : ∀ d ∈ next?', d.isAlphanum = false := by
    intro d hd
    have hrest := (hbreak d hd).1
    simp only [Text.isNameRest, Bool.or_eq_false_iff] at hrest
    exact hrest.1.1
  have hdigit : ∀ radix, ∀ d ∈ next?', Numeral.isDigit radix d = false := by
    intro radix d hd
    rw [Bool.eq_false_iff]
    intro hdigit
    have := hrun d hd
    rw [Numeral.isAlphanum_of_isDigit hdigit] at this
    cases this
  cases h with
  | comment _ => exact .comment (hlast ⟨_, rfl⟩)
  | shiftLeft => exact .shiftLeft
  | shiftRight => exact .shiftRight
  | dollar _ => exact .dollar (hdigit 16)
  | percent _ => exact .percent fun d hd _ => hdigit 2 d hd
  | mark hc hp => exact .mark hc hp
  | hexadecimal hd hall _ hw => exact .hexadecimal hd hall hrun hw
  | binary hvalue hd hall _ hw => exact .binary hvalue hd hall hrun hw
  | numeral hc hall _ hw => exact .numeral hc hall hrun hw
  | literal hquote hcs => exact .literal hquote hcs
  | shadow hname haf => exact .shadow hname haf
  | word hname _ _ =>
      exact .word hname (fun d hd => (hbreak d hd).1) fun _ hquote => (hbreak _ hquote).2 rfl

end Neighbours

end Lexeme

namespace Token

inductive Reads (next? : Option Char) : Bool → Nat → List Char → List Token → Bool → Prop
  | done {afterValue : Bool} {column : Nat} : Reads next? afterValue column [] [] afterValue
  | blank {afterValue ended : Bool} {column : Nat} {c : Char} {cs : List Char} {ts : List Token} :
      Text.isBlank c = true → Reads next? afterValue (column + c.utf8Size) cs ts ended →
      Reads next? afterValue column (c :: cs) ts ended
  | token {afterValue ended : Bool} {column : Nat} {cs more : List Char} {l : Lexeme}
      {ts : List Token} :
      l.Spells afterValue (more.head?.or next?) cs →
      Reads next? l.endsValue (column + String.utf8Len cs) more ts ended →
      Reads next? afterValue column (cs ++ more) (⟨l, column⟩ :: ts) ended

variable {next? : Option Char} {afterValue ended : Bool} {column : Nat} {cs rest : List Char}
  {ts : List Token} {l : Lexeme}

theorem scanFrom_spelled (h : l.Spells afterValue rest.head? cs) (column : Nat) :
    scanFrom 0 afterValue column (cs ++ rest) = (do
      let ts ← scanFrom 0 l.endsValue (column + String.utf8Len cs) rest
      return ⟨l, column⟩ :: ts) := by
  obtain ⟨c, more, rfl, hblank, hscan⟩ := h.scan_eq
  have hcolumn : column + String.utf8Len (c :: more) =
      column + c.utf8Size + String.utf8Len more := by
    rw [String.utf8Len_cons]
    omega
  rw [hcolumn, ← scanFrom_skip]
  simp [scanFrom, hblank, hscan, bind, Except.bind]

theorem Reads.scanFrom_eq (h : Reads rest.head? afterValue column cs ts ended) :
    scanFrom 0 afterValue column (cs ++ rest) = (do
      let us ← scanFrom 0 ended (column + String.utf8Len cs) rest
      return ts ++ us) := by
  induction h with
  | done => simp
  | @blank afterValue ended column c cs ts hblank _ ih =>
      have hcolumn : column + String.utf8Len (c :: cs) =
          column + c.utf8Size + String.utf8Len cs := by
        rw [String.utf8Len_cons]
        omega
      rw [List.cons_append, scanFrom, if_pos hblank, ih, hcolumn]
  | @token afterValue ended column cs more l ts hspells _ ih =>
      have hfirst : l.Spells afterValue (more ++ rest).head? cs := by
        rwa [List.head?_append]
      rw [List.append_assoc, scanFrom_spelled hfirst, ih, String.utf8Len_append, bind_assoc,
        Nat.add_assoc]
      simp

theorem Reads.scanFrom_ok (h : Reads none afterValue column cs ts ended) :
    scanFrom 0 afterValue column cs = .ok ts := by
  have hnil : Reads ([] : List Char).head? afterValue column cs ts ended := h
  simpa [scanFrom, bind, Except.bind, pure, Except.pure] using hnil.scanFrom_eq

theorem reads_of_scanFrom (h : scanFrom 0 afterValue column cs = .ok ts) :
    ∃ ended, Reads none afterValue column cs ts ended := by
  -- A token takes at least one character, so the characters behind it are fewer.
  induction hn : cs.length using Nat.strong_induction_on generalizing afterValue column cs ts with
  | _ n ih =>
  subst hn
  cases cs with
  | nil =>
      cases h
      exact ⟨afterValue, .done⟩
  | cons c cs =>
      rw [scanFrom] at h
      split at h
      · next hblank =>
          obtain ⟨ended, hreads⟩ := ih cs.length (by simp) h rfl
          exact ⟨ended, .blank hblank hreads⟩
      · obtain ⟨⟨l, n⟩, hscan, h⟩ := bind_eq_ok.mp h
        obtain ⟨us, hus, h⟩ := bind_eq_ok.mp h
        cases h
        obtain ⟨more, rest, rfl, rfl, hspells⟩ := Lexeme.spells_of_scan hscan
        rw [scanFrom_skip] at hus
        obtain ⟨ended, hreads⟩ := ih rest.length (by simp) hus rfl
        rw [Nat.add_assoc, Nat.add_comm c.utf8Size, ← String.utf8Len_cons] at hreads
        have htoken := Reads.token (by simpa using hspells) hreads
        exact ⟨ended, htoken⟩

theorem Reads.ne_nil {t : Token} (h : Reads next? afterValue column cs (t :: ts) ended) :
    cs ≠ [] := by
  cases h with
  | blank _ _ => simp
  | token hspells _ => simp [hspells.ne_nil]

theorem Reads.le_column (h : Reads next? afterValue column cs ts ended) :
    ∀ t ∈ ts, column ≤ t.column := by
  induction h with
  | done => simp
  | blank _ _ ih => exact fun t ht => Nat.le_of_add_right_le (ih t ht)
  | token _ _ ih =>
      intro t ht
      rcases List.mem_cons.mp ht with rfl | ht
      · exact le_rfl
      · exact Nat.le_of_add_right_le (ih t ht)

theorem Reads.first (h : Reads next? afterValue column cs (⟨l, column⟩ :: ts) ended) :
    ∃ used more, cs = used ++ more ∧ l.Spells afterValue (more.head?.or next?) used ∧
      Reads next? l.endsValue (column + String.utf8Len used) more ts ended := by
  cases h with
  | @blank _ _ _ c _ _ _ hcs =>
      have hle := hcs.le_column _ (List.mem_cons_self ..)
      have hpos := c.utf8Size_pos
      simp only at hle
      omega
  | @token _ _ _ used more _ _ hspells hmore => exact ⟨used, more, rfl, hspells, hmore⟩

theorem Reads.column_lt (h : Reads next? afterValue column cs ts ended) :
    ∀ t ∈ ts, t.column < column + String.utf8Len cs := by
  induction h with
  | done => simp
  | blank _ _ ih =>
      intro t ht
      have hlt := ih t ht
      rw [String.utf8Len_cons]
      omega
  | token hspells _ ih =>
      intro t ht
      rw [String.utf8Len_append]
      rcases List.mem_cons.mp ht with rfl | ht
      · obtain ⟨c, used, rfl⟩ := List.exists_cons_of_ne_nil hspells.ne_nil
        have hpos := c.utf8Size_pos
        rw [String.utf8Len_cons]
        simp only
        omega
      · have hlt := ih t ht
        omega

theorem Reads.shift (h : Reads next? afterValue column cs ts ended) :
    ∀ {column' k : Nat}, column = column' + k →
      Reads next? afterValue column' cs (ts.map fun t => ⟨t.lexeme, t.column - k⟩) ended := by
  induction h with
  | done => exact fun _ => .done
  | blank hblank _ ih =>
      intro column' k hcolumn
      exact .blank hblank (ih (by omega))
  | token hspells _ ih =>
      intro column' k hcolumn
      subst hcolumn
      simp only [List.map_cons, Nat.add_sub_cancel]
      exact .token hspells (ih (by omega))

theorem Reads.ended_eq (h : Reads next? afterValue column cs ts ended) :
    ended = (ts.getLast?.map fun t => t.lexeme.endsValue).getD afterValue := by
  induction h with
  | done => rfl
  | blank _ _ ih => exact ih
  | token _ _ ih =>
      rw [ih, List.getLast?_cons]
      cases List.getLast? _ <;> rfl

theorem Reads.cut (h : Reads next? afterValue column cs ts ended) :
    ∀ {pre suf : List Char} {before after : List Token} {t : Token}, cs = pre ++ suf →
      ts = before ++ t :: after → t.column = column + String.utf8Len pre →
      ∃ middle, Reads suf.head? afterValue column pre before middle ∧
        Reads next? middle t.column suf (t :: after) ended := by
  induction h with
  | done =>
      intro pre suf before after t _ hts
      simp at hts
  | @blank afterValue ended column c cs ts hblank hcs ih =>
      intro pre suf before after t hpre hts hcolumn
      cases pre with
      | nil =>
          -- The token would start at the blank.
          have hle := hcs.le_column t (by simp [hts])
          have hpos := c.utf8Size_pos
          rw [String.utf8Len_nil] at hcolumn
          omega
      | cons d pre =>
          obtain ⟨rfl, rfl⟩ := List.cons.inj hpre
          rw [String.utf8Len_cons] at hcolumn
          obtain ⟨middle, hfront, hback⟩ := ih rfl hts (by omega)
          exact ⟨middle, .blank hblank hfront, hback⟩
  | @token afterValue ended column cs more l ts hspells hmore ih =>
      intro pre suf before after t hpre hts hcolumn
      cases before with
      | nil =>
          obtain ⟨rfl, rfl⟩ := List.cons.inj hts
          have hnil : pre = [] := by
            rw [← String.utf8Len_eq_zero]
            simp only at hcolumn
            omega
          subst hnil
          rw [List.nil_append] at hpre
          subst hpre
          exact ⟨afterValue, .done, .token hspells hmore⟩
      | cons b before =>
          obtain ⟨rfl, rfl⟩ := List.cons.inj hts
          -- The token starts behind the first one, so the cut does.
          have hle := hmore.le_column t (by simp)
          obtain ⟨m, rfl, rfl⟩ : ∃ m, pre = cs ++ m ∧ more = m ++ suf := by
            rcases List.append_eq_append_iff.mp hpre with ⟨m, rfl, rfl⟩ | ⟨m, rfl, rfl⟩
            · exact ⟨m, rfl, rfl⟩
            · have hm : m = [] := by
                rw [← String.utf8Len_eq_zero]
                rw [String.utf8Len_append] at hle
                omega
              subst hm
              exact ⟨[], by simp, by simp⟩
          rw [String.utf8Len_append] at hcolumn
          obtain ⟨middle, hfront, hback⟩ := ih rfl rfl (by omega)
          obtain ⟨d, rest, rfl⟩ := List.exists_cons_of_ne_nil hback.ne_nil
          refine ⟨middle, .token ?_ hfront, hback⟩
          simpa [List.head?_append, Option.or_assoc] using hspells

end Token

end Z80
