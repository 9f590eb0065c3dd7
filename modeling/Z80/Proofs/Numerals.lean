import Mathlib
import Z80.Proofs.Lexing

namespace Z80

namespace Numeral

def digitRow : List Char :=
  ['0', '1', '2', '3', '4', '5', '6', '7', '8', '9', 'a', 'b', 'c', 'd', 'e', 'f']

def rank (c : Char) : Nat :=
  digitRow.idxOf c.toLower

def Digits (radix : Nat) (cs : List Char) : Prop :=
  cs ≠ [] ∧ ∀ c ∈ cs, rank c < radix

def positional (radix : Nat) (cs : List Char) : Nat :=
  Nat.ofDigits radix (cs.map rank).reverse

section Digits

variable {radix n m : Nat} {c : Char} {cs : List Char} {w : UInt32}

theorem digitValue?_eq (c : Char) :
    digitValue? c = if rank c < 16 then some (rank c) else none := by
  by_cases hc : c.toNat < 128
  · have hsmall : ∀ n : Fin 128, digitValue? (Char.ofNat n) =
        if rank (Char.ofNat n) < 16 then some (rank (Char.ofNat n)) else none := by
      decide +kernel
    have := hsmall ⟨c.toNat, hc⟩
    rwa [Char.ofNat_toNat] at this
  · -- No digit and no letter with another case lies here.
    have hlower : c.toLower = c := Text.toLower_of_range (by omega)
    have hrow : c ∉ digitRow := by
      intro hmem
      have hall : (digitRow.all fun d => d.toNat < 128) = true := by decide
      have := List.all_eq_true.mp hall c hmem
      simp only [decide_eq_true_eq] at this
      exact hc this
    have hrank : rank c = 16 := by
      rw [rank, hlower, List.idxOf_eq_length hrow]
      rfl
    have hdigit : c.isDigit = false := by
      rw [Bool.eq_false_iff]
      intro hdigit
      have := Text.isDigit_range hdigit
      omega
    have hranges : ¬c.toNat ≤ 102 ∧ ¬c.toNat ≤ 70 := by omega
    simp [digitValue?, hdigit, hranges, hrank]

theorem digit?_eq (hradix : radix ≤ 16) (c : Char) :
    digit? radix c = if rank c < radix then some (rank c) else none := by
  rw [digit?, digitValue?_eq]
  by_cases hc : rank c < radix
  · simp [hc, Nat.lt_of_lt_of_le hc hradix]
  · by_cases hhex : rank c < 16
    · simp [hhex, hc, Nat.not_lt.mp hc]
    · simp [hhex, hc]

theorem isDigit_iff (hradix : radix ≤ 16) : isDigit radix c = true ↔ rank c < radix := by
  rw [isDigit, digit?_eq hradix]
  split <;> simp [*]

theorem isDigits_iff (hradix : radix ≤ 16) : isDigits radix cs = true ↔ Digits radix cs := by
  simp [isDigits, Digits, isDigit_iff hradix]

theorem Digits.not_mem (h : Digits radix cs) (hc : radix ≤ rank c) : c ∉ cs :=
  fun hmem => absurd (h.2 c hmem) (Nat.not_lt.mpr hc)

theorem positional_cons (radix : Nat) (c : Char) (cs : List Char) :
    positional radix (c :: cs) = rank c * radix ^ cs.length + positional radix cs := by
  simp [positional, Nat.ofDigits_append, Nat.add_comm, Nat.mul_comm]

theorem valueFrom_eq_some (hradix : radix ≤ 16) : valueFrom radix n cs = some m ↔
    (∀ c ∈ cs, rank c < radix) ∧ m = n * radix ^ cs.length + positional radix cs := by
  induction cs generalizing n with
  | nil => simp [valueFrom, positional, eq_comm]
  | cons c cs ih =>
      rw [valueFrom, digit?_eq hradix, positional_cons, List.forall_mem_cons]
      by_cases hc : rank c < radix
      · have hvalue : (n * radix + rank c) * radix ^ cs.length + positional radix cs =
            n * radix ^ (c :: cs).length + (rank c * radix ^ cs.length + positional radix cs) := by
          rw [List.length_cons, Nat.pow_succ]
          ring
        simp only [hc, if_true, ih, hvalue, true_and]
      · simp [hc]

theorem value?_eq_some (hradix : radix ≤ 16) :
    value? radix cs = some m ↔ Digits radix cs ∧ m = positional radix cs := by
  cases cs with
  | nil => simp [value?, Digits]
  | cons c cs => simp [value?, Digits, valueFrom_eq_some hradix]

theorem word?_eq_some (hradix : radix ≤ 16) :
    word? radix cs = some w ↔ Digits radix cs ∧ positional radix cs = w.toNat := by
  have hword : word? radix cs = some w ↔ value? radix cs = some w.toNat := by
    rw [word?]
    split
    · next n hn =>
        rw [hn, Option.some.injEq]
        constructor
        · intro h
          split at h
          · next hlt =>
              cases h
              exact (UInt32.toNat_ofNat_of_lt' hlt).symm
          · cases h
        · rintro rfl
          have hlt : w.toNat < 4294967296 := w.toNat_lt
          rw [if_pos hlt, UInt32.ofNat_toNat]
    · next hn => simp [hn]
  rw [hword, value?_eq_some hradix, eq_comm (a := w.toNat)]

theorem rank_toLower (c : Char) : rank c.toLower = rank c := by
  rw [rank, rank, Char.toLower_toLower_eq_toLower]

theorem digits_lower (h : Digits radix cs) :
    Digits radix (cs.map Char.toLower) ∧
      positional radix (cs.map Char.toLower) = positional radix cs := by
  refine ⟨⟨by simpa using h.1, ?_⟩, ?_⟩
  · intro c hc
    obtain ⟨d, hd, rfl⟩ := List.mem_map.mp hc
    rw [rank_toLower]
    exact h.2 d hd
  · rw [positional, positional, List.map_map]
    congr 3
    funext c
    exact rank_toLower c

end Digits

theorem before?_eq_some {mark : Char} {cs ds : List Char} :
    before? mark cs = some ds ↔ cs = ds ++ [mark] := by
  rw [before?]
  constructor
  · intro h
    split at h
    · next hlast =>
        cases h
        exact (List.dropLast_append_getLast? mark (by simpa using hlast)).symm
    · cases h
  · rintro rfl
    simp

theorem after?_eq_some {marks cs ds : List Char} :
    after? marks cs = some ds ↔ cs = marks ++ ds := by
  rw [after?]
  constructor
  · intro h
    split at h
    · next hfront =>
        cases h
        obtain ⟨rest, rfl⟩ := List.isPrefixOf_iff_prefix.mp hfront
        rw [List.drop_left]
    · cases h
  · rintro rfl
    simp

namespace Form

theorem radix_le (form : Form) : form.radix ≤ 16 := by
  cases form <;> decide

def write : Form → List Char → List Char
  | hexMarkedAfter, ds => ds ++ ['h']
  | hexMarkedBefore, ds => '0' :: 'x' :: ds
  | binaryMarkedAfter, ds => ds ++ ['b']
  | binaryMarkedBefore, ds => '0' :: 'b' :: ds
  | decimal, ds => ds

structure Writes (form : Form) (ds spelling : List Char) : Prop where
  digits : Digits form.radix ds
  spelled : spelling.map Char.toLower = form.write ds

def ofMarks (cs : List Char) : Form :=
  if 'h' ∈ cs then hexMarkedAfter
  else if 'x' ∈ cs then hexMarkedBefore
  else if 'b' ∉ cs then decimal
  else if cs.getLast? = some 'b' then binaryMarkedAfter
  else binaryMarkedBefore

variable {form form' : Form} {cs ds ds' spelling : List Char}

theorem unmarked?_eq_some : form.unmarked? cs = some ds ↔ cs = form.write ds := by
  cases form with
  | hexMarkedAfter | binaryMarkedAfter => exact before?_eq_some
  | hexMarkedBefore | binaryMarkedBefore => exact after?_eq_some
  | decimal => simp [unmarked?, write]

theorem digits?_eq_some :
    form.digits? cs = some ds ↔ Digits form.radix ds ∧ cs = form.write ds := by
  rw [digits?, Option.filter_eq_some_iff, unmarked?_eq_some, isDigits_iff form.radix_le, and_comm]

theorem ofMarks_write (h : Digits form.radix ds) : ofMarks (form.write ds) = form := by
  have hh : 'h' ∉ ds := h.not_mem form.radix_le
  have hx : 'x' ∉ ds := h.not_mem form.radix_le
  cases form with
  | hexMarkedAfter => simp [ofMarks, write]
  | hexMarkedBefore => simp [ofMarks, write, hh]
  | binaryMarkedAfter => simp [ofMarks, write, hh, hx]
  | decimal =>
      have hb : 'b' ∉ ds := h.not_mem (by decide)
      simp [ofMarks, write, hh, hx, hb]
  | binaryMarkedBefore =>
      have hb : 'b' ∉ ds := h.not_mem (by decide)
      -- The last character is a digit, since there is one.
      have hlast : ('b' :: ds).getLast? ≠ some 'b' := by
        obtain ⟨d, more, rfl⟩ := List.exists_cons_of_ne_nil h.1
        rw [List.getLast?_cons_cons]
        exact fun hlast => hb (List.mem_of_getLast? hlast)
      simp [ofMarks, write, hh, hx, hlast]

theorem write_injective (form : Form) : Function.Injective form.write := by
  intro ds ds' h
  cases form <;> simpa [write] using h

theorem Writes.unique (h : form.Writes ds spelling) (h' : form'.Writes ds' spelling) :
    form = form' ∧ ds = ds' := by
  have hwrite : form.write ds = form'.write ds' := h.spelled.symm.trans h'.spelled
  have hform : form = form' := by
    rw [← ofMarks_write h.digits, hwrite, ofMarks_write h'.digits]
  subst hform
  exact ⟨rfl, form.write_injective hwrite⟩

end Form

def ofSpellingBy? (order : List Form) (spelling : List Char) : Option UInt32 :=
  let cs := spelling.map Char.toLower
  match order.find? fun form => (form.digits? cs).isSome with
  | some form => (form.digits? cs).bind (word? form.radix)
  | none => none

theorem ofSpellingBy?_eq_some {order : List Form} (horder : ∀ form, form ∈ order)
    {spelling : List Char} {w : UInt32} : ofSpellingBy? order spelling = some w ↔
      ∃ (form : Form) (ds : List Char), form.Writes ds spelling ∧
        positional form.radix ds = w.toNat := by
  rw [ofSpellingBy?]
  split
  · next form hfind =>
      have hsome := List.find?_some hfind
      obtain ⟨ds, hds⟩ := Option.isSome_iff_exists.mp hsome
      have hwrites : form.Writes ds spelling := by
        obtain ⟨hdigits, hspelled⟩ := Form.digits?_eq_some.mp hds
        exact ⟨hdigits, hspelled⟩
      rw [hds, Option.bind_some, word?_eq_some form.radix_le]
      constructor
      · rintro ⟨-, hvalue⟩
        exact ⟨form, ds, hwrites, hvalue⟩
      · rintro ⟨form', ds', hwrites', hvalue⟩
        obtain ⟨rfl, rfl⟩ := hwrites.unique hwrites'
        exact ⟨hwrites.digits, hvalue⟩
  · next hfind =>
      constructor
      · intro h
        cases h
      · rintro ⟨form, ds, hwrites, -⟩
        have hnone := List.find?_eq_none.mp hfind form (horder form)
        rw [Form.digits?_eq_some.mpr ⟨hwrites.digits, hwrites.spelled⟩] at hnone
        exact absurd rfl hnone

theorem Form.mem_all (form : Form) : form ∈ Form.all := by
  cases form <;> decide

theorem ofSpelling?_eq_some {spelling : List Char} {w : UInt32} : ofSpelling? spelling = some w ↔
      ∃ (form : Form) (ds : List Char), form.Writes ds spelling ∧
        positional form.radix ds = w.toNat :=
  ofSpellingBy?_eq_some Form.mem_all

theorem ofSpellingBy?_eq {order : List Form} (horder : ∀ form, form ∈ order)
    (spelling : List Char) : ofSpellingBy? order spelling = ofSpelling? spelling := by
  apply Option.ext
  intro w
  rw [ofSpellingBy?_eq_some horder, ofSpelling?_eq_some]

inductive Denotes : List Char → Nat → Prop
  | inForm {c : Char} {run ds : List Char} {form : Form} : c.isDigit = true →
      form.Writes ds (c :: run) → Denotes (c :: run) (positional form.radix ds)
  | dollar {ds : List Char} : Digits 16 ds → Denotes ('$' :: ds) (positional 16 ds)
  | percent {ds : List Char} : Digits 2 ds → Denotes ('%' :: ds) (positional 2 ds)

def signed (n : Nat) : Int :=
  if n < 2147483648 then n else n - 4294967296

theorem toInt_toInt32 (w : UInt32) : w.toInt32.toInt = signed w.toNat := by
  have hcond := BitVec.toInt_eq_toNat_cond w.toBitVec
  change w.toInt32.toInt = if 2 * w.toNat < 2 ^ 32 then (w.toNat : Int) else _ at hcond
  have hhalf : 2 * w.toNat < 2 ^ 32 ↔ w.toNat < 2147483648 := by omega
  rw [hcond, signed]
  simp only [hhalf]
  rfl

theorem signed_modEq (n : Nat) : signed n ≡ n [ZMOD 4294967296] := by
  rw [signed]
  split
  · rfl
  · exact Int.modEq_iff_dvd.mpr ⟨1, by ring⟩

theorem toInt32_eq_iff {w : UInt32} {v : Int32} : v = w.toInt32 ↔ v.toInt = signed w.toNat := by
  rw [← toInt_toInt32, Int32.toInt_inj]

section Denotes

variable {c : Char} {run : List Char} {n m : Nat} {w : UInt32}

theorem denotes_digit_iff (hc : c.isDigit = true) :
    Denotes (c :: run) n ↔ ∃ (form : Form) (ds : List Char), form.Writes ds (c :: run) ∧
      positional form.radix ds = n := by
  constructor
  · intro h
    cases h with
    | @inForm _ _ ds form _ hwrites => exact ⟨form, ds, hwrites, rfl⟩
    | dollar _ => cases hc
    | percent _ => cases hc
  · rintro ⟨form, ds, hwrites, rfl⟩
    exact .inForm hc hwrites

theorem denotes_dollar_iff : Denotes ('$' :: run) n ↔ Digits 16 run ∧ positional 16 run = n := by
  constructor
  · intro h
    cases h with
    | inForm hc _ => cases hc
    | dollar hds => exact ⟨hds, rfl⟩
  · rintro ⟨hds, rfl⟩
    exact .dollar hds

theorem denotes_percent_iff : Denotes ('%' :: run) n ↔ Digits 2 run ∧ positional 2 run = n := by
  constructor
  · intro h
    cases h with
    | inForm hc _ => cases hc
    | percent hds => exact ⟨hds, rfl⟩
  · rintro ⟨hds, rfl⟩
    exact .percent hds

end Denotes

end Numeral

namespace Lexeme

open Numeral

structure NumberAt (afterValue : Bool) (c : Char) (run rest : List Char) : Prop where
  starts : c.isDigit = true ∨ c = '$' ∨ c = '%' ∧ afterValue = false
  goesOn : ∀ d ∈ run, d.isAlphanum = true
  stops : ∀ d ∈ rest.head?, d.isAlphanum = false

section Numbers

variable {afterValue : Bool} {column n : Nat} {c : Char} {run rest : List Char} {s : String}
  {v : Int32}

theorem startsWith_digit {radix : Nat} (hradix : radix ≤ 16) (h : Digits radix run) :
    startsWith (Numeral.isDigit radix) (run ++ rest) = true := by
  obtain ⟨d, more, rfl⟩ := List.exists_cons_of_ne_nil h.1
  exact (isDigit_iff hradix).mpr (h.2 d (List.mem_cons_self ..))

theorem ofNumber_eq_ok {spelling : List Char} {value : Option UInt32} {k : Nat} :
    (do
      let lexeme ← ofNumber spelling value
      return (lexeme, k)) = .ok (number s v, n) ↔
      (s = String.ofList spelling ∧ n = k) ∧ ∃ w, value = some w ∧ v = w.toInt32 := by
  cases value with
  | none => simp [ofNumber, bind, Except.bind]
  | some w =>
      simp only [ofNumber, bind, Except.bind, pure, Except.pure, Except.ok.injEq, Prod.mk.injEq,
        number.injEq, Option.some.injEq, exists_eq_left']
      constructor
      · rintro ⟨⟨rfl, rfl⟩, rfl⟩
        exact ⟨⟨rfl, rfl⟩, rfl⟩
      · rintro ⟨⟨rfl, rfl⟩, rfl⟩
        exact ⟨⟨rfl, rfl⟩, rfl⟩

theorem marked_eq_number {radix : Nat} (hradix : radix ≤ 16) (p : Punct) :
    (if startsWith (Numeral.isDigit radix) (run ++ rest) then do
        let lexeme ← ofNumber (c :: run) (word? radix run)
        return (lexeme, run.length)
      else .ok (punct p, 0)) = .ok (number s v, n) ↔
      (s = String.ofList (c :: run) ∧ n = run.length) ∧
        ∃ w : UInt32, (Digits radix run ∧ positional radix run = w.toNat) ∧ v = w.toInt32 := by
  split
  · rw [ofNumber_eq_ok]
    simp only [word?_eq_some hradix]
  · next hdigit =>
      constructor
      · intro h
        cases h
      · rintro ⟨-, w, ⟨hdigits, -⟩, -⟩
        exact absurd (startsWith_digit hradix hdigits) hdigit

theorem scan_eq_number (h : NumberAt afterValue c run rest) :
    scan afterValue column c (run ++ rest) = .ok (number s v, n) ↔
      (s = String.ofList (c :: run) ∧ n = run.length) ∧
        ∃ w : UInt32, Denotes (c :: run) w.toNat ∧ v = w.toInt32 := by
  have htaken := numberRun_eq h.goesOn h.stops
  rcases h.starts with hc | rfl | ⟨rfl, rfl⟩
  · rw [scan_digit hc, htaken, ofNumber_eq_ok]
    simp only [ofSpelling?_eq_some, denotes_digit_iff hc]
  · rw [scan_dollar, htaken, marked_eq_number (by decide)]
    simp only [denotes_dollar_iff]
  · rw [scan_percent, htaken, Bool.not_false, Bool.true_and, marked_eq_number (by decide)]
    simp only [denotes_percent_iff]

theorem scan_malformed (h : NumberAt afterValue c run rest) (hc : c.isDigit = true)
    (hnot : ¬∃ m, Denotes (c :: run) m ∧ m < 4294967296) :
    scan afterValue column c (run ++ rest) =
      .error (.malformedNumber (String.ofList (c :: run))) := by
  have hnone : ofSpelling? (c :: run) = none := by
    rw [Option.eq_none_iff_forall_ne_some]
    intro w hw
    have hdenotes := (denotes_digit_iff hc).mpr (ofSpelling?_eq_some.mp hw)
    exact hnot ⟨w.toNat, hdenotes, w.toNat_lt⟩
  rw [scan_digit hc, numberRun_eq h.goesOn h.stops, hnone]
  rfl

theorem exists_word_iff {P : Nat → Prop} :
    (∃ w : UInt32, P w.toNat ∧ v = w.toInt32) ↔
      ∃ m, P m ∧ m < 4294967296 ∧ v.toInt = signed m := by
  constructor
  · rintro ⟨w, hw, hv⟩
    exact ⟨w.toNat, hw, w.toNat_lt, toInt32_eq_iff.mp hv⟩
  · rintro ⟨m, hm, hlt, hv⟩
    have hword : (UInt32.ofNat m).toNat = m := UInt32.toNat_ofNat_of_lt' hlt
    refine ⟨UInt32.ofNat m, ?_, toInt32_eq_iff.mpr ?_⟩
    · rwa [hword]
    · rwa [hword]

end Numbers

theorem numbers_exact :
    (∀ (spelling : List Char) (form form' : Form) (ds ds' : List Char),
      form.Writes ds spelling → form'.Writes ds' spelling → form = form' ∧ ds = ds') ∧
    (∀ (order : List Form), (∀ form, form ∈ order) → ∀ spelling,
      ofSpellingBy? order spelling = ofSpelling? spelling) ∧
    (∀ (afterValue : Bool) (column : Nat) (c : Char) (run rest : List Char),
      NumberAt afterValue c run rest →
      (∀ s v n, scan afterValue column c (run ++ rest) = .ok (number s v, n) ↔
        (s = String.ofList (c :: run) ∧ n = run.length) ∧
          ∃ m, Denotes (c :: run) m ∧ m < 4294967296 ∧ v.toInt = signed m) ∧
      (c.isDigit = true → (¬∃ m, Denotes (c :: run) m ∧ m < 4294967296) →
        scan afterValue column c (run ++ rest) =
          .error (.malformedNumber (String.ofList (c :: run))))) ∧
    ∀ m, m < 4294967296 → ∃ v : Int32, v.toInt = signed m ∧
      ∀ (afterValue : Bool) (column : Nat) (c : Char) (run rest : List Char),
        NumberAt afterValue c run rest → Denotes (c :: run) m →
        scan afterValue column c (run ++ rest) =
          .ok (number (String.ofList (c :: run)) v, run.length) := by
  refine ⟨?_, ?_, ?_, ?_⟩
  · intro spelling form form' ds ds' h h'
    exact h.unique h'
  · intro order horder spelling
    exact ofSpellingBy?_eq horder spelling
  · intro afterValue column c run rest h
    refine ⟨?_, scan_malformed h⟩
    intro s v n
    rw [scan_eq_number h, exists_word_iff]
  · intro m hm
    have hword : (UInt32.ofNat m).toNat = m := UInt32.toNat_ofNat_of_lt' hm
    refine ⟨(UInt32.ofNat m).toInt32, by rw [toInt_toInt32, hword], ?_⟩
    intro afterValue column c run rest h hdenotes
    refine (scan_eq_number h).mpr ⟨⟨rfl, rfl⟩, UInt32.ofNat m, ?_, rfl⟩
    rwa [hword]

theorem mixedSpellings_exact :
    (∀ (form : Form) (ds : List Char), form.Writes ds ['0', 'B', '1', 'H'] →
      Form.hexMarkedAfter = form ∧ ['0', 'b', '1'] = ds) ∧
    ofSpellingBy? Form.all.reverse ['0', 'B', '1', 'H'] = ofSpelling? ['0', 'B', '1', 'H'] ∧
    scan false 0 '4' "294967296".toList = .error (.malformedNumber "4294967296") ∧
    ∃ v : Int32, v.toInt = signed 177 ∧
      scan true 0 '0' ['B', '1', 'H', '+', '1'] = .ok (number "0B1H" v, 3) ∧
      scan false 0 '%' "10110001".toList = .ok (number "%10110001" v, 8) := by
  have hhex : Form.hexMarkedAfter.Writes ['0', 'b', '1'] ['0', 'B', '1', 'H'] :=
    ⟨(isDigits_iff (by decide)).mp rfl, by decide⟩
  have hdecimal : Form.decimal.Writes "4294967296".toList ('4' :: "294967296".toList) :=
    ⟨(isDigits_iff (by decide)).mp rfl, by decide⟩
  have hbinary : Denotes ('%' :: "10110001".toList) 177 :=
    .percent ((isDigits_iff (by decide)).mp rfl)
  obtain ⟨hunique, horder, hscan, hvalue⟩ := numbers_exact
  refine ⟨fun form ds => hunique _ _ form _ ds hhex, ?_, ?_, ?_⟩
  · exact horder _ (fun form => List.mem_reverse.mpr form.mem_all) _
  · have hat : NumberAt false '4' "294967296".toList [] :=
      ⟨.inl rfl, List.all_eq_true.mp rfl, by simp⟩
    refine (hscan false 0 '4' _ [] hat).2 rfl ?_
    rintro ⟨m, hdenotes, hlt⟩
    obtain ⟨form, ds, hwrites, rfl⟩ := (denotes_digit_iff rfl).mp hdenotes
    obtain ⟨rfl, rfl⟩ := hdecimal.unique hwrites
    exact absurd hlt (by decide +kernel)
  · obtain ⟨v, hv, hreads⟩ := hvalue 177 (by decide)
    refine ⟨v, hv, ?_, ?_⟩
    · exact hreads true 0 '0' ['B', '1', 'H'] ['+', '1']
        ⟨.inl rfl, List.all_eq_true.mp rfl, by simp⟩ (.inForm rfl hhex)
    · exact hreads false 0 '%' _ [] ⟨.inr (.inr ⟨rfl, rfl⟩), List.all_eq_true.mp rfl, by simp⟩
        hbinary

end Lexeme

end Z80
