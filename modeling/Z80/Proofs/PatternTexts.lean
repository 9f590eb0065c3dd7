import Mathlib
import Z80.InstructionSet.Basic
import Z80.Proofs.LetterCase
import Z80.Proofs.RowText

namespace Z80

theorem find?_name_eq_some {α : Type} {row : List α} {name : α → String}
    (hrow : (row.map name).Nodup) {a : α} {s : String} :
    (row.find? fun b => name b == s) = some a ↔ a ∈ row ∧ s = name a := by
  constructor
  · intro h
    have hname := List.find?_some h
    exact ⟨List.mem_of_find?_eq_some h, (beq_iff_eq.mp hname).symm⟩
  · rintro ⟨ha, rfl⟩
    have hsome : (row.find? fun b => name b == name a).isSome = true :=
      List.find?_isSome.mpr ⟨a, ha, beq_self_eq_true (name a)⟩
    obtain ⟨b, hb⟩ := Option.isSome_iff_exists.mp hsome
    have hname := List.find?_some hb
    rw [beq_iff_eq] at hname
    rw [hb, List.inj_on_of_nodup_map hrow (List.mem_of_find?_eq_some hb) ha hname]

namespace Text

def Lettered (s : String) : Prop :=
  s.toList.head?.map Char.isAlpha = some true

instance (s : String) : Decidable (Lettered s) :=
  inferInstanceAs (Decidable (_ = _))

theorem lettered_lower (s : String) : Lettered (lower s) ↔ Lettered s := by
  simp only [Lettered, lower, String.toList_ofList, List.head?_map, Option.map_map]
  rw [Function.comp_def, funext caseless_isAlpha]

theorem lettered_of_isAlpha {s : String} (hne : s ≠ "") (h : ∀ c ∈ s.toList, c.isAlpha = true) :
    Lettered s := by
  obtain ⟨c, cs, hcs⟩ := List.exists_cons_of_ne_nil (mt String.toList_eq_nil_iff.mp hne)
  rw [hcs] at h
  simp [Lettered, hcs, h c (List.mem_cons_self ..)]

theorem not_isAlpha_of_rank {c : Char} (h : Numeral.rank c < 10) : c.isAlpha = false := by
  have hrow : Numeral.rank c < Numeral.digitRow.length := Nat.lt_trans h (by decide)
  have hlower : Numeral.digitRow[Numeral.rank c] = c.toLower := List.getElem_idxOf hrow
  have hdigits : ∀ n : Fin 10, (Numeral.digitRow[n.val]).isAlpha = false := by decide
  rw [← caseless_isAlpha c, ← hlower]
  exact hdigits ⟨_, h⟩

theorem not_lettered_of_digits {s : String} (h : Numeral.Digits 10 s.toList) : ¬Lettered s := by
  obtain ⟨c, cs, hcs⟩ := List.exists_cons_of_ne_nil h.1
  have hc : c.isAlpha = false := not_isAlpha_of_rank (h.2 c (by simp [hcs]))
  simp [Lettered, hcs, hc]

end Text

namespace Placeholder

variable {s : String} {p : Placeholder}

theorem ofName?_eq_some : ofName? s = some p ↔ s = p.name := by
  have hmem : p ∈ all := by cases p <;> decide
  rw [ofName?, find?_name_eq_some (by decide)]
  exact and_iff_right hmem

theorem ofName?_eq_none : ofName? s = none ↔ ∀ p : Placeholder, s ≠ p.name := by
  simp only [Option.eq_none_iff_forall_ne_some, ne_eq, ofName?_eq_some]

theorem name_injective : Function.Injective name := by
  intro p q h
  have hp : ofName? p.name = some p := ofName?_eq_some.mpr rfl
  rw [ofName?_eq_some.mpr h] at hp
  exact (Option.some.inj hp).symm

theorem lower_name (p : Placeholder) : Text.lower p.name = p.name := by
  cases p <;> rfl

theorem lettered_of_name (h : Text.lower s = p.name) : Text.Lettered s := by
  rw [← Text.lettered_lower, h]
  cases p <;> decide

theorem ofName?_of_not_lettered (h : ¬Text.Lettered s) : ofName? s = none := by
  refine ofName?_eq_none.mpr ?_
  rintro p rfl
  exact h (lettered_of_name p.lower_name)

end Placeholder

namespace Keyword

variable {s : String} {k : Keyword}

theorem ofName?_eq_some : ofName? s = some k ↔ Text.lower s = k.name := by
  have hmem : k ∈ all := by cases k <;> decide
  rw [ofName?, find?_name_eq_some (by decide)]
  exact and_iff_right hmem

theorem ofName?_eq_none : ofName? s = none ↔ ∀ k : Keyword, Text.lower s ≠ k.name := by
  simp only [Option.eq_none_iff_forall_ne_some, ne_eq, ofName?_eq_some]

theorem lower_name (k : Keyword) : Text.lower k.name = k.name := by
  cases k <;> rfl

theorem name_ne_placeholder (k : Keyword) (p : Placeholder) : k.name ≠ p.name := by
  have hp : ofName? p.name = none := by cases p <;> decide
  have hk := ofName?_eq_none.mp hp k
  rw [p.lower_name] at hk
  exact hk.symm

theorem lettered_of_name (h : Text.lower s = k.name) : Text.Lettered s := by
  rw [← Text.lettered_lower, h]
  cases k <;> decide

theorem ofName?_of_not_lettered (h : ¬Text.Lettered s) : ofName? s = none :=
  ofName?_eq_none.mpr fun _ hk => h (lettered_of_name hk)

end Keyword

namespace PatternToken

variable {s : String} {t : PatternToken}

section Puncts

variable {p : Punct}

theorem findPunct_eq_some :
    (puncts.find? fun q => q.text == s) = some p ↔ p ∈ puncts ∧ s = p.text :=
  find?_name_eq_some (by decide)

theorem findPunct_eq_none (h : ∀ p ∈ puncts, s ≠ p.text) :
    (puncts.find? fun q => q.text == s) = none := by
  simp only [Option.eq_none_iff_forall_ne_some, ne_eq, findPunct_eq_some]
  exact fun p hp => h p hp.1 hp.2

theorem punct_mark (h : p ∈ puncts) :
    ¬Text.Lettered p.text ∧ Numeral.isDigits 10 p.text.toList = false := by
  simp only [puncts, List.mem_cons, List.not_mem_nil, or_false] at h
  rcases h with rfl | rfl | rfl | rfl <;> decide

theorem findPunct_of_lettered (h : Text.Lettered s) :
    (puncts.find? fun q => q.text == s) = none := by
  refine findPunct_eq_none ?_
  rintro p hp rfl
  exact (punct_mark hp).1 h

theorem findPunct_of_isDigits (h : Numeral.isDigits 10 s.toList = true) :
    (puncts.find? fun q => q.text == s) = none := by
  refine findPunct_eq_none ?_
  rintro p hp rfl
  rw [(punct_mark hp).2] at h
  cases h

end Puncts

inductive StandsFor : String → PatternToken → Prop
  | slot (p : Placeholder) : StandsFor p.name (slot p)
  | punct {p : Punct} : p ∈ puncts → StandsFor p.text (punct p)
  | keyword {s : String} {k : Keyword} : Text.lower s = k.name → StandsFor s (keyword k)
  | number {s : String} {n : Int32} : Numeral.Digits 10 s.toList →
      n.toInt = Numeral.positional 10 s.toList → StandsFor s (number n)
  | word {s : String} : s ≠ "" → (∀ c ∈ s.toList, c.isAlpha = true) →
      (∀ k : Keyword, Text.lower s ≠ k.name) → (∀ p : Placeholder, s ≠ p.name) →
      StandsFor s (word (Text.lower s))

theorem standsFor_of_ofText? (h : ofText? s = some t) : StandsFor s t := by
  unfold ofText? at h
  -- Each step leaves the texts that the kinds before it have not taken.
  split at h
  · next p hslot =>
      cases h
      rw [Placeholder.ofName?_eq_some.mp hslot]
      exact .slot p
  next hslot =>
  split at h
  · next p hpunct =>
      cases h
      obtain ⟨hp, rfl⟩ := findPunct_eq_some.mp hpunct
      exact .punct hp
  split at h
  · next k hkeyword =>
      cases h
      exact .keyword (Keyword.ofName?_eq_some.mp hkeyword)
  next hkeyword =>
  split at h
  · split at h
    · next n hvalue =>
        obtain ⟨hdigits, hn⟩ := (Numeral.value?_eq_some (by decide)).mp hvalue
        split at h
        · next hlt =>
            cases h
            exact .number hdigits (by rw [Int32.toInt_ofNat_of_lt hlt, hn])
        · cases h
    · cases h
  · split at h
    · next hword =>
        cases h
        simp only [Bool.and_eq_true, Bool.not_eq_true', List.all_eq_true] at hword
        refine .word ?_ hword.2 (Keyword.ofName?_eq_none.mp hkeyword)
          (Placeholder.ofName?_eq_none.mp hslot)
        rintro rfl
        cases hword.1
    · cases h

theorem StandsFor.ofText? (h : StandsFor s t) : ofText? s = some t := by
  cases h with
  | slot p => simp [PatternToken.ofText?, Placeholder.ofName?_eq_some.mpr rfl]
  | @punct p hp =>
      have hslot := Placeholder.ofName?_of_not_lettered (punct_mark hp).1
      simp [PatternToken.ofText?, hslot, findPunct_eq_some.mpr ⟨hp, rfl⟩]
  | @keyword _ k hk =>
      have hslot : Placeholder.ofName? s = none := by
        refine Placeholder.ofName?_eq_none.mpr ?_
        rintro p rfl
        rw [p.lower_name] at hk
        exact k.name_ne_placeholder p hk.symm
      have hpunct := findPunct_of_lettered (Keyword.lettered_of_name hk)
      simp [PatternToken.ofText?, hslot, hpunct, Keyword.ofName?_eq_some.mpr hk]
  | @number _ n hdigits hn =>
      have hisDigits := (Numeral.isDigits_iff (by decide)).mpr hdigits
      have hlettered := Text.not_lettered_of_digits hdigits
      have hvalue := (Numeral.value?_eq_some (by decide)).mpr ⟨hdigits, rfl⟩
      have hlt : Numeral.positional 10 s.toList < 2147483648 := by
        have := Int32.toInt_lt n
        omega
      have hnumber : Int32.ofNat (Numeral.positional 10 s.toList) = n := by
        rw [← Int32.toInt_inj, Int32.toInt_ofNat_of_lt hlt, hn]
      simp [PatternToken.ofText?, Placeholder.ofName?_of_not_lettered hlettered,
        findPunct_of_isDigits hisDigits, Keyword.ofName?_of_not_lettered hlettered, hisDigits,
        hvalue, hlt, hnumber]
  | word hne halpha hkeyword hslot =>
      have hlettered := Text.lettered_of_isAlpha hne halpha
      have hdigits : Numeral.isDigits 10 s.toList = false := by
        rw [Bool.eq_false_iff]
        intro hdigits
        exact Text.not_lettered_of_digits ((Numeral.isDigits_iff (by decide)).mp hdigits) hlettered
      have hall : s.toList.all Char.isAlpha = true := List.all_eq_true.mpr halpha
      simp [PatternToken.ofText?, Placeholder.ofName?_eq_none.mpr hslot,
        findPunct_of_lettered hlettered, Keyword.ofName?_eq_none.mpr hkeyword, hdigits, hall, hne]

theorem read_eq_ok : read s = .ok t ↔ StandsFor s t := by
  have hread : read s = .ok t ↔ ofText? s = some t := by
    unfold read
    split <;> simp [*]
  rw [hread]
  exact ⟨standsFor_of_ofText?, StandsFor.ofText?⟩

def reread : PatternToken → PatternToken
  | word w => match Placeholder.ofName? w with
      | some p => slot p
      | none => word w
  | t => t

theorem reread_name (p : Placeholder) : (word p.name).reread = slot p := by
  simp [reread, Placeholder.ofName?_eq_some.mpr rfl]

theorem reread_word {w : String} (h : ∀ p : Placeholder, w ≠ p.name) :
    (word w).reread = word w := by
  simp [reread, Placeholder.ofName?_eq_none.mpr h]

theorem text_reread (t : PatternToken) : t.reread.text = t.text := by
  cases t with
  | word w =>
      by_cases hw : ∃ p : Placeholder, w = p.name
      · obtain ⟨p, rfl⟩ := hw
        rw [reread_name, text, text]
      · rw [reread_word (not_exists.mp hw)]
  | punct p | keyword k | number n | slot p => rfl

theorem standsFor_number {n : Int32} (h : 0 ≤ n.toInt) : StandsFor (number n).text (number n) := by
  obtain ⟨m, hm⟩ := Int.eq_ofNat_of_zero_le h
  have htext : (number n).text = String.ofList (Nat.toDigits 10 m) := by
    rw [← Nat.toString_eq_ofList_toDigits, text, hm]
    rfl
  obtain ⟨hdigits, hvalue⟩ := (Numeral.value?_eq_some (by decide)).mp (Numeral.value?_toDigits m)
  refine .number ?_ ?_
  · rwa [htext, String.toList_ofList]
  · rw [htext, String.toList_ofList, ← hvalue, hm]

theorem standsFor_lower (hne : s ≠ "") (halpha : ∀ c ∈ s.toList, c.isAlpha = true)
    (hkeyword : ∀ k : Keyword, Text.lower s ≠ k.name)
    (hfree : ∀ p : Placeholder, Text.lower s ≠ p.name) :
    StandsFor (Text.lower s) (word (Text.lower s)) := by
  have hlower : StandsFor (Text.lower s) (word (Text.lower (Text.lower s))) := by
    refine .word ?_ ?_ ?_ hfree
    · simpa [Text.lower, ← String.toList_eq_nil_iff] using hne
    · intro c hc
      simp only [Text.lower, String.toList_ofList, List.mem_map] at hc
      obtain ⟨d, hd, rfl⟩ := hc
      rw [Text.caseless_isAlpha]
      exact halpha d hd
    · rwa [Text.lower_lower]
  rwa [Text.lower_lower] at hlower

theorem StandsFor.reread (h : StandsFor s t) : StandsFor t.text t.reread := by
  cases h with
  | slot p => exact .slot p
  | punct hp => exact .punct hp
  | @keyword _ k hk => exact .keyword k.lower_name
  | number hdigits hn => exact standsFor_number (by omega)
  | word hne halpha hkeyword hslot =>
      by_cases hname : ∃ p : Placeholder, Text.lower s = p.name
      · obtain ⟨p, hp⟩ := hname
        rw [hp, reread_name]
        exact .slot p
      · rw [reread_word (not_exists.mp hname)]
        exact standsFor_lower hne halpha hkeyword (not_exists.mp hname)

theorem StandsFor.of_name {p : Placeholder} (h : StandsFor s t) (hp : Text.lower s = p.name) :
    s = p.name ∧ t = .slot p ∨ s ≠ p.name ∧ t = .word p.name := by
  have hlettered := Placeholder.lettered_of_name hp
  cases h with
  | slot q =>
      rw [q.lower_name] at hp
      cases Placeholder.name_injective hp
      exact .inl ⟨rfl, rfl⟩
  | punct hq => exact absurd hlettered (punct_mark hq).1
  | @keyword _ k hk => exact absurd (hk.symm.trans hp) (k.name_ne_placeholder p)
  | number hdigits _ => exact absurd hlettered (Text.not_lettered_of_digits hdigits)
  | word _ _ _ hfree => exact .inr ⟨hfree p, by rw [hp]⟩

theorem StandsFor.reread_eq_iff (h : StandsFor s t) :
    t.reread = t ↔ ∀ p : Placeholder, Text.lower s = p.name → s = p.name := by
  constructor
  · intro hsame p hp
    rcases h.of_name hp with ⟨hs, -⟩ | ⟨-, rfl⟩
    · exact hs
    · rw [reread_name] at hsame
      cases hsame
  · intro hnames
    cases h with
    | slot p | punct hp | keyword hk | number hdigits hn => rfl
    | word _ _ _ hfree => exact reread_word fun p hp => hfree p (hnames p hp)

theorem read_text_iff (s : String) (t : PatternToken) (h : read s = .ok t) :
    (read t.text = .ok t ↔ ∀ p : Placeholder, Text.lower s = p.name → s = p.name) ∧
      (∀ p : Placeholder, Text.lower s = p.name → s ≠ p.name →
        t = word p.name ∧ read t.text = .ok (slot p)) ∧
      ∃ u, read t.text = .ok u ∧ u.text = t.text := by
  have hstands := read_eq_ok.mp h
  have hback : read t.text = .ok t.reread := read_eq_ok.mpr hstands.reread
  refine ⟨?_, ?_, t.reread, hback, t.text_reread⟩
  · rw [hback, Except.ok.injEq]
    exact hstands.reread_eq_iff
  · intro p hp hs
    rcases hstands.of_name hp with ⟨hsame, -⟩ | ⟨-, rfl⟩
    · exact absurd hsame hs
    · exact ⟨rfl, by rw [hback, reread_name]⟩

theorem threeLetters_read :
    read "NNN" = .ok (word "nnn") ∧ read "nnn" = .ok (word "nnn") := by
  have hread : read "NNN" = .ok (word "nnn") := by decide +kernel
  refine ⟨hread, (read_text_iff "NNN" (word "nnn") hread).1.mpr ?_⟩
  intro p
  cases p <;> decide

theorem capitalName_changes :
    read "NN" = .ok (word "nn") ∧ read (word "nn").text = .ok (slot .imm8) ∧
      ¬∀ s t, read s = .ok t → read t.text = .ok t := by
  have hword : read "NN" = .ok (word "nn") := by decide +kernel
  have hslot : read (word "nn").text = .ok (slot .imm8) := by decide +kernel
  refine ⟨hword, hslot, fun hback => ?_⟩
  have hsame := hback "NN" (word "nn") hword
  rw [hslot] at hsame
  cases hsame

end PatternToken

end Z80
