import Mathlib
import Z80.Config.Basic
import Z80.Proofs.Numerals

namespace Z80

namespace Text

variable {pre cs post : List Char}

theorem dropWhile_blanks (hpre : ∀ c ∈ pre, isBlank c = true)
    (hcs : ∀ c ∈ cs.head?, isBlank c = false) : (pre ++ cs).dropWhile isBlank = cs := by
  rw [List.dropWhile_append_of_pos hpre]
  cases cs with
  | nil => rfl
  | cons c cs => simp [hcs c rfl]

theorem trim_blanks (hpre : ∀ c ∈ pre, isBlank c = true) (hpost : ∀ c ∈ post, isBlank c = true)
    (hne : cs ≠ []) (hcs : ∀ c ∈ cs, isBlank c = false) : trim (pre ++ (cs ++ post)) = cs := by
  have hfront : (pre ++ (cs ++ post)).dropWhile isBlank = cs ++ post := by
    refine dropWhile_blanks hpre fun c hc => hcs c ?_
    rw [List.head?_append_of_ne_nil _ hne] at hc
    exact List.mem_of_head? hc
  have hback : (cs ++ post).reverse.dropWhile isBlank = cs.reverse := by
    rw [List.reverse_append]
    refine dropWhile_blanks (by simpa using hpost) fun c hc => hcs c ?_
    simpa using List.mem_of_head? hc
  rw [trim, hfront, hback, List.reverse_reverse]

end Text

namespace Lexeme

open Numeral

theorem Spells.of_number {afterValue : Bool} {next? : Option Char} {cs : List Char} {l : Lexeme}
    (h : Spells afterValue next? cs l) {s : String} {v : Int32} (hl : l = number s v) :
    s = String.ofList cs ∧ (∀ c ∈ cs, Text.isBlank c = false) ∧
      ∃ w : UInt32, Denotes cs w.toNat ∧ v = w.toInt32 := by
  have hvisible : ∀ {run : List Char}, (∀ d ∈ run, d.isAlphanum = true) →
      ∀ d ∈ run, Text.isBlank d = false := by
    intro run hrun d hd
    exact Text.not_isBlank (by simp [Text.isNameRest, hrun d hd])
  cases h with
  | comment | shiftLeft | shiftRight | dollar | percent | mark | shadow => cases hl
  | @literal quote _ chars _ _ =>
      rcases ofLiteral_cases quote chars with ⟨c, -, -, heq⟩ | heq <;> rw [heq] at hl <;> cases hl
  | word _ _ _ =>
      rcases ofWord_cases cs with ⟨k, heq⟩ | heq <;> rw [heq] at hl <;> cases hl
  | @hexadecimal c run w _ hrun _ hw =>
      cases hl
      obtain ⟨hdigits, hvalue⟩ := (word?_eq_some (by decide)).mp hw
      refine ⟨rfl, ?_, w, denotes_dollar_iff.mpr ⟨hdigits, hvalue⟩, rfl⟩
      exact List.forall_mem_cons.mpr ⟨rfl, hvisible hrun⟩
  | @binary c run w _ _ hrun _ hw =>
      cases hl
      obtain ⟨hdigits, hvalue⟩ := (word?_eq_some (by decide)).mp hw
      refine ⟨rfl, ?_, w, denotes_percent_iff.mpr ⟨hdigits, hvalue⟩, rfl⟩
      exact List.forall_mem_cons.mpr ⟨rfl, hvisible hrun⟩
  | @numeral c run w hc hrun _ hw =>
      cases hl
      refine ⟨rfl, ?_, w, (denotes_digit_iff hc).mpr (ofSpelling?_eq_some.mp hw), rfl⟩
      exact hvisible (List.forall_mem_cons.mpr ⟨by simp [Char.isAlphanum, hc], hrun⟩)

end Lexeme

namespace Token

variable {next? : Option Char} {afterValue ended : Bool} {column : Nat} {cs : List Char}
  {ts : List Token}

theorem Reads.blanks (h : Reads next? afterValue column cs ts ended) (hts : ts = []) :
    ∀ c ∈ cs, Text.isBlank c = true := by
  induction h with
  | done => simp
  | blank hblank _ ih => exact List.forall_mem_cons.mpr ⟨hblank, ih hts⟩
  | token _ _ _ => cases hts

theorem Reads.single (h : Reads none afterValue column cs ts ended) {t : Token} (hts : ts = [t]) :
    ∃ pre used post, cs = pre ++ (used ++ post) ∧ (∀ c ∈ pre, Text.isBlank c = true) ∧
      (∀ c ∈ post, Text.isBlank c = true) ∧ t.lexeme.Spells afterValue post.head? used := by
  induction h with
  | done => cases hts
  | @blank _ _ _ c _ _ hblank _ ih =>
      obtain ⟨pre, used, post, rfl, hpre, hrest⟩ := ih hts
      exact ⟨c :: pre, used, post, rfl, List.forall_mem_cons.mpr ⟨hblank, hpre⟩, hrest⟩
  | @token _ _ _ used post _ _ hspells hpost _ =>
      obtain ⟨rfl, hnil⟩ := List.cons.inj hts
      exact ⟨[], used, post, rfl, by simp, hpost.blanks hnil, by simpa using hspells⟩

theorem number_of_scan {text s : String} {v : Int32} (h : scan text = .ok [⟨.number s v, column⟩]) :
    s.toList = Text.trim text.toList ∧
      ∃ w : UInt32, Numeral.Denotes s.toList w.toNat ∧ v = w.toInt32 := by
  obtain ⟨ended, hreads⟩ := reads_of_scanFrom h
  obtain ⟨pre, used, post, htext, hpre, hpost, hspells⟩ := hreads.single rfl
  obtain ⟨rfl, hvisible, hvalue⟩ := hspells.of_number rfl
  rw [String.toList_ofList, htext, Text.trim_blanks hpre hpost hspells.ne_nil hvisible]
  exact ⟨rfl, hvalue⟩

end Token

namespace Config

open Numeral

def lowered (text : String) : List Char :=
  (Text.trim text.toList).map Char.toLower

inductive Listed (sign : List Char) : List Char → Nat → Prop
  | inForm {form : Form} {ds : List Char} : form ≠ .binaryMarkedAfter → Digits form.radix ds →
      Listed sign (form.write (sign ++ ds)) (positional form.radix ds)
  | dollar {ds : List Char} : Digits 16 ds → Listed sign ('$' :: (sign ++ ds)) (positional 16 ds)
  | percent {ds : List Char} : Digits 2 ds → Listed sign ('%' :: (sign ++ ds)) (positional 2 ds)

def Fronted (cs : List Char) : Prop :=
  ∃ ds, cs = '0' :: 'x' :: ds ∨ cs = '$' :: ds ∨ cs = '0' :: 'b' :: ds ∨ cs = '%' :: ds

def Clashes (cs : List Char) : Prop :=
  (∃ ds, cs = '0' :: 'b' :: ds) ∧ cs.getLast? = some 'h'

inductive Unmarks : List Char → Nat → List Char → Prop
  | zeroX (ds : List Char) : Unmarks ('0' :: 'x' :: ds) 16 ds
  | dollar (ds : List Char) : Unmarks ('$' :: ds) 16 ds
  | zeroB (ds : List Char) : Unmarks ('0' :: 'b' :: ds) 2 ds
  | percent (ds : List Char) : Unmarks ('%' :: ds) 2 ds
  | behind {ds : List Char} : ¬Fronted (ds ++ ['h']) → Unmarks (ds ++ ['h']) 16 ds
  | plain {cs : List Char} : ¬Fronted cs → cs.getLast? ≠ some 'h' → Unmarks cs 10 cs

variable {sign cs ds : List Char} {radix n : Nat} {text : String} {w : UInt32}

theorem unmark_of_not_fronted (h : ¬Fronted cs) :
    unmark cs = match before? 'h' cs with
      | some ds => (16, ds)
      | none => (10, cs) := by
  unfold unmark
  split
  · next ds => exact absurd ⟨ds, .inl rfl⟩ h
  · next ds => exact absurd ⟨ds, .inr (.inl rfl)⟩ h
  · next ds => exact absurd ⟨ds, .inr (.inr (.inl rfl))⟩ h
  · next ds => exact absurd ⟨ds, .inr (.inr (.inr rfl))⟩ h
  · rfl

theorem Unmarks.eq (h : Unmarks cs radix ds) : unmark cs = (radix, ds) := by
  cases h with
  | zeroX | dollar | zeroB | percent => rfl
  | behind hfront => rw [unmark_of_not_fronted hfront, before?_eq_some.mpr rfl]
  | plain hfront hlast =>
      have hnone : before? 'h' cs = none := by simp [before?, hlast]
      rw [unmark_of_not_fronted hfront, hnone]

theorem exists_unmarks (cs : List Char) : ∃ radix ds, Unmarks cs radix ds := by
  by_cases hfront : Fronted cs
  · obtain ⟨ds, rfl | rfl | rfl | rfl⟩ := hfront
    · exact ⟨16, ds, .zeroX ds⟩
    · exact ⟨16, ds, .dollar ds⟩
    · exact ⟨2, ds, .zeroB ds⟩
    · exact ⟨2, ds, .percent ds⟩
  · by_cases hlast : cs.getLast? = some 'h'
    · obtain ⟨ds, rfl⟩ := List.getLast?_eq_some_iff.mp hlast
      exact ⟨16, ds, .behind hfront⟩
    · exact ⟨10, cs, .plain hfront hlast⟩

theorem Unmarks.radix_le (h : Unmarks cs radix ds) : radix ≤ 16 := by
  cases h <;> decide

theorem readNumber_eq_ok_of_unmarks (h : Unmarks (lowered text) radix ds) :
    readNumber text = .ok w ↔
      Digits radix (dropPlus ds) ∧ positional radix (dropPlus ds) = w.toNat := by
  have hunmark : unmark ((Text.trim text.toList).map Char.toLower) = (radix, ds) := h.eq
  rw [← word?_eq_some h.radix_le]
  simp only [readNumber, hunmark]
  split <;> simp [*]

theorem dropPlus_cases (ds : List Char) :
    ∃ sign, (sign = [] ∨ sign = ['+']) ∧ ds = sign ++ dropPlus ds := by
  unfold dropPlus
  split
  · exact ⟨['+'], .inr rfl, rfl⟩
  · exact ⟨[], .inl rfl, rfl⟩

theorem dropPlus_signed (hsign : sign = [] ∨ sign = ['+']) (h : Digits radix ds)
    (hradix : radix ≤ 16) : dropPlus (sign ++ ds) = ds := by
  rcases hsign with rfl | rfl
  · have hplus : '+' ∉ ds := h.not_mem hradix
    unfold dropPlus
    split
    · next heq =>
        rw [List.nil_append] at heq
        rw [heq] at hplus
        exact absurd (List.mem_cons_self ..) hplus
    · rfl
  · rfl

theorem Unmarks.listed (h : Unmarks cs radix (sign ++ ds)) (hdigits : Digits radix ds) :
    Listed sign cs (positional radix ds) := by
  generalize hsigned : sign ++ ds = signed at h
  cases h with
  | zeroX =>
      subst hsigned
      exact @Listed.inForm _ .hexMarkedBefore _ (by decide) hdigits
  | dollar =>
      subst hsigned
      exact .dollar hdigits
  | zeroB =>
      subst hsigned
      exact @Listed.inForm _ .binaryMarkedBefore _ (by decide) hdigits
  | percent =>
      subst hsigned
      exact .percent hdigits
  | behind _ =>
      subst hsigned
      exact @Listed.inForm _ .hexMarkedAfter _ (by decide) hdigits
  | plain _ _ =>
      subst hsigned
      exact @Listed.inForm _ .decimal _ (by decide) hdigits

theorem not_fronted (hdollar : '$' ∉ cs) (hpercent : '%' ∉ cs) (hx : 'x' ∉ cs)
    (hb : ∀ ds, cs ≠ '0' :: 'b' :: ds) : ¬Fronted cs := by
  rintro ⟨ds, rfl | rfl | rfl | rfl⟩
  · simp at hx
  · simp at hdollar
  · exact hb ds rfl
  · simp at hpercent

theorem not_mem_signed {c : Char} (hsign : sign = [] ∨ sign = ['+']) (h : Digits radix ds)
    (hradix : radix ≤ rank c) (hc : c ≠ '+') : c ∉ sign ++ ds := by
  have hds := h.not_mem hradix
  rcases hsign with rfl | rfl
  · simpa using hds
  · simp [hc, hds]

theorem Listed.unmarks (h : Listed sign cs n) (hsign : sign = [] ∨ sign = ['+'])
    (hclash : sign = [] → ¬Clashes cs) :
    ∃ radix ds, Unmarks cs radix (sign ++ ds) ∧ Digits radix ds ∧ positional radix ds = n := by
  cases h with
  | dollar hds => exact ⟨16, _, .dollar _, hds, rfl⟩
  | percent hds => exact ⟨2, _, .percent _, hds, rfl⟩
  | @inForm form ds hform hds =>
      have hout : ∀ c, 16 ≤ rank c → c ≠ '+' → c ∉ sign ++ ds :=
        fun c hc => not_mem_signed hsign hds (form.radix_le.trans hc)
      refine ⟨form.radix, ds, ?_, hds, rfl⟩
      cases form with
      | binaryMarkedAfter => exact absurd rfl hform
      | hexMarkedBefore => exact .zeroX _
      | binaryMarkedBefore => exact .zeroB _
      | decimal =>
          refine .plain (not_fronted ?_ ?_ ?_ ?_) ?_
          · exact hout '$' (by decide) (by decide)
          · exact hout '%' (by decide) (by decide)
          · exact hout 'x' (by decide) (by decide)
          · intro more hmore
            have hb : 'b' ∉ sign ++ ds := not_mem_signed hsign hds (by decide) (by decide)
            have hmore : sign ++ ds = '0' :: 'b' :: more := hmore
            simp [hmore] at hb
          · exact fun hlast => hout 'h' (by decide) (by decide) (List.mem_of_getLast? hlast)
      | hexMarkedAfter =>
          have hbehind : ∀ c, 16 ≤ rank c → c ≠ '+' → c ≠ 'h' → c ∉ sign ++ ds ++ ['h'] := by
            intro c hrank hplus hh
            simpa [hh] using hout c hrank hplus
          refine .behind (not_fronted ?_ ?_ ?_ ?_)
          · exact hbehind '$' (by decide) (by decide) (by decide)
          · exact hbehind '%' (by decide) (by decide) (by decide)
          · exact hbehind 'x' (by decide) (by decide) (by decide)
          · intro more hmore
            rcases hsign with rfl | rfl
            · exact hclash rfl ⟨⟨more, hmore⟩, by simp [Form.write]⟩
            · cases hmore

theorem Unmarks.not_clashes (h : Unmarks cs radix ds) (hdigits : Digits radix ds) :
    ¬Clashes cs := by
  rintro ⟨⟨more, hmore⟩, hlast⟩
  cases h with
  | zeroX | dollar | percent => cases hmore
  | zeroB =>
      have hh : 'h' ∉ ds := hdigits.not_mem (by decide)
      obtain ⟨d, rest, rfl⟩ := List.exists_cons_of_ne_nil hdigits.1
      rw [List.getLast?_cons_cons, List.getLast?_cons_cons] at hlast
      exact hh (List.mem_of_getLast? hlast)
  | behind hfront => exact hfront ⟨more, .inr (.inr (.inl hmore))⟩
  | plain _ hplain => exact hplain hlast

theorem readNumber_eq_ok : readNumber text = .ok w ↔
    Listed [] (lowered text) w.toNat ∧ ¬Clashes (lowered text) ∨
      Listed ['+'] (lowered text) w.toNat := by
  constructor
  · intro h
    obtain ⟨radix, ds, hunmarks⟩ := exists_unmarks (lowered text)
    obtain ⟨hdigits, hvalue⟩ := (readNumber_eq_ok_of_unmarks hunmarks).mp h
    obtain ⟨sign, hsign, hds⟩ := dropPlus_cases ds
    rw [hds] at hunmarks
    have hlisted := hunmarks.listed hdigits
    rw [hvalue] at hlisted
    rcases hsign with rfl | rfl
    · exact .inl ⟨hlisted, hunmarks.not_clashes hdigits⟩
    · exact .inr hlisted
  · intro h
    obtain ⟨sign, hsign, hlisted, hclash⟩ : ∃ sign, (sign = [] ∨ sign = ['+']) ∧
        Listed sign (lowered text) w.toNat ∧ (sign = [] → ¬Clashes (lowered text)) := by
      rcases h with ⟨hlisted, hclash⟩ | hlisted
      · exact ⟨[], .inl rfl, hlisted, fun _ => hclash⟩
      · exact ⟨['+'], .inr rfl, hlisted, fun h => by cases h⟩
    obtain ⟨radix, ds, hunmarks, hdigits, hvalue⟩ := hlisted.unmarks hsign hclash
    rw [readNumber_eq_ok_of_unmarks hunmarks,
      dropPlus_signed hsign hdigits hunmarks.radix_le]
    exact ⟨hdigits, hvalue⟩

theorem listed_of_denotes (h : Denotes cs n) :
    Listed [] (cs.map Char.toLower) n ∨ ∃ ds, Form.binaryMarkedAfter.Writes ds cs := by
  cases h with
  | @inForm c run ds form _ hwrites =>
      by_cases hform : form = .binaryMarkedAfter
      · subst hform
        exact .inr ⟨ds, hwrites⟩
      · rw [hwrites.spelled]
        exact .inl (.inForm hform hwrites.digits)
  | @dollar ds hds =>
      obtain ⟨hlower, hvalue⟩ := digits_lower hds
      rw [← hvalue]
      exact .inl (.dollar hlower)
  | @percent ds hds =>
      obtain ⟨hlower, hvalue⟩ := digits_lower hds
      rw [← hvalue]
      exact .inl (.percent hlower)

theorem Listed.plus_mem (h : Listed ['+'] cs n) : '+' ∈ cs := by
  cases h with
  | @inForm form ds _ _ => cases form <;> simp [Form.write]
  | dollar _ => simp
  | percent _ => simp

theorem plus_not_mem_write {form : Form} (h : Digits form.radix ds) : '+' ∉ form.write ds := by
  have hds : '+' ∉ ds := h.not_mem form.radix_le
  cases form <;> simp [Form.write, hds]

theorem Listed.plus_not_mem (h : Listed [] cs n) : '+' ∉ cs := by
  cases h with
  | inForm _ hds => exact plus_not_mem_write hds
  | dollar hds => simpa using (hds.not_mem (by decide) : '+' ∉ _)
  | percent hds => simpa using (hds.not_mem (by decide) : '+' ∉ _)

theorem Listed.not_binaryMarkedAfter (h : Listed [] cs n) (hds : Digits 2 ds) :
    cs ≠ Form.binaryMarkedAfter.write ds := by
  have hout : ∀ c, 2 ≤ rank c → c ≠ 'b' → c ∉ Form.binaryMarkedAfter.write ds := by
    intro c hc hb
    simp [Form.write, hb, hds.not_mem hc]
  intro heq
  cases h with
  | @inForm form ds' hform hds' =>
      apply hform
      calc form = Form.ofMarks (form.write ds') := (Form.ofMarks_write hds').symm
        _ = Form.ofMarks (Form.binaryMarkedAfter.write ds) := congrArg Form.ofMarks heq
        _ = .binaryMarkedAfter := Form.ofMarks_write hds
  | dollar _ =>
      have := hout '$' (by decide) (by decide)
      rw [← heq] at this
      simp at this
  | percent _ =>
      have := hout '%' (by decide) (by decide)
      rw [← heq] at this
      simp at this

theorem Listed.unique {m : Nat} (h : Listed [] cs n) (h' : Listed [] cs m)
    (hclash : ¬Clashes cs) : n = m := by
  obtain ⟨radix, ds, hunmarks, -, rfl⟩ := h.unmarks (.inl rfl) fun _ => hclash
  obtain ⟨radix', ds', hunmarks', -, rfl⟩ := h'.unmarks (.inl rfl) fun _ => hclash
  cases hunmarks.eq.symm.trans hunmarks'.eq
  rfl

theorem readNumber_documented_iff (text : String) :
    (∀ w : UInt32, readNumber text = .ok w ↔ Listed [] (lowered text) w.toNat) ↔
      (¬∃ w : UInt32, Listed [] (lowered text) w.toNat ∧ Clashes (lowered text)) ∧
        ¬∃ w : UInt32, Listed ['+'] (lowered text) w.toNat := by
  constructor
  · intro h
    constructor
    · rintro ⟨w, hlisted, hclash⟩
      rcases readNumber_eq_ok.mp ((h w).mpr hlisted) with ⟨-, hnot⟩ | hplus
      · exact hnot hclash
      · exact hlisted.plus_not_mem hplus.plus_mem
    · rintro ⟨w, hplus⟩
      have hlisted := (h w).mp (readNumber_eq_ok.mpr (.inr hplus))
      exact hlisted.plus_not_mem hplus.plus_mem
  · rintro ⟨hclash, hplus⟩ w
    rw [readNumber_eq_ok]
    constructor
    · rintro (⟨hlisted, -⟩ | hsigned)
      · exact hlisted
      · exact absurd ⟨w, hsigned⟩ hplus
    · intro hlisted
      exact .inl ⟨hlisted, fun h => hclash ⟨w, hlisted, h⟩⟩

section Agreement

variable {s : String} {v : Int32} {column : Nat}

theorem listed_of_scan (h : Token.scan text = .ok [⟨.number s v, column⟩]) :
    (∃ w : UInt32, Listed [] (lowered text) w.toNat ∧ v = w.toInt32) ∨
      ∃ ds, Form.binaryMarkedAfter.Writes ds s.toList := by
  obtain ⟨hspelling, w, hdenotes, hvalue⟩ := Token.number_of_scan h
  rcases listed_of_denotes hdenotes with hlisted | hbinary
  · rw [hspelling] at hlisted
    exact .inl ⟨w, hlisted, hvalue⟩
  · exact .inr hbinary

theorem listed_of_readNumber (h : Token.scan text = .ok [⟨.number s v, column⟩])
    (hread : readNumber text = .ok w) :
    Listed [] (lowered text) w.toNat ∧ ¬Clashes (lowered text) ∧
      ¬∃ ds, Form.binaryMarkedAfter.Writes ds s.toList := by
  obtain ⟨hspelling, -⟩ := Token.number_of_scan h
  have hplus : '+' ∉ lowered text := by
    rcases listed_of_scan h with ⟨_, hlisted, _⟩ | ⟨ds, hwrites⟩
    · exact hlisted.plus_not_mem
    · rw [lowered, ← hspelling, hwrites.spelled]
      exact plus_not_mem_write hwrites.digits
  rcases readNumber_eq_ok.mp hread with ⟨hlisted, hclash⟩ | hsigned
  · refine ⟨hlisted, hclash, ?_⟩
    rintro ⟨ds, hwrites⟩
    apply hlisted.not_binaryMarkedAfter hwrites.digits
    rw [lowered, ← hspelling, hwrites.spelled]
  · exact absurd hsigned.plus_mem hplus

theorem readNumber_scan_iff (h : Token.scan text = .ok [⟨.number s v, column⟩]) :
    (∃ w, readNumber text = .ok w) ↔
      (¬∃ ds, Form.binaryMarkedAfter.Writes ds s.toList) ∧ ¬Clashes (lowered text) := by
  constructor
  · rintro ⟨w, hread⟩
    obtain ⟨-, hclash, hbinary⟩ := listed_of_readNumber h hread
    exact ⟨hbinary, hclash⟩
  · rintro ⟨hbinary, hclash⟩
    rcases listed_of_scan h with ⟨w, hlisted, -⟩ | hmarked
    · exact ⟨w, readNumber_eq_ok.mpr (.inl ⟨hlisted, hclash⟩)⟩
    · exact absurd hmarked hbinary

theorem readNumber_scan_eq (h : Token.scan text = .ok [⟨.number s v, column⟩])
    (hread : readNumber text = .ok w) : v = w.toInt32 := by
  obtain ⟨hlisted, hclash, hbinary⟩ := listed_of_readNumber h hread
  rcases listed_of_scan h with ⟨w', hlisted', hvalue⟩ | hmarked
  · rw [hvalue, UInt32.toNat_inj.mp (hlisted.unique hlisted' hclash)]
  · exact absurd hmarked hbinary

end Agreement

theorem option_numbers_iff (text : String) :
    (∀ w, readNumber text = .ok w ↔
      Listed [] (lowered text) w.toNat ∧ ¬Clashes (lowered text) ∨
        Listed ['+'] (lowered text) w.toNat) ∧
    ((∀ w : UInt32, readNumber text = .ok w ↔ Listed [] (lowered text) w.toNat) ↔
      (¬∃ w : UInt32, Listed [] (lowered text) w.toNat ∧ Clashes (lowered text)) ∧
        ¬∃ w : UInt32, Listed ['+'] (lowered text) w.toNat) ∧
    ∀ (s : String) (v : Int32) (column : Nat), Token.scan text = .ok [⟨.number s v, column⟩] →
      ((∃ w, readNumber text = .ok w) ↔
        (¬∃ ds, Form.binaryMarkedAfter.Writes ds s.toList) ∧ ¬Clashes (lowered text)) ∧
      ∀ w, readNumber text = .ok w → v.toInt ≡ w.toNat [ZMOD 4294967296] := by
  refine ⟨fun w => readNumber_eq_ok, readNumber_documented_iff text, ?_⟩
  intro s v column h
  refine ⟨readNumber_scan_iff h, ?_⟩
  intro w hread
  rw [readNumber_scan_eq h hread, toInt_toInt32]
  exact signed_modEq w.toNat

theorem option_numbers_lastWord :
    Token.scan " $FFFFFFFF " = .ok [⟨.number "$FFFFFFFF" (-1), 1⟩] ∧
      ∃ w, readNumber " $FFFFFFFF " = .ok w ∧ (-1 : Int32).toInt ≡ w.toNat [ZMOD 4294967296] := by
  have hscan : Token.scan " $FFFFFFFF " = .ok [⟨.number "$FFFFFFFF" (-1), 1⟩] := by
    decide +kernel
  obtain ⟨haccepts, hagrees⟩ := (option_numbers_iff " $FFFFFFFF ").2.2 _ _ _ hscan
  have hmarks : (¬∃ ds, Form.binaryMarkedAfter.Writes ds "$FFFFFFFF".toList) ∧
      ¬Clashes (lowered " $FFFFFFFF ") := by
    constructor
    · rintro ⟨ds, -, hspelled⟩
      have hlast := congrArg List.getLast? hspelled
      simp [Form.write] at hlast
    · rintro ⟨⟨ds, hds⟩, -⟩
      cases hds
  obtain ⟨w, hw⟩ := haccepts.mpr hmarks
  exact ⟨hscan, w, hw, hagrees w hw⟩

theorem option_numbers_hexBehindZeroB :
    (Listed [] (lowered "0B1H") 177 ∧
      Token.scan "0B1H" = .ok [⟨.number "0B1H" 177, 0⟩] ∧
      readNumber "0B1H" = .error (.invalidNumber "0B1H")) ∧
    (∀ n, ¬Listed [] (lowered "0x+1F") n) ∧ readNumber "0x+1F" = .ok 31 := by
  refine ⟨⟨?_, by decide +kernel, by decide +kernel⟩, ?_, by decide +kernel⟩
  · have hdigits : Digits 16 ['0', 'b', '1'] := (isDigits_iff (by decide)).mp rfl
    exact @Listed.inForm [] .hexMarkedAfter _ (by decide) hdigits
  · intro n hlisted
    exact hlisted.plus_not_mem (by decide +kernel)

end Config

end Z80
