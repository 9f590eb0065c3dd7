import Mathlib
import Z80.Proofs.Lexing

namespace Z80

namespace Text

def isPlain (c : Char) : Bool :=
  (0x20 ≤ c.toNat && c.toNat ≤ 0x7E) || c == '\n' || c == '\r' || c == '\t' || c == '\x00'

variable {c : Char}

theorem isHidden_of_printable (hlow : 0x20 ≤ c.toNat) (hhigh : c.toNat ≤ 0x7E) :
    isHidden c = false := by
  have hedges : hiddenEdges = 0x0 :: 0x20 :: 0x7F :: hiddenEdges.drop 3 := rfl
  have hrun : hiddenEdges.takeWhile (· ≤ c.toNat) = [0x0, 0x20] := by
    rw [hedges, List.takeWhile_cons_of_pos (by simp), List.takeWhile_cons_of_pos (by simpa using hlow),
      List.takeWhile_cons_of_neg (by simp; omega)]
  rw [isHidden, hrun]
  rfl

theorem not_nameRest_of_isBlank (h : isBlank c = true) : isNameRest c = false ∧ c ≠ '\'' := by
  constructor
  · rw [Bool.eq_false_iff]
    intro hrest
    rw [not_isBlank hrest] at h
    cases h
  · rintro rfl
    cases h

end Text

namespace Lexeme

def isLegible : Lexeme → Bool
  | text s => s.toList.all Text.isPlain
  | char c => c != '\'' && c != '\\'
  | _ => true

section Literals

variable {c : Char} {cs chars : List Char}

theorem escape_cases (hc : Text.isPlain c = true) :
    (∃ d, (Text.escape c).toList = ['\\', d] ∧ unescape d = .ok c) ∨
      ((Text.escape c).toList = [c] ∧ c ≠ '\\' ∧ c ≠ '"') := by
  by_cases hshort : c ∈ ['\x00', '\t', '\r', '\n', '"', '\\']
  · left
    simp only [List.mem_cons, List.not_mem_nil, or_false] at hshort
    rcases hshort with rfl | rfl | rfl | rfl | rfl | rfl
    · exact ⟨'0', rfl, rfl⟩
    · exact ⟨'t', rfl, rfl⟩
    · exact ⟨'r', rfl, rfl⟩
    · exact ⟨'n', rfl, rfl⟩
    · exact ⟨'"', rfl, rfl⟩
    · exact ⟨'\\', rfl, rfl⟩
  · right
    simp only [List.mem_cons, List.not_mem_nil, or_false, not_or] at hshort
    have hprintable : 0x20 ≤ c.toNat ∧ c.toNat ≤ 0x7E := by
      simpa [Text.isPlain, hshort] using hc
    have hshown := Text.isHidden_of_printable hprintable.1 hprintable.2
    refine ⟨?_, hshort.2.2.2.2.2, hshort.2.2.2.2.1⟩
    simp [Text.escape, hshort, hshown, Char.toString]

theorem Literal.escaped (hc : Text.isPlain c = true) (h : Literal '"' cs chars) :
    Literal '"' ((Text.escape c).toList ++ cs) (c :: chars) := by
  rcases escape_cases hc with ⟨d, heq, hd⟩ | ⟨heq, hescape, hquote⟩
  · rw [heq]
    exact .escape hd h
  · rw [heq]
    exact .plain hescape hquote h

theorem literal_quoted (h : ∀ c ∈ chars, Text.isPlain c = true) :
    Literal '"' (chars.flatMap (fun c => (Text.escape c).toList) ++ ['"']) chars := by
  induction chars with
  | nil => exact .close
  | cons c chars ih =>
      rw [List.flatMap_cons, List.append_assoc]
      exact .escaped (h c (List.mem_cons_self ..)) (ih fun d hd => h d (List.mem_cons_of_mem _ hd))

theorem quoted_toList (s : String) : (Text.quoted s).toList =
    '"' :: (s.toList.flatMap (fun c => (Text.escape c).toList) ++ ['"']) := by
  simp [Text.quoted, String.toList_join, List.flatMap_map]

end Literals

section Rendering

variable {afterValue : Bool} {next? next?' : Option Char} {cs : List Char} {l : Lexeme}

theorem spells_char {c : Char} (h : (char c).isLegible = true) :
    Spells afterValue next? (char c).render.toList (char c) := by
  obtain ⟨hquote, hescape⟩ : c ≠ '\'' ∧ c ≠ '\\' := by simpa [isLegible] using h
  have hspells : Spells afterValue next? ['\'', c, '\''] (ofLiteral '\'' [c]) :=
    .literal (.inl rfl) (.plain hescape hquote .close)
  have hrender : (char c).render.toList = ['\'', c, '\''] := by simp [Lexeme.render, Char.toString]
  rw [hrender]
  exact hspells

theorem ofLiteral_double (chars : List Char) :
    ofLiteral '"' chars = text (String.ofList chars) := by
  rcases ofLiteral_cases '"' chars with ⟨c, hquote, -, -⟩ | heq
  · cases hquote
  · exact heq

theorem spells_text {s : String} (h : (text s).isLegible = true) :
    Spells afterValue next? (text s).render.toList (text s) := by
  have hplain : ∀ c ∈ s.toList, Text.isPlain c = true := List.all_eq_true.mp h
  have hword : ofLiteral '"' s.toList = text s := by rw [ofLiteral_double, String.ofList_toList]
  rw [Lexeme.render, quoted_toList, ← hword]
  exact .literal (.inr rfl) (literal_quoted hplain)

theorem spells_keyword (k : Keyword)
    (hbreak : ∀ d ∈ next?, Text.isNameRest d = false ∧ d ≠ '\'') :
    Spells afterValue next? (keyword k).render.toList (keyword k) := by
  by_cases hk : k = .afShadow
  · subst hk
    have hspells : Spells afterValue next? (['a', 'f'] ++ ['\'']) (keyword .afShadow) :=
      .shadow (by decide) (by decide)
    exact hspells
  · obtain ⟨hname, hword⟩ := ofWord_keyword hk
    rw [Lexeme.render, ← hword]
    exact .word hname (fun d hd => (hbreak d hd).1) fun _ hquote => (hbreak _ hquote).2 rfl

theorem Spells.render (h : Spells afterValue next? cs l) (hlegible : l.isLegible = true)
    (hlast : (∃ s, l = Lexeme.comment s) → next?' = none)
    (hblank : ∀ d ∈ next?', Text.isBlank d = true) :
    Spells afterValue next?' l.render.toList l := by
  have hbreak : ∀ d ∈ next?', Text.isNameRest d = false ∧ d ≠ '\'' :=
    fun d hd => Text.not_nameRest_of_isBlank (hblank d hd)
  have hsame : l.render.toList = cs → Spells afterValue next?' l.render.toList l := by
    intro hcs
    rw [hcs]
    exact h.before hlast hbreak
  cases h with
  | comment | hexadecimal | binary | numeral => exact hsame (by simp [Lexeme.render])
  | shiftLeft | shiftRight | dollar | percent => exact hsame (by decide)
  | mark hc hp => exact hsame (text_of_mark hp)
  | @literal quote _ chars _ _ =>
      rcases ofLiteral_cases quote chars with ⟨c, -, -, heq⟩ | heq
      · rw [heq] at hlegible ⊢
        exact spells_char hlegible
      · rw [heq] at hlegible ⊢
        exact spells_text hlegible
  | shadow hname haf => exact spells_keyword .afShadow hbreak
  | word hname _ _ =>
      rcases ofWord_cases cs with ⟨k, heq⟩ | heq
      · rw [heq]
        exact spells_keyword k hbreak
      · exact hsame (by rw [heq]; simp [Lexeme.render])

end Rendering

inductive Spaced : List Lexeme → List Char → Prop
  | done : Spaced [] []
  | blank {c : Char} {ls : List Lexeme} {cs : List Char} : Text.isBlank c = true → Spaced ls cs →
      Spaced ls (c :: cs)
  | last (l : Lexeme) : Spaced [l] l.render.toList
  | lexeme {l : Lexeme} {c : Char} {ls : List Lexeme} {cs : List Char} :
      (∀ s, l ≠ comment s) → Text.isBlank c = true → Spaced ls cs →
      Spaced (l :: ls) (l.render.toList ++ c :: cs)

def ReadsBack : Bool → List Lexeme → Prop
  | _, [] => True
  | afterValue, l :: ls =>
      (∀ next?, ((∃ s, l = comment s) → next? = none) → (∀ d ∈ next?, Text.isBlank d = true) →
        Spells afterValue next? l.render.toList l) ∧
      ((∃ s, l = comment s) → ls = []) ∧ ReadsBack l.endsValue ls

theorem spaced_intercalate {afterValue : Bool} {ls : List Lexeme} (h : ReadsBack afterValue ls) :
    Spaced ls (" ".intercalate (ls.map render)).toList := by
  induction ls generalizing afterValue with
  | nil => exact .done
  | cons l ls ih =>
      obtain ⟨-, hlast, hls⟩ := h
      cases ls with
      | nil => simpa using Spaced.last l
      | cons k ls =>
          have hcomment : ∀ s, l ≠ comment s := fun s hs => by simpa using hlast ⟨s, hs⟩
          simpa using Spaced.lexeme hcomment rfl (ih hls)

end Lexeme

namespace Token

variable {afterValue ended : Bool} {column : Nat} {cs : List Char} {ts : List Token}

theorem readsBack_of_reads (h : Reads none afterValue column cs ts ended)
    (hlegible : ∀ t ∈ ts, t.lexeme.isLegible = true) :
    Lexeme.ReadsBack afterValue (ts.map Token.lexeme) := by
  induction h with
  | done => trivial
  | blank _ _ ih => exact ih hlegible
  | @token _ _ _ cs more l ts hspells hmore ih =>
      refine ⟨?_, ?_, ih fun t ht => hlegible t (List.mem_cons_of_mem _ ht)⟩
      · intro next? hlast hblank
        exact hspells.render (hlegible ⟨l, _⟩ (List.mem_cons_self ..)) hlast hblank
      · rintro ⟨s, hs⟩
        -- Nothing stands behind the comment, so no token does.
        have hnil : more = [] := by simpa using hspells.last hs
        cases ts with
        | nil => rfl
        | cons t ts => exact absurd hnil hmore.ne_nil

theorem reads_of_spaced {ls : List Lexeme} (h : Lexeme.Spaced ls cs) :
    ∀ afterValue column, Lexeme.ReadsBack afterValue ls →
      ∃ us ended, Reads none afterValue column cs us ended ∧ us.map Token.lexeme = ls := by
  induction h with
  | done => exact fun afterValue column _ => ⟨[], afterValue, .done, rfl⟩
  | @blank c _ _ hblank _ ih =>
      intro afterValue column hls
      obtain ⟨us, ended, hreads, hlexemes⟩ := ih afterValue (column + c.utf8Size) hls
      exact ⟨us, ended, .blank hblank hreads, hlexemes⟩
  | last l =>
      intro afterValue column hls
      have hspells := hls.1 none (by simp) (by simp)
      have hreads : Reads none afterValue column (l.render.toList ++ []) [⟨l, column⟩] l.endsValue :=
        .token (by simpa using hspells) .done
      exact ⟨[⟨l, column⟩], l.endsValue, by simpa using hreads, rfl⟩
  | @lexeme l c ls cs hcomment hblank _ ih =>
      intro afterValue column hls
      obtain ⟨hl, -, hls⟩ := hls
      have hspells := hl (some c) (fun ⟨s, hs⟩ => absurd hs (hcomment s)) (by simpa using hblank)
      obtain ⟨us, ended, hreads, hlexemes⟩ :=
        ih l.endsValue (column + String.utf8Len l.render.toList + c.utf8Size) hls
      refine ⟨⟨l, column⟩ :: us, ended, .token (by simpa using hspells) (.blank hblank hreads), ?_⟩
      rw [List.map_cons, hlexemes]

theorem scan_rendered (line : String) (ts : List Token) (hscan : Token.scan line = .ok ts)
    (hlegible : ∀ t ∈ ts, t.lexeme.isLegible = true) :
    (∃ us, Token.scan (" ".intercalate (ts.map fun t => t.lexeme.render)) = .ok us ∧
      us.map Token.lexeme = ts.map Token.lexeme) ∧
    ∀ text : String, Lexeme.Spaced (ts.map Token.lexeme) text.toList →
      ∃ us, Token.scan text = .ok us ∧ us.map Token.lexeme = ts.map Token.lexeme := by
  obtain ⟨ended, hreads⟩ := reads_of_scanFrom hscan
  have hback := readsBack_of_reads hreads hlegible
  have hspaced : ∀ text : String, Lexeme.Spaced (ts.map Token.lexeme) text.toList →
      ∃ us, Token.scan text = .ok us ∧ us.map Token.lexeme = ts.map Token.lexeme := by
    intro text htext
    obtain ⟨us, ended', hus, hlexemes⟩ := reads_of_spaced htext false 0 hback
    exact ⟨us, hus.scanFrom_ok, hlexemes⟩
  refine ⟨?_, hspaced⟩
  have hjoined := Lexeme.spaced_intercalate hback
  rw [List.map_map] at hjoined
  exact hspaced _ hjoined

theorem scan_rendered_mixed :
    ∃ us, Token.scan "tag : db \"it\" 's' , $1F + 5 % %101 , '\"' ;x" = .ok us ∧
      us.map Token.lexeme =
        [.name "tag", .punct .colon, .name "db", .text "it", .char 's', .punct .comma,
          .number "$1F" 31, .punct .plus, .number "5" 5, .punct .percent, .number "%101" 5,
          .punct .comma, .char '"', .comment "x"] := by
  have hscan : Token.scan "tag:\tdb 'it''s',$1F+5%%101,'\"' ;x" = .ok
      [⟨.name "tag", 0⟩, ⟨.punct .colon, 3⟩, ⟨.name "db", 5⟩, ⟨.text "it", 8⟩, ⟨.char 's', 12⟩,
        ⟨.punct .comma, 15⟩, ⟨.number "$1F" 31, 16⟩, ⟨.punct .plus, 19⟩, ⟨.number "5" 5, 20⟩,
        ⟨.punct .percent, 21⟩, ⟨.number "%101" 5, 22⟩, ⟨.punct .comma, 26⟩, ⟨.char '"', 27⟩,
        ⟨.comment "x", 31⟩] := by
    decide +kernel
  have hrendered := (scan_rendered _ _ hscan (by decide +kernel)).1
  exact hrendered

end Token

end Z80
