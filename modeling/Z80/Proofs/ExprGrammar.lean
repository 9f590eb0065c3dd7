import Mathlib
import Z80.Proofs.Grammar

namespace Z80

namespace Expr

inductive Rank where
  | or | xor | and | shift | sum | product | unary | primary
deriving DecidableEq

def Rank.tighter? : Rank → Option Rank
  | or => some xor
  | xor => some and
  | and => some shift
  | shift => some sum
  | sum => some product
  | product => some unary
  | unary => some primary
  | primary => none

inductive Operator : Rank → Punct → BinaryOp → Prop
  | or : Operator .or .bar .or
  | xor : Operator .xor .caret .xor
  | and : Operator .and .ampersand .and
  | shl : Operator .shift .shiftLeft .shl
  | shr : Operator .shift .shiftRight .shr
  | add : Operator .sum .plus .add
  | sub : Operator .sum .minus .sub
  | mul : Operator .product .star .mul
  | div : Operator .product .slash .div
  | mod : Operator .product .percent .mod

def IsLeast (n : Int32) : Prop :=
  n.toInt = -2 ^ 31

inductive Derives : Rank → List Lexeme → Expr → Prop
  | binary {r t : Rank} {p : Punct} {op : BinaryOp} {ls ms : List Lexeme} {left right : Expr} :
      Operator r p op → r.tighter? = some t → Derives r ls left → Derives t ms right →
      Derives r (ls ++ .punct p :: ms) (.binary op left right)
  | tighter {r t : Rank} {ls : List Lexeme} {e : Expr} :
      r.tighter? = some t → Derives t ls e → Derives r ls e
  | plus {ls : List Lexeme} {e : Expr} : Derives .unary ls e → Derives .unary (.punct .plus :: ls) e
  | negative {ls : List Lexeme} {n : Int32} : Derives .unary ls (.number n) → ¬IsLeast n →
      Derives .unary (.punct .minus :: ls) (.number (-n))
  | minus {ls : List Lexeme} {e : Expr} : Derives .unary ls e → (∀ n, e = .number n → IsLeast n) →
      Derives .unary (.punct .minus :: ls) (.unary .neg e)
  | complement {ls : List Lexeme} {e : Expr} : Derives .unary ls e →
      Derives .unary (.punct .tilde :: ls) (.unary .not e)
  | parenthesized {ls : List Lexeme} {e : Expr} : Derives .or ls e →
      Derives .primary (.punct .leftParen :: (ls ++ [.punct .rightParen])) e
  | name {s : String} : Derives .primary [.name s] (.symbol s)
  | here : Derives .primary [.punct .dollar] .here
  | number {spelling : String} {n : Int32} : Derives .primary [.number spelling n] (.number n)
  | char {c : Char} : Derives .primary [.char c] (.number (Int32.ofNat c.toNat))
  | text {s : String} {c : Char} : s.toList = [c] →
      Derives .primary [.text s] (.number (Int32.ofNat c.toNat))

def IsOperator (l : Lexeme) : Prop :=
  ∃ r p op, l = .punct p ∧ Operator r p op

def Rank.levels : Rank → List Level
  | or => [orLevel, xorLevel, andLevel, shiftLevel, addLevel, mulLevel]
  | xor => [xorLevel, andLevel, shiftLevel, addLevel, mulLevel]
  | and => [andLevel, shiftLevel, addLevel, mulLevel]
  | shift => [shiftLevel, addLevel, mulLevel]
  | sum => [addLevel, mulLevel]
  | product => [mulLevel]
  | unary | primary => []

theorem Rank.levels_of_tighter? {r t : Rank} (h : r.tighter? = some t) :
    (r = unary ∧ t = primary) ∨ ∃ level, r.levels = level :: t.levels := by
  cases r with
  | or | xor | and | shift | sum | product =>
      cases h
      exact .inr ⟨_, rfl⟩
  | unary =>
      cases h
      exact .inl ⟨rfl, rfl⟩
  | primary => cases h

theorem Rank.tighter?_of_levels {r : Rank} {level : Level} {ls : List Level}
    (h : r.levels = level :: ls) : ∃ t, r.tighter? = some t ∧ t ≠ primary ∧ t.levels = ls := by
  cases r <;> cases h <;> exact ⟨_, rfl, by simp, rfl⟩

theorem Rank.operator_iff {r : Rank} {level : Level} {ls : List Level}
    (h : r.levels = level :: ls) (p : Punct) (op : BinaryOp) :
    level p = some op ↔ Operator r p op := by
  constructor
  · intro hop
    cases r <;> cases h <;> cases p <;> cases hop <;> constructor
  · intro hop
    cases hop <;> cases h <;> rfl

theorem Operator.levels {r : Rank} {p : Punct} {op : BinaryOp} (h : Operator r p op) :
    ∃ level t, r.tighter? = some t ∧ r.levels = level :: t.levels ∧ level p = some op := by
  cases h <;> exact ⟨_, _, rfl, rfl, rfl⟩

theorem prefixed_neg_number {n : Int32} (h : ¬IsLeast n) :
    prefixed .neg (.number n) = .number (-n) :=
  if_neg h

theorem prefixed_neg {e : Expr} (h : ∀ n, e = .number n → IsLeast n) :
    prefixed .neg e = .unary .neg e := by
  cases e with
  | number n => exact if_pos (h n rfl)
  | _ => rfl

theorem Derives.phrase {r : Rank} {ls : List Lexeme} {e : Expr} (h : Derives r ls e) :
    ∀ {ts : List Token}, ts.map Token.lexeme = ls → Phrase r.levels ts e := by
  induction h with
  | @binary r t p op ls ms left right hop htighter _ _ ihl ihr =>
      intro ts hts
      obtain ⟨front, back, rfl, hfront, hback⟩ := List.map_eq_append_iff.mp hts
      obtain ⟨sign, more, rfl, hsign, hmore⟩ := List.map_eq_cons_iff.mp hback
      obtain ⟨level, _, htighter', hlevels, hlevel⟩ := hop.levels
      cases htighter.symm.trans htighter'
      have hleft := ihl hfront
      rw [hlevels] at hleft ⊢
      exact .binary hleft (by rw [hsign]; exact hlevel) (ihr hmore)
  | tighter htighter _ ih =>
      intro ts hts
      rcases Rank.levels_of_tighter? htighter with ⟨rfl, rfl⟩ | ⟨level, hlevels⟩
      · exact ih hts
      · rw [hlevels]
        exact .operand (ih hts)
  | plus _ ih =>
      intro ts hts
      obtain ⟨t, more, rfl, ht, hmore⟩ := List.map_eq_cons_iff.mp hts
      have hsign : prefixOp? t.lexeme = some .pos := by rw [ht]; rfl
      exact .signed hsign (ih hmore)
  | negative _ hleast ih =>
      intro ts hts
      obtain ⟨t, more, rfl, ht, hmore⟩ := List.map_eq_cons_iff.mp hts
      rw [← prefixed_neg_number hleast]
      exact .signed (by rw [ht]; rfl) (ih hmore)
  | minus _ hleast ih =>
      intro ts hts
      obtain ⟨t, more, rfl, ht, hmore⟩ := List.map_eq_cons_iff.mp hts
      rw [← prefixed_neg hleast]
      exact .signed (by rw [ht]; rfl) (ih hmore)
  | complement _ ih =>
      intro ts hts
      obtain ⟨t, more, rfl, ht, hmore⟩ := List.map_eq_cons_iff.mp hts
      have hsign : prefixOp? t.lexeme = some .not := by rw [ht]; rfl
      exact .signed hsign (ih hmore)
  | parenthesized _ ih =>
      intro ts hts
      obtain ⟨t, more, rfl, ht, hmore⟩ := List.map_eq_cons_iff.mp hts
      obtain ⟨inner, close, rfl, hinner, hclose⟩ := List.map_eq_append_iff.mp hmore
      obtain ⟨u, rfl, hu⟩ := List.map_eq_singleton_iff.mp hclose
      exact .parenthesized ht (ih hinner) hu
  | name | here | number | char =>
      intro ts hts
      obtain ⟨t, rfl, ht⟩ := List.map_eq_singleton_iff.mp hts
      exact .token (by rw [ht]; rfl)
  | text hs =>
      intro ts hts
      obtain ⟨t, rfl, ht⟩ := List.map_eq_singleton_iff.mp hts
      exact .token (by simp [ht, ofLexeme?, hs])

theorem derives_of_ofLexeme? {l : Lexeme} {e : Expr} (h : ofLexeme? l = some e) :
    Derives .primary [l] e := by
  cases l with
  | name s =>
      cases h
      exact .name
  | number spelling n =>
      cases h
      exact .number
  | char c =>
      cases h
      exact .char
  | text s =>
      simp only [ofLexeme?] at h
      split at h
      · next c hs =>
          cases h
          exact .text hs
      · cases h
  | punct p =>
      cases p <;> cases h
      exact .here
  | keyword k => cases h
  | comment s => cases h

theorem Derives.prefixed {op : UnaryOp} {l : Lexeme} {ls : List Lexeme} {e : Expr}
    (hop : prefixOp? l = some op) (h : Derives .unary ls e) :
    Derives .unary (l :: ls) (prefixed op e) := by
  have hsign : (op = .pos ∧ l = .punct .plus) ∨ (op = .neg ∧ l = .punct .minus) ∨
      (op = .not ∧ l = .punct .tilde) := by
    cases l with
    | punct p => cases p <;> cases hop <;> simp
    | _ => cases hop
  rcases hsign with ⟨rfl, rfl⟩ | ⟨rfl, rfl⟩ | ⟨rfl, rfl⟩
  · exact .plus h
  · by_cases hleast : ∀ n, e = .number n → IsLeast n
    · rw [prefixed_neg hleast]
      exact .minus h hleast
    · push Not at hleast
      obtain ⟨n, rfl, hn⟩ := hleast
      rw [prefixed_neg_number hn]
      exact .negative h hn
  · exact .complement h

theorem Rank.eq_unary {r : Rank} (h : r.levels = []) (hne : r ≠ primary) : r = unary := by
  cases r with
  | or | xor | and | shift | sum | product => cases h
  | unary => rfl
  | primary => exact absurd rfl hne

theorem Phrase.derives {ls : List Level} {ts : List Token} {e : Expr} (h : Phrase ls ts e) :
    ∀ {r : Rank}, r ≠ .primary → r.levels = ls → Derives r (ts.map Token.lexeme) e := by
  induction h with
  | token he =>
      intro r hne hr
      rw [Rank.eq_unary hr hne]
      exact .tighter rfl (derives_of_ofLexeme? he)
  | signed hop _ ih =>
      intro r hne hr
      rw [Rank.eq_unary hr hne]
      exact (ih (by simp) rfl).prefixed hop
  | parenthesized hparen _ hclose ih =>
      intro r hne hr
      rw [Rank.eq_unary hr hne, List.map_cons, List.map_append, List.map_singleton, hparen, hclose]
      exact .tighter rfl (.parenthesized (ih (r := .or) (by simp) rfl))
  | operand _ ih =>
      intro r _ hr
      obtain ⟨t, htighter, hne, hls⟩ := Rank.tighter?_of_levels hr
      exact .tighter htighter (ih hne hls)
  | @binary level ls ts us t op l r _ hop _ ihl ihr =>
      intro rank hne hrank
      obtain ⟨tight, htighter, hne', hls⟩ := Rank.tighter?_of_levels hrank
      obtain ⟨p, hp⟩ : ∃ p, t.lexeme = .punct p := by
        cases hl : t.lexeme with
        | punct p => exact ⟨p, rfl⟩
        | _ => simp [hl, Level.op?] at hop
      rw [hp] at hop
      rw [List.map_append, List.map_cons, hp]
      exact .binary ((Rank.operator_iff hrank p op).mp hop) htighter (ihl hne hrank) (ihr hne' hls)

theorem phrase_iff_derives {ts : List Token} {e : Expr} :
    Phrase levels ts e ↔ Derives .or (ts.map Token.lexeme) e :=
  ⟨fun h => h.derives (r := .or) (by simp) rfl, fun h => h.phrase rfl⟩

theorem Rank.levels_suffix (r : Rank) : r.levels <:+ Expr.levels := by
  cases r with
  | or => exact ⟨Expr.levels.take 0, rfl⟩
  | xor => exact ⟨Expr.levels.take 1, rfl⟩
  | and => exact ⟨Expr.levels.take 2, rfl⟩
  | shift => exact ⟨Expr.levels.take 3, rfl⟩
  | sum => exact ⟨Expr.levels.take 4, rfl⟩
  | product => exact ⟨Expr.levels.take 5, rfl⟩
  | unary | primary => exact List.nil_suffix

theorem rank_of_mem_levels {level : Level} (h : level ∈ levels) :
    ∃ (r : Rank) (ls : List Level), r.levels = level :: ls := by
  simp only [levels, List.mem_cons, List.not_mem_nil, or_false] at h
  rcases h with rfl | rfl | rfl | rfl | rfl | rfl
  · exact ⟨.or, _, rfl⟩
  · exact ⟨.xor, _, rfl⟩
  · exact ⟨.and, _, rfl⟩
  · exact ⟨.shift, _, rfl⟩
  · exact ⟨.sum, _, rfl⟩
  · exact ⟨.product, _, rfl⟩

theorem not_isOperator_iff {l : Lexeme} :
    ¬IsOperator l ↔ ∀ level ∈ levels, level.op? l = none := by
  constructor
  · intro hnot level hlevel
    obtain ⟨r, ls, hr⟩ := rank_of_mem_levels hlevel
    cases l with
    | punct p =>
        cases hop : level p with
        | none => exact hop
        | some op => exact absurd ⟨r, p, op, rfl, (Rank.operator_iff hr p op).mp hop⟩ hnot
    | _ => rfl
  · rintro hnone ⟨r, p, op, rfl, hop⟩
    obtain ⟨level, _, -, hlevels, hlevel⟩ := hop.levels
    have hmem : level ∈ levels := r.levels_suffix.subset (by simp [hlevels])
    have hfree : level p = none := hnone level hmem
    rw [hlevel] at hfree
    cases hfree

structure Heads (ts : List Token) (e : Expr) (n : Nat) : Prop where
  within : n ≤ ts.length
  derived : Derives .or ((ts.take n).map Token.lexeme) e
  ends : ∀ t, ts[n]? = some t → ¬IsOperator t.lexeme

theorem stops_drop {ts : List Token} {n : Nat} :
    Stops levels (ts.drop n) ↔ ∀ t, ts[n]? = some t → ¬IsOperator t.lexeme := by
  simp only [Stops, List.head?_drop, Option.mem_def, not_isOperator_iff]

theorem Heads.read {ts : List Token} {e : Expr} {n : Nat} (h : Heads ts e n) :
    read ts = .ok (e, ts.drop n) :=
  read_eq_ok.mpr ⟨ts.take n, (List.take_append_drop n ts).symm,
    phrase_iff_derives.mpr h.derived, stops_drop.mpr h.ends⟩

theorem heads_of_read {ts rest : List Token} {e : Expr} (h : read ts = .ok (e, rest)) :
    ∃ n, Heads ts e n ∧ rest = ts.drop n := by
  obtain ⟨used, rfl, hused, hstops⟩ := read_eq_ok.mp h
  have hrest : rest = (used ++ rest).drop used.length := List.drop_left.symm
  refine ⟨used.length, ⟨by simp, ?_, ?_⟩, hrest⟩
  · rw [List.take_left]
    exact phrase_iff_derives.mp hused
  · rw [hrest] at hstops
    exact stops_drop.mp hstops

theorem read_accepts_grammar (ts : List Token) :
    (∀ e rest, read ts = .ok (e, rest) ↔ ∃ n, Heads ts e n ∧ rest = ts.drop n) ∧
    (∀ e n, Heads ts e n → 1 ≤ n) ∧
    ∀ e e' n n', Heads ts e n → Heads ts e' n' → e = e' ∧ n = n' := by
  refine ⟨fun e rest => ⟨heads_of_read, ?_⟩, ?_, ?_⟩
  · rintro ⟨n, h, rfl⟩
    exact h.read
  · intro e n h
    have hne := (phrase_iff_derives.mpr h.derived).ne_nil
    rw [Ne, List.take_eq_nil_iff, not_or] at hne
    exact Nat.one_le_iff_ne_zero.mpr hne.1
  · intro e e' n n' h h'
    have hsame : Except.ok (e, ts.drop n) = .ok (e', ts.drop n') := h.read.symm.trans h'.read
    obtain ⟨he, hdrop⟩ := Prod.mk.inj (Except.ok.inj hsame)
    have hlength := congrArg List.length hdrop
    simp only [List.length_drop] at hlength
    have := h.within
    have := h'.within
    exact ⟨he, by omega⟩

end Expr

end Z80
