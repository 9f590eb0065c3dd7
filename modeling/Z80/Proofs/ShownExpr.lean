import Mathlib
import Z80.Proofs.ExprGrammar
import Z80.Proofs.Lexing

namespace Z80

namespace Lexeme

variable {cs rest : List Char} {l : Lexeme}

theorem leads_of_spells (visible : ∀ c ∈ cs, Text.isBlank c = false)
    (h : ∀ afterValue, Spells afterValue rest.head? cs l) : Leads cs l rest := by
  obtain ⟨c, more, rfl, -, -⟩ := (h true).scan_eq
  refine ⟨visible, c, more, rfl, ?_⟩
  intro afterValue column
  obtain ⟨c', more', hcs, -, hscan⟩ := (h afterValue).scan_eq
  cases hcs
  exact hscan column

theorem leads_mark {c : Char} {p : Punct} (hc : c ≠ '%') (hp : Punct.ofChar? c = some p)
    (rest : List Char) : Leads [c] (punct p) rest :=
  leads_of_spells (by simpa using isBlank_of_mark hp) fun _ => .mark hc hp

theorem leads_dollar (hrest : Breaks rest) : Leads ['$'] (punct .dollar) rest := by
  refine leads_of_spells (by simp [Text.isBlank]) fun afterValue => ?_
  have hdollar : Spells afterValue none ['$'] (punct .dollar) := .dollar (by simp)
  exact hdollar.before (by simp) hrest

end Lexeme

namespace Expr

def numbers : Expr → List Int32
  | number n => [n]
  | here | symbol _ => []
  | unary _ e => e.numbers
  | binary _ l r => l.numbers ++ r.numbers

def Readable : Expr → Prop
  | number _ | here => True
  | symbol s => Text.isName s.toList = true ∧ Keyword.ofName? s = none
  | unary .pos _ => False
  | unary .neg e => e.Readable ∧ ∀ n, e = number n → IsLeast n
  | unary .not e => e.Readable
  | binary _ l r => l.Readable ∧ r.Readable

theorem Derives.readable {r : Rank} {ls : List Lexeme} {e : Expr} (h : Derives r ls e)
    (hnames : ∀ s, Lexeme.name s ∈ ls → Text.isName s.toList = true ∧ Keyword.ofName? s = none) :
    e.Readable := by
  induction h with
  | binary _ _ _ _ ihl ihr =>
      exact ⟨ihl fun s hs => hnames s (by simp [hs]), ihr fun s hs => hnames s (by simp [hs])⟩
  | tighter _ _ ih => exact ih hnames
  | plus _ ih => exact ih fun s hs => hnames s (List.mem_cons_of_mem _ hs)
  | negative _ _ _ => trivial
  | minus _ hleast ih => exact ⟨ih fun s hs => hnames s (List.mem_cons_of_mem _ hs), hleast⟩
  | complement _ ih => exact ih fun s hs => hnames s (List.mem_cons_of_mem _ hs)
  | parenthesized _ ih => exact ih fun s hs => hnames s (by simp [hs])
  | name => exact hnames _ (List.mem_singleton_self _)
  | here | number | char | text _ => trivial

def reread : Expr → Expr
  | number n => if n.toInt = -2 ^ 31 then unary .neg (number n) else number n
  | here => here
  | symbol s => symbol s
  | unary op e => unary op e.reread
  | binary op l r => binary op l.reread r.reread

theorem reread_eq_iff (e : Expr) : e.reread = e ↔ ∀ n ∈ e.numbers, ¬IsLeast n := by
  induction e with
  | number n =>
      by_cases hn : n.toInt = -2 ^ 31
      · simp [reread, numbers, IsLeast, hn]
      · simp [reread, numbers, IsLeast]
  | here | symbol s => simp [reread, numbers]
  | unary op e ih => simp [reread, numbers, ih]
  | binary op l r ihl ihr =>
      simp only [reread, numbers, binary.injEq, true_and, ihl, ihr, List.forall_mem_append]

end Expr

def UnaryOp.punct : UnaryOp → Punct
  | pos => .plus
  | neg => .minus
  | not => .tilde

def BinaryOp.punct : BinaryOp → Punct
  | or => .bar
  | xor => .caret
  | and => .ampersand
  | shl => .shiftLeft
  | shr => .shiftRight
  | add => .plus
  | sub => .minus
  | mul => .star
  | div => .slash
  | mod => .percent

namespace Expr

def digits (n : Int32) : Lexeme :=
  .number (toString n.toInt.natAbs) (Int32.ofNat n.toInt.natAbs)

def shown : Expr → List Lexeme
  | number n => if n.toInt < 0 then [.punct .minus, digits n] else [digits n]
  | here => [.punct .dollar]
  | symbol s => [.name s]
  | unary op e => .punct op.punct :: e.shown
  | binary op l r =>
      .punct .leftParen :: (l.shown ++ .punct op.punct :: (r.shown ++ [.punct .rightParen]))

section Grammar

theorem digits_of_nonneg {n : Int32} (h : 0 ≤ n.toInt) : Int32.ofNat n.toInt.natAbs = n := by
  rw [← Int32.ofInt_eq_ofNat, Int.natAbs_of_nonneg h, Int32.ofInt_toInt]

theorem digits_of_neg {n : Int32} (h : n.toInt < 0) : Int32.ofNat n.toInt.natAbs = -n := by
  rw [← Int32.ofInt_eq_ofNat, Int.ofNat_natAbs_of_nonpos h.le, Int32.ofInt_neg, Int32.ofInt_toInt]

theorem neg_of_isLeast {n : Int32} (h : IsLeast n) : -n = n := by
  rw [← Int32.toInt_inj, Int32.toInt_neg, h]
  rfl

theorem isLeast_neg_iff {n : Int32} : IsLeast (-n) ↔ IsLeast n := by
  constructor
  · intro h
    have hneg := neg_of_isLeast h
    rw [Int32.neg_neg] at hneg
    rwa [hneg]
  · intro h
    rwa [neg_of_isLeast h]

theorem derives_number (n : Int32) : Derives .unary (shown (number n)) (reread (number n)) := by
  by_cases hneg : n.toInt < 0
  · have hdigits : Derives .unary [digits n] (number (-n)) := by
      rw [← digits_of_neg hneg]
      exact .tighter rfl .number
    simp only [shown, if_pos hneg, reread]
    split
    · next hleast =>
        rw [neg_of_isLeast hleast] at hdigits
        refine .minus hdigits ?_
        rintro m ⟨⟩
        exact hleast
    · next hleast =>
        have hback := Derives.negative hdigits (mt isLeast_neg_iff.mp hleast)
        rwa [Int32.neg_neg] at hback
  · have hdigits : Derives .unary [digits n] (number n) := by
      have h := digits_of_nonneg (Int.not_lt.mp hneg)
      nth_rewrite 2 [← h]
      exact .tighter rfl .number
    have hleast : ¬n.toInt = -2 ^ 31 := by omega
    simpa only [shown, if_neg hneg, reread, if_neg hleast] using hdigits

def Rank.Reaches : Rank → Rank → Prop :=
  Relation.ReflTransGen fun r t => r.tighter? = some t

theorem Rank.or_reaches (r : Rank) : or.Reaches r := by
  have hxor : or.Reaches xor := .single rfl
  have hand : or.Reaches and := hxor.tail rfl
  have hshift : or.Reaches shift := hand.tail rfl
  have hsum : or.Reaches sum := hshift.tail rfl
  have hproduct : or.Reaches product := hsum.tail rfl
  have hunary : or.Reaches unary := hproduct.tail rfl
  cases r with
  | or => exact .refl
  | primary => exact hunary.tail rfl
  | xor | and | shift | sum | product | unary => assumption

theorem Rank.reaches_unary {r : Rank} (hne : r ≠ primary) : r.Reaches unary := by
  have hproduct : product.Reaches unary := .single rfl
  have hsum : sum.Reaches unary := .head rfl hproduct
  have hshift : shift.Reaches unary := .head rfl hsum
  have hand : and.Reaches unary := .head rfl hshift
  have hxor : xor.Reaches unary := .head rfl hand
  cases r with
  | or => exact .head rfl hxor
  | unary => exact .refl
  | primary => exact absurd rfl hne
  | xor | and | shift | sum | product => assumption

theorem Derives.loosen {ls : List Lexeme} {e : Expr} {r t : Rank} (hreach : r.Reaches t)
    (h : Derives t ls e) : Derives r ls e := by
  induction hreach with
  | refl => exact h
  | tail _ htighter ih => exact ih (.tighter htighter h)

theorem operator_ranks (op : BinaryOp) :
    ∃ r t, Operator r op.punct op ∧ r.tighter? = some t ∧ t ≠ .primary := by
  cases op with
  | or => exact ⟨.or, .xor, .or, rfl, by simp⟩
  | xor => exact ⟨.xor, .and, .xor, rfl, by simp⟩
  | and => exact ⟨.and, .shift, .and, rfl, by simp⟩
  | shl => exact ⟨.shift, .sum, .shl, rfl, by simp⟩
  | shr => exact ⟨.shift, .sum, .shr, rfl, by simp⟩
  | add => exact ⟨.sum, .product, .add, rfl, by simp⟩
  | sub => exact ⟨.sum, .product, .sub, rfl, by simp⟩
  | mul => exact ⟨.product, .unary, .mul, rfl, by simp⟩
  | div => exact ⟨.product, .unary, .div, rfl, by simp⟩
  | mod => exact ⟨.product, .unary, .mod, rfl, by simp⟩

theorem derives_binary {op : BinaryOp} {ls ms : List Lexeme} {l r : Expr} (hl : Derives .unary ls l)
    (hr : Derives .unary ms r) :
    Derives .unary (.punct .leftParen :: (ls ++ .punct op.punct :: (ms ++ [.punct .rightParen])))
      (.binary op l r) := by
  obtain ⟨rank, tight, hop, htighter, hne⟩ := operator_ranks op
  have hright : Derives tight ms r := hr.loosen (Rank.reaches_unary hne)
  have hleft : Derives rank ls l := .tighter htighter (hl.loosen (Rank.reaches_unary hne))
  have hwhole : Derives .or (ls ++ .punct op.punct :: ms) (.binary op l r) :=
    (Derives.binary hop htighter hleft hright).loosen (Rank.or_reaches rank)
  simpa using Derives.tighter (r := .unary) rfl (.parenthesized hwhole)

theorem Readable.derives {e : Expr} (h : e.Readable) : Derives .unary e.shown e.reread := by
  induction e with
  | number n => exact derives_number n
  | here => exact .tighter rfl .here
  | symbol s => exact .tighter rfl .name
  | unary op e ih =>
      cases op with
      | pos => exact h.elim
      | neg =>
          refine .minus (ih h.1) ?_
          -- A number under a minus sign is the least one, and that comes back with its own sign.
          intro n hn
          cases e with
          | number m =>
              have hleast : m.toInt = -2 ^ 31 := h.2 m rfl
              simp [reread, hleast] at hn
          | _ => simp [reread] at hn
      | not => exact .complement (ih h)
  | binary op l r ihl ihr => exact derives_binary (ihl h.1) (ihr h.2)

end Grammar

section Text

open Lexeme Token

theorem leads_operator (op : BinaryOp) (rest : List Char) :
    Leads op.text.toList (.punct op.punct) (' ' :: rest) := by
  cases op with
  | or => exact leads_mark (c := '|') (by decide) rfl _
  | xor => exact leads_mark (c := '^') (by decide) rfl _
  | and => exact leads_mark (c := '&') (by decide) rfl _
  | shl => exact leads_of_spells (by simp [BinaryOp.text, Text.isBlank]) fun _ => .shiftLeft
  | shr => exact leads_of_spells (by simp [BinaryOp.text, Text.isBlank]) fun _ => .shiftRight
  | add => exact leads_mark (c := '+') (by decide) rfl _
  | sub => exact leads_mark (c := '-') (by decide) rfl _
  | mul => exact leads_mark (c := '*') (by decide) rfl _
  | div => exact leads_mark (c := '/') (by decide) rfl _
  | mod =>
      refine leads_of_spells (by simp [BinaryOp.text, Text.isBlank]) fun _ => .percent ?_
      rintro d ⟨⟩ _
      rfl

theorem leads_sign (op : UnaryOp) (rest : List Char) :
    Leads op.text.toList (.punct op.punct) rest := by
  cases op with
  | pos => exact leads_mark (c := '+') (by decide) rfl _
  | neg => exact leads_mark (c := '-') (by decide) rfl _
  | not => exact leads_mark (c := '~') (by decide) rfl _

def Begins (ls : List Lexeme) (P : List Token → Prop) (ts : List Token) : Prop :=
  ∃ us vs, ts = us ++ vs ∧ us.map Token.lexeme = ls ∧ P vs

variable {cs rest : List Char} {l : Lexeme} {ls ms : List Lexeme} {P : List Token → Prop}

theorem scans_cons (h : Leads cs l rest) (hrest : Scans rest (Begins ls P)) :
    Scans (cs ++ rest) (Begins (l :: ls) P) := by
  refine (Scans.lexeme h hrest).mono ?_
  rintro ts ⟨u, us, rfl, rfl, front, back, rfl, rfl, hp⟩
  exact ⟨u :: front, back, rfl, rfl, hp⟩

theorem scans_singleton (h : Leads cs l rest) (hrest : Scans rest P) :
    Scans (cs ++ rest) (Begins [l] P) :=
  scans_cons h (hrest.mono fun ts hp => ⟨[], ts, rfl, rfl, hp⟩)

theorem begins_append {ts : List Token} (h : Begins ls (Begins ms P) ts) :
    Begins (ls ++ ms) P ts := by
  obtain ⟨us, _, rfl, rfl, vs, ws, rfl, rfl, hp⟩ := h
  exact ⟨us ++ vs, ws, by simp, by simp, hp⟩

theorem toString_int (z : Int) :
    toString z = if z < 0 then "-" ++ toString z.natAbs else toString z.natAbs := by
  cases z with
  | ofNat n => rfl
  | negSucc n =>
      rw [if_pos (Int.negSucc_lt_zero n)]
      rfl

theorem scans_number (n : Int32) (hrest : Breaks rest) (h : Scans rest P) :
    Scans ((number n).render.toList ++ rest) (Begins (number n).shown P) := by
  have hbound : n.toInt.natAbs < 4294967296 := by
    have := n.le_toInt
    have := n.toInt_lt
    omega
  have hdigits : Scans ((toString n.toInt.natAbs).toList ++ rest) (Begins [digits n] P) :=
    scans_singleton (leads_number hbound hrest) h
  rw [render, toString_int, shown]
  split
  · rw [String.toList_append, List.append_assoc]
    exact scans_cons (leads_sign .neg _) hdigits
  · exact hdigits

theorem Readable.scans {e : Expr} (h : e.Readable) : ∀ {rest : List Char} {P : List Token → Prop},
    Breaks rest → Scans rest P → Scans (e.render.toList ++ rest) (Begins e.shown P) := by
  induction e with
  | number n => exact scans_number n
  | here => exact fun hrest hscans => scans_singleton (leads_dollar hrest) hscans
  | symbol s => exact fun hrest hscans => scans_singleton (leads_name h.1 h.2 hrest) hscans
  | unary op e ih =>
      intro rest P hrest hscans
      have he : e.Readable := by
        cases op with
        | pos => exact h.elim
        | neg => exact h.1
        | not => exact h
      rw [render, String.toList_append, List.append_assoc]
      exact scans_cons (leads_sign op _) (ih he hrest hscans)
  | binary op l r ihl ihr =>
      intro rest P hrest hscans
      have hclose : Scans (')' :: rest) (Begins [.punct .rightParen] P) :=
        scans_singleton (leads_mark (by decide) rfl rest) hscans
      have hright := (ihr h.2 (fun c hc => by cases hc; decide) hclose).mono fun _ => begins_append
      have hop := scans_cons (leads_operator op _) hright.blank
      have hleft := ihl h.1 (breaks_blank _) hop.blank
      have hopen := scans_cons (leads_mark (c := '(') (by decide) rfl _)
        (hleft.mono fun _ => begins_append)
      simpa [render, shown] using hopen

end Text

end Expr

theorem Token.Reads.names {next? : Option Char} {afterValue ended : Bool} {column : Nat}
    {cs : List Char} {ts : List Token} (h : Reads next? afterValue column cs ts ended) :
    ∀ s, Lexeme.name s ∈ ts.map Token.lexeme →
      Text.isName s.toList = true ∧ Keyword.ofName? s = none := by
  induction h with
  | done => simp
  | blank _ _ ih => exact ih
  | token hspells _ ih =>
      intro s hs
      rcases List.mem_cons.mp hs with hs | hs
      · obtain ⟨hname, -, hword⟩ := hspells.of_name hs.symm
        obtain ⟨rfl, hkeyword⟩ := Lexeme.ofWord_eq_name hword
        exact ⟨by rwa [String.toList_ofList], hkeyword⟩
      · exact ih s hs

namespace Expr

theorem Readable.read_render {e : Expr} (h : e.Readable) :
    ∃ ts, Token.scan e.render = .ok ts ∧ read ts = .ok (e.reread, []) := by
  have hscans : Token.Scans (e.render.toList ++ []) (Begins e.shown (· = [])) :=
    h.scans (fun c hc => by cases hc) (Token.scans_nil rfl)
  rw [List.append_nil] at hscans
  obtain ⟨_, hscan, ts, _, rfl, hlexemes, rfl⟩ := hscans.tokens false 0
  rw [List.append_nil] at hscan
  have hheads : Heads ts e.reread ts.length := by
    refine ⟨le_rfl, ?_, by simp⟩
    rw [List.take_length, hlexemes]
    exact h.derives.loosen (Rank.or_reaches .unary)
  refine ⟨ts, hscan, ?_⟩
  rw [hheads.read, List.drop_length]

theorem read_shown_iff (line : String) (ts us rest : List Token) (e : Expr)
    (hscan : Token.scan line = .ok ts) (hus : us <:+: ts) (hread : read us = .ok (e, rest)) :
    ∃ shown e', Token.scan e.render = .ok shown ∧ read shown = .ok (e', []) ∧
      (e' = e ↔ ∀ n ∈ e.numbers, n.toInt ≠ -2 ^ 31) := by
  obtain ⟨n, hheads, -⟩ := heads_of_read hread
  obtain ⟨ended, hreads⟩ := Token.reads_of_scanFrom hscan
  have hreadable : e.Readable := by
    refine hheads.derived.readable fun s hs => hreads.names s ?_
    exact List.map_subset _ (List.Subset.trans (List.take_subset n us) hus.subset) hs
  obtain ⟨shown, hshown, hback⟩ := hreadable.read_render
  exact ⟨shown, e.reread, hshown, hback, e.reread_eq_iff⟩

def mixedSigns : Expr :=
  .binary .or (.binary .mod (.binary .mul (.unary .neg (.unary .not (.unary .neg (.symbol "n"))))
    (.number (-7))) (.binary .sub .here (.number 4))) (.number (-2))

theorem mixedSigns_shown :
    ∃ shown, Token.scan "(((-~-n * -7) % ($ - 4)) | -2)" = .ok shown ∧
      read shown = .ok (mixedSigns, []) := by
  have hscan : Token.scan " db -~-n*-7%($-4)|0xFFFFFFFE,1" = .ok
      ([⟨.name "db", 1⟩] ++ [⟨.punct .minus, 4⟩, ⟨.punct .tilde, 5⟩, ⟨.punct .minus, 6⟩,
        ⟨.name "n", 7⟩, ⟨.punct .star, 8⟩, ⟨.punct .minus, 9⟩, ⟨.number "7" 7, 10⟩,
        ⟨.punct .percent, 11⟩, ⟨.punct .leftParen, 12⟩, ⟨.punct .dollar, 13⟩, ⟨.punct .minus, 14⟩,
        ⟨.number "4" 4, 15⟩, ⟨.punct .rightParen, 16⟩, ⟨.punct .bar, 17⟩,
        ⟨.number "0xFFFFFFFE" (-2), 18⟩, ⟨.punct .comma, 28⟩, ⟨.number "1" 1, 29⟩]) := by
    decide +kernel
  obtain ⟨shown, e, hshown, hread, hsame⟩ := read_shown_iff _ _ _
    [⟨.punct .comma, 28⟩, ⟨.number "1" 1, 29⟩] mixedSigns hscan (List.suffix_append _ _).isInfix
    (by decide +kernel)
  have hrender : mixedSigns.render = "(((-~-n * -7) % ($ - 4)) | -2)" := by decide +kernel
  rw [hrender] at hshown
  cases hsame.mpr (by simp [mixedSigns, numbers])
  exact ⟨shown, hshown, hread⟩

end Expr

end Z80
