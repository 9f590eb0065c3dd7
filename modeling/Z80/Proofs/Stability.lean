import Mathlib
import Z80.Proofs.Grammar
import Z80.Proofs.Matching

namespace Z80

def isComma (t : Token) : Bool :=
  t.lexeme == .punct .comma

namespace PatternPart

def isComma : PatternPart → Bool
  | literal t => t == .punct .comma
  | number _ | slot _ | displacement => false

def isNumber : PatternPart → Bool
  | number _ => true
  | literal _ | slot _ | displacement => false

end PatternPart

theorem takes_isComma {t : PatternToken} {u : Token} (h : t.takes u.lexeme = true) :
    isComma u = (PatternPart.literal t).isComma := by
  obtain ⟨lexeme, column⟩ := u
  cases t with
  | punct p =>
      cases lexeme with
      | punct p' =>
          have hp : p = p' := by simpa [PatternToken.takes] using h
          simp [isComma, PatternPart.isComma, hp]
      | keyword _ | name _ | number _ _ | text _ | char _ | comment _ => cases h
  | keyword k =>
      cases lexeme with
      | keyword k' => rfl
      | punct _ | name _ | number _ _ | text _ | char _ | comment _ => cases h
  | word w =>
      cases lexeme with
      | name s => rfl
      | punct _ | keyword _ | number _ _ | text _ | char _ | comment _ => cases h
  | number n => cases h
  | slot p => cases h

theorem countP_isComma_of_read {ts rest : List Token}
    (h : ∃ used, ts = used ++ rest ∧ ∀ t ∈ used, t.lexeme ≠ .punct .comma) :
    ts.countP isComma = rest.countP isComma := by
  obtain ⟨used, rfl, hused⟩ := h
  have hnone : used.countP isComma = 0 := by
    rw [List.countP_eq_zero]
    intro t ht
    simpa [isComma] using hused t ht
  rw [List.countP_append, hnone, Nat.zero_add]

theorem Displaces.countP_isComma {ts rest : List Token} {e : Expr} (h : Displaces ts e rest) :
    ts.countP isComma = rest.countP isComma := by
  cases h with
  | plus hr =>
      rw [List.countP_cons, countP_isComma_of_read (Expr.readBare_stopsAtComma hr)]
      simp [isComma]
  | minus hr => exact countP_isComma_of_read (Expr.readBare_stopsAtComma hr)
  | omitted => rfl

theorem shapeParts_commas {parts : List PatternPart} :
    ∀ {ts : List Token} {s : Shape}, shapeParts parts ts = some s →
      ts.countP isComma = parts.countP PatternPart.isComma := by
  induction parts with
  | nil =>
      intro ts s h
      simp only [shapeParts] at h
      split at h
      · next hts =>
          rw [List.isEmpty_iff] at hts
          rw [hts]
          rfl
      · cases h
  | cons part parts ih =>
      intro ts s h
      rw [List.countP_cons]
      cases part with
      | literal t =>
          obtain ⟨u, rest, rfl, htakes, h⟩ := shapeLiteral_eq_some.mp h
          rw [List.countP_cons, ih h, takes_isComma htakes]
      | number n =>
          obtain ⟨e, rest, t, hr, ht, -⟩ := shapeNumber_eq_some.mp h
          rw [countP_isComma_of_read (Expr.readBare_stopsAtComma hr), ih ht]
          rfl
      | slot p =>
          obtain ⟨e, rest, t, hr, ht, -⟩ := shapeSlot_eq_some.mp h
          rw [countP_isComma_of_read (Expr.readBare_stopsAtComma hr), ih ht]
          rfl
      | displacement =>
          obtain ⟨e, rest, t, hr, ht, -⟩ := shapeDisplacement_eq_some h
          rw [hr.countP_isComma, ih ht]
          rfl

theorem shapeParts_demands_nil {parts : List PatternPart}
    (hparts : parts.all (fun part => !part.isNumber) = true) :
    ∀ {ts : List Token} {s : Shape}, shapeParts parts ts = some s → s.demands = [] := by
  induction parts with
  | nil =>
      intro ts s h
      simp only [shapeParts] at h
      split at h
      · cases h
        rfl
      · cases h
  | cons part parts ih =>
      intro ts s h
      simp only [List.all_cons, Bool.and_eq_true] at hparts
      cases part with
      | literal t =>
          obtain ⟨u, rest, -, -, h⟩ := shapeLiteral_eq_some.mp h
          exact ih hparts.2 h
      | number n => simp [PatternPart.isNumber] at hparts
      | slot p =>
          obtain ⟨e, rest, t, -, ht, rfl⟩ := shapeSlot_eq_some.mp h
          change t.demands = []
          exact ih hparts.2 ht
      | displacement =>
          obtain ⟨e, rest, t, -, ht, rfl⟩ := shapeDisplacement_eq_some h
          change t.demands = []
          exact ih hparts.2 ht

namespace PatternToken

def closes : PatternToken → Bool
  | keyword _ => true
  | punct p => p == .leftParen || p == .rightParen || p == .comma
  | number _ | word _ | slot _ => false

def apart : PatternToken → PatternToken → Bool
  | word a, word b => Text.lower a != Text.lower b
  | t, u => t != u

theorem readBare_of_closes {t : PatternToken} {u : Token} {rest : List Token}
    {r : Expr × List Token} (hc : t.closes = true) (ht : t.takes u.lexeme = true) :
    Expr.readBare (u :: rest) ≠ .ok r := by
  intro h
  obtain ⟨u', rest', heq, hopens, hparen⟩ := Expr.readBare_opens h
  cases heq
  obtain ⟨lexeme, column⟩ := u
  cases t with
  | keyword k =>
      cases lexeme with
      | keyword k' => cases hopens
      | punct _ | name _ | number _ _ | text _ | char _ | comment _ => cases ht
  | punct p =>
      cases lexeme with
      | punct p' =>
          have hp : p = p' := by simpa [takes] using ht
          subst hp
          cases p with
          | rightParen | comma => cases hopens
          | leftParen => exact hparen rfl
          | shiftLeft | shiftRight | plus | minus | star | slash | percent | ampersand | bar
            | caret | tilde | colon | hash | dollar => cases hc
      | keyword _ | name _ | number _ _ | text _ | char _ | comment _ => cases ht
  | number n => cases hc
  | word w => cases hc
  | slot p => cases hc

theorem not_takes_of_apart {t u : PatternToken} {l : Lexeme} (h : t.apart u = true)
    (ht : t.takes l = true) : u.takes l = false := by
  cases l with
  | punct p =>
      cases t with
      | punct q =>
          have hq : q = p := by simpa [takes] using ht
          subst hq
          cases u with
          | punct other =>
              have hne : q ≠ other := by simpa [apart] using h
              simpa [takes] using hne.symm
          | keyword _ | number _ | word _ | slot _ => rfl
      | keyword _ | number _ | word _ | slot _ => cases ht
  | keyword k =>
      cases t with
      | keyword q =>
          have hq : q = k := by simpa [takes] using ht
          subst hq
          cases u with
          | keyword other =>
              have hne : q ≠ other := by simpa [apart] using h
              simpa [takes] using hne.symm
          | punct _ | number _ | word _ | slot _ => rfl
      | punct _ | number _ | word _ | slot _ => cases ht
  | name s =>
      cases t with
      | word w =>
          have hw : Text.lower s = Text.lower w := by simpa [takes] using ht
          cases u with
          | word v =>
              have hv : Text.lower w ≠ Text.lower v := by simpa [apart] using h
              simpa [takes, hw] using hv
          | punct _ | keyword _ | number _ | slot _ => rfl
      | punct _ | keyword _ | number _ | slot _ => cases ht
  | number _ _ | text _ | char _ | comment _ => cases t <;> cases ht

end PatternToken

inductive Heads : List PatternToken → List Token → Expr → Prop
  | value {ts rest : List Token} {e : Expr} : Expr.readBare ts = .ok (e, rest) → Heads [] ts e
  | literal {t : PatternToken} {u : Token} {literals : List PatternToken} {ts : List Token}
      {e : Expr} : t.takes u.lexeme = true → Heads literals ts e → Heads (t :: literals) (u :: ts) e

def headTokens? : List PatternPart → Option (List PatternToken)
  | [] => none
  | part :: parts => match part with
      | .literal t => (headTokens? parts).map (t :: ·)
      | .number _ => some []
      | .slot _ | .displacement => none

def meets : List PatternToken → List PatternPart → Bool
  | _, [] => true
  | [], part :: parts => match part with
      | .number _ => parts.all fun part => !part.isNumber
      | .literal t => t.closes
      | .slot _ | .displacement => false
  | l :: literals, part :: parts => match part with
      | .literal t => if l = t then meets literals parts else l.apart t
      | .number _ | .slot _ => l.closes
      | .displacement => false

theorem heads_of_headTokens? {parts : List PatternPart} :
    ∀ {literals : List PatternToken} {ts : List Token} {s : Shape},
      headTokens? parts = some literals → shapeParts parts ts = some s →
      ∃ e, Heads literals ts e := by
  induction parts with
  | nil =>
      intro literals ts s hl
      cases hl
  | cons part parts ih =>
      intro literals ts s hl h
      cases part with
      | literal t =>
          obtain ⟨rest', hrest', rfl⟩ := Option.map_eq_some_iff.mp hl
          obtain ⟨u, rest, rfl, htakes, h⟩ := shapeLiteral_eq_some.mp h
          obtain ⟨e, he⟩ := ih hrest' h
          exact ⟨e, .literal htakes he⟩
      | number n =>
          cases hl
          obtain ⟨e, rest, t, hr, -, -⟩ := shapeNumber_eq_some.mp h
          exact ⟨e, .value hr⟩
      | slot p => cases hl
      | displacement => cases hl

theorem not_shapeParts_nil {t : Token} {ts : List Token} {s : Shape} :
    shapeParts [] (t :: ts) ≠ some s := by
  simp [shapeParts]

theorem demands_of_meets {literals : List PatternToken} {ts : List Token} {e : Expr}
    (h : Heads literals ts e) :
    ∀ {parts : List PatternPart} {s : Shape}, meets literals parts = true →
      shapeParts parts ts = some s → s.demands.map Prod.fst = [e] := by
  induction h with
  | value hr =>
      intro parts s hm hs
      obtain ⟨u, more, rfl, -, -⟩ := Expr.readBare_opens hr
      cases parts with
      | nil => exact absurd hs not_shapeParts_nil
      | cons part parts =>
          cases part with
          | number n =>
              obtain ⟨e', rest', t, hr', ht, rfl⟩ := shapeNumber_eq_some.mp hs
              rw [hr] at hr'
              cases hr'
              simp only [Shape.demand, List.map_cons]
              rw [shapeParts_demands_nil hm ht]
              rfl
          | literal t =>
              have hliteral : shapeLiteral t (shapeParts parts) (u :: more) = some s := hs
              obtain ⟨u', rest', heq, htakes, -⟩ := shapeLiteral_eq_some.mp hliteral
              cases heq
              exact absurd hr (PatternToken.readBare_of_closes hm htakes)
          | slot p => cases hm
          | displacement => cases hm
  | @literal l u literals ts e htakes hrest ih =>
      intro parts s hm hs
      cases parts with
      | nil => exact absurd hs not_shapeParts_nil
      | cons part parts =>
          cases part with
          | literal t =>
              have hliteral : shapeLiteral t (shapeParts parts) (u :: ts) = some s := hs
              obtain ⟨u', rest', heq, htakes', hs'⟩ := shapeLiteral_eq_some.mp hliteral
              cases heq
              simp only [meets] at hm
              split at hm
              · exact ih hm hs'
              · rw [PatternToken.not_takes_of_apart hm htakes] at htakes'
                cases htakes'
          | number n =>
              obtain ⟨e', rest', t, hr, -, -⟩ := shapeNumber_eq_some.mp hs
              exact absurd hr (PatternToken.readBare_of_closes hm htakes)
          | slot p =>
              obtain ⟨e', rest', t, hr, -, -⟩ := shapeSlot_eq_some.mp hs
              exact absurd hr (PatternToken.readBare_of_closes hm htakes)
          | displacement => cases hm

def Variant.parts (v : Variant) : List PatternPart :=
  patternParts v.pattern

def Variant.commas (v : Variant) : Nat :=
  v.parts.countP PatternPart.isComma

def numberHeads (variants : List Variant) : List (List PatternToken × Nat) :=
  (variants.filterMap fun v => (headTokens? v.parts).map fun literals => (literals, v.commas)).eraseDups

def decisive (variants : List Variant) : Bool :=
  variants.all (fun v => (headTokens? v.parts).isSome || v.parts.all fun part => !part.isNumber) &&
    (numberHeads variants).all fun head =>
      variants.all fun v => v.commas != head.2 || meets head.1 v.parts

section Decisive

variable {variants : List Variant} {u v : Variant} {ts : List Token} {s t : Shape}

theorem demands_of_number (h : decisive variants = true) (hu : u ∈ variants) (hv : v ∈ variants)
    {literals : List PatternToken} (hl : headTokens? u.parts = some literals)
    (hs : shape u.pattern ts = some s) (ht : shape v.pattern ts = some t) :
    s.demands.map Prod.fst = t.demands.map Prod.fst := by
  simp only [decisive, Bool.and_eq_true] at h
  have hmem : (literals, u.commas) ∈ numberHeads variants := by
    rw [numberHeads, List.mem_eraseDups, List.mem_filterMap]
    exact ⟨u, hu, by rw [hl]; rfl⟩
  have hall := List.all_eq_true.mp h.2 _ hmem
  obtain ⟨e, hheads⟩ := heads_of_headTokens? hl hs
  have hdemands : ∀ w ∈ variants, ∀ r, shape w.pattern ts = some r → r.demands.map Prod.fst = [e] := by
    intro w hw r hr
    have hw' := List.all_eq_true.mp hall w hw
    have hcommas : w.commas = u.commas := by
      rw [Variant.commas, Variant.commas, Variant.parts, Variant.parts, ← shapeParts_commas hr,
        shapeParts_commas hs]
    simp only [hcommas, bne_self_eq_false, Bool.false_or] at hw'
    exact demands_of_meets hheads hw' hr
  rw [hdemands u hu s hs, hdemands v hv t ht]

theorem demands_agree (h : decisive variants = true) (hu : u ∈ variants) (hv : v ∈ variants)
    (hs : shape u.pattern ts = some s) (ht : shape v.pattern ts = some t) :
    s.demands.map Prod.fst = t.demands.map Prod.fst := by
  cases hlu : headTokens? u.parts with
  | some literals => exact demands_of_number h hu hv hlu hs ht
  | none =>
      cases hlv : headTokens? v.parts with
      | some literals => exact (demands_of_number h hv hu hlv ht hs).symm
      | none =>
          simp only [decisive, Bool.and_eq_true] at h
          have hnone : ∀ w ∈ variants, headTokens? w.parts = none → ∀ r,
              shape w.pattern ts = some r → r.demands = [] := by
            intro w hw hl r hr
            have hw' := List.all_eq_true.mp h.1 w hw
            rw [hl, Option.isSome_none, Bool.false_or] at hw'
            exact shapeParts_demands_nil hw' hr
          rw [hnone u hu hlu s hs, hnone v hv hlv t ht]

end Decisive

theorem demands_eq {ctx : Context} : ∀ {demands demands' : List (Expr × Int32)},
    (∀ d ∈ demands, d.1.eval ctx = .ok d.2) → (∀ d ∈ demands', d.1.eval ctx = .ok d.2) →
    demands.map Prod.fst = demands'.map Prod.fst → demands = demands' := by
  intro demands
  induction demands with
  | nil =>
      intro demands' _ _ h
      exact (List.map_eq_nil_iff.mp h.symm).symm
  | cons d demands ih =>
      intro demands' hs ht h
      cases demands' with
      | nil => cases h
      | cons d' demands' =>
          simp only [List.map_cons, List.cons.injEq] at h
          have hd := hs d (List.mem_cons_self ..)
          have hd' := ht d' (List.mem_cons_self ..)
          rw [h.1, hd'] at hd
          have hfirst : d = d' := Prod.ext h.1 (Except.ok.inj hd).symm
          have hrest := ih (fun x hx => hs x (List.mem_cons_of_mem _ hx))
            (fun x hx => ht x (List.mem_cons_of_mem _ hx)) h.2
          rw [hfirst, hrest]

def Selection.demands (selection : Selection) (operands : List Token) : List (Expr × Int32) :=
  match shape selection.variant.pattern operands with
  | some s => s.demands
  | none => []

theorem unfit_of_unfit {variants : List Variant} {operands : List Token} {c c' : Context}
    {u v : Variant} {s : Shape} (hd : decisive variants = true) (hu : u ∈ variants)
    (hv : v ∈ variants) (hs : shape v.pattern operands = some s) (hholds : s.Holds c)
    (hholds' : s.Holds c') (h : ∀ bound, fit c u.pattern operands ≠ .matched bound) :
    ∀ bound, fit c' u.pattern operands ≠ .matched bound := by
  intro bound hfitu
  obtain ⟨t, ht, -, htholds⟩ := fit_eq_matched.mp hfitu
  have hsame : t.demands = s.demands :=
    demands_eq htholds hholds' (demands_agree hd hu hv ht hs)
  have htearly : t.Holds c := by
    intro d hdmem
    rw [hsame] at hdmem
    exact hholds d hdmem
  exact h t.bound (fit_eq_matched.mpr ⟨t, ht, rfl, htearly⟩)

theorem Selection.first?_stable {variants : List Variant} {operands : List Token} {c c' : Context}
    {selection : Selection} (hd : decisive variants = true)
    (h : Selection.first? c operands variants = some selection) :
    Selection.first? c' operands variants = some selection ↔
      ∀ d ∈ selection.demands operands, d.1.eval c' = .ok d.2 := by
  obtain ⟨before, after, hvariants, hfit, hbefore⟩ := first?_eq_some.mp h
  obtain ⟨s, hs, hbound, hholds⟩ := fit_eq_matched.mp hfit
  have hdemands : selection.demands operands = s.demands := by
    rw [Selection.demands, hs]
  rw [hdemands]
  constructor
  · intro h'
    obtain ⟨-, -, -, hfit', -⟩ := first?_eq_some.mp h'
    obtain ⟨s', hs', -, hholds'⟩ := fit_eq_matched.mp hfit'
    rw [hs] at hs'
    cases hs'
    exact hholds'
  · intro hholds'
    refine first?_eq_some.mpr ⟨before, after, hvariants, ?_, ?_⟩
    · exact fit_eq_matched.mpr ⟨s, hs, hbound, hholds'⟩
    · intro u hu
      have humem : u ∈ variants := by
        rw [hvariants]
        exact List.mem_append_left _ hu
      have hvmem : selection.variant ∈ variants := by
        rw [hvariants]
        simp
      exact unfit_of_unfit hd humem hvmem hs hholds hholds' (hbefore u hu)

namespace InstructionSet

def isDecisive (set : InstructionSet) : Bool :=
  set.entries.all fun entry => decisive entry.2

theorem builtin_isDecisive : builtin.isDecisive = true := by
  decide +kernel

theorem select_stable {set : InstructionSet} {allowUndocumented : Bool} {c c' : Context}
    {mnemonic : String} {operands : List Token} {selection : Selection}
    (hd : set.isDecisive = true)
    (h : set.select allowUndocumented c mnemonic operands = .ok selection) :
    set.select allowUndocumented c' mnemonic operands = .ok selection ↔
      ∀ d ∈ selection.demands operands, d.1.eval c' = .ok d.2 := by
  obtain ⟨variants, hvariants, hfirst, hallowed⟩ := select_eq_ok.mp h
  have hdecisive : decisive variants = true :=
    List.all_eq_true.mp hd _ (mem_of_variants? hvariants)
  rw [← Selection.first?_stable hdecisive hfirst, select_eq_ok]
  constructor
  · rintro ⟨variants', hvariants', hfirst', -⟩
    rw [hvariants] at hvariants'
    cases hvariants'
    exact hfirst'
  · intro hfirst'
    exact ⟨variants, hvariants, hfirst', hallowed⟩

theorem select_demands {set : InstructionSet} {allowUndocumented : Bool} {c : Context}
    {mnemonic : String} {operands : List Token} {selection : Selection}
    (h : set.select allowUndocumented c mnemonic operands = .ok selection) :
    ∀ d ∈ selection.demands operands, d.1.eval c = .ok d.2 := by
  obtain ⟨variants, -, hfirst, -⟩ := select_eq_ok.mp h
  obtain ⟨-, -, -, hfit, -⟩ := Selection.first?_eq_some.mp hfirst
  obtain ⟨s, hs, -, hholds⟩ := fit_eq_matched.mp hfit
  rw [Selection.demands, hs]
  exact hholds

theorem select_leads {set : InstructionSet} {allowUndocumented : Bool} {c : Context}
    {mnemonic : String} {operands : List Token} {selection : Selection}
    (hd : set.isDecisive = true)
    (h : set.select allowUndocumented c mnemonic operands = .ok selection) :
    ∃ before after, set.variants? mnemonic = some (before ++ selection.variant :: after) ∧
      ∀ c', c.Extends c' → ∀ u ∈ before, ∀ bound, fit c' u.pattern operands ≠ .matched bound := by
  obtain ⟨variants, hvariants, hfirst, -⟩ := select_eq_ok.mp h
  obtain ⟨before, after, rfl, hfit, hbefore⟩ := Selection.first?_eq_some.mp hfirst
  obtain ⟨s, hs, -, hholds⟩ := fit_eq_matched.mp hfit
  have hdecisive := List.all_eq_true.mp hd _ (mem_of_variants? hvariants)
  refine ⟨before, after, hvariants, ?_⟩
  intro c' hextends u hu
  have hholds' : s.Holds c' := fun d hdmem => Expr.eval_ok_of_extends hextends (hholds d hdmem)
  apply unfit_of_unfit hdecisive (List.mem_append_left _ hu) _ hs hholds hholds' (hbefore u hu)
  simp

end InstructionSet

theorem Expr.evalTolerant_of_extends {c c' : Context} {e : Expr} (h : c.Extends c')
    (hknown : ∀ u, e.evalTolerant c ≠ .ok (.unresolved u)) :
    e.evalTolerant c' = e.evalTolerant c := by
  rcases Expr.eval_of_extends h e with heq | ⟨x, hx⟩
  · unfold Expr.evalTolerant
    rw [heq]
  · exact absurd (by simp [Expr.evalTolerant, hx]) (hknown e)

theorem InstructionSet.select_outlasts (c : Context) :
    (∀ (allowUndocumented : Bool) (mnemonic : String) (operands : List Token)
      (selection : Selection),
      builtin.select allowUndocumented c mnemonic operands = .ok selection →
      ∃ before after, builtin.variants? mnemonic = some (before ++ selection.variant :: after) ∧
        ∀ c', c.Extends c' →
          builtin.select allowUndocumented c' mnemonic operands = .ok selection ∧
          ∀ u ∈ before, ∀ bound, fit c' u.pattern operands ≠ .matched bound) ∧
    ∀ (c' : Context) (e : Expr), c.Extends c' →
      ((∀ x, e.eval c ≠ .error (.undefined x)) → e.eval c' = e.eval c) ∧
      ((∀ u, e.evalTolerant c ≠ .ok (.unresolved u)) → e.evalTolerant c' = e.evalTolerant c) := by
  constructor
  · intro allowUndocumented mnemonic operands selection h
    obtain ⟨before, after, hvariants, hbefore⟩ := select_leads builtin_isDecisive h
    refine ⟨before, after, hvariants, ?_⟩
    intro c' hextends
    refine ⟨(select_stable builtin_isDecisive h).mpr ?_, hbefore c' hextends⟩
    intro d hd
    exact Expr.eval_ok_of_extends hextends (select_demands h d hd)
  · intro c' e hextends
    refine ⟨?_, Expr.evalTolerant_of_extends hextends⟩
    intro hknown
    rcases Expr.eval_of_extends hextends e with heq | ⟨x, hx⟩
    · exact heq
    · exact absurd hx (hknown x)

def indexedBit : List Token :=
  [⟨.name "m", 0⟩, ⟨.punct .comma, 1⟩, ⟨.punct .leftParen, 2⟩, ⟨.keyword .ix, 3⟩, ⟨.punct .plus, 5⟩,
    ⟨.name "n", 6⟩, ⟨.punct .rightParen, 7⟩]

def earlyNames : Context :=
  ⟨fun x => if x = "m" then some 3 else none, 0⟩

def lateNames : Context :=
  ⟨fun x => if x = "m" then some 3 else some 7, 0⟩

theorem earlyNames_extends : earlyNames.Extends lateNames := by
  refine ⟨rfl, ?_⟩
  intro x v hv
  simp only [earlyNames] at hv
  split at hv
  · next hx => simpa [lateNames, hx] using hv
  · cases hv

theorem InstructionSet.indexedBit_outlasts :
    (∃ selection, builtin.select true earlyNames "bit" indexedBit = .ok selection ∧
      builtin.select true lateNames "bit" indexedBit = .ok selection) ∧
    ∀ e ∈ [Expr.symbol "m", .binary .div (.symbol "m") (.number 0)],
      e.eval lateNames = e.eval earlyNames ∧
        e.evalTolerant lateNames = e.evalTolerant earlyNames := by
  obtain ⟨hselects, hvalues⟩ := select_outlasts earlyNames
  constructor
  · have hsome : (builtin.select true earlyNames "bit" indexedBit).toBool = true := by
      decide +kernel
    cases hselect : builtin.select true earlyNames "bit" indexedBit with
    | error e =>
        rw [hselect] at hsome
        cases hsome
    | ok selection =>
        obtain ⟨_, _, -, hkeeps⟩ := hselects _ _ _ _ hselect
        exact ⟨selection, rfl, (hkeeps _ earlyNames_extends).1⟩
  · have hsettled : ∀ e ∈ [Expr.symbol "m", .binary .div (.symbol "m") (.number 0)],
        (∀ x, e.eval earlyNames ≠ .error (.undefined x)) ∧
          ∀ u, e.evalTolerant earlyNames ≠ .ok (.unresolved u) := by
      simp [Expr.evalTolerant, Expr.eval, earlyNames, BinaryOp.apply, OperationFault.within, bind,
        Except.bind]
    intro e he
    obtain ⟨hdefined, hresolved⟩ := hsettled e he
    obtain ⟨heval, htolerant⟩ := hvalues lateNames e earlyNames_extends
    exact ⟨heval hdefined, htolerant hresolved⟩

end Z80
