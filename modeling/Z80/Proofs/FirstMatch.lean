import Mathlib
import Z80.Proofs.Grammar
import Z80.Proofs.Matching
import Z80.Proofs.Resolution

namespace Z80

inductive PatternToken.Spells : PatternToken → Lexeme → Prop
  | punct {p : Punct} : Spells (.punct p) (.punct p)
  | keyword {k : Keyword} : Spells (.keyword k) (.keyword k)
  | word {w s : String} : Text.lower s = Text.lower w → Spells (.word w) (.name s)

inductive Run (ctx : Context) :
    List PatternToken → List Token → List Binding → List Token → Prop
  | done {rest : List Token} : Run ctx [] rest [] rest
  | literal {t : PatternToken} {pattern : List PatternToken} {u : Token} {ts rest : List Token}
      {bound : List Binding} : t.Spells u.lexeme → Run ctx pattern ts bound rest →
      Run ctx (t :: pattern) (u :: ts) bound rest
  | number {n : Int32} {pattern : List PatternToken} {used ts rest : List Token} {e : Expr}
      {bound : List Binding} : Expr.Bare used e → e.eval ctx = .ok n →
      Run ctx pattern ts bound rest → Run ctx (.number n :: pattern) (used ++ ts) bound rest
  | slot {p : Placeholder} {pattern : List PatternToken} {used ts rest : List Token} {e : Expr}
      {bound : List Binding} : Expr.Bare used e → Run ctx pattern ts bound rest →
      Run ctx (.slot p :: pattern) (used ++ ts) (⟨p, e⟩ :: bound) rest
  | minus {pattern : List PatternToken} {u : Token} {used ts rest : List Token} {e : Expr}
      {bound : List Binding} : u.lexeme = .punct .minus → Expr.Bare (u :: used) e →
      Run ctx pattern ts bound rest →
      Run ctx (.punct .plus :: .slot .disp8 :: pattern) (u :: used ++ ts) (⟨.disp8, e⟩ :: bound) rest
  | omitted {pattern : List PatternToken} {u : Token} {ts rest : List Token}
      {bound : List Binding} : u.lexeme = .punct .rightParen →
      Run ctx pattern (u :: ts) bound rest →
      Run ctx (.punct .plus :: .slot .disp8 :: pattern) (u :: ts)
        (⟨.disp8, .number 0⟩ :: bound) rest

def Fits (ctx : Context) (pattern : List PatternToken) (ts : List Token) (bound : List Binding) :
    Prop :=
  Run ctx pattern ts bound []

def Undecided (ctx : Context) (ts : List Token) (name : String) : Prop :=
  ∃ used rest e x, ts = used ++ rest ∧ Expr.Bare used e ∧ Expr.Stops Expr.levels rest ∧
    e.eval ctx = .error (.undefined x) ∧ e.symbols.head? = some name

def Reaches (ctx : Context) (pattern : List PatternToken) (ts : List Token) (name : String) : Prop :=
  ∃ front n back bound rest, pattern = front ++ .number n :: back ∧
    Run ctx front ts bound rest ∧ Undecided ctx rest name

theorem PatternToken.takes_iff {t : PatternToken} {l : Lexeme} :
    t.takes l = true ↔ t.Spells l := by
  constructor
  · intro h
    unfold takes at h
    split at h
    · cases eq_of_beq h
      exact .punct
    · cases eq_of_beq h
      exact .keyword
    · exact .word (eq_of_beq h)
    · cases h
  · intro h
    cases h with
    | punct | keyword => simp [takes]
    | word h => simp [takes, h]

section Parts

variable {ctx : Context} {next : List Token → Fit} {ts : List Token} {f : Fit}

theorem fitLiteral_eq {t : PatternToken} (hf : f ≠ .mismatch) :
    fitLiteral t next ts = f ↔ ∃ u rest, ts = u :: rest ∧ t.Spells u.lexeme ∧ next rest = f := by
  cases ts with
  | nil => simp [fitLiteral, hf.symm]
  | cons u rest =>
      by_cases ht : t.takes u.lexeme = true
      · simp [fitLiteral, ht, ← PatternToken.takes_iff]
      · simp [fitLiteral, ht, ← PatternToken.takes_iff, hf.symm]

theorem exists_readBare {P : Expr → List Token → Prop} :
    (∃ e rest, Expr.readBare ts = .ok (e, rest) ∧ P e rest) ↔
      ∃ used e rest, ts = used ++ rest ∧ Expr.Bare used e ∧ Expr.Stops Expr.levels rest ∧
        P e rest := by
  simp only [Expr.readBare_eq_ok]
  constructor
  · rintro ⟨e, rest, ⟨used, hts, hused, hstops⟩, h⟩
    exact ⟨used, e, rest, hts, hused, hstops, h⟩
  · rintro ⟨used, e, rest, hts, hused, hstops, h⟩
    exact ⟨e, rest, ⟨used, hts, hused, hstops⟩, h⟩

theorem fitSlot_eq {p : Placeholder} (hf : f ≠ .mismatch) :
    fitSlot p next ts = f ↔ ∃ used e rest, ts = used ++ rest ∧ Expr.Bare used e ∧
      Expr.Stops Expr.levels rest ∧ (next rest).bind ⟨p, e⟩ = f := by
  rw [← exists_readBare]
  unfold fitSlot
  cases Expr.readBare ts with
  | error fault => simp [hf.symm]
  | ok r => simp [Prod.ext_iff]

theorem fitNumber_eq {n : Int32} (hf : f ≠ .mismatch) :
    fitNumber ctx n next ts = f ↔
      (∃ used e rest, ts = used ++ rest ∧ Expr.Bare used e ∧ Expr.Stops Expr.levels rest ∧
        e.eval ctx = .ok n ∧ next rest = f) ∨
      ∃ name, Undecided ctx ts name ∧ f = .unresolved name := by
  have hundecided : ∀ {name}, Undecided ctx ts name ↔ ∃ e rest, Expr.readBare ts = .ok (e, rest) ∧
      (∃ x, e.eval ctx = .error (.undefined x)) ∧ e.symbols.head? = some name := by
    intro name
    rw [exists_readBare]
    constructor
    · rintro ⟨used, rest, e, x, hts, hused, hstops, hx, hname⟩
      exact ⟨used, e, rest, hts, hused, hstops, ⟨x, hx⟩, hname⟩
    · rintro ⟨used, e, rest, hts, hused, hstops, ⟨x, hx⟩, hname⟩
      exact ⟨used, rest, e, x, hts, hused, hstops, hx, hname⟩
  rw [← @exists_readBare ts fun e rest => e.eval ctx = .ok n ∧ next rest = f]
  simp only [hundecided]
  unfold fitNumber
  cases Expr.readBare ts with
  | error fault => simp [hf.symm]
  | ok r =>
      obtain ⟨e, rest⟩ := r
      have hone : ∀ P : Expr → List Token → Prop, (∃ e' rest', (.ok (e, rest) :
          Except SyntaxFault (Expr × List Token)) = .ok (e', rest') ∧ P e' rest') ↔ P e rest := by
        simp
      simp only [hone]
      cases heval : e.eval ctx with
      | ok v => by_cases hv : v = n <;> simp [Expr.evalTolerant, heval, hv, hf.symm]
      | error fault =>
          cases fault with
          | arithmetic fault => simp [Expr.evalTolerant, heval, hf.symm]
          | undefined x =>
              have hmem := List.mem_of_find?_eq_some (Expr.find?_of_eval_undefined heval)
              obtain ⟨name, names, hnames⟩ := List.exists_cons_of_ne_nil (List.ne_nil_of_mem hmem)
              simp [Expr.evalTolerant, heval, hnames, eq_comm]

theorem fitDisplacement_eq (hf : f ≠ .mismatch) :
    fitDisplacement next ts = f ↔
      (∃ u used e rest, ts = u :: (used ++ rest) ∧ u.lexeme = .punct .plus ∧ Expr.Bare used e ∧
        Expr.Stops Expr.levels rest ∧ (next rest).bind ⟨.disp8, e⟩ = f) ∨
      (∃ u used e rest, ts = u :: used ++ rest ∧ u.lexeme = .punct .minus ∧
        Expr.Bare (u :: used) e ∧ Expr.Stops Expr.levels rest ∧
        (next rest).bind ⟨.disp8, e⟩ = f) ∨
      ∃ u rest, ts = u :: rest ∧ u.lexeme = .punct .rightParen ∧
        (next ts).bind ⟨.disp8, .number 0⟩ = f := by
  constructor
  · intro h
    unfold fitDisplacement at h
    split at h
    · obtain ⟨used, e, rest, rfl, hused, hstops, hnext⟩ := (fitSlot_eq hf).mp h
      exact .inl ⟨_, used, e, rest, rfl, rfl, hused, hstops, hnext⟩
    · next column tail =>
        obtain ⟨used, e, rest, hts, hused, hstops, hnext⟩ := (fitSlot_eq hf).mp h
        -- The operand starts with the sign.
        cases used with
        | nil => exact absurd rfl hused.1.ne_nil
        | cons u used =>
            cases hts
            exact .inr (.inl ⟨_, used, e, rest, rfl, rfl, hused, hstops, hnext⟩)
    · exact .inr (.inr ⟨_, _, rfl, rfl, h⟩)
    · exact absurd h hf.symm
  · rintro (⟨⟨l, column⟩, used, e, rest, rfl, rfl, hused, hstops, hnext⟩ |
      ⟨⟨l, column⟩, used, e, rest, rfl, rfl, hused, hstops, hnext⟩ |
      ⟨⟨l, column⟩, rest, rfl, rfl, hnext⟩)
    · exact (fitSlot_eq hf).mpr ⟨used, e, rest, rfl, hused, hstops, hnext⟩
    · exact (fitSlot_eq hf).mpr ⟨_, e, rest, rfl, hused, hstops, hnext⟩
    · exact hnext

end Parts

theorem fit_pair (ctx : Context) (pattern : List PatternToken) (ts : List Token) :
    fit ctx (.punct .plus :: .slot .disp8 :: pattern) ts = fitDisplacement (fit ctx pattern) ts := by
  have htail : patternParts (.slot .disp8 :: pattern) = .slot .disp8 :: patternParts pattern := by
    simp [patternParts, PatternPart.ofToken]
  have hpair : patternParts (.punct .plus :: .slot .disp8 :: pattern) =
      .displacement :: patternParts pattern := by
    rw [patternParts, if_pos ⟨rfl, rfl⟩, htail]
    rfl
  simp only [fit, hpair, fitParts]
  rfl

def isPair (t : PatternToken) (pattern : List PatternToken) : Prop :=
  t = .punct .plus ∧ pattern.head? = some (.slot .disp8)

theorem fit_single {t : PatternToken} {pattern : List PatternToken} (h : ¬isPair t pattern)
    (ctx : Context) (ts : List Token) :
    fit ctx (t :: pattern) ts = (PatternPart.ofToken t).fit ctx (fit ctx pattern) ts := by
  have hsingle : patternParts (t :: pattern) = .ofToken t :: patternParts pattern := if_neg h
  simp only [fit, hsingle, fitParts]
  rfl

theorem pattern_induction {P : List PatternToken → Prop} (nil : P [])
    (pair : ∀ pattern, P pattern → P (.punct .plus :: .slot .disp8 :: pattern))
    (single : ∀ t pattern, ¬isPair t pattern → P pattern → P (t :: pattern)) :
    ∀ pattern, P pattern := by
  intro pattern
  induction hlen : pattern.length using Nat.strong_induction_on generalizing pattern with
  | _ n ih =>
      cases pattern with
      | nil => exact nil
      | cons t pattern =>
          subst hlen
          by_cases h : isPair t pattern
          · obtain ⟨rfl, hhead⟩ := h
            obtain ⟨rest, rfl⟩ := List.head?_eq_some_iff.mp hhead
            exact pair rest (ih rest.length (by simp only [List.length_cons]; omega) rest rfl)
          · exact single t pattern h (ih pattern.length (by simp) pattern rfl)

def PatternToken.isOperand : PatternToken → Bool
  | number _ | slot _ => true
  | punct _ | keyword _ | word _ => false

def isSpaced : List PatternToken → Bool
  | t :: u :: pattern =>
      (!t.isOperand || u == .punct .comma || u == .punct .rightParen) && isSpaced (u :: pattern)
  | _ => true

section Spaced

variable {ctx : Context} {t : PatternToken} {pattern : List PatternToken} {ts rest : List Token}
  {bound : List Binding}

theorem isSpaced_tail (h : isSpaced (t :: pattern) = true) : isSpaced pattern = true := by
  cases pattern with
  | nil => rfl
  | cons u pattern => exact (Bool.and_eq_true_iff.mp h).2

theorem closing_of_isSpaced {u : PatternToken} (h : isSpaced (t :: u :: pattern) = true)
    (ht : t.isOperand = true) : u = .punct .comma ∨ u = .punct .rightParen := by
  simpa [isSpaced, ht] using (Bool.and_eq_true_iff.mp h).1

theorem Run.stops {u : PatternToken} (hu : u = .punct .comma ∨ u = .punct .rightParen)
    (h : Run ctx (u :: pattern) ts bound rest) : Expr.Stops Expr.levels ts := by
  cases h with
  | @literal _ _ v _ _ _ hspells _ =>
      refine Expr.stops_of_closing ?_
      generalize v.lexeme = l at hspells ⊢
      rcases hu with rfl | rfl
      · cases hspells
        exact .inr rfl
      · cases hspells
        exact .inl rfl
  | number _ _ _ => simp at hu
  | slot _ _ => simp at hu
  | minus _ _ _ => simp at hu
  | omitted _ _ => simp at hu

theorem fit_literal {u : Token} (h : t.Spells u.lexeme) (ctx : Context)
    (pattern : List PatternToken) (ts : List Token) :
    fit ctx (t :: pattern) (u :: ts) = fit ctx pattern ts := by
  have htakes := PatternToken.takes_iff.mpr h
  by_cases hpair : isPair t pattern
  · obtain ⟨rfl, hhead⟩ := hpair
    obtain ⟨rest, rfl⟩ := List.head?_eq_some_iff.mp hhead
    obtain ⟨l, column⟩ := u
    cases h
    have hslot : ¬isPair (.slot .disp8) rest := by simp [isPair]
    rw [fit_pair, fit_single hslot]
    rfl
  · rw [fit_single hpair]
    cases t with
    | punct p | keyword k | word w => simp [PatternPart.ofToken, PatternPart.fit, fitLiteral, htakes]
    | number n => cases h
    | slot p => cases h

def Fit.bindAll (bound : List Binding) (f : Fit) : Fit :=
  bound.foldr Fit.bind f

theorem stops_before {front : List PatternToken} (ht : t.isOperand = true)
    (hspaced : isSpaced (t :: (front ++ pattern)) = true)
    (hend : (pattern = [] ∧ Expr.Stops Expr.levels rest) ∨ ∃ n back, pattern = .number n :: back)
    (h : Run ctx front ts bound rest) : Expr.Stops Expr.levels ts := by
  cases front with
  | nil =>
      cases h
      rcases hend with ⟨-, hstops⟩ | ⟨n, back, rfl⟩
      · exact hstops
      · have := closing_of_isSpaced hspaced ht
        simp at this
  | cons u front => exact Run.stops (closing_of_isSpaced hspaced ht) h

theorem Run.fit_append {front : List PatternToken} (h : Run ctx front ts bound rest) :
    isSpaced (front ++ pattern) = true →
      ((pattern = [] ∧ Expr.Stops Expr.levels rest) ∨ ∃ n back, pattern = .number n :: back) →
      fit ctx (front ++ pattern) ts = (fit ctx pattern rest).bindAll bound := by
  induction h with
  | done =>
      intro _ _
      rfl
  | literal hspells _ ih =>
      intro hspaced hend
      rw [List.cons_append, fit_literal hspells]
      exact ih (isSpaced_tail hspaced) hend
  | @number n front used ts rest e bound hused heval hrun ih =>
      intro hspaced hend
      have hstops := stops_before rfl hspaced hend hrun
      have hread := Expr.readBare_eq_ok.mpr ⟨used, rfl, hused, hstops⟩
      have hsingle : ¬isPair (.number n) (front ++ pattern) := by simp [isPair]
      rw [List.cons_append, fit_single hsingle, ← ih (isSpaced_tail hspaced) hend]
      simp [PatternPart.ofToken, PatternPart.fit, fitNumber, hread, Expr.evalTolerant, heval]
  | @slot p front used ts rest e bound hused hrun ih =>
      intro hspaced hend
      have hstops := stops_before rfl hspaced hend hrun
      have hread := Expr.readBare_eq_ok.mpr ⟨used, rfl, hused, hstops⟩
      have hsingle : ¬isPair (.slot p) (front ++ pattern) := by simp [isPair]
      rw [List.cons_append, fit_single hsingle, Fit.bindAll, List.foldr_cons]
      simp only [PatternPart.ofToken, PatternPart.fit, fitSlot, hread]
      rw [ih (isSpaced_tail hspaced) hend]
      rfl
  | @minus front u used ts rest e bound hminus hused hrun ih =>
      intro hspaced hend
      have hslot := isSpaced_tail hspaced
      have hstops := stops_before rfl hslot hend hrun
      have hread := Expr.readBare_eq_ok.mpr ⟨u :: used, rfl, hused, hstops⟩
      obtain ⟨l, column⟩ := u
      cases hminus
      rw [List.cons_append, List.cons_append, fit_pair, Fit.bindAll, List.foldr_cons]
      rw [List.cons_append] at hread ⊢
      simp only [fitDisplacement, fitSlot, hread]
      rw [ih (isSpaced_tail hslot) hend]
      rfl
  | @omitted front u ts rest bound hparen hrun ih =>
      intro hspaced hend
      obtain ⟨l, column⟩ := u
      cases hparen
      rw [List.cons_append, List.cons_append, fit_pair, Fit.bindAll, List.foldr_cons]
      simp only [fitDisplacement]
      rw [ih (isSpaced_tail (isSpaced_tail hspaced)) hend]
      rfl

end Spaced

def Ends (ctx : Context) (back : List PatternToken) (rest : List Token) (bound : List Binding) :
    Fit → Prop
  | .matched all => back = [] ∧ rest = [] ∧ all = bound
  | .unresolved name => (∃ n more, back = .number n :: more) ∧ Undecided ctx rest name
  | .mismatch => False

theorem Ends.bind {ctx : Context} {back : List PatternToken} {rest : List Token}
    {bound : List Binding} {f : Fit} (h : Ends ctx back rest bound f) (b : Binding) :
    Ends ctx back rest (b :: bound) (f.bind b) := by
  cases f with
  | matched all =>
      obtain ⟨hback, hrest, rfl⟩ := h
      exact ⟨hback, hrest, rfl⟩
  | unresolved name => exact h
  | mismatch => exact h

theorem fitBind_ne_mismatch {f : Fit} {b : Binding} : f.bind b ≠ .mismatch ↔ f ≠ .mismatch := by
  cases f <;> simp [Fit.bind]

theorem run_of_fit (ctx : Context) (pattern : List PatternToken) : ∀ {ts : List Token},
    fit ctx pattern ts ≠ .mismatch → ∃ front back bound rest, pattern = front ++ back ∧
      Run ctx front ts bound rest ∧ Ends ctx back rest bound (fit ctx pattern ts) := by
  induction pattern using pattern_induction with
  | nil =>
      intro ts hf
      cases ts with
      | nil => exact ⟨[], [], [], [], rfl, .done, rfl, rfl, rfl⟩
      | cons t ts => exact absurd rfl hf
  | pair pattern ih =>
      intro ts hf
      have hcases := (fitDisplacement_eq (hf ∘ (fit_pair ctx pattern ts).trans)).mp rfl
      rw [fit_pair] at hf ⊢
      rcases hcases with ⟨u, used, e, rest, rfl, hplus, hused, -, hnext⟩ |
        ⟨u, used, e, rest, rfl, hminus, hused, -, hnext⟩ | ⟨u, rest, rfl, hparen, hnext⟩
      · rw [← hnext] at hf ⊢
        obtain ⟨front, back, bound, rest', rfl, hrun, hends⟩ := ih (fitBind_ne_mismatch.mp hf)
        exact ⟨_, back, _, rest', rfl, .literal (hplus ▸ .punct) (.slot hused hrun), hends.bind _⟩
      · rw [← hnext] at hf ⊢
        obtain ⟨front, back, bound, rest', rfl, hrun, hends⟩ := ih (fitBind_ne_mismatch.mp hf)
        exact ⟨_, back, _, rest', rfl, .minus hminus hused hrun, hends.bind _⟩
      · rw [← hnext] at hf ⊢
        obtain ⟨front, back, bound, rest', rfl, hrun, hends⟩ := ih (fitBind_ne_mismatch.mp hf)
        exact ⟨_, back, _, rest', rfl, .omitted hparen hrun, hends.bind _⟩
  | single t pattern hpair ih =>
      intro ts hf
      rw [fit_single hpair] at hf ⊢
      have hliteral : ∀ {t : PatternToken}, fitLiteral t (fit ctx pattern) ts ≠ .mismatch →
          ∃ front back bound rest, t :: pattern = front ++ back ∧ Run ctx front ts bound rest ∧
            Ends ctx back rest bound (fitLiteral t (fit ctx pattern) ts) := by
        intro t hf
        obtain ⟨u, rest, rfl, hspells, hnext⟩ := (fitLiteral_eq hf).mp rfl
        rw [← hnext] at hf ⊢
        obtain ⟨front, back, bound, rest', rfl, hrun, hends⟩ := ih hf
        exact ⟨t :: front, back, bound, rest', rfl, .literal hspells hrun, hends⟩
      cases t with
      | punct p | keyword k | word w => exact hliteral hf
      | slot p =>
          change fitSlot p (fit ctx pattern) ts ≠ .mismatch at hf
          change ∃ front back bound rest, _ ∧ _ ∧ Ends ctx back rest bound (fitSlot p _ ts)
          obtain ⟨used, e, rest, rfl, hused, -, hnext⟩ := (fitSlot_eq hf).mp rfl
          rw [← hnext] at hf ⊢
          obtain ⟨front, back, bound, rest', rfl, hrun, hends⟩ := ih (fitBind_ne_mismatch.mp hf)
          exact ⟨_, back, _, rest', rfl, .slot hused hrun, hends.bind _⟩
      | number n =>
          change fitNumber ctx n (fit ctx pattern) ts ≠ .mismatch at hf
          change ∃ front back bound rest, _ ∧ _ ∧ Ends ctx back rest bound (fitNumber ctx n _ ts)
          rcases (fitNumber_eq hf).mp rfl with
            ⟨used, e, rest, rfl, hused, -, heval, hnext⟩ | ⟨name, hundecided, hname⟩
          · rw [← hnext] at hf ⊢
            obtain ⟨front, back, bound, rest', rfl, hrun, hends⟩ := ih hf
            exact ⟨_, back, bound, rest', rfl, .number hused heval hrun, hends⟩
          · rw [hname]
            exact ⟨[], _, [], ts, rfl, .done, ⟨n, pattern, rfl⟩, hundecided⟩

theorem bindAll_matched (bound : List Binding) : (Fit.matched []).bindAll bound = .matched bound := by
  induction bound with
  | nil => rfl
  | cons b bound ih =>
      change ((Fit.matched []).bindAll bound).bind b = _
      rw [ih]
      rfl

theorem bindAll_unresolved (bound : List Binding) (name : String) :
    (Fit.unresolved name).bindAll bound = .unresolved name := by
  induction bound with
  | nil => rfl
  | cons b bound ih =>
      change ((Fit.unresolved name).bindAll bound).bind b = _
      rw [ih]
      rfl

section Verdicts

variable {ctx : Context} {pattern : List PatternToken} {ts : List Token}

theorem fit_matched_iff {bound : List Binding} (hspaced : isSpaced pattern = true) :
    fit ctx pattern ts = .matched bound ↔ Fits ctx pattern ts bound := by
  constructor
  · intro h
    obtain ⟨front, back, found, rest, rfl, hrun, hends⟩ := run_of_fit ctx pattern (by rw [h]; simp)
    rw [h] at hends
    obtain ⟨rfl, rfl, rfl⟩ := hends
    simpa [Fits] using hrun
  · intro h
    have hfit : fit ctx (pattern ++ []) ts = (fit ctx [] []).bindAll bound :=
      h.fit_append (by simpa using hspaced) (.inl ⟨rfl, by simp [Expr.Stops]⟩)
    rw [List.append_nil] at hfit
    rw [hfit]
    exact bindAll_matched bound

theorem fit_unresolved_iff {name : String} (hspaced : isSpaced pattern = true) :
    fit ctx pattern ts = .unresolved name ↔ Reaches ctx pattern ts name := by
  constructor
  · intro h
    obtain ⟨front, back, found, rest, rfl, hrun, hends⟩ := run_of_fit ctx pattern (by rw [h]; simp)
    rw [h] at hends
    obtain ⟨⟨n, more, rfl⟩, hundecided⟩ := hends
    exact ⟨front, n, more, found, rest, rfl, hrun, hundecided⟩
  · rintro ⟨front, n, back, bound, rest, rfl, hrun, hundecided⟩
    have hnumber : fit ctx (.number n :: back) rest = .unresolved name := by
      rw [fit_single (by simp [isPair])]
      exact (fitNumber_eq (by simp)).mpr (.inr ⟨name, hundecided, rfl⟩)
    rw [hrun.fit_append hspaced (.inr ⟨n, back, rfl⟩), hnumber, bindAll_unresolved]

end Verdicts

namespace Selection

variable {ctx : Context} {operands : List Token} {variants : List Variant}

theorem first?_eq_none : first? ctx operands variants = none ↔
    ∀ v ∈ variants, ∀ bound, fit ctx v.pattern operands ≠ .matched bound := by
  simp only [first?, List.findSome?_eq_none_iff]
  refine forall₂_congr fun v _ => ?_
  unfold ofVariant?
  cases fit ctx v.pattern operands <;> simp [Fit.matched?]

theorem obstacle?_eq_some {name : String} : obstacle? ctx operands variants = some name ↔
    ∃ before v after, variants = before ++ v :: after ∧
      fit ctx v.pattern operands = .unresolved name ∧
      ∀ u ∈ before, ∀ x, fit ctx u.pattern operands ≠ .unresolved x := by
  have hnone : ∀ f : Fit, f.unresolved? = none ↔ ∀ x, f ≠ .unresolved x := by
    intro f
    cases f <;> simp [Fit.unresolved?]
  have hsome : ∀ f : Fit, f.unresolved? = some name ↔ f = .unresolved name := by
    intro f
    cases f <;> simp [Fit.unresolved?]
  simp only [obstacle?, List.findSome?_eq_some_iff, hnone, hsome]

theorem obstacle?_eq_none : obstacle? ctx operands variants = none ↔
    ∀ v ∈ variants, ∀ x, fit ctx v.pattern operands ≠ .unresolved x := by
  simp only [obstacle?, List.findSome?_eq_none_iff]
  refine forall₂_congr fun v _ => ?_
  cases fit ctx v.pattern operands <;> simp [Fit.unresolved?]

end Selection

namespace InstructionSet

variable {ctx : Context} {mnemonic : String} {operands : List Token} {variants : List Variant}

theorem builtin_isSpaced :
    (builtin.entries.all fun entry => entry.2.all fun v => isSpaced v.pattern) = true := by
  decide +kernel

theorem isSpaced_of_variants? (h : builtin.variants? mnemonic = some variants) {v : Variant}
    (hv : v ∈ variants) : isSpaced v.pattern = true :=
  List.all_eq_true.mp (List.all_eq_true.mp builtin_isSpaced _ (mem_of_variants? h)) v hv

theorem select_eq_error {set : InstructionSet} {e : Error}
    (h : set.variants? mnemonic = some variants)
    (hnone : Selection.first? ctx operands variants = none) :
    set.select true ctx mnemonic operands = .error e ↔
      (∃ name, Selection.obstacle? ctx operands variants = some name ∧ e = .undefinedSymbol name) ∨
      (Selection.obstacle? ctx operands variants = none ∧
        e = .noMatchingVariant mnemonic (renderTokens operands)) := by
  simp only [select, h, hnone]
  cases Selection.obstacle? ctx operands variants <;> simp [eq_comm]

theorem select_first_match (mnemonic : String) (variants : List Variant)
    (h : builtin.variants? mnemonic = some variants) (ctx : Context) (operands : List Token) :
    (∀ v ∈ variants, ∀ bound,
      fit ctx v.pattern operands = .matched bound ↔ Fits ctx v.pattern operands bound) ∧
    (∀ selection, builtin.select true ctx mnemonic operands = .ok selection ↔
      ∃ before after, variants = before ++ selection.variant :: after ∧
        Fits ctx selection.variant.pattern operands selection.bound ∧
        ∀ v ∈ before, ∀ bound, ¬Fits ctx v.pattern operands bound) ∧
    ((∀ v ∈ variants, ∀ bound, ¬Fits ctx v.pattern operands bound) →
      ∀ e, builtin.select true ctx mnemonic operands = .error e ↔
        (∃ name before v after, variants = before ++ v :: after ∧
          Reaches ctx v.pattern operands name ∧
          (∀ u ∈ before, ∀ x, ¬Reaches ctx u.pattern operands x) ∧ e = .undefinedSymbol name) ∨
        ((∀ v ∈ variants, ∀ name, ¬Reaches ctx v.pattern operands name) ∧
          e = .noMatchingVariant mnemonic (renderTokens operands))) := by
  have hfits : ∀ v ∈ variants, ∀ bound,
      fit ctx v.pattern operands = .matched bound ↔ Fits ctx v.pattern operands bound :=
    fun v hv bound => fit_matched_iff (isSpaced_of_variants? h hv)
  have hreaches : ∀ v ∈ variants, ∀ name,
      fit ctx v.pattern operands = .unresolved name ↔ Reaches ctx v.pattern operands name :=
    fun v hv name => fit_unresolved_iff (isSpaced_of_variants? h hv)
  refine ⟨hfits, ?_, ?_⟩
  · intro selection
    have hselect : builtin.select true ctx mnemonic operands = .ok selection ↔
        Selection.first? ctx operands variants = some selection := by
      simp [select_eq_ok, h]
    rw [hselect, Selection.first?_eq_some]
    refine exists₂_congr fun before after => and_congr_right fun hsplit => ?_
    rw [hfits _ (by simp [hsplit])]
    refine and_congr_right fun _ => forall₂_congr fun v hv => forall_congr' fun bound => ?_
    rw [ne_eq, hfits v (by simp [hsplit, hv])]
  · intro hnone e
    have hfirst : Selection.first? ctx operands variants = none :=
      Selection.first?_eq_none.mpr fun v hv bound hfit => hnone v hv bound ((hfits v hv bound).mp hfit)
    rw [select_eq_error h hfirst]
    refine or_congr ?_ (and_congr_left fun _ => ?_)
    · refine exists_congr fun name => ?_
      rw [Selection.obstacle?_eq_some]
      constructor
      · rintro ⟨⟨before, v, after, hsplit, hv, hbefore⟩, he⟩
        refine ⟨before, v, after, hsplit, (hreaches v (by simp [hsplit]) name).mp hv, ?_, he⟩
        intro u hu x hx
        exact hbefore u hu x ((hreaches u (by simp [hsplit, hu]) x).mpr hx)
      · rintro ⟨before, v, after, hsplit, hv, hbefore, he⟩
        refine ⟨⟨before, v, after, hsplit, (hreaches v (by simp [hsplit]) name).mpr hv, ?_⟩, he⟩
        intro u hu x hx
        exact hbefore u hu x ((hreaches u (by simp [hsplit, hu]) x).mp hx)
    · rw [Selection.obstacle?_eq_none]
      exact forall₂_congr fun v hv => forall_congr' fun name => not_congr (hreaches v hv name)

def plainBit : List Token :=
  [⟨.number "1" 1, 4⟩, ⟨.punct .plus, 5⟩, ⟨.number "2" 2, 6⟩, ⟨.punct .comma, 7⟩,
    ⟨.punct .leftParen, 8⟩, ⟨.keyword .ix, 9⟩, ⟨.punct .rightParen, 11⟩]

theorem plainBit_fits :
    ∃ variants selection, builtin.variants? "bit" = some variants ∧
      builtin.select true ⟨fun _ => none, 0⟩ "bit" plainBit = .ok selection ∧
      Fits ⟨fun _ => none, 0⟩ selection.variant.pattern plainBit selection.bound := by
  have hok : (builtin.select true ⟨fun _ => none, 0⟩ "bit" plainBit).isOk = true := by
    decide +kernel
  cases hselect : builtin.select true ⟨fun _ => none, 0⟩ "bit" plainBit with
  | error e =>
      rw [hselect] at hok
      cases hok
  | ok selection =>
      obtain ⟨variants, hvariants, -, -⟩ := select_eq_ok.mp hselect
      have hfirst := (select_first_match "bit" variants hvariants ⟨fun _ => none, 0⟩ plainBit).2.1
      obtain ⟨before, after, -, hfits, -⟩ := (hfirst selection).mp hselect
      exact ⟨variants, selection, hvariants, rfl, hfits⟩

end InstructionSet

end Z80
