import Mathlib
import Z80.InstructionSet.Builtin
import Z80.Proofs.Evaluation
import Z80.Selection

namespace Z80

structure Shape where
  bound : List Binding
  demands : List (Expr × Int32)
deriving DecidableEq

namespace Shape

def bind (b : Binding) (s : Shape) : Shape :=
  ⟨b :: s.bound, s.demands⟩

def demand (e : Expr) (n : Int32) (s : Shape) : Shape :=
  ⟨s.bound, (e, n) :: s.demands⟩

def Holds (s : Shape) (ctx : Context) : Prop :=
  ∀ d ∈ s.demands, d.1.eval ctx = .ok d.2

end Shape

def shapeLiteral (t : PatternToken) (next : List Token → Option Shape) (ts : List Token) :
    Option Shape :=
  match ts with
  | u :: rest => if t.takes u.lexeme then next rest else none
  | [] => none

def shapeSlot (p : Placeholder) (next : List Token → Option Shape) (ts : List Token) :
    Option Shape :=
  match Expr.readBare ts with
  | .ok (e, rest) => (next rest).map (Shape.bind ⟨p, e⟩)
  | .error _ => none

def shapeNumber (n : Int32) (next : List Token → Option Shape) (ts : List Token) : Option Shape :=
  match Expr.readBare ts with
  | .ok (e, rest) => (next rest).map (Shape.demand e n)
  | .error _ => none

def shapeDisplacement (next : List Token → Option Shape) (ts : List Token) : Option Shape :=
  match ts with
  | ⟨.punct .plus, _⟩ :: rest => shapeSlot .disp8 next rest
  | ⟨.punct .minus, _⟩ :: _ => shapeSlot .disp8 next ts
  | ⟨.punct .rightParen, _⟩ :: _ => (next ts).map (Shape.bind ⟨.disp8, .number 0⟩)
  | _ => none

def PatternPart.shape (next : List Token → Option Shape) :
    PatternPart → List Token → Option Shape
  | literal t => shapeLiteral t next
  | number n => shapeNumber n next
  | slot p => shapeSlot p next
  | displacement => shapeDisplacement next

def shapeParts : List PatternPart → List Token → Option Shape
  | [], ts => if ts.isEmpty then some ⟨[], []⟩ else none
  | part :: parts, ts => part.shape (shapeParts parts) ts

def shape (pattern : List PatternToken) (operands : List Token) : Option Shape :=
  shapeParts (patternParts pattern) operands

theorem fitBind_eq_matched {f : Fit} {b : Binding} {bound : List Binding} :
    f.bind b = .matched bound ↔ ∃ rest, f = .matched rest ∧ bound = b :: rest := by
  cases f with
  | matched rest => simp [Fit.bind, eq_comm]
  | mismatch => simp [Fit.bind]
  | unresolved name => simp [Fit.bind]

section Fits

variable {ctx : Context} {next : List Token → Fit} {form : List Token → Option Shape}

def FitsBy (ctx : Context) (next : List Token → Fit) (form : List Token → Option Shape) : Prop :=
  ∀ ts bound, next ts = .matched bound ↔ ∃ s, form ts = some s ∧ s.bound = bound ∧ s.Holds ctx

theorem FitsBy.bind (h : FitsBy ctx next form) (b : Binding) (ts : List Token)
    (bound : List Binding) : (next ts).bind b = .matched bound ↔
      ∃ s, (form ts).map (Shape.bind b) = some s ∧ s.bound = bound ∧ s.Holds ctx := by
  rw [fitBind_eq_matched]
  constructor
  · rintro ⟨rest, hrest, rfl⟩
    obtain ⟨s, hs, rfl, hv⟩ := (h ts rest).mp hrest
    exact ⟨s.bind b, by simp [hs], rfl, hv⟩
  · rintro ⟨s, hs, rfl, hv⟩
    obtain ⟨t, ht, rfl⟩ := Option.map_eq_some_iff.mp hs
    exact ⟨t.bound, (h ts t.bound).mpr ⟨t, ht, rfl, hv⟩, rfl⟩

theorem FitsBy.slot (h : FitsBy ctx next form) (p : Placeholder) :
    FitsBy ctx (fitSlot p next) (shapeSlot p form) := by
  intro ts bound
  unfold fitSlot shapeSlot
  cases hr : Expr.readBare ts with
  | error fault => simp
  | ok read => exact h.bind ⟨p, read.1⟩ read.2 bound

theorem FitsBy.displacement (h : FitsBy ctx next form) :
    FitsBy ctx (fitDisplacement next) (shapeDisplacement form) := by
  intro ts bound
  unfold fitDisplacement shapeDisplacement
  split
  · exact h.slot .disp8 _ bound
  · exact h.slot .disp8 _ bound
  · exact h.bind _ _ bound
  · simp

theorem FitsBy.number (h : FitsBy ctx next form) (n : Int32) :
    FitsBy ctx (fitNumber ctx n next) (shapeNumber n form) := by
  intro ts bound
  unfold fitNumber shapeNumber
  cases hr : Expr.readBare ts with
  | error fault => simp
  | ok read =>
      obtain ⟨e, rest⟩ := read
      dsimp only
      constructor
      · intro hm
        split at hm
        · next v hv =>
            split at hm
            · next hn =>
                subst hn
                obtain ⟨s, hs, rfl, hholds⟩ := (h rest bound).mp hm
                refine ⟨s.demand e v, by simp [hs], rfl, ?_⟩
                intro d hd
                rcases List.mem_cons.mp hd with rfl | hd
                · exact Expr.evalTolerant_eq_value.mp hv
                · exact hholds d hd
            · cases hm
        · cases hm
        · cases hm
      · rintro ⟨s, hs, rfl, hholds⟩
        obtain ⟨t, ht, rfl⟩ := Option.map_eq_some_iff.mp hs
        have hv : e.evalTolerant ctx = .ok (.value n) :=
          Expr.evalTolerant_eq_value.mpr (hholds (e, n) (List.mem_cons_self ..))
        rw [hv]
        simp only [if_true]
        exact (h rest t.bound).mpr ⟨t, ht, rfl, fun d hd => hholds d (List.mem_cons_of_mem _ hd)⟩

theorem FitsBy.literal (h : FitsBy ctx next form) (t : PatternToken) :
    FitsBy ctx (fitLiteral t next) (shapeLiteral t form) := by
  intro ts bound
  unfold fitLiteral shapeLiteral
  cases ts with
  | nil => simp
  | cons u rest =>
      dsimp only
      split
      · exact h rest bound
      · simp

theorem fitsBy_parts (ctx : Context) (parts : List PatternPart) :
    FitsBy ctx (fitParts ctx parts) (shapeParts parts) := by
  induction parts with
  | nil =>
      intro ts bound
      cases ts with
      | nil => simp [fitParts, shapeParts, Shape.Holds]
      | cons t ts => simp [fitParts, shapeParts]
  | cons part parts ih =>
      cases part with
      | literal t => exact ih.literal t
      | number n => exact ih.number n
      | slot p => exact ih.slot p
      | displacement => exact ih.displacement

theorem fit_eq_matched {pattern : List PatternToken} {operands : List Token}
    {bound : List Binding} : fit ctx pattern operands = .matched bound ↔
      ∃ s, shape pattern operands = some s ∧ s.bound = bound ∧ s.Holds ctx :=
  fitsBy_parts ctx (patternParts pattern) operands bound

end Fits

section Forms

variable {next : List Token → Option Shape} {ts : List Token} {s : Shape}

theorem shapeLiteral_eq_some {t : PatternToken} :
    shapeLiteral t next ts = some s ↔
      ∃ u rest, ts = u :: rest ∧ t.takes u.lexeme = true ∧ next rest = some s := by
  cases ts with
  | nil => simp [shapeLiteral]
  | cons u rest => simp [shapeLiteral]

theorem shapeSlot_eq_some {p : Placeholder} :
    shapeSlot p next ts = some s ↔
      ∃ e rest t, Expr.readBare ts = .ok (e, rest) ∧ next rest = some t ∧ t.bind ⟨p, e⟩ = s := by
  unfold shapeSlot
  cases hr : Expr.readBare ts with
  | error fault => simp
  | ok read => simp [Prod.ext_iff]

theorem shapeNumber_eq_some {n : Int32} :
    shapeNumber n next ts = some s ↔
      ∃ e rest t, Expr.readBare ts = .ok (e, rest) ∧ next rest = some t ∧ t.demand e n = s := by
  unfold shapeNumber
  cases hr : Expr.readBare ts with
  | error fault => simp
  | ok read => simp [Prod.ext_iff]

inductive Displaces : List Token → Expr → List Token → Prop
  | plus {column : Nat} {ts rest : List Token} {e : Expr} : Expr.readBare ts = .ok (e, rest) →
      Displaces (⟨.punct .plus, column⟩ :: ts) e rest
  | minus {column : Nat} {ts rest : List Token} {e : Expr} :
      Expr.readBare (⟨.punct .minus, column⟩ :: ts) = .ok (e, rest) →
      Displaces (⟨.punct .minus, column⟩ :: ts) e rest
  | omitted {column : Nat} {ts : List Token} :
      Displaces (⟨.punct .rightParen, column⟩ :: ts) (.number 0) (⟨.punct .rightParen, column⟩ :: ts)

theorem shapeDisplacement_eq_some (h : shapeDisplacement next ts = some s) :
    ∃ e rest t, Displaces ts e rest ∧ next rest = some t ∧ t.bind ⟨.disp8, e⟩ = s := by
  unfold shapeDisplacement at h
  split at h
  · obtain ⟨e, rest, t, hr, ht, rfl⟩ := shapeSlot_eq_some.mp h
    exact ⟨e, rest, t, .plus hr, ht, rfl⟩
  · obtain ⟨e, rest, t, hr, ht, rfl⟩ := shapeSlot_eq_some.mp h
    exact ⟨e, rest, t, .minus hr, ht, rfl⟩
  · obtain ⟨t, ht, rfl⟩ := Option.map_eq_some_iff.mp h
    exact ⟨_, _, t, .omitted, ht, rfl⟩
  · cases h

end Forms

def PatternPart.placeholder? : PatternPart → Option Placeholder
  | slot p => some p
  | displacement => some .disp8
  | literal _ | number _ => none

theorem shapeParts_bound {parts : List PatternPart} :
    ∀ {ts : List Token} {s : Shape}, shapeParts parts ts = some s →
      s.bound.map Binding.placeholder = parts.filterMap PatternPart.placeholder? := by
  induction parts with
  | nil =>
      intro ts s h
      simp only [shapeParts] at h
      split at h
      · cases h
        rfl
      · cases h
  | cons part parts ih =>
      intro ts s h
      cases part with
      | literal t =>
          obtain ⟨u, rest, -, -, h⟩ := shapeLiteral_eq_some.mp h
          exact ih h
      | number n =>
          obtain ⟨e, rest, t, -, ht, rfl⟩ := shapeNumber_eq_some.mp h
          simp [List.filterMap_cons, Shape.demand, PatternPart.placeholder?, ih ht]
      | slot p =>
          obtain ⟨e, rest, t, -, ht, rfl⟩ := shapeSlot_eq_some.mp h
          simp [Shape.bind, PatternPart.placeholder?, ih ht]
      | displacement =>
          obtain ⟨e, rest, t, -, ht, rfl⟩ := shapeDisplacement_eq_some h
          simp [Shape.bind, PatternPart.placeholder?, ih ht]

theorem patternParts_placeholders (pattern : List PatternToken) :
    (patternParts pattern).filterMap PatternPart.placeholder? =
      pattern.filterMap PatternToken.placeholder? := by
  induction pattern with
  | nil => rfl
  | cons t pattern ih =>
      simp only [patternParts]
      split
      · next h =>
          obtain ⟨rfl, hhead⟩ := h
          obtain ⟨rest, rfl⟩ := List.head?_eq_some_iff.mp hhead
          -- The slot of the displacement is taken by the plus sign in front of it.
          have htail : patternParts (.slot .disp8 :: rest) = .slot .disp8 :: patternParts rest := by
            simp [patternParts, PatternPart.ofToken]
          rw [htail] at ih ⊢
          simpa [List.filterMap_cons, PatternPart.placeholder?, PatternToken.placeholder?] using ih
      · cases t with
        | punct _ | keyword _ | number _ | word _ | slot _ =>
            simp [List.filterMap_cons, PatternPart.ofToken, PatternPart.placeholder?,
              PatternToken.placeholder?, ih]

theorem fit_placeholders {ctx : Context} {pattern : List PatternToken} {operands : List Token}
    {bound : List Binding} (h : fit ctx pattern operands = .matched bound) :
    bound.map Binding.placeholder = pattern.filterMap PatternToken.placeholder? := by
  obtain ⟨s, hs, rfl, -⟩ := fit_eq_matched.mp h
  rw [shapeParts_bound hs, patternParts_placeholders]

namespace Selection

variable {ctx : Context} {operands : List Token} {variants : List Variant} {selection : Selection}

theorem ofVariant?_eq_some {v : Variant} :
    ofVariant? ctx operands v = some selection ↔
      v = selection.variant ∧ fit ctx v.pattern operands = .matched selection.bound := by
  unfold ofVariant?
  obtain ⟨variant, bound⟩ := selection
  cases hf : fit ctx v.pattern operands with
  | matched found => simp [Fit.matched?]
  | mismatch => simp [Fit.matched?]
  | unresolved name => simp [Fit.matched?]

theorem first?_eq_some :
    first? ctx operands variants = some selection ↔
      ∃ before after, variants = before ++ selection.variant :: after ∧
        fit ctx selection.variant.pattern operands = .matched selection.bound ∧
        ∀ v ∈ before, ∀ bound, fit ctx v.pattern operands ≠ .matched bound := by
  have hnone : ∀ v, ofVariant? ctx operands v = none ↔
      ∀ bound, fit ctx v.pattern operands ≠ .matched bound := by
    intro v
    rw [Option.eq_none_iff_forall_ne_some]
    constructor
    · intro h bound hfit
      exact h ⟨v, bound⟩ (ofVariant?_eq_some.mpr ⟨rfl, hfit⟩)
    · intro h found hfound
      exact h found.bound (ofVariant?_eq_some.mp hfound).2
  unfold first?
  rw [List.findSome?_eq_some_iff]
  constructor
  · rintro ⟨before, v, after, rfl, hv, hbefore⟩
    obtain ⟨rfl, hfit⟩ := ofVariant?_eq_some.mp hv
    exact ⟨before, after, rfl, hfit, fun u hu => (hnone u).mp (hbefore u hu)⟩
  · rintro ⟨before, after, rfl, hfit, hbefore⟩
    exact ⟨before, selection.variant, after, rfl, ofVariant?_eq_some.mpr ⟨rfl, hfit⟩,
      fun u hu => (hnone u).mpr (hbefore u hu)⟩

end Selection

namespace InstructionSet

variable {set : InstructionSet} {allowUndocumented : Bool} {ctx : Context} {mnemonic : String}
  {operands : List Token} {selection : Selection}

theorem select_eq_ok :
    set.select allowUndocumented ctx mnemonic operands = .ok selection ↔
      ∃ variants, set.variants? mnemonic = some variants ∧
        Selection.first? ctx operands variants = some selection ∧
        (allowUndocumented || selection.variant.documented) = true := by
  cases hv : set.variants? mnemonic with
  | none => simp [select, hv]
  | some variants =>
      cases hs : Selection.first? ctx operands variants with
      | none =>
          simp only [select, hv, hs]
          cases Selection.obstacle? ctx operands variants with
          | none => simp [hs]
          | some name => simp [hs]
      | some found =>
          simp only [select, hv, hs, Option.some.injEq, exists_eq_left']
          split
          · next hd =>
              constructor
              · intro h
                cases h
                exact ⟨rfl, hd⟩
              · rintro ⟨rfl, -⟩
                rfl
          · next hd =>
              constructor
              · intro h
                cases h
              · rintro ⟨rfl, h⟩
                exact absurd h hd

theorem mem_of_variants? {variants : List Variant} (h : set.variants? mnemonic = some variants) :
    (mnemonic, variants) ∈ set.entries := by
  unfold variants? at h
  rw [List.lookup_eq_some_iff] at h
  obtain ⟨before, after, hset, -⟩ := h
  rw [hset]
  simp

theorem forM_eq_ok {α : Type} {f : α → Except TableError Unit} {xs : List α} :
    xs.forM f = .ok () ↔ ∀ x ∈ xs, f x = .ok () := by
  induction xs with
  | nil => simp [pure, Except.pure]
  | cons x xs ih =>
      change (f x >>= fun _ => xs.forM f) = .ok () ↔ _
      rw [bind_eq_ok, List.forall_mem_cons]
      constructor
      · rintro ⟨⟨⟩, hx, hxs⟩
        exact ⟨hx, ih.mp hxs⟩
      · rintro ⟨hx, hxs⟩
        exact ⟨(), hx, ih.mpr hxs⟩

theorem placeholders_of_check (sound : set.check = .ok ()) {variants : List Variant}
    (h : set.variants? mnemonic = some variants) {v : Variant} (hv : v ∈ variants) :
    v.placeholders = v.patternPlaceholders := by
  have hentry := forM_eq_ok.mp sound (mnemonic, variants) (mem_of_variants? h)
  dsimp only at hentry
  split at hentry
  · cases hentry
  · have hcheck := forM_eq_ok.mp hentry v hv
    unfold Variant.check at hcheck
    split at hcheck
    · cases hcheck
    · next hne => simpa using hne

theorem select_binds (sound : set.check = .ok ())
    (h : set.select allowUndocumented ctx mnemonic operands = .ok selection) :
    selection.bound.map Binding.placeholder = selection.variant.placeholders := by
  obtain ⟨variants, hvariants, hfirst, -⟩ := select_eq_ok.mp h
  obtain ⟨before, after, rfl, hfit, -⟩ := Selection.first?_eq_some.mp hfirst
  have hmem : selection.variant ∈ before ++ selection.variant :: after := by simp
  rw [fit_placeholders hfit, placeholders_of_check sound hvariants hmem]
  rfl

theorem builtin_check : builtin.check = .ok () := by
  decide +kernel

end InstructionSet

end Z80
