import Mathlib
import Z80.Proofs.SymbolTable

namespace Z80

theorem filterMap_append_perm {α β : Type} {f g : α → Option β} {xs : List α}
    (h : ∀ x ∈ xs, f x = none ∨ g x = none) :
    (xs.filterMap f ++ xs.filterMap g).Perm (xs.filterMap fun x => (f x).or (g x)) := by
  induction xs with
  | nil => simp
  | cons x xs ih =>
      have hrest := ih fun y hy => h y (List.mem_cons_of_mem _ hy)
      rcases h x (List.mem_cons_self ..) with hf | hg
      · cases hg : g x with
        | none => simpa [hf, hg] using hrest
        | some b =>
            simp only [List.filterMap_cons, hf, hg, Option.none_or]
            exact List.perm_middle.trans (hrest.cons b)
      · cases hf : f x with
        | none => simpa [hf, hg] using hrest
        | some b => simpa [hf, hg] using hrest

namespace Expr

variable {ctx : Context} {e : Expr}

theorem value?_of_eval_ok : ∀ {e : Expr} {v : Int32}, e.eval ctx = .ok v →
    ∀ x ∈ e.symbols, (ctx.value? x).isSome := by
  intro e
  induction e with
  | number n => simp [symbols]
  | here => simp [symbols]
  | symbol name =>
      intro v h x hx
      cases List.mem_singleton.mp hx
      cases hv : ctx.value? name with
      | none => simp [eval, hv] at h
      | some w => rfl
  | unary op e ih =>
      intro v h x hx
      obtain ⟨a, ha, -⟩ := bind_eq_ok.mp h
      exact ih ha x hx
  | binary op l r ihl ihr =>
      intro v h x hx
      obtain ⟨a, ha, h⟩ := bind_eq_ok.mp h
      obtain ⟨b, hb, -⟩ := bind_eq_ok.mp h
      rcases List.mem_append.mp hx with hx | hx
      · exact ihl ha x hx
      · exact ihr hb x hx

theorem within_ne_undefined {α : Type} {x : Except OperationFault α} {name : String} :
    OperationFault.within e x ≠ .error (.undefined name) := by
  cases x <;> simp [OperationFault.within]

theorem find?_of_eval_undefined : ∀ {e : Expr} {name : String},
    e.eval ctx = .error (.undefined name) →
    e.symbols.find? (fun x => (ctx.value? x).isNone) = some name := by
  intro e
  induction e with
  | number n =>
      intro name h
      cases h
  | here =>
      intro name h
      cases h
  | symbol name =>
      intro x h
      cases hv : ctx.value? name with
      | none =>
          simp only [eval, hv, Except.error.injEq, EvalFault.undefined.injEq] at h
          subst h
          simp [symbols, hv]
      | some v => simp [eval, hv] at h
  | unary op e ih =>
      intro name h
      rcases bind_eq_error.mp h with h | ⟨a, -, h⟩
      · exact ih h
      · exact absurd h within_ne_undefined
  | binary op l r ihl ihr =>
      intro name h
      rcases bind_eq_error.mp h with h | ⟨a, ha, h⟩
      · simp [symbols, List.find?_append, ihl h]
      · rcases bind_eq_error.mp h with h | ⟨b, -, h⟩
        · have hleft : l.symbols.find? (fun x => (ctx.value? x).isNone) = none := by
            rw [List.find?_eq_none]
            intro x hx
            have := value?_of_eval_ok ha x hx
            simpa [Option.isSome_iff_ne_none] using this
          simp [symbols, List.find?_append, hleft, ihr h]
        · exact absurd h within_ne_undefined

end Expr

namespace Symbols

variable {table : Symbols} {scope : Option Nat} {address : UInt16} {s : Symbol} {p : Pending}
  {n : Nat}

inductive Derives (table : Symbols) : Option Nat → UInt16 → Expr → Int32 → Prop
  | number {scope : Option Nat} {address : UInt16} {n : Int32} :
      Derives table scope address (.number n) n
  | here {scope : Option Nat} {address : UInt16} :
      Derives table scope address .here (Int32.ofNat address.toNat)
  | known {scope : Option Nat} {address : UInt16} {name : String} {s : Symbol} {v : Int32} :
      table.lookup scope name = some s → s.value? = some v →
      Derives table scope address (.symbol name) v
  | pending {scope : Option Nat} {address : UInt16} {name : String} {s : Symbol} {p : Pending}
      {v : Int32} : table.lookup scope name = some s → s.pending? = some p →
      Derives table p.scope p.address p.expr v → Derives table scope address (.symbol name) v
  | unary {scope : Option Nat} {address : UInt16} {op : UnaryOp} {e : Expr} {a v : Int32} :
      Derives table scope address e a → op.apply a = .ok v →
      Derives table scope address (.unary op e) v
  | binary {scope : Option Nat} {address : UInt16} {op : BinaryOp} {l r : Expr} {a b v : Int32} :
      Derives table scope address l a → Derives table scope address r b → op.apply a b = .ok v →
      Derives table scope address (.binary op l r) v

inductive Faults (table : Symbols) (scope : Option Nat) (address : UInt16) :
    Expr → EvalFault → Prop
  | undefined {name : String} : (∀ v, ¬table.Derives scope address (.symbol name) v) →
      Faults table scope address (.symbol name) (.undefined name)
  | operand {op : UnaryOp} {e : Expr} {f : EvalFault} : Faults table scope address e f →
      Faults table scope address (.unary op e) f
  | unary {op : UnaryOp} {e : Expr} {a : Int32} {f : OperationFault} :
      table.Derives scope address e a → op.apply a = .error f →
      Faults table scope address (.unary op e) (.arithmetic (.operation f (.unary op e)))
  | left {op : BinaryOp} {l r : Expr} {f : EvalFault} : Faults table scope address l f →
      Faults table scope address (.binary op l r) f
  | right {op : BinaryOp} {l r : Expr} {a : Int32} {f : EvalFault} :
      table.Derives scope address l a → Faults table scope address r f →
      Faults table scope address (.binary op l r) f
  | binary {op : BinaryOp} {l r : Expr} {a b : Int32} {f : OperationFault} :
      table.Derives scope address l a → table.Derives scope address r b →
      op.apply a b = .error f →
      Faults table scope address (.binary op l r) (.arithmetic (.operation f (.binary op l r)))

theorem within_eq_ok {x : Except OperationFault Int32} {e : Expr} {v : Int32} :
    OperationFault.within e x = .ok v ↔ x = .ok v := by
  cases x <;> simp [OperationFault.within]

theorem within_eq_error {x : Except OperationFault Int32} {e : Expr} {f : EvalFault} :
    OperationFault.within e x = .error f ↔
      ∃ fault, x = .error fault ∧ f = .arithmetic (.operation fault e) := by
  cases x <;> simp [OperationFault.within, eq_comm]

theorem derives_of_eval : ∀ {e : Expr} {v : Int32},
    e.eval (table.context scope address) = .ok v → table.Derives scope address e v := by
  intro e
  induction e with
  | number n =>
      intro v h
      cases h
      exact .number
  | here =>
      intro v h
      cases h
      exact .here
  | symbol name =>
      intro v h
      cases hv : table.value? scope name with
      | none => simp [Expr.eval, context, hv] at h
      | some w =>
          obtain ⟨s, hs, hw⟩ := value?_eq_some.mp hv
          simp only [Expr.eval, context, hv, Except.ok.injEq] at h
          cases h
          exact .known hs hw
  | unary op e ih =>
      intro v h
      obtain ⟨a, ha, h⟩ := bind_eq_ok.mp h
      exact .unary (ih ha) (within_eq_ok.mp h)
  | binary op l r ihl ihr =>
      intro v h
      obtain ⟨a, ha, h⟩ := bind_eq_ok.mp h
      obtain ⟨b, hb, h⟩ := bind_eq_ok.mp h
      exact .binary (ihl ha) (ihr hb) (within_eq_ok.mp h)

theorem lookup_map (f : Symbol → Symbol) (table : Symbols) (scope : Option Nat) (name : String) :
    (table.map f).lookup scope name = (table.lookup scope name).map f := by
  simp only [lookup_eq, find?_map, Option.map_or]

theorem lookup_mem {name : String} (h : table.lookup scope name = some s) : s ∈ table.toList := by
  rw [lookup_eq, Option.or_eq_some_iff] at h
  rcases h with h | ⟨-, h⟩
  · exact find?_mem h
  · exact find?_mem h

theorem pending_of_outcome? {r : Except ArithmeticFault Int32} (h : table.outcome? s = some r) :
    ∃ p, s.pending? = some p := by
  cases hp : s.pending? with
  | some p => exact ⟨p, rfl⟩
  | none => simp [outcome?, hp] at h

theorem Derives.of_round {e : Expr} {v : Int32} (h : table.round.Derives scope address e v) :
    table.Derives scope address e v := by
  induction h with
  | number => exact .number
  | here => exact .here
  | @known scope address name t v hl hv =>
      rw [round, lookup_map, Option.map_eq_some_iff] at hl
      obtain ⟨s, hs, rfl⟩ := hl
      cases ho : table.outcome? s with
      | none =>
          rw [settle_of_none ho] at hv
          exact .known hs hv
      | some r =>
          obtain ⟨p, hp⟩ := pending_of_outcome? ho
          cases r with
          | error fault =>
              simp only [settle, ho] at hv
              exact .known hs hv
          | ok w =>
              simp only [settle, ho, Option.some.injEq] at hv
              cases hv
              exact .pending hs hp (derives_of_eval (eval_of_outcome? hp ho))
  | @pending scope address name t p v hl hp _ ih =>
      rw [round, lookup_map, Option.map_eq_some_iff] at hl
      obtain ⟨s, hs, rfl⟩ := hl
      have hkept : table.settle s = s := by
        cases ho : table.outcome? s with
        | none => exact settle_of_none ho
        | some r => cases r <;> simp [settle, ho] at hp
      rw [hkept] at hp
      exact .pending hs hp ih
  | unary _ ha ih => exact .unary ih ha
  | binary _ _ ha ihl ihr => exact .binary ihl ihr ha

theorem Derives.of_rounds {e : Expr} {v : Int32} : ∀ {n : Nat} {table : Symbols},
    (rounds n table).table.Derives scope address e v → table.Derives scope address e v := by
  intro n
  induction n with
  | zero =>
      intro table h
      exact h
  | succ n ih =>
      intro table h
      simp only [rounds] at h
      split at h
      · exact (ih h).of_round
      · exact h

theorem rounds_succ (hp : table.progresses = true) : rounds (n + 1) table =
    ⟨(rounds n table.round).table, table.roundErrors ++ (rounds n table.round).errors⟩ := by
  simp [rounds, hp]

def fate : Nat → Symbols → Symbol → Symbol
  | 0, _, s => s
  | n + 1, table, s => if table.progresses then fate n table.round (table.settle s) else s

theorem rounds_table (n : Nat) (table : Symbols) :
    (rounds n table).table = table.map (fate n table) := by
  induction n generalizing table with
  | zero => simp [rounds, fate, map]
  | succ n ih =>
      by_cases hp : table.progresses = true
      · simp [rounds, fate, hp, ih, round, map]
      · simp [rounds, fate, hp, map]

theorem fate_of_not_pending (h : s.isPending = false) : fate n table s = s := by
  induction n generalizing table with
  | zero => rfl
  | succ n ih =>
      have hkept : table.settle s = s := settle_of_not_pending h
      simp only [fate, hkept, ih, ite_self]

inductive Settled (final : Symbols) (s : Symbol) : Symbol → Prop
  | kept : Settled final s s
  | known {p : Pending} {v : Int32} : s.pending? = some p →
      p.expr.eval (final.context p.scope p.address) = .ok v →
      Settled final s { s with pending? := none, value? := some v }
  | failed {p : Pending} {fault : ArithmeticFault} : s.pending? = some p →
      p.expr.eval (final.context p.scope p.address) = .error (.arithmetic fault) →
      Settled final s { s with pending? := none }

theorem eval_of_outcome?_error {fault : ArithmeticFault}
    (hs : s.pending? = some p) (h : table.outcome? s = some (.error fault)) :
    p.expr.eval (table.context p.scope p.address) = .error (.arithmetic fault) := by
  rw [outcome?_of_pending hs] at h
  split at h
  · cases h
  · cases h
  · next hf =>
      cases h
      exact hf

theorem eval_arithmetic_of_extends {c c' : Context} {e : Expr} {fault : ArithmeticFault}
    (h : c.Extends c') (hf : e.eval c = .error (.arithmetic fault)) :
    e.eval c' = .error (.arithmetic fault) := by
  rcases Expr.eval_of_extends h e with heq | ⟨x, hx⟩
  · rw [heq, hf]
  · rw [hf] at hx
    cases hx

theorem Exclusive.fate_settled (n : Nat) : ∀ {table : Symbols} (s : Symbol), table.Exclusive →
    Settled (Symbols.rounds n table).table s (fate n table s) := by
  induction n with
  | zero => exact fun _ _ => .kept
  | succ n ih =>
      intro table s exclusive
      by_cases hp : table.progresses = true
      · have hfinal : (Symbols.rounds (n + 1) table).table =
            (Symbols.rounds n table.round).table := by
          rw [rounds_succ hp]
        have hfate : fate (n + 1) table s = fate n table.round (table.settle s) := by
          simp [fate, hp]
        have hextends := (exclusive.rounds (n + 1)).2.extends
        rw [hfinal] at hextends ⊢
        rw [hfate]
        cases ho : table.outcome? s with
        | none =>
            rw [settle_of_none ho]
            exact ih s exclusive.round
        | some r =>
            obtain ⟨p, hs⟩ := pending_of_outcome? ho
            -- What a round has settled is left alone by the rounds after it.
            cases r with
            | ok v =>
                have hv : table.settle s = { s with pending? := none, value? := some v } := by
                  simp [settle, ho]
                rw [hv, fate_of_not_pending rfl]
                exact .known hs (Expr.eval_ok_of_extends (hextends _ _) (eval_of_outcome? hs ho))
            | error fault =>
                have hv : table.settle s = { s with pending? := none } := by simp [settle, ho]
                rw [hv, fate_of_not_pending rfl]
                exact .failed hs
                  (eval_arithmetic_of_extends (hextends _ _) (eval_of_outcome?_error hs ho))
      · have hfate : fate (n + 1) table s = s := by simp [fate, hp]
        rw [hfate]
        exact .kept

section Stable

variable (exclusive : table.Exclusive) (stable : (rounds n table).table.progresses = false)

include stable

theorem waits_of_stable (hmem : s ∈ table.toList) (hfate : fate n table s = s)
    (hs : s.pending? = some p) :
    ∃ x, p.expr.eval ((rounds n table).table.context p.scope p.address) =
      .error (.undefined x) := by
  have hfinal : s ∈ (rounds n table).table.toList := by
    rw [rounds_table, toList_map, ← hfate]
    exact List.mem_map_of_mem hmem
  have hnone : (rounds n table).table.outcome? s = none := by
    simp only [progresses, List.any_eq_false] at stable
    simpa using stable s hfinal
  rw [outcome?_of_pending hs] at hnone
  split at hnone
  · cases hnone
  · next x hx => exact ⟨x, hx⟩
  · cases hnone

include exclusive

theorem fate_eq (hmem : s ∈ table.toList) (hs : s.pending? = some p) :
    fate n table s = match p.expr.eval ((rounds n table).table.context p.scope p.address) with
      | .ok v => { s with pending? := none, value? := some v }
      | .error (.arithmetic _) => { s with pending? := none }
      | .error (.undefined _) => s := by
  have hsettled := exclusive.fate_settled n s
  generalize hfate : fate n table s = t at hsettled ⊢
  cases hsettled with
  | kept =>
      obtain ⟨x, hx⟩ := waits_of_stable stable hmem hfate hs
      rw [hx]
  | known hs' hv =>
      cases hs.symm.trans hs'
      rw [hv]
  | failed hs' hf =>
      cases hs.symm.trans hs'
      rw [hf]

theorem eval_of_derives {e : Expr} {v : Int32} (h : table.Derives scope address e v) :
    e.eval ((rounds n table).table.context scope address) = .ok v := by
  induction h with
  | number => rfl
  | here => rfl
  | @known scope address name s v hl hv =>
      have hvalue : table.value? scope name = some v := value?_eq_some.mpr ⟨s, hl, hv⟩
      have := ((exclusive.rounds n).2.extends scope address).value name v hvalue
      simp [Expr.eval, this]
  | @pending scope address name s p v hl hs _ ih =>
      have hlookup : (rounds n table).table.lookup scope name = some (fate n table s) := by
        rw [rounds_table, lookup_map, hl]
        rfl
      have hknown : (rounds n table).table.value? scope name = some v := by
        refine value?_eq_some.mpr ⟨_, hlookup, ?_⟩
        rw [fate_eq exclusive stable (lookup_mem hl) hs, ih]
      simp [Expr.eval, context, hknown]
  | unary _ ha ih => simp [Expr.eval, ih, ha, bind, Except.bind, OperationFault.within]
  | binary _ _ ha ihl ihr =>
      simp [Expr.eval, ihl, ihr, ha, bind, Except.bind, OperationFault.within]

theorem derives_iff {e : Expr} {v : Int32} : table.Derives scope address e v ↔
    e.eval ((rounds n table).table.context scope address) = .ok v :=
  ⟨eval_of_derives exclusive stable, fun h => (derives_of_eval h).of_rounds⟩

theorem faults_iff : ∀ {e : Expr} {f : EvalFault}, table.Faults scope address e f ↔
    e.eval ((rounds n table).table.context scope address) = .error f := by
  intro e f
  constructor
  · intro h
    induction h with
    | @undefined name hnone =>
        cases hv : (rounds n table).table.value? scope name with
        | none => simp [Expr.eval, context, hv]
        | some v =>
            have hderives : table.Derives scope address (.symbol name) v :=
              (derives_iff exclusive stable).mpr (by simp [Expr.eval, context, hv])
            exact absurd hderives (hnone v)
    | operand _ ih => simp [Expr.eval, ih, bind, Except.bind]
    | unary ha hf =>
        have heval := (derives_iff exclusive stable).mp ha
        simp [Expr.eval, heval, hf, bind, Except.bind, OperationFault.within]
    | left _ ih => simp [Expr.eval, ih, bind, Except.bind]
    | right ha _ ih => simp [Expr.eval, (derives_iff exclusive stable).mp ha, ih, bind, Except.bind]
    | binary ha hb hf =>
        have hleft := (derives_iff exclusive stable).mp ha
        have hright := (derives_iff exclusive stable).mp hb
        simp [Expr.eval, hleft, hright, hf, bind, Except.bind, OperationFault.within]
  · intro h
    induction e generalizing f with
    | number n => cases h
    | here => cases h
    | symbol name =>
        cases hv : (rounds n table).table.value? scope name with
        | some v => simp [Expr.eval, context, hv] at h
        | none =>
            simp only [Expr.eval, context, hv, Except.error.injEq] at h
            subst h
            refine .undefined ?_
            intro v hderives
            have := (derives_iff exclusive stable).mp hderives
            simp [Expr.eval, context, hv] at this
    | unary op e ih =>
        rcases bind_eq_error.mp h with h | ⟨a, ha, h⟩
        · exact .operand (ih h)
        · obtain ⟨fault, hfault, rfl⟩ := within_eq_error.mp h
          exact .unary ((derives_iff exclusive stable).mpr ha) hfault
    | binary op l r ihl ihr =>
        rcases bind_eq_error.mp h with h | ⟨a, ha, h⟩
        · exact .left (ihl h)
        · rcases bind_eq_error.mp h with h | ⟨b, hb, h⟩
          · exact .right ((derives_iff exclusive stable).mpr ha) (ihr h)
          · obtain ⟨fault, hfault, rfl⟩ := within_eq_error.mp h
            exact .binary ((derives_iff exclusive stable).mpr ha)
              ((derives_iff exclusive stable).mpr hb) hfault

end Stable

def verdict (final : Symbols) (s : Symbol) : Option (Location × Error) :=
  s.pending?.bind fun p => match p.expr.eval (final.context p.scope p.address) with
    | .ok _ => none
    | .error fault => some (s.definedAt, fault.toError)

theorem verdict_of_not_pending (h : s.isPending = false) : table.verdict s = none := by
  simp [verdict, Symbol.isPending_eq_false.mp h]

theorem fault?_of_not_pending (h : s.isPending = false) : table.fault? s = none := by
  simp [fault?, outcome?_of_not_pending h]

theorem fault?_of_pending (hs : s.pending? = some p) :
    table.fault? s = match p.expr.eval (table.context p.scope p.address) with
      | .error (.arithmetic fault) => some (s.definedAt, .arithmetic fault)
      | _ => none := by
  simp only [fault?, outcome?_of_pending hs]
  cases p.expr.eval (table.context p.scope p.address) with
  | ok v => rfl
  | error f => cases f <;> rfl

def reported (n : Nat) (table : Symbols) (s : Symbol) : Option (Location × Error) :=
  if (fate n table s).isPending then none else (rounds n table).table.fault? s

theorem reported_of_not_pending (h : s.isPending = false) : reported n table s = none := by
  rw [reported, fate_of_not_pending h, fault?_of_not_pending h]
  exact ite_self none

theorem reported_eq_none (h : fate n table s = s) : reported n table s = none := by
  cases hp : s.isPending with
  | true => simp [reported, h, hp]
  | false => exact reported_of_not_pending hp

theorem reported_succ (exclusive : table.Exclusive) (hp : table.progresses = true) (s : Symbol) :
    (table.fault? s = none ∨ reported n table.round (table.settle s) = none) ∧
      reported (n + 1) table s =
        (table.fault? s).or (reported n table.round (table.settle s)) := by
  have hfinal : (rounds (n + 1) table).table = (rounds n table.round).table := by
    rw [rounds_succ hp]
  have hfate : fate (n + 1) table s = fate n table.round (table.settle s) := by
    simp [fate, hp]
  have hextends := (exclusive.rounds (n + 1)).2.extends
  cases ho : table.outcome? s with
  | none =>
      have hnone : table.fault? s = none := by simp [fault?, ho]
      refine ⟨.inl hnone, ?_⟩
      rw [hnone, Option.none_or, reported, hfate, hfinal, settle_of_none ho]
      rfl
  | some r =>
      obtain ⟨p, hs⟩ := pending_of_outcome? ho
      have hlater : reported n table.round (table.settle s) = none := by
        apply reported_of_not_pending
        cases r <;> simp [settle, ho, Symbol.isPending]
      have hdone : (fate (n + 1) table s).isPending = false := by
        rw [hfate, fate_of_not_pending]
        · cases r <;> simp [settle, ho, Symbol.isPending]
        · cases r <;> simp [settle, ho, Symbol.isPending]
      refine ⟨.inr hlater, ?_⟩
      rw [hlater, Option.or_none, reported, hdone, fault?_of_pending hs, fault?_of_pending hs]
      cases r with
      | ok v =>
          have hv := eval_of_outcome? hs ho
          simp [hv, Expr.eval_ok_of_extends (hextends _ _) hv]
      | error fault =>
          have hf := eval_of_outcome?_error hs ho
          simp [hf, eval_arithmetic_of_extends (hextends _ _) hf]

theorem reported_quiet (h : ∀ s, fate n table s = s) :
    table.toList.filterMap (reported n table) = [] := by
  rw [List.filterMap_eq_nil_iff]
  intro s _
  exact reported_eq_none (h s)

theorem Exclusive.rounds_errors (n : Nat) : ∀ {table : Symbols}, table.Exclusive →
    (Symbols.rounds n table).errors.Perm (table.toList.filterMap (reported n table)) := by
  induction n with
  | zero => exact fun _ => .of_eq (reported_quiet fun _ => rfl).symm
  | succ n ih =>
      intro table exclusive
      by_cases hp : table.progresses = true
      · have hlater : table.round.toList.filterMap (reported n table.round) =
            table.toList.filterMap fun s => reported n table.round (table.settle s) := by
          rw [Symbols.round, toList_map]
          exact List.filterMap_map
        have hboth : (fun s => (table.fault? s).or (reported n table.round (table.settle s))) =
            reported (n + 1) table := by
          funext s
          exact (reported_succ exclusive hp s).2.symm
        have hlast := ih exclusive.round
        rw [hlater] at hlast
        rw [rounds_succ hp, ← hboth]
        exact ((List.Perm.refl _).append hlast).trans
          (filterMap_append_perm fun s _ => (reported_succ exclusive hp s).1)
      · have herrors : (Symbols.rounds (n + 1) table).errors = [] := by simp [Symbols.rounds, hp]
        rw [herrors, reported_quiet fun s => by simp [fate, hp]]

def waiting (table : Symbols) : Nat :=
  table.toList.countP Symbol.isPending

theorem settle_isPending (h : (table.settle s).isPending = true) : s.isPending = true := by
  cases hp : s.isPending with
  | true => rfl
  | false =>
      rw [settle_of_not_pending hp, hp] at h
      cases h

theorem waiting_round_lt (hp : table.progresses = true) : table.round.waiting < table.waiting := by
  obtain ⟨s, hs, ho⟩ := List.any_eq_true.mp hp
  obtain ⟨r, hr⟩ := Option.isSome_iff_exists.mp ho
  obtain ⟨p, hwaits⟩ := pending_of_outcome? hr
  have hgone : (table.settle s).isPending = false := by
    cases r <;> simp [settle, hr, Symbol.isPending]
  have hwas : s.isPending = true := Symbol.isPending_of_pending? hwaits
  have hround : table.round.waiting =
      table.toList.countP fun s => (table.settle s).isPending := by
    rw [waiting, round, toList_map, List.countP_map]
    rfl
  obtain ⟨front, back, hsplit⟩ := List.append_of_mem hs
  have hfewer := fun xs : List Symbol =>
    List.countP_mono_left (l := xs) (p := fun s => (table.settle s).isPending)
      (q := Symbol.isPending) fun _ _ h => settle_isPending h
  have hfront := hfewer front
  have hback := hfewer back
  rw [hround, waiting, hsplit]
  simp only [List.countP_append, List.countP_cons, hgone, hwas]
  simp only [Bool.false_eq_true, if_false, if_true]
  omega

theorem not_progresses_of_waiting (h : table.waiting = 0) : table.progresses = false := by
  cases hp : table.progresses with
  | false => rfl
  | true =>
      have := waiting_round_lt hp
      omega

theorem rounds_stable : ∀ {n : Nat} {table : Symbols}, table.waiting ≤ n →
    (rounds n table).table.progresses = false ∧ rounds (n + 1) table = rounds n table := by
  intro n
  induction n with
  | zero =>
      intro table h
      have hp : table.progresses = false := not_progresses_of_waiting (by omega)
      exact ⟨hp, by simp [rounds, hp]⟩
  | succ n ih =>
      intro table h
      cases hp : table.progresses with
      | false => simp [rounds, hp]
      | true =>
          have hlt := waiting_round_lt hp
          obtain ⟨hstable, hmore⟩ := @ih table.round (by omega)
          constructor
          · rw [rounds_succ hp]
            exact hstable
          · rw [rounds_succ hp, rounds_succ hp, hmore]

theorem waiting_le_size (table : Symbols) : table.waiting ≤ table.size := by
  refine List.countP_le_length.trans ?_
  rw [toList, List.length_map, size]

theorem resolve_stable (table : Symbols) :
    (rounds table.size table).table.progresses = false :=
  (rounds_stable table.waiting_le_size).1

theorem rounds_of_size_le (h : table.size ≤ n) : rounds n table = rounds table.size table := by
  induction n, h using Nat.le_induction with
  | base => rfl
  | succ n hn ih => rw [(rounds_stable (table.waiting_le_size.trans hn)).2, ih]

def ending (table : Symbols) (s : Symbol) : Symbol :=
  giveUp (fate table.size table s)

theorem resolve_table (table : Symbols) : table.resolve.table = table.map table.ending := by
  simp only [resolve, rounds_table, map, List.map_map]
  rfl

theorem ending_of_not_pending (h : s.isPending = false) : table.ending s = s := by
  rw [ending, fate_of_not_pending h, giveUp_of_not_pending h]

theorem stuck?_of_not_pending (h : s.isPending = false) : table.stuck? s = none := by
  rw [stuck?, Symbol.isPending_eq_false.mp h]
  rfl

section Exclusive

variable (exclusive : table.Exclusive)

include exclusive

theorem ending_of_pending (hmem : s ∈ table.toList) (hs : s.pending? = some p) :
    table.ending s =
      match p.expr.eval ((rounds table.size table).table.context p.scope p.address) with
        | .ok v => { s with pending? := none, value? := some v }
        | .error _ => { s with pending? := none } := by
  rw [ending, fate_eq exclusive table.resolve_stable hmem hs]
  cases p.expr.eval ((rounds table.size table).table.context p.scope p.address) with
  | ok v => rfl
  | error f => cases f <;> rfl

theorem verdict_eq (hmem : s ∈ table.toList) :
    (reported table.size table s = none ∨
      (rounds table.size table).table.stuck? (fate table.size table s) = none) ∧
    (reported table.size table s).or
        ((rounds table.size table).table.stuck? (fate table.size table s)) =
      (rounds table.size table).table.verdict s := by
  cases hs : s.pending? with
  | none =>
      have hp : s.isPending = false := Symbol.isPending_eq_false.mpr hs
      simp [reported_of_not_pending hp, fate_of_not_pending hp, stuck?_of_not_pending hp,
        verdict_of_not_pending hp]
  | some p =>
      have hp : s.isPending = true := Symbol.isPending_of_pending? hs
      have hfate := fate_eq exclusive table.resolve_stable hmem hs
      have hfault := @fault?_of_pending (rounds table.size table).table s p hs
      cases heval : p.expr.eval ((rounds table.size table).table.context p.scope p.address) with
      | ok v =>
          rw [heval] at hfate hfault
          simp [reported, hfate, hfault, verdict, hs, heval, stuck?, Symbol.isPending]
      | error f =>
          cases f with
          | arithmetic fault =>
              rw [heval] at hfate hfault
              simp [reported, hfate, hfault, verdict, hs, heval, stuck?, Symbol.isPending,
                EvalFault.toError]
          | undefined x =>
              rw [heval] at hfate
              have hfirst := Expr.find?_of_eval_undefined heval
              have hmissing : (rounds table.size table).table.missing s p = x := by
                simp only [missing]
                change (p.expr.symbols.find? fun name => (((rounds table.size table).table.context
                  p.scope p.address).value? name).isNone).getD s.name = x
                rw [hfirst]
                rfl
              simp [reported, hfate, hp, verdict, hs, heval, stuck?, hmissing, EvalFault.toError]

theorem resolve_errors :
    table.resolve.errors.Perm
      (table.toList.filterMap (rounds table.size table).table.verdict) := by
  have hstuck : (rounds table.size table).table.toList.filterMap
      (rounds table.size table).table.stuck? = table.toList.filterMap fun s =>
        (rounds table.size table).table.stuck? (fate table.size table s) := by
    have hlist : (rounds table.size table).table.toList =
        table.toList.map (fate table.size table) := by
      rw [rounds_table, toList_map]
    rw [hlist]
    exact List.filterMap_map
  have hverdict : (table.toList.filterMap fun s => (reported table.size table s).or
      ((rounds table.size table).table.stuck? (fate table.size table s))) =
      table.toList.filterMap (rounds table.size table).table.verdict :=
    List.filterMap_congr fun s hs => (verdict_eq exclusive hs).2
  have hall : table.resolve.errors = (rounds table.size table).errors ++
      (rounds table.size table).table.toList.filterMap
        (rounds table.size table).table.stuck? := rfl
  rw [hall, hstuck, ← hverdict]
  exact ((exclusive.rounds_errors table.size).append (List.Perm.refl _)).trans
    (filterMap_append_perm fun s hs => (verdict_eq exclusive hs).1)

end Exclusive

end Symbols

end Z80
