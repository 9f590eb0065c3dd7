import Mathlib
import Z80.Proofs.Renaming
import Z80.Proofs.Resolution
import Z80.Proofs.Run

namespace Z80

theorem forall₂_find? {α β : Type} {R : α → β → Prop} {p : α → Bool} {q : β → Bool} {xs : List α}
    {ys : List β} (h : List.Forall₂ R xs ys) (hpq : ∀ x ∈ xs, ∀ y, R x y → q y = p x) :
    Option.Rel R (xs.find? p) (ys.find? q) := by
  induction h with
  | nil => exact .none
  | @cons x y xs ys hxy _ ih =>
      have hp := hpq x (List.mem_cons_self ..) y hxy
      simp only [List.find?_cons, hp]
      cases p x with
      | true => exact .some hxy
      | false => exact ih fun z hz => hpq z (List.mem_cons_of_mem _ hz)

theorem forall₂_map_eq {α β γ : Type} {R : α → β → Prop} {f : α → γ} {g : β → γ} {xs : List α}
    {ys : List β} (h : List.Forall₂ R xs ys) (hfg : ∀ x y, R x y → g y = f x) :
    ys.map g = xs.map f := by
  induction h with
  | nil => rfl
  | cons hxy _ ih => simp [hfg _ _ hxy, ih]

theorem forall₂_eq {α : Type} {R : α → α → Prop} {xs ys : List α} (h : List.Forall₂ R xs ys)
    (heq : ∀ x y, R x y → y = x) : ys = xs := by
  simpa using forall₂_map_eq (f := id) (g := id) h heq

theorem forall₂_concat {α β : Type} {R : α → β → Prop} {xs : List α} {ys : List β} {x : α} {y : β}
    (h : List.Forall₂ R xs ys) (hxy : R x y) : List.Forall₂ R (xs ++ [x]) (ys ++ [y]) :=
  List.rel_append h (.cons hxy .nil)

inductive Corresponds {α β : Type} (R : α → β → Prop) : Except Error α → Except Error β → Prop
  | ok {a : α} {b : β} : R a b → Corresponds R (.ok a) (.ok b)
  | error {e e' : Error} : e'.kind = e.kind → Corresponds R (.error e) (.error e')

section Corresponds

variable {α β γ δ : Type} {R : α → β → Prop} {S : γ → δ → Prop} {x : Except Error α}
  {y : Except Error β}

theorem Corresponds.bind {next : α → Except Error γ} {next' : β → Except Error δ}
    (h : Corresponds R x y) (hnext : ∀ a b, R a b → Corresponds S (next a) (next' b)) :
    Corresponds S (x >>= next) (y >>= next') := by
  cases h with
  | ok hab => exact hnext _ _ hab
  | error hkind => exact .error hkind

theorem Corresponds.refl (x : Except Error α) : Corresponds Eq x x := by
  cases x with
  | ok a => exact .ok rfl
  | error e => exact .error rfl

end Corresponds

section Values

variable {f : String → String} {ctx ctx' : Context}

theorem value_corresponds (hctx : ctx.Renames f ctx') (e : Expr) :
    Corresponds Eq (e.value ctx) ((e.rename f).value ctx') := by
  simp only [Expr.value, Expr.eval_rename hctx.here fun x _ => hctx.value x]
  cases e.eval ctx with
  | ok v => exact .ok rfl
  | error fault => cases fault <;> exact .error rfl

theorem select_corresponds {set : InstructionSet} (hset : set.Spares f) (hctx : ctx.Renames f ctx')
    (allow : Bool) (mnemonic : String) (operands : List Token) :
    Corresponds (fun s s' => s' = s.rename f) (set.select allow ctx mnemonic operands)
      (set.select allow ctx' mnemonic (operands.map (Token.rename f))) := by
  unfold InstructionSet.select
  cases hvariants : set.variants? mnemonic with
  | none => exact .error rfl
  | some variants =>
      obtain ⟨hfirst, hobstacle⟩ := first?_rename hctx (hset mnemonic variants hvariants) operands
      simp only [hfirst]
      cases Selection.first? ctx operands variants with
      | some selection =>
          simp only [Option.map_some, Selection.rename]
          split
          · exact .ok rfl
          · exact .error rfl
      | none =>
          simp only [Option.map_none]
          cases ho : Selection.obstacle? ctx operands variants with
          | none =>
              rw [ho, Option.isSome_none, Option.isSome_eq_false_iff, Option.isNone_iff_eq_none]
                at hobstacle
              rw [hobstacle]
              exact .error rfl
          | some name =>
              rw [ho, Option.isSome_some] at hobstacle
              obtain ⟨name', hname'⟩ := Option.isSome_iff_exists.mp hobstacle
              rw [hname']
              exact .error rfl

theorem planSlots_corresponds (hctx : ctx.Renames f ctx') (spelling : String) :
    ∀ (opcode : List OpcodeItem) (offset : Nat) (bound : List Binding),
      Corresponds Eq (planSlots ctx spelling offset opcode bound)
        (planSlots ctx' spelling offset opcode (bound.map (Binding.rename f))) := by
  intro opcode
  induction opcode with
  | nil =>
      intro offset bound
      exact .ok rfl
  | cons item opcode ih =>
      intro offset bound
      cases item with
      | byte b => exact ih (offset + 1) bound
      | slot p =>
          cases bound with
          | nil => exact .error rfl
          | cons b bound =>
              have hrest : ∀ v? : Option Int32, Corresponds Eq
                  (do
                    let slots ← planSlots ctx spelling (offset + p.width) opcode bound
                    return (⟨p, offset, v?⟩ : Slot) :: slots)
                  (do
                    let slots ← planSlots ctx' spelling (offset + p.width) opcode
                      (bound.map (Binding.rename f))
                    return (⟨p, offset, v?⟩ : Slot) :: slots) := by
                intro v?
                refine (ih (offset + p.width) bound).bind ?_
                rintro slots _ rfl
                exact .ok rfl
              simp only [List.map_cons, planSlots, Binding.rename, Expr.isClosed_rename]
              split
              · refine (value_corresponds hctx b.expr).bind ?_
                rintro v _ rfl
                exact hrest (some v)
              · exact hrest none

end Values

structure Respelling where
  place : Location → Location → Prop
  name : Option Nat → String → String
  name_none : name none = id
  injective : ∀ scope, Function.Injective (name scope)

namespace Respelling

variable {r : Respelling}

def Fixes (r : Respelling) (name : String) : Prop :=
  ∀ scope, r.name scope name = name

inductive SamePending (r : Respelling) (loc loc' : Location) :
    Option Pending → Option Pending → Prop
  | none : SamePending r loc loc' none none
  | some {e : Expr} {address : UInt16} {scope block : Option Nat} :
      scope = Option.none ∨ scope = block → r.place loc loc' →
      SamePending r loc loc' (some ⟨e, address, scope⟩)
        (some ⟨e.rename (r.name block), address, scope⟩)

structure SameSymbol (r : Respelling) (s s' : Symbol) : Prop where
  name : s'.name = r.name s.scope s.name
  scope : s'.scope = s.scope
  kind : s'.kind = s.kind
  value? : s'.value? = s.value?
  pending? : r.SamePending s.definedAt s'.definedAt s.pending? s'.pending?

structure SameEntry (r : Respelling) (entry entry' : (Option Nat × String) × Symbol) : Prop where
  key : entry'.1 = (entry.1.1, r.name entry.1.1 entry.1.2)
  symbol : r.SameSymbol entry.2 entry'.2

structure SameTable (r : Respelling) (table table' : Symbols) : Prop where
  entries : List.Forall₂ r.SameEntry table.entries table'.entries
  global : ∀ entry ∈ table.entries, entry.1.1 = none → r.Fixes entry.1.2

structure SameFault (r : Respelling) (fault fault' : Location × Error) : Prop where
  place : r.place fault.1 fault'.1
  kind : fault'.2.kind = fault.2.kind

theorem SameSymbol.isPending {s s' : Symbol} (h : r.SameSymbol s s') :
    s'.isPending = s.isPending := by
  have hpending := h.pending?
  rw [Symbol.isPending, Symbol.isPending]
  generalize s.pending? = p at hpending ⊢
  generalize s'.pending? = p' at hpending ⊢
  cases hpending <;> rfl

section Tables

variable {table table' : Symbols} {scope block : Option Nat} {name : String}

theorem name_eq (hscope : scope = none ∨ scope = block) (hname : scope = none → r.Fixes name) :
    r.name block name = r.name scope name := by
  rcases hscope with rfl | rfl
  · rw [hname rfl block, hname rfl none]
  · rfl

theorem SameTable.toList (h : r.SameTable table table') :
    List.Forall₂ r.SameSymbol table.toList table'.toList :=
  List.rel_map (fun _ _ hentry => hentry.symbol) h.entries

theorem SameTable.find? (h : r.SameTable table table') (hscope : scope = none ∨ scope = block)
    (name : String) :
    Option.Rel r.SameSymbol (table.find? scope name) (table'.find? scope (r.name block name)) := by
  have hentries : Option.Rel r.SameEntry
      (table.entries.find? fun entry => entry.1 == (scope, name))
      (table'.entries.find? fun entry => entry.1 == (scope, r.name block name)) := by
    refine forall₂_find? h.entries ?_
    rintro ⟨⟨entryScope, entryName⟩, s⟩ hs ⟨_, s'⟩ ⟨rfl, -⟩
    -- A symbol of this scope is spelled as in the block; all others are passed over on both sides.
    by_cases hc : entryScope = scope
    · subst hc
      have hspelling : r.name entryScope entryName = r.name block entryName :=
        (name_eq hscope (h.global _ hs)).symm
      rw [Bool.eq_iff_iff, beq_iff_eq, beq_iff_eq]
      simp only [Prod.mk.injEq, true_and, hspelling, (r.injective block).eq_iff]
    · rw [Bool.eq_iff_iff, beq_iff_eq, beq_iff_eq]
      simp [hc]
  rw [Symbols.find?, Symbols.find?]
  generalize table.entries.find? _ = entry at hentries ⊢
  generalize table'.entries.find? _ = entry' at hentries ⊢
  cases hentries with
  | none => exact .none
  | some hsame => exact .some hsame.symbol

theorem SameTable.lookup (h : r.SameTable table table') (hscope : scope = none ∨ scope = block)
    (name : String) :
    Option.Rel r.SameSymbol (table.lookup scope name)
      (table'.lookup scope (r.name block name)) := by
  rw [Symbols.lookup_eq, Symbols.lookup_eq]
  have hglobal : Option.Rel r.SameSymbol (table.find? none name)
      (table'.find? none (r.name block name)) := h.find? (Or.inl rfl) name
  have hlocal := h.find? hscope name
  generalize table.find? scope name = s at hlocal ⊢
  generalize table'.find? scope (r.name block name) = s' at hlocal ⊢
  cases hlocal with
  | some hsame => exact .some hsame
  | none => exact hglobal

theorem SameTable.context (h : r.SameTable table table') (hscope : scope = none ∨ scope = block)
    (address : UInt16) :
    (table.context scope address).Renames (r.name block) (table'.context scope address) := by
  refine ⟨rfl, ?_⟩
  intro name
  have hlookup := h.lookup hscope name
  simp only [Symbols.context, Symbols.value?]
  generalize table.lookup scope name = s at hlookup ⊢
  generalize table'.lookup scope (r.name block name) = s' at hlookup ⊢
  cases hlookup with
  | some hsame => exact hsame.value?
  | none => rfl

theorem SameTable.append (h : r.SameTable table table') {s s' : Symbol}
    (hscope : scope = none ∨ scope = block) (hname : scope = none → r.Fixes name)
    (hs : r.SameSymbol s s') :
    r.SameTable (table.append (scope, name) s) (table'.append (scope, r.name block name) s') := by
  refine ⟨forall₂_concat h.entries ⟨?_, hs⟩, ?_⟩
  · rw [name_eq hscope hname]
  · intro entry hentry
    rcases List.mem_append.mp hentry with hentry | hentry
    · exact h.global entry hentry
    · cases List.mem_singleton.mp hentry
      exact hname

theorem SameTable.define (h : r.SameTable table table') (hscope : scope = none ∨ scope = block)
    (hname : scope = none → r.Fixes name) (kind : SymbolKind) (v : Int32) (loc loc' : Location) :
    Corresponds Eq (table.define scope name kind v loc).1
        (table'.define scope (r.name block name) kind v loc').1 ∧
      r.SameTable (table.define scope name kind v loc).2
        (table'.define scope (r.name block name) kind v loc').2 := by
  have hfind := h.find? hscope name
  unfold Symbols.define
  generalize table.find? scope name = s at hfind ⊢
  generalize table'.find? scope (r.name block name) = s' at hfind ⊢
  cases hfind with
  | none =>
      exact ⟨.ok rfl, h.append hscope hname ⟨name_eq hscope hname, rfl, rfl, rfl, .none⟩⟩
  | @some s s' hsame =>
      simp only [hsame.isPending, hsame.kind, hsame.value?]
      split
      · exact ⟨.ok rfl, h⟩
      · exact ⟨.error rfl, h⟩

theorem SameTable.definePending (h : r.SameTable table table')
    (hscope : scope = none ∨ scope = block) (hname : scope = none → r.Fixes name) (e : Expr)
    (address : UInt16) {loc loc' : Location} (hplace : r.place loc loc') :
    Corresponds Eq (table.definePending scope name e address loc).1
        (table'.definePending scope (r.name block name) (e.rename (r.name block)) address loc').1 ∧
      r.SameTable (table.definePending scope name e address loc).2
        (table'.definePending scope (r.name block name) (e.rename (r.name block)) address
          loc').2 := by
  have hfind := h.find? hscope name
  unfold Symbols.definePending
  generalize table.find? scope name = s at hfind ⊢
  generalize table'.find? scope (r.name block name) = s' at hfind ⊢
  cases hfind with
  | none =>
      exact ⟨.ok rfl, h.append hscope hname
        ⟨name_eq hscope hname, rfl, rfl, rfl, .some hscope hplace⟩⟩
  | some hsame => exact ⟨.error rfl, h⟩

theorem SameTable.outcome? (h : r.SameTable table table') {s s' : Symbol}
    (hs : r.SameSymbol s s') :
    ∃ block, table'.outcome? s' =
      (table.outcome? s).map (Except.mapError (ArithmeticFault.rename (r.name block))) := by
  have hpending := hs.pending?
  rw [Symbols.outcome?, Symbols.outcome?]
  generalize s.pending? = p at hpending ⊢
  generalize s'.pending? = p' at hpending ⊢
  cases hpending with
  | none => exact ⟨none, rfl⟩
  | @some e address scope block hscope _ =>
      have hctx := h.context hscope address
      refine ⟨block, ?_⟩
      simp only [Expr.evalTolerant_rename hctx.here fun x _ => hctx.value x]
      cases e.evalTolerant (table.context scope address) with
      | error fault => rfl
      | ok result => cases result <;> rfl

theorem SameTable.settle (h : r.SameTable table table') {s s' : Symbol} (hs : r.SameSymbol s s') :
    r.SameSymbol (table.settle s) (table'.settle s') := by
  obtain ⟨block, hout⟩ := h.outcome? hs
  simp only [Symbols.settle, hout]
  cases table.outcome? s with
  | none => exact hs
  | some result =>
      cases result with
      | ok v => exact ⟨hs.name, hs.scope, hs.kind, rfl, .none⟩
      | error fault => exact ⟨hs.name, hs.scope, hs.kind, hs.value?, .none⟩

theorem SameSymbol.place {s s' : Symbol} (h : r.SameSymbol s s')
    (hp : ∃ p, s.pending? = some p) : r.place s.definedAt s'.definedAt := by
  obtain ⟨p, hp⟩ := hp
  have hpending := h.pending?
  rw [hp] at hpending
  generalize s'.pending? = p' at hpending
  cases hpending with
  | some _ hplace => exact hplace

theorem SameTable.fault? (h : r.SameTable table table') {s s' : Symbol} (hs : r.SameSymbol s s') :
    Option.Rel r.SameFault (table.fault? s) (table'.fault? s') := by
  obtain ⟨block, hout⟩ := h.outcome? hs
  simp only [Symbols.fault?, hout]
  cases ho : table.outcome? s with
  | none => exact .none
  | some result =>
      cases result with
      | ok v => exact .none
      | error fault => exact .some ⟨hs.place (Symbols.pending_of_outcome? ho), rfl⟩

theorem SameTable.map (h : r.SameTable table table') {f f' : Symbol → Symbol}
    (hf : ∀ s s', r.SameSymbol s s' → r.SameSymbol (f s) (f' s')) :
    r.SameTable (table.map f) (table'.map f') := by
  refine ⟨List.rel_map (fun entry entry' hentry => ?_) h.entries, ?_⟩
  · exact ⟨hentry.key, hf _ _ hentry.symbol⟩
  · intro entry hentry
    obtain ⟨old, hold, rfl⟩ := List.mem_map.mp hentry
    exact h.global old hold

theorem SameTable.round (h : r.SameTable table table') : r.SameTable table.round table'.round :=
  h.map fun _ _ hs => h.settle hs

theorem SameTable.roundErrors (h : r.SameTable table table') :
    List.Forall₂ r.SameFault table.roundErrors table'.roundErrors :=
  List.rel_filterMap (fun _ _ hs => h.fault? hs) h.toList

theorem SameTable.progresses (h : r.SameTable table table') :
    table'.progresses = table.progresses := by
  have hmap : table'.toList.map (fun s => (table'.outcome? s).isSome) =
      table.toList.map fun s => (table.outcome? s).isSome := by
    refine forall₂_map_eq h.toList ?_
    intro s s' hs
    obtain ⟨block, hout⟩ := h.outcome? hs
    simp [hout]
  have hany : ∀ t : Symbols, t.progresses =
      (t.toList.map fun s => (t.outcome? s).isSome).any id := by
    intro t
    simp [Symbols.progresses, List.any_map]
  rw [hany, hany, hmap]

theorem SameTable.rounds (n : Nat) : ∀ {table table' : Symbols}, r.SameTable table table' →
    r.SameTable (Symbols.rounds n table).table (Symbols.rounds n table').table ∧
      List.Forall₂ r.SameFault (Symbols.rounds n table).errors
        (Symbols.rounds n table').errors := by
  induction n with
  | zero =>
      intro table table' h
      exact ⟨h, .nil⟩
  | succ n ih =>
      intro table table' h
      simp only [Symbols.rounds, h.progresses]
      split
      · obtain ⟨htable, herrors⟩ := ih h.round
        exact ⟨htable, List.rel_append h.roundErrors herrors⟩
      · exact ⟨h, .nil⟩

theorem SameTable.size (h : r.SameTable table table') : table'.size = table.size :=
  h.entries.length_eq.symm

theorem SameSymbol.giveUp {s s' : Symbol} (h : r.SameSymbol s s') :
    r.SameSymbol (Symbols.giveUp s) (Symbols.giveUp s') :=
  ⟨h.name, h.scope, h.kind, h.value?, .none⟩

theorem SameSymbol.stuck? {s s' : Symbol} (h : r.SameSymbol s s') :
    Option.Rel r.SameFault (table.stuck? s) (table'.stuck? s') := by
  have hpending := h.pending?
  rw [Symbols.stuck?, Symbols.stuck?]
  generalize s.pending? = p at hpending ⊢
  generalize s'.pending? = p' at hpending ⊢
  cases hpending with
  | none => exact .none
  | some _ hplace => exact .some ⟨hplace, rfl⟩

theorem SameTable.resolve (h : r.SameTable table table') :
    r.SameTable table.resolve.table table'.resolve.table ∧
      List.Forall₂ r.SameFault table.resolve.errors table'.resolve.errors := by
  obtain ⟨htable, herrors⟩ := SameTable.rounds table.size h
  simp only [Symbols.resolve, h.size]
  constructor
  · exact htable.map fun _ _ hs => hs.giveUp
  · exact List.rel_append herrors (List.rel_filterMap (fun _ _ hs => hs.stuck?) htable.toList)

end Tables

end Respelling

end Z80
