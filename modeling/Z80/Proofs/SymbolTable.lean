import Mathlib
import Z80.Proofs.Evaluation
import Z80.Symbols

namespace Z80

namespace Symbol

variable {s : Symbol} {p : Pending}

def key (s : Symbol) : Option Nat × String :=
  (s.scope, s.name)

theorem isPending_eq_true : s.isPending = true ↔ ∃ p, s.pending? = some p :=
  Option.isSome_iff_exists

theorem isPending_eq_false : s.isPending = false ↔ s.pending? = none :=
  Option.isSome_eq_false_iff.trans Option.isNone_iff_eq_none

theorem isPending_of_pending? (h : s.pending? = some p) : s.isPending = true :=
  isPending_eq_true.mpr ⟨p, h⟩

end Symbol

namespace Symbols

variable {table table' table'' : Symbols} {scope : Option Nat} {name : String} {s : Symbol}
  {kind : SymbolKind} {value : Int32} {loc : Location} {e : Expr} {address : UInt16} {p : Pending}

@[simp] theorem toList_append (table : Symbols) (key : Option Nat × String) (s : Symbol) :
    (table.append key s).toList = table.toList ++ [s] := by
  simp [toList, append]

@[simp] theorem toList_map (f : Symbol → Symbol) (table : Symbols) :
    (table.map f).toList = table.toList.map f := by
  simp [toList, map]

theorem find?_mem (h : table.find? scope name = some s) : s ∈ table.toList := by
  obtain ⟨entry, hentry, rfl⟩ := Option.map_eq_some_iff.mp h
  exact List.mem_map_of_mem (List.mem_of_find?_eq_some hentry)

theorem find?_append (table : Symbols) (key : Option Nat × String) (s : Symbol)
    (scope : Option Nat) (name : String) :
    (table.append key s).find? scope name =
      (table.find? scope name).or (if key = (scope, name) then some s else none) := by
  simp only [find?, append, List.find?_append, Option.map_or]
  congr 1
  by_cases h : key = (scope, name) <;> simp [h]

theorem find?_map (f : Symbol → Symbol) (table : Symbols) (scope : Option Nat) (name : String) :
    (table.map f).find? scope name = (table.find? scope name).map f := by
  simp only [find?, map, List.find?_map, Option.map_map]
  rfl

def Exclusive (table : Symbols) : Prop :=
  ∀ s ∈ table.toList, s.isPending = true → s.value? = none

theorem empty_exclusive : empty.Exclusive := by
  intro s hs
  cases hs

theorem Exclusive.append (h : table.Exclusive) (key : Option Nat × String)
    (hs : s.isPending = true → s.value? = none) : (table.append key s).Exclusive := by
  intro t ht
  rw [toList_append] at ht
  rcases List.mem_append.mp ht with ht | ht
  · exact h t ht
  · cases List.mem_singleton.mp ht
    exact hs

structure Grows (table table' : Symbols) : Prop where
  kept : ∀ scope name s, table.find? scope name = some s → table'.find? scope name = some s
  exclusive : table.Exclusive → table'.Exclusive

theorem Grows.refl (table : Symbols) : table.Grows table :=
  ⟨fun _ _ _ h => h, id⟩

theorem Grows.trans (h : table.Grows table') (h' : table'.Grows table'') : table.Grows table'' :=
  ⟨fun scope name s hs => h'.kept scope name s (h.kept scope name s hs),
    fun hexclusive => h'.exclusive (h.exclusive hexclusive)⟩

theorem grows_append (table : Symbols) (key : Option Nat × String)
    (hs : s.isPending = true → s.value? = none) : table.Grows (table.append key s) := by
  refine ⟨?_, fun h => h.append key hs⟩
  intro scope name t ht
  rw [find?_append, ht]
  rfl

theorem define_eq_ok :
    table.define scope name kind value loc = (.ok (), table') ↔
      (table.find? scope name = none ∧
        table' = table.append (scope, name) ⟨name, scope, kind, some value, loc, none⟩) ∨
      ∃ s, table.find? scope name = some s ∧ s.isPending = false ∧ s.kind = kind ∧
        s.value? = some value ∧ table' = table := by
  unfold define
  cases hf : table.find? scope name with
  | none =>
      simp only [Prod.mk.injEq, true_and, reduceCtorEq, false_and, exists_false, or_false]
      exact eq_comm
  | some s =>
      by_cases h : s.isPending = false ∧ s.kind = kind ∧ s.value? = some value
      · simp only [h, and_self, if_true, Prod.mk.injEq, true_and, reduceCtorEq, false_and,
          Option.some.injEq, exists_eq_left', false_or]
        exact eq_comm
      · simp only [if_neg h, Prod.mk.injEq, reduceCtorEq, false_and, Option.some.injEq, false_or,
          false_iff]
        rintro ⟨t, rfl, hp, hk, hv, -⟩
        exact h ⟨hp, hk, hv⟩

theorem definePending_eq_ok :
    table.definePending scope name e address loc = (.ok (), table') ↔
      table.find? scope name = none ∧ table' = table.append (scope, name)
        ⟨name, scope, .constant, none, loc, some ⟨e, address, scope⟩⟩ := by
  unfold definePending
  cases hf : table.find? scope name with
  | none =>
      simp only [Prod.mk.injEq, true_and]
      exact eq_comm
  | some s => simp

theorem define_refused {fault : Error}
    (h : table.define scope name kind value loc = (.error fault, table')) : table' = table := by
  unfold define at h
  split at h
  · cases h
  · split at h
    · cases h
    · exact (Prod.mk.inj h).2.symm

theorem definePending_refused {fault : Error}
    (h : table.definePending scope name e address loc = (.error fault, table')) :
    table' = table := by
  unfold definePending at h
  split at h
  · cases h
  · exact (Prod.mk.inj h).2.symm

theorem find?_append_self (hf : table.find? scope name = none) :
    (table.append (scope, name) s).find? scope name = some s := by
  rw [find?_append, hf]
  simp

theorem define_grows {answer : Except Error Unit}
    (h : table.define scope name kind value loc = (answer, table')) : table.Grows table' := by
  cases answer with
  | error fault =>
      rw [define_refused h]
      exact .refl table
  | ok _ =>
      rcases define_eq_ok.mp h with ⟨-, rfl⟩ | ⟨_, _, _, _, _, rfl⟩
      · exact grows_append _ _ (by simp [Symbol.isPending])
      · exact .refl _

theorem entry_of_define {answer : Except Error Unit} {entry : (Option Nat × String) × Symbol}
    (h : table.define scope name kind value loc = (answer, table'))
    (hentry : entry ∈ table'.entries) : entry ∈ table.entries ∨
      entry = ((scope, name), ⟨name, scope, kind, some value, loc, none⟩) := by
  cases answer with
  | error fault =>
      rw [define_refused h] at hentry
      exact .inl hentry
  | ok _ =>
      rcases define_eq_ok.mp h with ⟨-, rfl⟩ | ⟨_, _, _, _, _, rfl⟩
      · simpa [append] using hentry
      · exact .inl hentry

theorem mem_of_define {answer : Except Error Unit}
    (h : table.define scope name kind value loc = (answer, table')) (hs : s ∈ table'.toList) :
    s ∈ table.toList ∨ s = ⟨name, scope, kind, some value, loc, none⟩ := by
  obtain ⟨entry, hentry, rfl⟩ := List.mem_map.mp hs
  rcases entry_of_define h hentry with hold | rfl
  · exact .inl (List.mem_map_of_mem hold)
  · exact .inr rfl

theorem define_find? (h : table.define scope name kind value loc = (.ok (), table')) :
    ∃ s, table'.find? scope name = some s ∧ s.kind = kind ∧ s.value? = some value := by
  rcases define_eq_ok.mp h with ⟨hf, rfl⟩ | ⟨s, hs, -, hk, hv, rfl⟩
  · exact ⟨_, find?_append_self hf, rfl, rfl⟩
  · exact ⟨s, hs, hk, hv⟩

theorem definePending_grows
    (h : table.definePending scope name e address loc = (.ok (), table')) :
    table.Grows table' := by
  obtain ⟨-, rfl⟩ := definePending_eq_ok.mp h
  exact grows_append _ _ fun _ => rfl

theorem definePending_find?
    (h : table.definePending scope name e address loc = (.ok (), table')) :
    table'.find? scope name =
      some ⟨name, scope, .constant, none, loc, some ⟨e, address, scope⟩⟩ := by
  obtain ⟨hf, rfl⟩ := definePending_eq_ok.mp h
  exact find?_append_self hf

theorem Exclusive.settled {v : Int32} (h : table.Exclusive) (hs : s ∈ table.toList)
    (hv : s.value? = some v) : s.isPending = false := by
  cases hp : s.isPending with
  | false => rfl
  | true =>
      rw [h s hs hp] at hv
      cases hv

structure Settles (table table' : Symbols) : Prop where
  absent : ∀ scope name, table.find? scope name = none ↔ table'.find? scope name = none
  known : ∀ scope name s v, table.find? scope name = some s → s.value? = some v →
    table'.find? scope name = some s

theorem Settles.refl (table : Symbols) : table.Settles table :=
  ⟨fun _ _ => Iff.rfl, fun _ _ _ _ h _ => h⟩

theorem Settles.trans (h : table.Settles table') (h' : table'.Settles table'') :
    table.Settles table'' :=
  ⟨fun scope name => (h.absent scope name).trans (h'.absent scope name),
    fun scope name s v hs hv => h'.known scope name s v (h.known scope name s v hs hv) hv⟩

theorem Exclusive.settles_map {f : Symbol → Symbol} (h : table.Exclusive)
    (hf : ∀ s, s.isPending = false → f s = s) : table.Settles (table.map f) := by
  constructor
  · intro scope name
    rw [find?_map, Option.map_eq_none_iff]
  · intro scope name s v hs hv
    rw [find?_map, hs, Option.map_some, hf s (h.settled (find?_mem hs) hv)]

theorem lookup_eq (table : Symbols) (scope : Option Nat) (name : String) :
    table.lookup scope name = (table.find? scope name).or (table.find? none name) := by
  cases scope with
  | none => simp [lookup]
  | some b => rfl

theorem lookup_of_find? (h : table.find? scope name = some s) : table.lookup scope name = some s := by
  rw [lookup_eq, h]
  rfl

theorem lookup_of_absent (h : table.find? scope name = none) :
    table.lookup scope name = table.find? none name := by
  rw [lookup_eq, h]
  rfl

theorem value?_eq_some {v : Int32} :
    table.value? scope name = some v ↔
      ∃ s, table.lookup scope name = some s ∧ s.value? = some v :=
  Option.bind_eq_some_iff

theorem Settles.extends (h : table.Settles table') (scope : Option Nat) (address : UInt16) :
    (table.context scope address).Extends (table'.context scope address) := by
  refine ⟨rfl, ?_⟩
  intro x v hx
  obtain ⟨s, hs, hv⟩ := value?_eq_some.mp hx
  refine value?_eq_some.mpr ⟨s, ?_, hv⟩
  -- The local symbol decides if there is one, so its absence has to last.
  cases hl : table.find? scope x with
  | some t =>
      rw [lookup_of_find? hl] at hs
      cases hs
      exact lookup_of_find? (h.known scope x s v hl hv)
  | none =>
      rw [lookup_of_absent hl] at hs
      rw [lookup_of_absent ((h.absent scope x).mp hl)]
      exact h.known none x s v hs hv

structure Keeps (table table' : Symbols) : Prop where
  known : ∀ scope name s v, table.find? scope name = some s → s.value? = some v →
    table'.find? scope name = some s
  defined : ∀ scope name, (table.find? scope name).isSome → (table'.find? scope name).isSome

theorem Grows.keeps_of_settles (h : table.Grows table') (h' : table'.Settles table'') :
    table.Keeps table'' := by
  constructor
  · intro scope name s v hs hv
    exact h'.known scope name s v (h.kept scope name s hs) hv
  · intro scope name hs
    obtain ⟨s, hs⟩ := Option.isSome_iff_exists.mp hs
    rw [Option.isSome_iff_ne_none, ne_eq, ← h'.absent scope name, h.kept scope name s hs]
    simp

theorem Keeps.extends_global (h : table.Keeps table') (address : UInt16) :
    (table.context none address).Extends (table'.context none address) := by
  refine ⟨rfl, ?_⟩
  intro x v hx
  obtain ⟨s, hs, hv⟩ := value?_eq_some.mp hx
  exact value?_eq_some.mpr ⟨s, h.known none x s v hs hv, hv⟩

theorem outcome?_of_not_pending (h : s.isPending = false) : table.outcome? s = none := by
  simp [outcome?, Symbol.isPending_eq_false.mp h]

theorem settle_of_none (h : table.outcome? s = none) : table.settle s = s := by
  simp [settle, h]

theorem settle_of_not_pending (h : s.isPending = false) : table.settle s = s :=
  settle_of_none (outcome?_of_not_pending h)

theorem giveUp_of_not_pending (h : s.isPending = false) : giveUp s = s := by
  rw [giveUp, ← Symbol.isPending_eq_false.mp h]

theorem Exclusive.round_settles (h : table.Exclusive) : table.Settles table.round :=
  h.settles_map fun _ => settle_of_not_pending

theorem find?_round (table : Symbols) (scope : Option Nat) (name : String) :
    table.round.find? scope name = (table.find? scope name).map table.settle :=
  find?_map table.settle table scope name

theorem Exclusive.round (h : table.Exclusive) : table.round.Exclusive := by
  intro t ht hp
  rw [Symbols.round, toList_map] at ht
  obtain ⟨s, hs, rfl⟩ := List.mem_map.mp ht
  cases ho : table.outcome? s with
  | none =>
      rw [settle_of_none ho] at hp ⊢
      exact h s hs hp
  | some r => cases r <;> simp [settle, ho, Symbol.isPending] at hp

theorem Exclusive.rounds (n : Nat) : ∀ {table : Symbols}, table.Exclusive →
    (Symbols.rounds n table).table.Exclusive ∧ table.Settles (Symbols.rounds n table).table := by
  induction n with
  | zero => exact fun h => ⟨h, .refl _⟩
  | succ n ih =>
      intro table h
      simp only [Symbols.rounds]
      split
      · obtain ⟨hexclusive, hsettles⟩ := ih h.round
        exact ⟨hexclusive, h.round_settles.trans hsettles⟩
      · exact ⟨h, .refl table⟩

theorem resolve_isPending (h : s ∈ table.resolve.table.toList) : s.isPending = false := by
  rw [resolve, toList_map] at h
  obtain ⟨t, -, rfl⟩ := List.mem_map.mp h
  rfl

theorem resolve_exclusive (table : Symbols) : table.resolve.table.Exclusive := by
  intro s hs hp
  rw [resolve_isPending hs] at hp
  cases hp

theorem Exclusive.resolve_settles (h : table.Exclusive) : table.Settles table.resolve.table := by
  obtain ⟨hexclusive, hsettles⟩ := h.rounds table.size
  exact hsettles.trans (hexclusive.settles_map fun _ => giveUp_of_not_pending)

theorem outcome?_of_pending (hs : s.pending? = some p) :
    table.outcome? s = match p.expr.eval (table.context p.scope p.address) with
      | .ok v => some (.ok v)
      | .error (.undefined _) => none
      | .error (.arithmetic fault) => some (.error fault) := by
  simp only [outcome?, hs, Expr.evalTolerant]
  cases p.expr.eval (table.context p.scope p.address) with
  | ok v => rfl
  | error f => cases f <;> rfl

theorem eval_of_outcome? {v : Int32} (hs : s.pending? = some p)
    (h : table.outcome? s = some (.ok v)) :
    p.expr.eval (table.context p.scope p.address) = .ok v := by
  rw [outcome?_of_pending hs] at h
  split at h
  · next hv =>
      cases h
      exact hv
  · cases h
  · cases h

theorem outcome?_of_roundErrors (h : table.roundErrors = []) (hs : s ∈ table.toList) :
    table.outcome? s = none ∨ ∃ v, table.outcome? s = some (.ok v) := by
  have hf : table.fault? s = none := List.filterMap_eq_nil_iff.mp h s hs
  simp only [fault?] at hf
  cases ho : table.outcome? s with
  | none => exact Or.inl rfl
  | some r =>
      cases r with
      | error fault => simp [ho] at hf
      | ok v => exact Or.inr ⟨v, rfl⟩

theorem rounds_solve (n : Nat) (table : Symbols) (exclusive : table.Exclusive)
    (clean : (rounds n table).errors = []) (hf : table.find? scope name = some s)
    (hs : s.pending? = some p) :
    (rounds n table).table.find? scope name = some s ∨
      ∃ t v, (rounds n table).table.find? scope name = some t ∧ t.value? = some v ∧
        p.expr.eval ((rounds n table).table.context p.scope p.address) = .ok v := by
  induction n generalizing table with
  | zero => exact Or.inl hf
  | succ n ih =>
      have hall := (exclusive.rounds (n + 1)).2
      by_cases hp : table.progresses = true
      · have hr : (rounds (n + 1) table).table = (rounds n table.round).table := by
          simp [rounds, hp]
        have he : table.roundErrors = [] ∧ (rounds n table.round).errors = [] := by
          simpa [rounds, hp] using clean
        rw [hr] at hall ⊢
        rcases outcome?_of_roundErrors he.1 (find?_mem hf) with ho | ⟨v, ho⟩
        · have hround : table.round.find? scope name = some s := by
            rw [find?_round, hf, Option.map_some, settle_of_none ho]
          exact ih table.round exclusive.round he.2 hround
        · have hround : table.round.find? scope name =
              some { s with pending? := none, value? := some v } := by
            rw [find?_round, hf]
            simp [settle, ho]
          refine Or.inr ⟨{ s with pending? := none, value? := some v }, v, ?_, rfl, ?_⟩
          · exact (exclusive.round.rounds n).2.known scope name _ v hround rfl
          · exact Expr.eval_ok_of_extends (hall.extends p.scope p.address) (eval_of_outcome? hs ho)
      · exact Or.inl (by simpa [rounds, hp] using hf)

theorem resolve_table_of_clean (clean : table.resolve.errors = []) :
    table.resolve.table = (rounds table.size table).table ∧
      ∀ s ∈ (rounds table.size table).table.toList, s.isPending = false := by
  have hstuck := (List.append_eq_nil_iff.mp clean).2
  have hnone : ∀ s ∈ (rounds table.size table).table.toList, s.isPending = false := by
    intro s hs
    have hn := List.filterMap_eq_nil_iff.mp hstuck s hs
    exact Symbol.isPending_eq_false.mpr (Option.map_eq_none_iff.mp hn)
  refine ⟨?_, hnone⟩
  have hmap : (rounds table.size table).table.map giveUp = (rounds table.size table).table := by
    have hid : ∀ entry ∈ (rounds table.size table).table.entries,
        (entry.1, giveUp entry.2) = id entry := by
      intro entry hentry
      rw [giveUp_of_not_pending (hnone entry.2 (List.mem_map_of_mem hentry))]
      rfl
    rw [map, List.map_congr_left hid, List.map_id]
  exact hmap

theorem Exclusive.resolve_solves (h : table.Exclusive) (clean : table.resolve.errors = [])
    (hf : table.find? scope name = some s) (hs : s.pending? = some p) :
    ∃ t v, table.resolve.table.find? scope name = some t ∧ t.value? = some v ∧
      p.expr.eval (table.resolve.table.context p.scope p.address) = .ok v := by
  obtain ⟨htable, hnone⟩ := resolve_table_of_clean clean
  have hrounds : (Symbols.rounds table.size table).errors = [] :=
    (List.append_eq_nil_iff.mp clean).1
  rw [htable]
  rcases rounds_solve table.size table h hrounds hf hs with hwaits | hsolved
  · have hp := hnone s (find?_mem hwaits)
    rw [Symbol.isPending_of_pending? hs] at hp
    cases hp
  · exact hsolved

end Symbols

end Z80
