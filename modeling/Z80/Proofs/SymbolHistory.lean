import Mathlib
import Z80.Proofs.Definitions

namespace Z80

structure Symbol.Becomes (s t : Symbol) : Prop where
  key : t.key = s.key
  kind : t.kind = s.kind
  definedAt : t.definedAt = s.definedAt
  settled : s.isPending = false → t = s
  valued : ∀ v, s.value? = some v → t = s
  waiting : t.isPending = true → t = s

def Definition.Repeats (d : Definition) (s : Symbol) : Prop :=
  s.isPending = false ∧ s.kind = d.symbol.kind ∧
    ∃ v, s.value? = some v ∧ d.symbol.value? = some v

namespace Symbol.Becomes

variable {s t u : Symbol}

theorem refl (s : Symbol) : s.Becomes s :=
  ⟨rfl, rfl, rfl, fun _ => rfl, fun _ _ => rfl, fun _ => rfl⟩

theorem trans (h : s.Becomes t) (h' : t.Becomes u) : s.Becomes u where
  key := h'.key.trans h.key
  kind := h'.kind.trans h.kind
  definedAt := h'.definedAt.trans h.definedAt
  settled := by
    intro hs
    have ht : t = s := h.settled hs
    rw [← ht] at hs ⊢
    exact h'.settled hs
  valued := by
    intro v hs
    have ht : t = s := h.valued v hs
    rw [← ht] at hs ⊢
    exact h'.valued v hs
  waiting := by
    intro hu
    have hut : u = t := h'.waiting hu
    rw [hut] at hu ⊢
    exact h.waiting hu

end Symbol.Becomes

namespace Symbols

variable {table table' table'' : Symbols} {scope : Option Nat} {name : String} {s : Symbol}

def Precedes (table table' : Symbols) : Prop :=
  ∀ (i : Nat) (key : Option Nat × String) (s : Symbol), table.entries[i]? = some (key, s) →
    ∃ t, table'.entries[i]? = some (key, t) ∧ s.Becomes t

theorem Precedes.refl (table : Symbols) : table.Precedes table :=
  fun _ _ s hs => ⟨s, hs, .refl s⟩

theorem Precedes.trans (h : table.Precedes table') (h' : table'.Precedes table'') :
    table.Precedes table'' := by
  intro i key s hs
  obtain ⟨t, ht, hst⟩ := h i key s hs
  obtain ⟨u, hu, htu⟩ := h' i key t ht
  exact ⟨u, hu, hst.trans htu⟩

theorem precedes_append (table : Symbols) (key : Option Nat × String) (s : Symbol) :
    table.Precedes (table.append key s) := by
  intro i key t ht
  have hi : i < table.entries.length := (List.getElem?_eq_some_iff.mp ht).1
  exact ⟨t, (List.getElem?_append_left hi).trans ht, .refl t⟩

theorem WellFormed.ending_becomes (wf : table.WellFormed) (hs : s ∈ table.toList) :
    s.Becomes (table.ending s) := by
  cases hp : s.pending? with
  | none =>
      rw [ending_of_not_pending (Symbol.isPending_eq_false.mpr hp)]
      exact .refl s
  | some p =>
      have hwaits : s.isPending = true := Symbol.isPending_of_pending? hp
      have hnone : s.value? = none := wf.exclusive s hs hwaits
      have hsettled : ∀ answer : Option Int32,
          s.Becomes { s with pending? := none, value? := answer } := by
        intro answer
        refine ⟨rfl, rfl, rfl, ?_, ?_, ?_⟩
        · simp [hwaits]
        · simp [hnone]
        · simp [Symbol.isPending]
      rw [ending_of_pending wf.exclusive hs hp]
      cases p.expr.eval ((rounds table.size table).table.context p.scope p.address) with
      | ok v => exact hsettled (some v)
      | error f => exact hsettled s.value?

theorem WellFormed.precedes_resolve (wf : table.WellFormed) :
    table.Precedes table.resolve.table := by
  intro i key s hs
  have hmem : s ∈ table.toList := List.mem_map_of_mem (List.mem_of_getElem? hs)
  refine ⟨table.ending s, ?_, wf.ending_becomes hmem⟩
  rw [resolve_table, map, List.getElem?_map, hs]
  rfl

inductive Answers (table : Symbols) (d : Definition) : Except Error Unit × Symbols → Prop
  | added : d.symbol.key ∉ table.keys →
      Answers table d (.ok (), table.append d.symbol.key d.symbol)
  | tolerated {s : Symbol} : (d.symbol.key, s) ∈ table.entries → d.Repeats s →
      Answers table d (.ok (), table)
  | refused {s : Symbol} : (d.symbol.key, s) ∈ table.entries → ¬d.Repeats s →
      Answers table d (.error (.duplicateSymbol d.symbol.name s.definedAt.line), table)

theorem add_answers (table : Symbols) (d : Definition) : table.Answers d (d.add table) := by
  cases hf : table.find? d.symbol.scope d.symbol.name with
  | none =>
      rw [add_of_find?_none hf]
      exact .added (find?_eq_none_iff.mp hf)
  | some s =>
      have hentry : (d.symbol.key, s) ∈ table.entries := entry_of_find? hf
      cases d with
      | value scope name kind v loc =>
          change table.find? scope name = some s at hf
          simp only [Definition.add, define, hf]
          split
          · next h => exact .tolerated hentry ⟨h.1, h.2.1, v, h.2.2, rfl⟩
          · next h =>
              refine .refused hentry ?_
              rintro ⟨hp, hkind, w, hw, hv⟩
              cases hv
              exact h ⟨hp, hkind, hw⟩
      | pending scope name e address loc =>
          change table.find? scope name = some s at hf
          simp only [Definition.add, definePending, hf]
          refine .refused hentry ?_
          rintro ⟨-, -, w, -, hv⟩
          cases hv

theorem apply_eq (table : Symbols) (d : Definition) :
    d.apply table =
      if d.symbol.key ∈ table.keys then table else table.append d.symbol.key d.symbol := by
  have hanswer := table.add_answers d
  rw [Definition.apply]
  generalize d.add table = answer at hanswer
  cases hanswer with
  | added hfresh => rw [if_neg hfresh]
  | tolerated hentry _ => rw [if_pos (mem_keys hentry)]
  | refused hentry _ => rw [if_pos (mem_keys hentry)]

theorem add_error_unchanged {d : Definition} {e : Error} (h : (d.add table).1 = .error e) :
    (d.add table).2 = table := by
  have hanswer := table.add_answers d
  generalize d.add table = answer at h hanswer
  cases hanswer with
  | added _ => cases h
  | tolerated _ _ => rfl
  | refused _ _ => rfl

inductive Operation where
  | definition (d : Definition)
  | resolution

namespace Operation

def run (table : Symbols) : Operation → Symbols
  | definition d => d.apply table
  | resolution => table.resolve.table

def defined? (table : Symbols) : Operation → Option (Option Nat × String)
  | definition d => match (d.add table).1 with
      | .ok () => some d.symbol.key
      | .error _ => none
  | resolution => none

end Operation

def history (ops : List Operation) : Symbols :=
  ops.foldl Operation.run empty

def successes (table : Symbols) : List Operation → List (Option Nat × String)
  | [] => []
  | op :: ops => (op.defined? table).toList ++ successes (op.run table) ops

theorem history_concat (ops : List Operation) (op : Operation) :
    history (ops ++ [op]) = op.run (history ops) := by
  simp [history]

theorem successes_concat (table : Symbols) (ops : List Operation) (op : Operation) :
    successes table (ops ++ [op]) =
      successes table ops ++ (op.defined? (ops.foldl Operation.run table)).toList := by
  induction ops generalizing table with
  | nil => simp [successes]
  | cons first ops ih => simp [successes, ih]

theorem WellFormed.run (wf : table.WellFormed) (op : Operation) : (op.run table).WellFormed := by
  cases op with
  | definition d => exact wf.apply d
  | resolution =>
      refine ⟨?_, ?_, resolve_exclusive table⟩
      · intro entry hentry
        simp only [Operation.run, resolve_table, map] at hentry
        obtain ⟨old, hold, rfl⟩ := List.mem_map.mp hentry
        exact (wf.ending_becomes (List.mem_map_of_mem hold)).key.trans (wf.keyed old hold)
      · rw [Operation.run, resolve_keys]
        exact wf.unique

theorem WellFormed.run_precedes (wf : table.WellFormed) (op : Operation) :
    table.Precedes (op.run table) := by
  cases op with
  | definition d =>
      simp only [Operation.run, apply_eq]
      split
      · exact .refl table
      · exact precedes_append table d.symbol.key d.symbol
  | resolution => exact wf.precedes_resolve

theorem run_keys (table : Symbols) (op : Operation) :
    (op.run table).keys =
      match op.defined? table with
        | some key => if key ∈ table.keys then table.keys else table.keys ++ [key]
        | none => table.keys := by
  cases op with
  | definition d =>
      have hanswer := table.add_answers d
      simp only [Operation.run, Operation.defined?, Definition.apply]
      generalize d.add table = answer at hanswer
      cases hanswer with
      | added hfresh => simp only [if_neg hfresh, keys_append]
      | tolerated hentry _ => simp only [if_pos (mem_keys hentry)]
      | refused hentry _ => rfl
  | resolution => exact resolve_keys table

theorem history_wellFormed (ops : List Operation) : (history ops).WellFormed := by
  induction ops using List.reverseRecOn with
  | nil => exact empty_wellFormed
  | append_singleton ops op ih =>
      rw [history_concat]
      exact ih.run op

theorem history_precedes (ops more : List Operation) :
    (history ops).Precedes (history (ops ++ more)) := by
  induction more using List.reverseRecOn with
  | nil =>
      rw [List.append_nil]
      exact .refl _
  | append_singleton more op ih =>
      rw [← List.append_assoc, history_concat]
      exact ih.trans ((history_wellFormed _).run_precedes op)

theorem eraseDups_concat {α : Type} [BEq α] [LawfulBEq α] (xs : List α) (x : α) :
    (xs ++ [x]).eraseDups = if x ∈ xs then xs.eraseDups else xs.eraseDups ++ [x] := by
  rw [List.eraseDups_append]
  by_cases h : x ∈ xs <;> simp [List.removeAll, List.eraseDups_cons, h]

theorem history_keys (ops : List Operation) :
    (history ops).keys = (successes empty ops).eraseDups := by
  induction ops using List.reverseRecOn with
  | nil => rfl
  | append_singleton ops op ih =>
      rw [history_concat, run_keys, successes_concat, ← history]
      cases op.defined? (history ops) with
      | none => simp [ih]
      | some key => simp only [Option.toList_some, eraseDups_concat, ih, List.mem_eraseDups]

theorem WellFormed.find?_eq_some_iff (wf : table.WellFormed) :
    table.find? scope name = some s ↔ s ∈ table.toList ∧ s.key = (scope, name) := by
  constructor
  · intro h
    exact ⟨find?_mem h, wf.find?_key h⟩
  · rintro ⟨hs, hkey⟩
    cases hkey
    exact wf.find?_of_mem hs

theorem WellFormed.lookup_eq_some_iff (wf : table.WellFormed) :
    table.lookup scope name = some s ↔ s ∈ table.toList ∧ (s.key = (scope, name) ∨
      (scope, name) ∉ table.keys ∧ s.key = (none, name)) := by
  rw [lookup_eq, Option.or_eq_some_iff, wf.find?_eq_some_iff, wf.find?_eq_some_iff,
    find?_eq_none_iff]
  tauto

theorem history_append_only (ops : List Operation) :
    (∀ key s, (key, s) ∈ (history ops).entries → key = (s.scope, s.name)) ∧
    (history ops).keys.Nodup ∧
    (∀ scope name s, (history ops).find? scope name = some s ↔
      s ∈ (history ops).toList ∧ s.key = (scope, name)) ∧
    (history ops).keys = (successes empty ops).eraseDups ∧
    (∀ more, (history ops).Precedes (history (ops ++ more))) ∧
    (∀ s ∈ (history ops).toList, s.isPending = true → s.value? = none) ∧
    (∀ d, (history ops).Answers d (d.add (history ops)) ∧
      (∀ e, (d.add (history ops)).1 = .error e →
        history (ops ++ [.definition d]) = history ops) ∧
      (d.symbol.key ∈ (history ops).keys → history (ops ++ [.definition d]) = history ops)) ∧
    ∀ scope name s, (history ops).lookup scope name = some s ↔
      s ∈ (history ops).toList ∧ (s.key = (scope, name) ∨
        (scope, name) ∉ (history ops).keys ∧ s.key = (none, name)) := by
  have wf := history_wellFormed ops
  refine ⟨fun key s hs => (wf.keyed _ hs).symm, wf.unique, fun _ _ _ => wf.find?_eq_some_iff,
    history_keys ops, history_precedes ops, wf.exclusive,
    fun d => ⟨add_answers _ d, fun e herror => ?_, fun hmem => ?_⟩,
    fun _ _ _ => wf.lookup_eq_some_iff⟩
  · rw [history_concat]
    exact add_error_unchanged herror
  · rw [history_concat, Operation.run, apply_eq, if_pos hmem]

end Symbols

end Z80
