import Mathlib
import Z80.Proofs.Resolution

namespace Z80

inductive Definition where
  | value (scope : Option Nat) (name : String) (kind : SymbolKind) (v : Int32) (loc : Location)
  | pending (scope : Option Nat) (name : String) (e : Expr) (address : UInt16) (loc : Location)

def Symbol.content (s : Symbol) :
    (Option Nat × String) × SymbolKind × Option Int32 × Option Pending × Option Location :=
  (s.key, s.kind, s.value?, s.pending?, if s.isPending then some s.definedAt else none)

namespace Definition

def symbol : Definition → Symbol
  | value scope name kind v loc => ⟨name, scope, kind, some v, loc, none⟩
  | pending scope name e address loc =>
      ⟨name, scope, .constant, none, loc, some ⟨e, address, scope⟩⟩

def add (table : Symbols) : Definition → Except Error Unit × Symbols
  | value scope name kind v loc => table.define scope name kind v loc
  | pending scope name e address loc => table.definePending scope name e address loc

def apply (table : Symbols) (d : Definition) : Symbols :=
  (d.add table).2

def Agree (d d' : Definition) : Prop :=
  d.symbol.key = d'.symbol.key →
    d.symbol.isPending = false ∧ d.symbol.content = d'.symbol.content

theorem symbol_exclusive (d : Definition) : d.symbol.isPending = true → d.symbol.value? = none := by
  cases d with
  | value scope name kind v loc =>
      intro h
      cases h
  | pending scope name e address loc => exact fun _ => rfl

end Definition

namespace Symbol

variable {s t : Symbol}

theorem pending?_of_content (h : s.content = t.content) : s.pending? = t.pending? :=
  congrArg (fun c => c.2.2.2.1) h

theorem value?_of_content (h : s.content = t.content) : s.value? = t.value? :=
  congrArg (fun c => c.2.2.1) h

theorem isPending_of_content (h : s.content = t.content) : s.isPending = t.isPending := by
  simp only [isPending, pending?_of_content h]

theorem eq_of_content (hp : s.isPending = true) (h : s.content = t.content) : s = t := by
  have ht : t.isPending = true := isPending_of_content h ▸ hp
  obtain ⟨name, scope, kind, value?, loc, pending?⟩ := s
  obtain ⟨name', scope', kind', value?', loc', pending?'⟩ := t
  simp only [content, key, hp, ht, if_true, Prod.mk.injEq, Option.some.injEq] at h
  obtain ⟨⟨rfl, rfl⟩, rfl, rfl, rfl, rfl⟩ := h
  rfl

end Symbol

theorem Definition.Agree.symm {d d' : Definition} (h : d.Agree d') : d'.Agree d := by
  intro hkey
  obtain ⟨hp, hcontent⟩ := h hkey.symm
  exact ⟨Symbol.isPending_of_content hcontent ▸ hp, hcontent.symm⟩

namespace Symbols

variable {table table' : Symbols} {scope : Option Nat} {name : String} {s : Symbol}
  {d : Definition} {ds ds' : List Definition}

def build (ds : List Definition) : Symbols :=
  ds.foldl Definition.apply empty

def Accepts (table : Symbols) : List Definition → Prop
  | [] => True
  | d :: ds => (d.add table).1 = .ok () ∧ (d.apply table).Accepts ds

def keys (table : Symbols) : List (Option Nat × String) :=
  table.entries.map Prod.fst

structure WellFormed (table : Symbols) : Prop where
  keyed : ∀ entry ∈ table.entries, entry.2.key = entry.1
  unique : table.keys.Nodup
  exclusive : table.Exclusive

theorem empty_wellFormed : empty.WellFormed :=
  ⟨by simp [empty], List.nodup_nil, empty_exclusive⟩

@[simp] theorem keys_append (table : Symbols) (key : Option Nat × String) (s : Symbol) :
    (table.append key s).keys = table.keys ++ [key] := by
  simp [keys, append]

@[simp] theorem keys_map (f : Symbol → Symbol) (table : Symbols) :
    (table.map f).keys = table.keys := by
  simp [keys, map]

theorem find?_eq_none_iff : table.find? scope name = none ↔ (scope, name) ∉ table.keys := by
  rw [find?, Option.map_eq_none_iff, List.find?_eq_none, keys, List.mem_map, not_exists]
  simp only [beq_iff_eq, not_and]

theorem entry_of_find? (h : table.find? scope name = some s) :
    ((scope, name), s) ∈ table.entries := by
  obtain ⟨⟨key, t⟩, hentry, rfl⟩ := Option.map_eq_some_iff.mp h
  have hkey : key = (scope, name) := by simpa using List.find?_some hentry
  rw [← hkey]
  exact List.mem_of_find?_eq_some hentry

theorem mem_keys {key : Option Nat × String} (h : (key, s) ∈ table.entries) : key ∈ table.keys :=
  List.mem_map_of_mem h

theorem WellFormed.find?_key (wf : table.WellFormed) (h : table.find? scope name = some s) :
    s.key = (scope, name) :=
  wf.keyed _ (entry_of_find? h)

theorem WellFormed.entry_of_mem (wf : table.WellFormed) (hs : s ∈ table.toList) :
    (s.key, s) ∈ table.entries := by
  obtain ⟨⟨key, t⟩, hentry, rfl⟩ := List.mem_map.mp hs
  rw [wf.keyed _ hentry]
  exact hentry

theorem WellFormed.toList_keys (wf : table.WellFormed) :
    table.toList.map Symbol.key = table.keys := by
  rw [toList, List.map_map, keys]
  exact List.map_congr_left wf.keyed

theorem WellFormed.find?_of_mem (wf : table.WellFormed) (hs : s ∈ table.toList) :
    table.find? s.scope s.name = some s := by
  have hentry := wf.entry_of_mem hs
  cases hf : table.find? s.scope s.name with
  | none => exact absurd (mem_keys hentry) (find?_eq_none_iff.mp hf)
  | some t =>
      have hsame := List.inj_on_of_nodup_map wf.unique (entry_of_find? hf) hentry rfl
      rw [(Prod.mk.inj hsame).2]

theorem WellFormed.append (wf : table.WellFormed) (hs : s.isPending = true → s.value? = none)
    (hnew : s.key ∉ table.keys) : (table.append s.key s).WellFormed where
  keyed := by
    intro entry hentry
    rcases List.mem_append.mp hentry with hold | hlast
    · exact wf.keyed entry hold
    · cases List.mem_singleton.mp hlast
      rfl
  unique := by
    rw [keys_append]
    exact List.nodup_append_comm.mp (List.nodup_cons.mpr ⟨hnew, wf.unique⟩)
  exclusive := wf.exclusive.append s.key hs

theorem add_of_find?_none (h : table.find? d.symbol.scope d.symbol.name = none) :
    d.add table = (.ok (), table.append d.symbol.key d.symbol) := by
  cases d with
  | value scope name kind v loc => exact define_eq_ok.mpr (.inl ⟨h, rfl⟩)
  | pending scope name e address loc => exact definePending_eq_ok.mpr ⟨h, rfl⟩

theorem apply_of_find?_some (h : table.find? d.symbol.scope d.symbol.name = some s) :
    d.apply table = table := by
  cases d with
  | value scope name kind v loc =>
      change table.find? scope name = some s at h
      simp only [Definition.apply, Definition.add, define, h]
      split <;> rfl
  | pending scope name e address loc =>
      change table.find? scope name = some s at h
      simp only [Definition.apply, Definition.add, definePending, h]

theorem WellFormed.add_eq_ok (wf : table.WellFormed) : d.add table = (.ok (), table') ↔
    (table.find? d.symbol.scope d.symbol.name = none ∧
        table' = table.append d.symbol.key d.symbol) ∨
      ∃ s, table.find? d.symbol.scope d.symbol.name = some s ∧ s.isPending = false ∧
        s.content = d.symbol.content ∧ table' = table := by
  cases d with
  | value scope name kind v loc =>
      simp only [Definition.add, Definition.symbol, define_eq_ok]
      refine or_congr_right (exists_congr fun s => and_congr_right fun hs => ?_)
      refine and_congr_right fun hp => ?_
      constructor
      · rintro ⟨hkind, hvalue, heq⟩
        refine ⟨?_, heq⟩
        simp only [Symbol.content, hp, hvalue, hkind, wf.find?_key hs,
          Symbol.isPending_eq_false.mp hp]
        rfl
      · rintro ⟨hcontent, heq⟩
        exact ⟨congrArg (fun c => c.2.1) hcontent, Symbol.value?_of_content hcontent, heq⟩
  | pending scope name e address loc =>
      simp only [Definition.add, Definition.symbol, definePending_eq_ok]
      constructor
      · exact Or.inl
      · rintro (h | ⟨s, -, hp, hcontent, -⟩)
        · exact h
        · rw [Symbol.isPending_of_content hcontent] at hp
          cases hp

theorem WellFormed.apply (wf : table.WellFormed) (d : Definition) : (d.apply table).WellFormed := by
  cases hf : table.find? d.symbol.scope d.symbol.name with
  | none =>
      rw [Definition.apply, add_of_find?_none hf]
      exact wf.append d.symbol_exclusive (find?_eq_none_iff.mp hf)
  | some s => rwa [apply_of_find?_some hf]

theorem build_concat (ds : List Definition) (d : Definition) :
    build (ds ++ [d]) = d.apply (build ds) := by
  simp [build]

theorem build_wellFormed (ds : List Definition) : (build ds).WellFormed := by
  induction ds using List.reverseRecOn with
  | nil => exact empty_wellFormed
  | append_singleton ds d ih =>
      rw [build_concat]
      exact ih.apply d

theorem find?_build (ds : List Definition) (scope : Option Nat) (name : String) :
    (build ds).find? scope name =
      find? ⟨ds.map fun d => (d.symbol.key, d.symbol)⟩ scope name := by
  induction ds using List.reverseRecOn with
  | nil => rfl
  | append_singleton ds d ih =>
      have hmap : (⟨(ds ++ [d]).map fun d => (d.symbol.key, d.symbol)⟩ : Symbols) =
          append ⟨ds.map fun d => (d.symbol.key, d.symbol)⟩ d.symbol.key d.symbol := by
        simp [append]
      rw [build_concat, hmap, find?_append, ← ih]
      cases hf : (build ds).find? d.symbol.scope d.symbol.name with
      | none => rw [Definition.apply, add_of_find?_none hf, find?_append]
      | some s =>
          rw [apply_of_find?_some hf]
          by_cases hkey : d.symbol.key = (scope, name)
          · cases hkey
            simp [hf]
          · simp [hkey]

def Alike (table table' : Symbols) : Prop :=
  ∀ scope name, (table.find? scope name).map Symbol.content =
    (table'.find? scope name).map Symbol.content

theorem Alike.symm (h : table.Alike table') : table'.Alike table :=
  fun scope name => (h scope name).symm

theorem Alike.lookup (h : table.Alike table') (hs : table.lookup scope name = some s) :
    ∃ t, table'.lookup scope name = some t ∧ t.content = s.content := by
  have hsame : (table'.lookup scope name).map Symbol.content = some s.content := by
    rw [lookup_eq, Option.map_or, ← h scope name, ← h none name, ← Option.map_or, ← lookup_eq, hs]
    rfl
  obtain ⟨t, ht, hcontent⟩ := Option.map_eq_some_iff.mp hsame
  exact ⟨t, ht, hcontent⟩

theorem Alike.derives {address : UInt16} {e : Expr} {v : Int32} (h : table.Alike table')
    (hd : table.Derives scope address e v) : table'.Derives scope address e v := by
  induction hd with
  | number => exact .number
  | here => exact .here
  | known hs hv =>
      obtain ⟨t, ht, hcontent⟩ := h.lookup hs
      exact .known ht ((Symbol.value?_of_content hcontent).trans hv)
  | pending hs hp _ ih =>
      obtain ⟨t, ht, hcontent⟩ := h.lookup hs
      exact .pending ht ((Symbol.pending?_of_content hcontent).trans hp) ih
  | unary _ ha ih => exact .unary ih ha
  | binary _ _ ha ihl ihr => exact .binary ihl ihr ha

theorem Alike.derives_iff {address : UInt16} {e : Expr} {v : Int32} (h : table.Alike table') :
    table.Derives scope address e v ↔ table'.Derives scope address e v :=
  ⟨h.derives, h.symm.derives⟩

theorem Alike.eval_eq {address : UInt16} (h : table.Alike table') (wf : table.WellFormed)
    (wf' : table'.WellFormed) (e : Expr) :
    e.eval ((rounds table.size table).table.context scope address) =
      e.eval ((rounds table'.size table').table.context scope address) := by
  have hhere : ((rounds table.size table).table.context scope address).here =
      ((rounds table'.size table').table.context scope address).here := rfl
  apply Expr.eval_congr hhere
  intro name _
  have hvalue : ∀ v, (rounds table.size table).table.value? scope name = some v ↔
      (rounds table'.size table').table.value? scope name = some v := by
    intro v
    have hsymbol : ∀ t : Symbols, t.value? scope name = some v ↔
        (Expr.symbol name).eval (t.context scope address) = .ok v := by
      intro t
      cases hv : t.value? scope name <;> simp [Expr.eval, context, hv]
    rw [hsymbol, hsymbol, ← Symbols.derives_iff wf.exclusive table.resolve_stable, h.derives_iff,
      Symbols.derives_iff wf'.exclusive table'.resolve_stable]
  exact Option.ext hvalue

theorem Alike.pending_perm (h : table.Alike table') (wf : table.WellFormed)
    (wf' : table'.WellFormed) :
    (table.toList.filter Symbol.isPending).Perm (table'.toList.filter Symbol.isPending) := by
  have hmem : ∀ {t t' : Symbols}, t.WellFormed → t.Alike t' →
      ∀ s ∈ t.toList.filter Symbol.isPending, s ∈ t'.toList.filter Symbol.isPending := by
    intro t t' ht halike s hs
    obtain ⟨hs, hp⟩ := List.mem_filter.mp hs
    have hsame := halike s.scope s.name
    rw [ht.find?_of_mem hs] at hsame
    obtain ⟨u, hu, hcontent⟩ := Option.map_eq_some_iff.mp hsame.symm
    cases Symbol.eq_of_content hp hcontent.symm
    exact List.mem_filter.mpr ⟨find?_mem hu, hp⟩
  have hnodup : ∀ {t : Symbols}, t.WellFormed → t.toList.Nodup := by
    intro t ht
    exact (ht.toList_keys ▸ ht.unique).of_map
  rw [List.perm_ext_iff_of_nodup ((hnodup wf).filter _) ((hnodup wf').filter _)]
  exact fun s => ⟨hmem wf h s, hmem wf' h.symm s⟩

inductive Blames (table : Symbols) (s : Symbol) : Error → Prop
  | arithmetic {p : Pending} {fault : ArithmeticFault} :
      s.pending? = some p → table.Faults p.scope p.address p.expr (.arithmetic fault) →
      Blames table s (.arithmetic fault)
  | undefined {p : Pending} {earlier later : List String} {name : String} :
      s.pending? = some p →
      (∀ fault, ¬table.Faults p.scope p.address p.expr (.arithmetic fault)) →
      p.expr.symbols = earlier ++ name :: later →
      (∀ x ∈ earlier, ∃ v, table.Derives p.scope p.address (.symbol x) v) →
      (∀ v, ¬table.Derives p.scope p.address (.symbol name) v) →
      Blames table s (.undefinedSymbol name)

section Exclusive

variable {p : Pending} (exclusive : table.Exclusive)

include exclusive

theorem derives_symbol_iff {address : UInt16} {v : Int32} :
    table.Derives scope address (.symbol name) v ↔
      (rounds table.size table).table.value? scope name = some v := by
  rw [derives_iff exclusive table.resolve_stable]
  cases hv : (rounds table.size table).table.value? scope name <;> simp [Expr.eval, context, hv]

theorem find?_isNone_iff {address : UInt16} {e : Expr} :
    e.symbols.find? (fun x => ((rounds table.size table).table.value? scope x).isNone) = some name ↔
      ∃ earlier later, e.symbols = earlier ++ name :: later ∧
        (∀ x ∈ earlier, ∃ v, table.Derives scope address (.symbol x) v) ∧
        ∀ v, ¬table.Derives scope address (.symbol name) v := by
  simp only [derives_symbol_iff exclusive, List.find?_eq_some_iff_append, Option.isNone_iff_eq_none,
    Option.eq_none_iff_forall_ne_some, Bool.not_eq_true', ← Option.isSome_iff_exists,
    Option.isNone_eq_false_iff]
  constructor
  · rintro ⟨hname, earlier, later, hsplit, hearlier⟩
    exact ⟨earlier, later, hsplit, hearlier, hname⟩
  · rintro ⟨earlier, later, hsplit, hearlier, hname⟩
    exact ⟨hname, earlier, later, hsplit, hearlier⟩

theorem blames_of_pending (hs : s.pending? = some p)
    {err : Error} : table.Blames s err ↔ ∃ fault, fault.toError = err ∧
      p.expr.eval ((rounds table.size table).table.context p.scope p.address) = .error fault := by
  have hfaults := fun fault : EvalFault =>
    @faults_iff table p.scope p.address _ exclusive table.resolve_stable p.expr fault
  constructor
  · intro h
    cases h with
    | arithmetic hs' hf =>
        cases hs.symm.trans hs'
        exact ⟨_, rfl, (hfaults _).mp hf⟩
    | undefined hs' hno hsplit hearlier hname =>
        cases hs.symm.trans hs'
        have hfirst := (find?_isNone_iff exclusive).mpr ⟨_, _, hsplit, hearlier, hname⟩
        -- The expression has no value, and its fault is not an arithmetic one.
        cases heval : p.expr.eval ((rounds table.size table).table.context p.scope p.address) with
        | ok v =>
            have hvalue := Expr.value?_of_eval_ok heval _ (List.mem_of_find?_eq_some hfirst)
            have hnone := List.find?_some hfirst
            change ((rounds table.size table).table.value? p.scope _).isSome at hvalue
            simp [Option.isNone_iff_eq_none.mp hnone] at hvalue
        | error f =>
            cases f with
            | arithmetic fault => exact absurd ((hfaults _).mpr heval) (hno fault)
            | undefined x =>
                have hx := Expr.find?_of_eval_undefined heval
                change p.expr.symbols.find? (fun x =>
                  ((rounds table.size table).table.value? p.scope x).isNone) = some x at hx
                rw [hfirst] at hx
                cases hx
                exact ⟨_, rfl, rfl⟩
  · rintro ⟨fault, rfl, heval⟩
    cases fault with
    | arithmetic fault => exact .arithmetic hs ((hfaults _).mpr heval)
    | undefined x =>
        have hfirst := Expr.find?_of_eval_undefined heval
        obtain ⟨earlier, later, hsplit, hearlier, hname⟩ := (find?_isNone_iff exclusive).mp hfirst
        refine .undefined hs ?_ hsplit hearlier hname
        intro fault hfault
        have := (hfaults _).mp hfault
        rw [heval] at this
        cases this

theorem blames_iff_verdict {err : Error} :
    table.Blames s err ↔ (rounds table.size table).table.verdict s = some (s.definedAt, err) := by
  cases hs : s.pending? with
  | some p =>
      rw [blames_of_pending exclusive hs]
      simp only [verdict, hs, Option.bind_some]
      cases p.expr.eval ((rounds table.size table).table.context p.scope p.address) <;> simp
  | none =>
      simp only [verdict, hs, Option.bind_none, reduceCtorEq, iff_false]
      intro h
      cases h with
      | arithmetic hs' _ => simp [hs] at hs'
      | undefined hs' _ _ _ _ => simp [hs] at hs'

end Exclusive

theorem verdict_location (final : Symbols) (s : Symbol) :
    final.verdict s = ((final.verdict s).map Prod.snd).map (Prod.mk s.definedAt) := by
  simp only [verdict]
  cases s.pending? with
  | none => rfl
  | some p =>
      simp only [Option.bind_some]
      split <;> rfl

theorem Alike.verdict_eq (h : table.Alike table') (wf : table.WellFormed)
    (wf' : table'.WellFormed) : (rounds table.size table).table.verdict =
      (rounds table'.size table').table.verdict := by
  funext s
  cases hs : s.pending? <;> simp [verdict, hs, h.eval_eq wf wf']

theorem Alike.blames_iff {err : Error} (h : table.Alike table') (wf : table.WellFormed)
    (wf' : table'.WellFormed) : table.Blames s err ↔ table'.Blames s err := by
  rw [blames_iff_verdict wf.exclusive, blames_iff_verdict wf'.exclusive, h.verdict_eq wf wf']

structure LeastSolution (table : Symbols) (r : Resolution) : Prop where
  keys : r.table.keys = table.keys
  settled : ∀ t ∈ r.table.toList, t.isPending = false
  kept : ∀ s ∈ table.toList, s.isPending = false → r.table.find? s.scope s.name = some s
  solved : ∀ s ∈ table.toList, ∀ p, s.pending? = some p →
    ∃ answer, r.table.find? s.scope s.name =
        some { s with pending? := none, value? := answer } ∧
      ∀ v, answer = some v ↔ table.Derives p.scope p.address p.expr v
  blamed : ∀ s ∈ table.toList, ∀ p, s.pending? = some p →
    ((∃ err, table.Blames s err) ↔ ∀ v, ¬table.Derives p.scope p.address p.expr v)
  -- Every constant that is blamed has one error, at the place of its definition.
  errors : ∃ blame : Symbol → Option Error, (∀ s err, blame s = some err ↔ table.Blames s err) ∧
    r.errors.Perm (table.toList.filterMap fun s => (blame s).map (Prod.mk s.definedAt))

theorem find?_resolve (scope : Option Nat) (name : String) :
    table.resolve.table.find? scope name = (table.find? scope name).map table.ending := by
  rw [resolve_table, find?_map]

theorem resolve_keys (table : Symbols) : table.resolve.table.keys = table.keys := by
  rw [resolve_table, keys_map]

theorem WellFormed.leastSolution (wf : table.WellFormed) : table.LeastSolution table.resolve where
  keys := resolve_keys table
  settled := fun t ht => resolve_isPending ht
  kept := by
    intro s hs hp
    rw [find?_resolve, wf.find?_of_mem hs, Option.map_some, ending_of_not_pending hp]
  solved := by
    intro s hs p hp
    have hnone : s.value? = none := wf.exclusive s hs (Symbol.isPending_of_pending? hp)
    refine ⟨(table.ending s).value?, ?_, ?_⟩
    · rw [find?_resolve, wf.find?_of_mem hs, Option.map_some,
        ending_of_pending wf.exclusive hs hp]
      cases p.expr.eval ((rounds table.size table).table.context p.scope p.address) <;> rfl
    · intro v
      rw [ending_of_pending wf.exclusive hs hp, derives_iff wf.exclusive table.resolve_stable]
      cases p.expr.eval ((rounds table.size table).table.context p.scope p.address) <;> simp [hnone]
  blamed := by
    intro s _ p hp
    simp only [blames_of_pending wf.exclusive hp, derives_iff wf.exclusive table.resolve_stable]
    cases p.expr.eval ((rounds table.size table).table.context p.scope p.address) <;> simp
  errors := by
    refine ⟨fun s => ((rounds table.size table).table.verdict s).map Prod.snd, ?_, ?_⟩
    · intro s err
      rw [blames_iff_verdict wf.exclusive]
      change ((rounds table.size table).table.verdict s).map Prod.snd = some err ↔ _
      nth_rewrite 2 [verdict_location]
      simp
    · refine (resolve_errors wf.exclusive).trans (.of_eq (List.filterMap_congr fun s _ => ?_))
      exact verdict_location _ s

structure SameEnd (table table' : Symbols) : Prop where
  values : ∀ scope name,
    (table.resolve.table.find? scope name).map (fun s => (s.kind, s.value?)) =
      (table'.resolve.table.find? scope name).map fun s => (s.kind, s.value?)
  blames : ∀ s err, table.Blames s err ↔ table'.Blames s err
  errors : table.resolve.errors.Perm table'.resolve.errors

theorem Alike.ending_eq {t : Symbol} (h : table.Alike table') (wf : table.WellFormed)
    (wf' : table'.WellFormed) (hs : s ∈ table.toList) (ht : t ∈ table'.toList)
    (hcontent : s.content = t.content) :
    ((table.ending s).kind, (table.ending s).value?) =
      ((table'.ending t).kind, (table'.ending t).value?) := by
  cases hp : s.pending? with
  | some p =>
      cases Symbol.eq_of_content (Symbol.isPending_of_pending? hp) hcontent
      rw [ending_of_pending wf.exclusive hs hp, ending_of_pending wf'.exclusive ht hp,
        h.eval_eq wf wf']
  | none =>
      have hsettled : s.isPending = false := Symbol.isPending_eq_false.mpr hp
      have hsettled' : t.isPending = false := Symbol.isPending_of_content hcontent ▸ hsettled
      rw [ending_of_not_pending hsettled, ending_of_not_pending hsettled']
      exact congrArg (fun c => (c.2.1, c.2.2.1)) hcontent

theorem filterMap_verdict (final : Symbols) (symbols : List Symbol) :
    symbols.filterMap final.verdict = (symbols.filter Symbol.isPending).filterMap final.verdict := by
  rw [List.filterMap_filter]
  apply List.filterMap_congr
  intro s _
  cases hs : s.pending? <;> simp [verdict, Symbol.isPending, hs]

theorem Alike.sameEnd (h : table.Alike table') (wf : table.WellFormed)
    (wf' : table'.WellFormed) : table.SameEnd table' where
  values := by
    intro scope name
    have hsame := h scope name
    rw [find?_resolve, find?_resolve]
    cases hs : table.find? scope name with
    | none =>
        have ht : table'.find? scope name = none := by simpa [hs] using hsame.symm
        rw [ht]
        rfl
    | some s =>
        rw [hs] at hsame
        obtain ⟨t, ht, hcontent⟩ := Option.map_eq_some_iff.mp hsame.symm
        rw [ht]
        exact congrArg some (h.ending_eq wf wf' (find?_mem hs) (find?_mem ht) hcontent.symm)
  blames := fun _ _ => h.blames_iff wf wf'
  errors := by
    have hfiltered := (h.pending_perm wf wf').filterMap (rounds table'.size table').table.verdict
    rw [← filterMap_verdict, ← filterMap_verdict] at hfiltered
    exact (h.verdict_eq wf wf' ▸ resolve_errors wf.exclusive).trans
      (hfiltered.trans (resolve_errors wf'.exclusive).symm)

theorem accepts_append (table : Symbols) (ds : List Definition) (d : Definition) :
    table.Accepts (ds ++ [d]) ↔
      table.Accepts ds ∧ (d.add (ds.foldl Definition.apply table)).1 = .ok () := by
  induction ds generalizing table with
  | nil => simp [Accepts]
  | cons first ds ih => simp [Accepts, ih, and_assoc]

theorem accepts_concat :
    empty.Accepts (ds ++ [d]) ↔ empty.Accepts ds ∧ (d.add (build ds)).1 = .ok () :=
  accepts_append empty ds d

theorem find?_build_eq_none : (build ds).find? scope name = none ↔
    ∀ d ∈ ds, d.symbol.key ≠ (scope, name) := by
  rw [find?_build, find?_eq_none_iff]
  simp [keys]

theorem mem_of_find?_build (h : (build ds).find? scope name = some s) :
    ∃ d ∈ ds, d.symbol = s := by
  rw [find?_build] at h
  simpa [toList] using find?_mem h

theorem content_of_pairwise (h : ds.Pairwise Definition.Agree) {d d' : Definition} (hd : d ∈ ds)
    (hd' : d' ∈ ds) (hkey : d.symbol.key = d'.symbol.key) :
    d.symbol.content = d'.symbol.content := by
  let R : Definition → Definition → Prop := fun d d' =>
    d.symbol.key = d'.symbol.key → d.symbol.content = d'.symbol.content
  have : Std.Symm R := ⟨fun _ _ h hkey => (h hkey.symm).symm⟩
  have hweak : ds.Pairwise R := h.imp fun h hkey => (h hkey).2
  exact hweak.forall_of_forall (fun _ _ _ => rfl) hd hd' hkey

theorem add_build_iff (h : ds.Pairwise Definition.Agree) :
    (d.add (build ds)).1 = .ok () ↔ ∀ d' ∈ ds, d'.Agree d := by
  have wf := build_wellFormed ds
  constructor
  · intro haccepted d' hd' hkey
    have hadd : d.add (build ds) = (.ok (), d.apply (build ds)) := by
      rw [← haccepted]
      rfl
    rcases wf.add_eq_ok.mp hadd with ⟨hnone, -⟩ | ⟨s, hs, hp, hcontent, -⟩
    · exact absurd hkey (find?_build_eq_none.mp hnone d' hd')
    · -- The definition that stands is the first one; the others agree with it.
      obtain ⟨first, hfirst, rfl⟩ := mem_of_find?_build hs
      have hsame := content_of_pairwise h hd' hfirst (hkey.trans (wf.find?_key hs).symm)
      exact ⟨Symbol.isPending_of_content hsame ▸ hp, hsame.trans hcontent⟩
  · intro hagree
    cases hf : (build ds).find? d.symbol.scope d.symbol.name with
    | none => rw [add_of_find?_none hf]
    | some s =>
        obtain ⟨first, hfirst, rfl⟩ := mem_of_find?_build hf
        obtain ⟨hp, hcontent⟩ := hagree first hfirst (wf.find?_key hf)
        rw [wf.add_eq_ok.mpr (.inr ⟨_, hf, hp, hcontent, rfl⟩)]

theorem accepts_iff : empty.Accepts ds ↔ ds.Pairwise Definition.Agree := by
  induction ds using List.reverseRecOn with
  | nil => exact ⟨fun _ => .nil, fun _ => trivial⟩
  | append_singleton ds d ih =>
      rw [accepts_concat, ih, List.pairwise_append]
      constructor
      · rintro ⟨hds, hadd⟩
        have hagree := (add_build_iff hds).mp hadd
        refine ⟨hds, List.pairwise_singleton .., ?_⟩
        rintro d' hd' _ hd
        cases List.mem_singleton.mp hd
        exact hagree d' hd'
      · rintro ⟨hds, -, hagree⟩
        refine ⟨hds, (add_build_iff hds).mpr fun d' hd' => ?_⟩
        exact hagree d' hd' d (List.mem_singleton_self d)

theorem content_of_accepts (h : empty.Accepts ds) (hd : d ∈ ds) :
    ((build ds).find? d.symbol.scope d.symbol.name).map Symbol.content =
      some d.symbol.content := by
  cases hf : (build ds).find? d.symbol.scope d.symbol.name with
  | none => exact absurd rfl (find?_build_eq_none.mp hf d hd)
  | some s =>
      obtain ⟨first, hfirst, rfl⟩ := mem_of_find?_build hf
      exact congrArg some (content_of_pairwise (accepts_iff.mp h) hfirst hd
        ((build_wellFormed ds).find?_key hf))

theorem accepts_perm (h : empty.Accepts ds) (hperm : ds.Perm ds') :
    empty.Accepts ds' ∧ (build ds).Alike (build ds') := by
  have h' : empty.Accepts ds' :=
    accepts_iff.mpr ((hperm.pairwise_iff Definition.Agree.symm).mp (accepts_iff.mp h))
  refine ⟨h', ?_⟩
  intro scope name
  cases hf : (build ds).find? scope name with
  | none =>
      have hnone : (build ds').find? scope name = none :=
        find?_build_eq_none.mpr fun d hd => find?_build_eq_none.mp hf d (hperm.mem_iff.mpr hd)
      rw [hnone]
  | some s =>
      obtain ⟨d, hd, rfl⟩ := mem_of_find?_build hf
      obtain ⟨rfl, rfl⟩ := Prod.mk.inj ((build_wellFormed ds).find?_key hf)
      rw [content_of_accepts h' (hperm.mem_iff.mp hd)]
      rfl

theorem resolve_least_solution (ds : List Definition) :
    (∀ n, (build ds).size ≤ n → rounds n (build ds) = rounds (build ds).size (build ds)) ∧
    (rounds (build ds).size (build ds)).table.progresses = false ∧
    (build ds).LeastSolution (build ds).resolve ∧
    (∀ ds', (build ds).Alike (build ds') → (build ds).SameEnd (build ds')) ∧
    ∀ ds', empty.Accepts ds → ds.Perm ds' → empty.Accepts ds' ∧ (build ds).SameEnd (build ds') := by
  have hsame : ∀ ds', (build ds).Alike (build ds') → (build ds).SameEnd (build ds') :=
    fun ds' h => h.sameEnd (build_wellFormed ds) (build_wellFormed ds')
  refine ⟨fun n hn => rounds_of_size_le hn, (build ds).resolve_stable,
    (build_wellFormed ds).leastSolution, hsame, ?_⟩
  intro ds' haccepts hperm
  obtain ⟨haccepts', halike⟩ := accepts_perm haccepts hperm
  exact ⟨haccepts', hsame ds' halike⟩

end Symbols

end Z80
