import Mathlib
import Z80.Proofs.Program

namespace Z80

namespace Config

variable {config : Config} {seconds : Nat} {files : List SourceFile} {n : Nat} {loc : Location}
  {line : Line} {label : Label} {e : Expr}

theorem constant_known (clean : (config.program seconds files).errors = []) {v : Int32}
    (hlt : n < (readLines files).length)
    (hv : (config.before seconds files n).constantValue e = .ok (.value v)) (label : Label) :
    e.eval ((config.program seconds files).symbols.context
      (label.scopeIn (blockAt (readLines files) n)) (config.before seconds files n).here) =
      .ok v := by
  obtain ⟨heval, hcase⟩ := Layout.constantValue_eq_value hv
  rcases hcase with hscope | hclosed
  · -- Outside of a block a name can only be global, so its value stays.
    have hnone : label.scopeIn (blockAt (readLines files) n) = none := by
      rw [← before_scope clean hlt.le, hscope]
      simp [Label.scopeIn]
    rw [hnone]
    rw [Layout.context, hscope] at heval
    exact Expr.eval_ok_of_extends ((before_keeps config seconds files hlt.le).extends_global _) heval
  · rw [← heval]
    exact Expr.eval_of_isClosed hclosed rfl

theorem equ_value (clean : (config.program seconds files).errors = [])
    (hn : (readLines files)[n]? = some (loc, .ok line)) (hlabel : line.label = some label)
    (hequ : line.statement = some (.equ e)) :
    ∃ s v, (config.program seconds files).symbols.find?
        (label.scopeIn (blockAt (readLines files) n)) label.name = some s ∧
      s.value? = some v ∧
      e.eval ((config.program seconds files).symbols.context
        (label.scopeIn (blockAt (readLines files) n)) (config.before seconds files n).here) =
        .ok v := by
  have hlt : n < (readLines files).length := (List.getElem?_eq_some_iff.mp hn).1
  have hscope : (config.before seconds files n).scope = blockAt (readLines files) n :=
    before_scope clean hlt.le
  cases label_defines clean hn hlabel with
  | @constant e' v _ he hv hdefine =>
      rw [hequ] at he
      cases he
      obtain ⟨s, hs, -, hvalue⟩ := Symbols.define_find? hdefine
      refine ⟨s, v, ?_, hvalue, constant_known clean hlt hv label⟩
      rw [← hscope]
      exact (before_keeps config seconds files hlt).known _ _ s v hs hvalue
  | @pending e' _ he _ hdefine =>
      rw [hequ] at he
      cases he
      have hs := Symbols.definePending_find? hdefine
      have hlast := (before_grows config seconds files hlt).kept _ _ _ hs
      obtain ⟨t, v, ht, hvalue, heval⟩ :=
        (before_exclusive config seconds files).resolve_solves (program_clean clean).2 hlast rfl
      rw [← hscope, program_eq]
      exact ⟨t, v, ht, hvalue, heval⟩
  | label hne _ => exact absurd hequ (hne e)

def Unhidden (table : Symbols) (block : Option Nat) (label : Label) (e : Expr) : Prop :=
  label.isGlobal = true → ∀ b, block = some b → ∀ x ∈ e.symbols, ∀ t,
    table.find? (some b) x = some t → table.value? none x = t.value?

theorem value?_of_find? {table : Symbols} {scope : Option Nat} {x : String} {t : Symbol}
    (h : table.find? scope x = some t) : table.value? scope x = t.value? := by
  rw [Symbols.value?, Symbols.lookup_of_find? h]
  rfl

theorem value?_of_absent {table : Symbols} {scope : Option Nat} {x : String}
    (h : table.find? scope x = none) : table.value? scope x = table.value? none x := by
  rw [Symbols.value?, Symbols.lookup_of_absent h]
  rfl

theorem unhidden_iff {table : Symbols} {block : Option Nat} :
    Unhidden table block label e ↔
      ∀ x ∈ e.symbols, table.value? block x = table.value? (label.scopeIn block) x := by
  constructor
  · intro h x hx
    cases hglobal : label.isGlobal with
    | false => simp [Label.scopeIn, hglobal]
    | true =>
        simp only [Label.scopeIn, hglobal, if_true]
        cases block with
        | none => rfl
        | some b =>
            cases ht : table.find? (some b) x with
            | none => exact value?_of_absent ht
            | some t => rw [value?_of_find? ht, h hglobal b rfl x hx t ht]
  · rintro h hglobal b rfl x hx t ht
    have hsame := h x hx
    rw [value?_of_find? ht] at hsame
    simpa [Label.scopeIn, hglobal] using hsame.symm

theorem evals_alike_iff {table : Symbols} {block scope : Option Nat} {here : UInt16} :
    (∀ e' : Expr, e'.symbols ⊆ e.symbols →
      e'.eval (table.context block here) = e'.eval (table.context scope here)) ↔
    ∀ x ∈ e.symbols, table.value? block x = table.value? scope x := by
  constructor
  · intro h x hx
    have hsame := h (.symbol x) (by simpa [Expr.symbols] using hx)
    simp only [Expr.eval, Symbols.context] at hsame
    generalize table.value? block x = v at hsame ⊢
    generalize table.value? scope x = w at hsame ⊢
    cases v <;> cases w <;> simp_all
  · intro h e' hsub
    refine Expr.eval_congr ?_ fun x hx => h x (hsub hx)
    rfl

theorem equ_means_iff (config : Config) (seconds : Nat) (files : List SourceFile) (a : Assembly)
    (h : config.assemble seconds files = .ok a) (n : Nat) (loc : Location) (line : Line)
    (label : Label) (e : Expr) (hn : (readLines files)[n]? = some (loc, .ok line))
    (hlabel : line.label = some label) (hequ : line.statement = some (.equ e)) :
    ∃ here s v, a.addresses[n]? = some (loc, here) ∧
      a.symbols.find? (label.scopeIn (blockAt (readLines files) n)) label.name = some s ∧
      s.value? = some v ∧
      e.eval (a.symbols.context (label.scopeIn (blockAt (readLines files) n)) here) = .ok v ∧
      (Unhidden a.symbols (blockAt (readLines files) n) label e →
        e.eval (a.symbols.context (blockAt (readLines files) n) here) = .ok v) ∧
      (Unhidden a.symbols (blockAt (readLines files) n) label e ↔
        ∀ e' : Expr, e'.symbols ⊆ e.symbols →
          e'.eval (a.symbols.context (blockAt (readLines files) n) here) =
            e'.eval (a.symbols.context (label.scopeIn (blockAt (readLines files) n)) here)) := by
  obtain ⟨clean, -, rfl⟩ := assemble_eq_ok.mp h
  obtain ⟨s, v, hs, hvalue, heval⟩ := equ_value clean hn hlabel hequ
  refine ⟨_, s, v, address_recorded clean hn, hs, hvalue, heval, ?_, ?_⟩
  · intro hnames
    rw [← heval]
    exact evals_alike_iff.mpr (unhidden_iff.mp hnames) e (List.Subset.refl _)
  · rw [unhidden_iff, evals_alike_iff]

def successor : Expr :=
  .binary .add (.symbol "n") (.number 1)

def localSum : List SourceFile :=
  [⟨"<input>", "n equ 1\n#local\nsum equ n+1\nn equ 5\n db sum\n#endlocal\n"⟩]

def globalSum : List SourceFile :=
  [⟨"<input>", "n equ 1\n#local\nsum:: equ n+1\nn equ 5\n#endlocal\n db sum\n"⟩]

theorem localSum_means :
    ∃ a here s v, ({} : Config).assemble 0 localSum = .ok a ∧
      (readLines localSum)[2]? = some (⟨0, 3⟩, .ok ⟨some ⟨"sum", false⟩, some (.equ successor)⟩) ∧
      a.addresses[2]? = some (⟨0, 3⟩, here) ∧
      a.symbols.find? (some 0) "sum" = some s ∧ s.value? = some v ∧
      successor.eval (a.symbols.context (blockAt (readLines localSum) 2) here) = .ok v := by
  have hread : (readLines localSum)[2]? =
      some (⟨0, 3⟩, .ok ⟨some ⟨"sum", false⟩, some (.equ successor)⟩) := by decide +kernel
  have hblock : blockAt (readLines localSum) 2 = some 0 := by decide +kernel
  have ha := (@assemble_eq_ok {} 0 localSum _).mpr ⟨by decide +kernel, by decide +kernel, rfl⟩
  obtain ⟨here, s, v, haddress, hs, hvalue, -, hmeans, -⟩ :=
    equ_means_iff {} 0 localSum _ ha 2 _ _ _ _ hread rfl rfl
  rw [hblock] at hs
  exact ⟨_, here, s, v, ha, hread, haddress, hs, hvalue, hmeans nofun⟩

theorem globalSum_differs :
    ∃ a here s, ({} : Config).assemble 0 globalSum = .ok a ∧ a.image.bytes = [0x02] ∧
      (readLines globalSum)[2]? = some (⟨0, 3⟩, .ok ⟨some ⟨"sum", true⟩, some (.equ successor)⟩) ∧
      a.addresses[2]? = some (⟨0, 3⟩, here) ∧
      a.symbols.find? none "sum" = some s ∧ s.value? = some 2 ∧
      successor.eval (a.symbols.context (blockAt (readLines globalSum) 2) here) = .ok 6 := by
  have ha := (@assemble_eq_ok {} 0 globalSum _).mpr ⟨by decide +kernel, by decide +kernel, rfl⟩
  let sum : Symbol := ⟨"sum", none, .constant, some 2, ⟨0, 3⟩, none⟩
  exact ⟨_, 0, sum, ha, by decide +kernel, by decide +kernel, by decide +kernel, by decide +kernel,
    rfl, by decide +kernel⟩

end Config

end Z80
