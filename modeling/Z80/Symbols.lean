import Z80.Error
import Z80.Statement.Basic

namespace Z80

inductive SymbolKind where
  | label | constant
deriving DecidableEq

def SymbolKind.name : SymbolKind → String
  | label => "Label"
  | constant => "Constant"

structure Pending where
  expr : Expr
  address : UInt16
  scope : Option Nat
deriving DecidableEq

structure Symbol where
  name : String
  scope : Option Nat
  kind : SymbolKind
  value? : Option Int32
  definedAt : Location
  pending? : Option Pending
deriving DecidableEq

def Symbol.isPending (s : Symbol) : Bool :=
  s.pending?.isSome

structure Symbols where
  entries : List ((Option Nat × String) × Symbol)
deriving DecidableEq

namespace Symbols

def empty : Symbols :=
  ⟨[]⟩

def toList (table : Symbols) : List Symbol :=
  table.entries.map Prod.snd

def size (table : Symbols) : Nat :=
  table.entries.length

def isEmpty (table : Symbols) : Bool :=
  table.entries.isEmpty

def find? (table : Symbols) (scope : Option Nat) (name : String) : Option Symbol :=
  (table.entries.find? fun entry => entry.1 == (scope, name)).map Prod.snd

def lookup (table : Symbols) (scope : Option Nat) (name : String) : Option Symbol :=
  match scope with
  | some _ => (table.find? scope name).or (table.find? none name)
  | none => table.find? none name

def get? (table : Symbols) (name : String) : Option Symbol :=
  table.lookup none name

def value? (table : Symbols) (scope : Option Nat) (name : String) : Option Int32 :=
  (table.lookup scope name).bind Symbol.value?

def context (table : Symbols) (scope : Option Nat) (address : UInt16) : Context where
  value? := table.value? scope
  here := address

def append (table : Symbols) (key : Option Nat × String) (s : Symbol) : Symbols :=
  ⟨table.entries ++ [(key, s)]⟩

def map (f : Symbol → Symbol) (table : Symbols) : Symbols :=
  ⟨table.entries.map fun entry => (entry.1, f entry.2)⟩

def define (table : Symbols) (scope : Option Nat) (name : String) (kind : SymbolKind)
    (value : Int32) (loc : Location) : Except Error Unit × Symbols :=
  match table.find? scope name with
  | none => (.ok (), table.append (scope, name) ⟨name, scope, kind, some value, loc, none⟩)
  | some previous =>
      if previous.isPending = false ∧ previous.kind = kind ∧ previous.value? = some value then
        (.ok (), table)
      else (.error (.duplicateSymbol name previous.definedAt.line), table)

def definePending (table : Symbols) (scope : Option Nat) (name : String) (e : Expr)
    (address : UInt16) (loc : Location) : Except Error Unit × Symbols :=
  match table.find? scope name with
  | none =>
      (.ok (), table.append (scope, name)
        ⟨name, scope, .constant, none, loc, some ⟨e, address, scope⟩⟩)
  | some previous => (.error (.duplicateSymbol name previous.definedAt.line), table)

def outcome? (table : Symbols) (s : Symbol) : Option (Except ArithmeticFault Int32) :=
  match s.pending? with
  | none => none
  | some p => match p.expr.evalTolerant (table.context p.scope p.address) with
      | .ok (.value v) => some (.ok v)
      | .ok (.unresolved _) => none
      | .error fault => some (.error fault)

def settle (table : Symbols) (s : Symbol) : Symbol :=
  match table.outcome? s with
  | some (.ok v) => { s with pending? := none, value? := some v }
  | some (.error _) => { s with pending? := none }
  | none => s

def fault? (table : Symbols) (s : Symbol) : Option (Location × Error) :=
  match table.outcome? s with
  | some (.error fault) => some (s.definedAt, .arithmetic fault)
  | _ => none

def progresses (table : Symbols) : Bool :=
  table.toList.any fun s => (table.outcome? s).isSome

def round (table : Symbols) : Symbols :=
  table.map table.settle

def roundErrors (table : Symbols) : List (Location × Error) :=
  table.toList.filterMap table.fault?

structure Resolution where
  table : Symbols
  errors : List (Location × Error)
deriving DecidableEq

def rounds : Nat → Symbols → Resolution
  | 0, table => ⟨table, []⟩
  | n + 1, table =>
      if table.progresses then
        let next := rounds n table.round
        ⟨next.table, table.roundErrors ++ next.errors⟩
      else ⟨table, []⟩

def missing (table : Symbols) (s : Symbol) (p : Pending) : String :=
  (p.expr.symbols.find? fun name => (table.value? p.scope name).isNone).getD s.name

def stuck? (table : Symbols) (s : Symbol) : Option (Location × Error) :=
  s.pending?.map fun p => (s.definedAt, .undefinedSymbol (table.missing s p))

def giveUp (s : Symbol) : Symbol :=
  { s with pending? := none }

def resolve (table : Symbols) : Resolution :=
  let settled := rounds table.size table
  ⟨settled.table.map giveUp,
    settled.errors ++ settled.table.toList.filterMap settled.table.stuck?⟩

end Symbols

end Z80
