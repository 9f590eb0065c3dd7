import Z80.BuildStamp
import Z80.Selection
import Z80.Statement.Parser
import Z80.Symbols

namespace Z80

structure Slot where
  placeholder : Placeholder
  offset : Nat
  value? : Option Int32
deriving DecidableEq

structure Fixup where
  line : Nat
  offset : Nat
  placeholder : Placeholder
  expr : Expr
deriving DecidableEq

inductive Item where
  | instruction (selection : Selection) (slots : List Slot)
  | data (width : DataWidth) (items : List DataItem)
  | fill (count : Nat) (fill : Option Expr) (default : UInt8)
  | org (address : UInt16)
deriving DecidableEq

def DataItem.size (stamp : BuildStamp) (loc : Location) (width : DataWidth) : DataItem → Nat
  | expr _ => width.size
  | text bytes _ => bytes.length
  | predefined p => (stamp.text loc p).utf8ByteSize

def dataSize (stamp : BuildStamp) (loc : Location) (width : DataWidth) : List DataItem → Nat
  | [] => 0
  | item :: items => item.size stamp loc width + dataSize stamp loc width items

namespace Item

def size (stamp : BuildStamp) (loc : Location) : Item → Nat
  | instruction selection _ => selection.variant.byteCount
  | data width items => dataSize stamp loc width items
  | fill count _ _ => count
  | org _ => 0

def next (stop : Nat) : Item → Nat
  | org address => address.toNat
  | instruction _ _ | data _ _ | fill _ _ _ => stop

end Item

def advance (address size : Nat) : Nat :=
  (address + size) % 0x100000000

structure PlannedLine where
  location : Location
  address : Nat
  scope : Option Nat
  size : Nat
  item : Item
deriving DecidableEq

namespace PlannedLine

def stop (line : PlannedLine) : Nat :=
  advance line.address line.size

def next (line : PlannedLine) : Nat :=
  line.item.next line.stop

end PlannedLine

structure Environment where
  instructionSet : InstructionSet
  allowUndocumented : Bool
  stamp : BuildStamp
deriving DecidableEq

def Label.scopeIn (block : Option Nat) (label : Label) : Option Nat :=
  if label.isGlobal then none else block

structure Layout where
  address : Nat
  symbols : Symbols
  scope : Option Nat
  scopesOpened : Nat
  target : Target
  planned : List PlannedLine
  fixups : List Fixup
  addresses : List (Location × UInt16)
  errors : List (Location × Error)
deriving DecidableEq

def planSlots (ctx : Context) (spelling : String) :
    Nat → List OpcodeItem → List Binding → Except Error (List Slot)
  | _, [], _ => .ok []
  | offset, .byte _ :: opcode, bound => planSlots ctx spelling (offset + 1) opcode bound
  | _, .slot _ :: _, [] => .error (.ambiguousEncoding (.missingOperand spelling))
  | offset, .slot p :: opcode, b :: bound =>
      if b.expr.isClosed then do
        let v ← b.expr.value ctx
        let slots ← planSlots ctx spelling (offset + p.width) opcode bound
        return ⟨p, offset, some v⟩ :: slots
      else do
        let slots ← planSlots ctx spelling (offset + p.width) opcode bound
        return ⟨p, offset, none⟩ :: slots

def planFixups (ctx : Context) (line : Nat) :
    Nat → List OpcodeItem → List Binding → List Fixup
  | offset, .byte _ :: opcode, bound => planFixups ctx line (offset + 1) opcode bound
  | offset, .slot p :: opcode, b :: bound =>
      if b.expr.isClosed then match b.expr.value ctx with
        | .ok _ => planFixups ctx line (offset + p.width) opcode bound
        | .error _ => []
      else ⟨line, offset, p, b.expr⟩ :: planFixups ctx line (offset + p.width) opcode bound
  | _, _, _ => []

namespace Layout

def predefine (defines : List (String × Int32)) : Symbols :=
  defines.foldl (fun table d => (table.define none d.1 .constant d.2 ⟨0, 0⟩).2) Symbols.empty

def start (address : UInt16) (defines : List (String × Int32)) : Layout where
  address := address.toNat
  symbols := predefine defines
  scope := none
  scopesOpened := 0
  target := .bin
  planned := []
  fixups := []
  addresses := []
  errors := []

def here (layout : Layout) : UInt16 :=
  UInt16.ofNat layout.address

def context (layout : Layout) : Context :=
  layout.symbols.context layout.scope layout.here

def fail (layout : Layout) (loc : Location) (e : Error) : Layout :=
  { layout with errors := layout.errors ++ [(loc, e)] }

def count (layout : Layout) (e : Expr) : Except Error Nat := do
  let n ← e.value layout.context
  if n.toInt > 0x10000 then .error (.operandOutOfRange n.toInt .imm16)
  else if n.toInt < 0 then .error (.arithmetic (.negativeCount n))
  else return n.toInt.toNat

def origin (layout : Layout) (e : Expr) : Except Error UInt16 := do
  let v ← e.value layout.context
  if 0 ≤ v.toInt ∧ v.toInt < 0x10000 then return UInt16.ofNat v.toInt.toNat
  else .error (.operandOutOfRange v.toInt .imm16)

def place (layout : Layout) (stamp : BuildStamp) (loc : Location) (item : Item)
    (fixups : List Fixup) : Except Error Layout :=
  let size := item.size stamp loc
  let stop := advance layout.address size
  if 0 < size ∧ 0x10000 < stop then .error (.operandOutOfRange (stop - 1 : Nat) .imm16)
  else
    .ok { layout with
      address := item.next stop
      planned := layout.planned ++ [⟨loc, layout.address, layout.scope, size, item⟩]
      fixups := layout.fixups ++ fixups }

def constantValue (layout : Layout) (e : Expr) : Except Error Evaluated :=
  if layout.scope.isSome && !e.isClosed then .ok (.unresolved e)
  else (e.evalTolerant layout.context).mapError .arithmetic

def defineSymbol (layout : Layout) (loc : Location) (statement : Option Statement) (label : Label) :
    Except Error Unit × Symbols :=
  match statement with
  | some (.equ e) => match layout.constantValue e with
      | .error fault => (.error fault, layout.symbols)
      | .ok (.value v) =>
          layout.symbols.define (label.scopeIn layout.scope) label.name .constant v loc
      | .ok (.unresolved e) =>
          layout.symbols.definePending (label.scopeIn layout.scope) label.name e layout.here loc
  | _ => layout.symbols.define (label.scopeIn layout.scope) label.name .label
      (Int32.ofNat layout.address) loc

def defineLabel (layout : Layout) (loc : Location) (line : Line) : Except Error Unit × Layout :=
  match line.label with
  | none => (.ok (), layout)
  | some label =>
      let answer := layout.defineSymbol loc line.statement label
      (answer.1, { layout with symbols := answer.2 })

def placeInstruction (layout : Layout) (env : Environment) (loc : Location) (mnemonic : String)
    (operands : List Token) : Except Error Layout := do
  let ctx := layout.context
  let selection ←
    env.instructionSet.select env.allowUndocumented ctx mnemonic operands
  let slots ← planSlots ctx (selection.variant.spelling mnemonic) 0 selection.variant.opcode
    selection.bound
  layout.place env.stamp loc (.instruction selection slots)
    (planFixups ctx layout.planned.length 0 selection.variant.opcode selection.bound)

def padding (boundary address : Nat) : Nat :=
  (boundary - address % boundary) % boundary

def perform (layout : Layout) (env : Environment) (loc : Location) :
    Statement → Except Error Layout
  | .equ _ => .ok layout
  | .instruction mnemonic operands => layout.placeInstruction env loc mnemonic operands
  | .data width items => layout.place env.stamp loc (.data width items) []
  | .org e => do
      let address ← layout.origin e
      layout.place env.stamp loc (.org address) []
  | .segment _ none => .ok layout
  | .segment _ (some e) => do
      let address ← layout.origin e
      layout.place env.stamp loc (.org address) []
  | .align boundary fill => do
      let n ← layout.count boundary
      if n = 0 then .error (.arithmetic .zeroAlignment)
      else
        let item := Item.fill (padding n layout.address) fill layout.target.fill
        layout.place env.stamp loc item []
  | .fill count fill => do
      let n ← layout.count count
      layout.place env.stamp loc (.fill n fill layout.target.fill) []
  | .openLocal =>
      if layout.scope.isSome then .error (.syntactic .nestedLocal)
      else .ok { layout with
        scope := some layout.scopesOpened
        scopesOpened := layout.scopesOpened + 1 }
  | .closeLocal =>
      if layout.scope.isSome then .ok { layout with scope := none }
      else .error (.syntactic .unopenedLocal)
  | .target t => .ok { layout with target := t }

def leave (layout : Layout) (env : Environment) : Statement → Layout
  | .instruction mnemonic operands =>
      let ctx := layout.context
      match env.instructionSet.select env.allowUndocumented ctx mnemonic operands with
      | .error _ => layout
      | .ok selection =>
          { layout with fixups := layout.fixups ++
              planFixups ctx layout.planned.length 0 selection.variant.opcode selection.bound }
  | _ => layout

def mark (layout : Layout) (loc : Location) : Layout :=
  { layout with addresses := layout.addresses ++ [(loc, layout.here)] }

def step (layout : Layout) (env : Environment) (loc : Location) (line : Line) : Layout :=
  let marked := layout.mark loc
  match marked.defineLabel loc line with
  | (.error e, labelled) => labelled.fail loc e
  | (.ok (), labelled) => match line.statement with
      | none => labelled
      | some statement => match labelled.perform env loc statement with
          | .error e => (labelled.leave env statement).fail loc e
          | .ok next => next

def stepRead (env : Environment) (layout : Layout) (source : Location × Except Error Line) :
    Layout :=
  match source.2 with
  | .error e => layout.fail source.1 e
  | .ok line => layout.step env source.1 line

def finish (layout : Layout) : Layout :=
  let resolution := layout.symbols.resolve
  { layout with
    symbols := resolution.table
    errors := layout.errors ++ resolution.errors }

def ofLines (env : Environment) (layout : Layout) (source : List (Location × Except Error Line)) :
    Layout :=
  (source.foldl (stepRead env) layout).finish

end Layout

end Z80
