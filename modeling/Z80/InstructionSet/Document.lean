import Z80.InstructionSet.Basic
import Z80.Json.Parser

namespace Z80

namespace OpcodeItem

def ofJson? : Json → Option OpcodeItem
  | .string name => (name.bind Placeholder.ofName?).map slot
  | .object [(name, .null)] => (name.bind Placeholder.ofName?).map slot
  | j => (j.natBelow? 256).map fun n => byte (UInt8.ofNat n)

end OpcodeItem

def Datasheet.fieldNames : List String :=
  ["opcodes", "undocumented", "flags", "byte_count", "with_jump_clock_count",
   "without_jump_clock_count", "description", "instruction"]

def Datasheet.ofJson? (j : Json) : Option Datasheet := do
  match ← j.fields? fieldNames with
  | [some opcodes, some undocumented, some flags, some byteCount, some clocks,
      some clocksSkipped, some description, some instruction] =>
      let opcodes ← opcodes.string?
      let undocumented ← undocumented.bool?
      let flags ← flags.string?
      let byteCount ← byteCount.natBelow? 18446744073709551616
      let clocks ← clocks.natBelow? 4294967296
      let clocksSkipped ← clocksSkipped.natBelow? 4294967296
      let description ← description.string?
      let instruction ← instruction.string?
      return ⟨opcodes, undocumented, flags, byteCount, clocks, clocksSkipped, description,
        instruction⟩
  | _ => none

namespace Variant

def datasheetOfJson? : Option Json → Option (Option Datasheet)
  | none | some .null => some none
  | some j => (Datasheet.ofJson? j).map some

def ofJson? (j : Json) : Option Variant := do
  match ← j.fields? ["tokens", "opcode", "clr"] with
  | [some tokens, some opcode, clr] =>
      let pattern ← tokens.list? fun t => t.string?.bind PatternToken.ofText?
      let opcode ← opcode.list? OpcodeItem.ofJson?
      let datasheet ← datasheetOfJson? clr
      return ⟨pattern, opcode, datasheet⟩
  | _ => none

end Variant

namespace InstructionSet

def variantsOfJson? (j : Json) : Option (List Variant) := do
  match ← j.fields? ["variants"] with
  | [some variants] => variants.list? Variant.ofJson?
  | _ => none

def setEntry (entries : List (String × List Variant)) (entry : String × List Variant) :
    List (String × List Variant) :=
  if entries.any fun e => e.1 == entry.1 then
    entries.map fun e => if e.1 == entry.1 then entry else e
  else entries ++ [entry]

def ofJson? (j : Json) : Option InstructionSet := do
  match ← j.fields? ["mnemonics"] with
  | [some mnemonics] =>
      let members ← mnemonics.members?
      let entries ← members.mapM fun (mnemonic, j) =>
        (variantsOfJson? j).map fun variants => (mnemonic, variants)
      return ⟨entries.foldl setEntry []⟩
  | _ => none

def ofText (text : String) : Except TableError InstructionSet :=
  match (Json.parse text).bind ofJson? with
  | none => .error .malformed
  | some set => do
      set.check
      return set

end InstructionSet

end Z80
