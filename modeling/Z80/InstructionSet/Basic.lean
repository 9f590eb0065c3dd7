import Z80.Variant

namespace Z80

structure InstructionSet where
  entries : List (String × List Variant)
deriving DecidableEq

inductive TableError where
  | malformed
  | badToken (text : String)
  | placeholderMismatch (spelling : String)
  | byteCountMismatch (spelling : String) (declared actual : Nat)
  | mnemonicCase (mnemonic : String)
deriving DecidableEq

def TableError.message : TableError → String
  | malformed => "Malformed table"
  | badToken text => s!"Unknown pattern token: `{text}`"
  | placeholderMismatch spelling =>
      s!"Placeholders of `{spelling}` differ between pattern and opcode"
  | byteCountMismatch spelling declared actual =>
      s!"`{spelling}` declares {declared} bytes but its opcode template has {actual}"
  | mnemonicCase mnemonic => s!"Mnemonic `{mnemonic}` must be lowercase"

def PatternToken.read (s : String) : Except TableError PatternToken :=
  match PatternToken.ofText? s with
  | some t => .ok t
  | none => .error (.badToken s)

def Variant.check (v : Variant) (mnemonic : String) : Except TableError Unit :=
  if v.placeholders != v.patternPlaceholders then
    .error (.placeholderMismatch (v.spelling mnemonic))
  else match v.datasheet with
    | none => .ok ()
    | some d =>
        if d.byteCount != v.byteCount then
          .error (.byteCountMismatch (v.spelling mnemonic) d.byteCount v.byteCount)
        else .ok ()

namespace InstructionSet

def variants? (set : InstructionSet) (mnemonic : String) : Option (List Variant) :=
  set.entries.lookup mnemonic

def size (set : InstructionSet) : Nat :=
  set.entries.length

def isEmpty (set : InstructionSet) : Bool :=
  set.entries.isEmpty

def check (set : InstructionSet) : Except TableError Unit :=
  set.entries.forM fun (mnemonic, variants) =>
    if mnemonic.toList.any Char.isUpper then .error (.mnemonicCase mnemonic)
    else variants.forM fun v => v.check mnemonic

end InstructionSet

end Z80
