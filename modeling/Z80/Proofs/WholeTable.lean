import Mathlib
import Z80.Proofs.Capture
import Z80.Proofs.TwoPasses

namespace Z80

namespace Placeholder

def Admits (next : Nat) (p : Placeholder) (v : Int) : Prop :=
  match p with
  | imm8 | disp8 => -128 ≤ v ∧ v ≤ 255
  | imm16 => -32768 ≤ v ∧ v ≤ 65535
  | branch => -128 ≤ v - next ∧ v - next ≤ 127

instance (next : Nat) (p : Placeholder) (v : Int) : Decidable (p.Admits next v) :=
  match p with
  | imm8 | disp8 => inferInstanceAs (Decidable (-128 ≤ v ∧ v ≤ 255))
  | imm16 => inferInstanceAs (Decidable (-32768 ≤ v ∧ v ≤ 65535))
  | branch => inferInstanceAs (Decidable (-128 ≤ v - next ∧ v - next ≤ 127))

def bytesOf (next : Nat) (p : Placeholder) (v : Int) : List UInt8 :=
  match p with
  | imm8 | disp8 => [UInt8.ofInt v]
  | imm16 => [UInt8.ofInt v, UInt8.ofInt (v / 256)]
  | branch => [UInt8.ofInt (v - next)]

variable {next : Nat} {p : Placeholder} {v : Int}

theorem Admits.range (hnext : next ≤ 0x10000) (h : p.Admits next v) :
    -2147483648 < v ∧ v < 2147483648 := by
  cases p <;> (simp only [Admits] at h; omega)

theorem encode_ofInt (hnext : next ≤ 0x10000) (h : p.Admits next v) :
    p.encode (Int32.ofInt v) next = .ok (p.bytesOf next v) := by
  have hrange := h.range hnext
  have hvalue : (Int32.ofInt v).toInt = v := Int32.toInt_ofInt_of_le (by omega) (by omega)
  cases p with
  | imm8 | imm16 | disp8 =>
      simp only [Admits] at h
      simp [encode, check, accepts, least, greatest, hvalue, h, width, littleEndian, bytesOf,
        UInt8.ofInt, bind, Except.bind, pure, Except.pure]
  | branch =>
      simp only [Admits] at h
      simp [encode, accepts, least, greatest, hvalue, h, width, littleEndian, bytesOf, UInt8.ofInt]

end Placeholder

def filled (next : Nat) : List OpcodeItem → List Int → List UInt8
  | [], _ => []
  | .byte b :: opcode, values => b :: filled next opcode values
  | .slot p :: opcode, v :: values => p.bytesOf next v ++ filled next opcode values
  | .slot _ :: _, [] => []

section Filling

variable {ctx : Context} {next : Nat} {opcode : List OpcodeItem} {values : List Int}

theorem directBytes_numbersFor (hnext : next ≤ 0x10000) (h : List.Forall₂ (Placeholder.Admits next)
      (opcode.filterMap OpcodeItem.placeholder?) values) :
    directBytes ctx next opcode (numbersFor (opcode.filterMap OpcodeItem.placeholder?) values) =
      some (filled next opcode values) := by
  induction opcode generalizing values with
  | nil => rfl
  | cons item opcode ih =>
      cases item with
      | byte b => exact directBytes_byte.mpr ⟨_, ih h, rfl⟩
      | slot p =>
          cases h with
          | cons hv hvalues =>
              exact directBytes_slot.mpr
                ⟨_, _, _, rfl, Placeholder.encode_ofInt hnext hv, ih hvalues, rfl⟩

theorem planSlots_numbersFor (ctx : Context) (spelling : String)
    (h : (opcode.filterMap OpcodeItem.placeholder?).length = values.length) : ∀ offset,
    ∃ slots, planSlots ctx spelling offset opcode
      (numbersFor (opcode.filterMap OpcodeItem.placeholder?) values) = .ok slots := by
  induction opcode generalizing values with
  | nil => exact fun offset => ⟨[], rfl⟩
  | cons item opcode ih =>
      intro offset
      cases item with
      | byte b => exact ih h (offset + 1)
      | slot p =>
          cases values with
          | nil => cases h
          | cons v values =>
              obtain ⟨slots, hslots⟩ := ih (Nat.succ.inj h) (offset + p.width)
              refine ⟨⟨p, offset, some (Int32.ofInt v)⟩ :: slots, ?_⟩
              have hbound : numbersFor ((OpcodeItem.slot p :: opcode).filterMap
                  OpcodeItem.placeholder?) (v :: values) = ⟨p, .number (Int32.ofInt v)⟩ ::
                    numbersFor (opcode.filterMap OpcodeItem.placeholder?) values := rfl
              have hvalue : (Expr.number (Int32.ofInt v)).value ctx = .ok (Int32.ofInt v) := rfl
              have hclosed : (Expr.number (Int32.ofInt v)).isClosed = true := rfl
              simp [hbound, planSlots, hclosed, hvalue, hslots, bind, Except.bind, pure, Except.pure]

end Filling

theorem Layout.stepRead_instruction {env : Environment} {layout : Layout} {loc : Location}
    {mnemonic : String} {ts : List Token} {selection : Selection} {slots : List Slot}
    (hselect : env.instructionSet.select env.allowUndocumented (layout.mark loc).context mnemonic
      ts = .ok selection)
    (hslots : planSlots (layout.mark loc).context (selection.variant.spelling mnemonic) 0
      selection.variant.opcode selection.bound = .ok slots)
    (hroom : layout.address + selection.variant.byteCount ≤ 0x10000) :
    ∃ fixups, stepRead env layout (loc, .ok ⟨none, some (.instruction mnemonic ts)⟩) =
      (layout.mark loc).withItem env.stamp loc (.instruction selection slots) fixups := by
  have hstop : ((layout.mark loc).lineOf env.stamp loc (.instruction selection slots)).stop ≤
      0x10000 :=
    (advance_eq_add (Nat.lt_of_le_of_lt hroom (by decide))).trans_le hroom
  have hperform : (layout.mark loc).perform env loc (.instruction mnemonic ts) =
      .ok ((layout.mark loc).withItem env.stamp loc (.instruction selection slots)
        (planFixups (layout.mark loc).context (layout.mark loc).planned.length 0
          selection.variant.opcode selection.bound)) :=
    bind_eq_ok.mpr ⟨selection, hselect, bind_eq_ok.mpr ⟨slots, hslots,
      place_eq_ok.mpr ⟨fun _ => hstop, rfl⟩⟩⟩
  refine ⟨planFixups (layout.mark loc).context (layout.mark loc).planned.length 0
    selection.variant.opcode selection.bound, ?_⟩
  simp only [stepRead, step, defineLabel, hperform]

namespace InstructionSet

theorem placeholders_of_first {mnemonic : String} {variants : List Variant} {v first : Variant}
    (h : (mnemonic, variants) ∈ builtin.entries)
    (hfirst : variants.find? (fun u => u.pattern = v.pattern) = some first) :
    first.placeholders = v.patternPlaceholders := by
  have hsame : first.pattern = v.pattern := by simpa using List.find?_some hfirst
  rw [placeholders_of_check builtin_check (variants?_of_mem h) (List.mem_of_find?_eq_some hfirst),
    Variant.patternPlaceholders, hsame]
  rfl

end InstructionSet

namespace Config

structure Single (config : Config) (files : List SourceFile) (loc : Location)
    (selection : Selection) : Prop where
  defines : config.defines = []
  read : ∃ mnemonic ts, readLines files = [(loc, .ok ⟨none, some (.instruction mnemonic ts)⟩)] ∧
    ∀ ctx, InstructionSet.builtin.select config.allowUndocumented ctx mnemonic ts = .ok selection
  slots : ∀ ctx spelling, ∃ slots,
    planSlots ctx spelling 0 selection.variant.opcode selection.bound = .ok slots
  room : config.startAddress.toNat + selection.variant.byteCount ≤ 0x10000

variable {config : Config} {files : List SourceFile} {loc : Location} {selection : Selection}

theorem Single.program (h : Single config files loc selection) (seconds : Nat) :
    (config.program seconds files).errors = [] ∧
      ∃ slots, (config.program seconds files).planned = [⟨loc, config.startAddress.toNat, none,
        selection.variant.byteCount, .instruction selection slots⟩] := by
  let start := Layout.start config.startAddress config.defines
  let env := config.environment (stampOf seconds files)
  obtain ⟨mnemonic, ts, hread, hselect⟩ := h.read
  obtain ⟨slots, hslots⟩ := h.slots (start.mark loc).context (selection.variant.spelling mnemonic)
  have hhere : env.instructionSet.select env.allowUndocumented (start.mark loc).context mnemonic
      ts = .ok selection := hselect _
  obtain ⟨fixups, hstep⟩ := Layout.stepRead_instruction hhere hslots h.room
  have hprogram : config.program seconds files = ((start.mark loc).withItem (stampOf seconds files)
      loc (.instruction selection slots) fixups).finish := by
    rw [Config.program, layout, Layout.ofLines, hread, List.foldl_cons, List.foldl_nil, hstep]
    rfl
  have hsymbols : start.symbols.resolve.errors = [] := by
    simp only [start, Layout.start, h.defines]
    rfl
  rw [hprogram]
  exact ⟨hsymbols, slots, rfl⟩

theorem Single.assemble (h : Single config files loc selection) (seconds : Nat)
    {bytes : List UInt8} (hbytes : ∀ ctx, directBytes ctx
      (config.startAddress.toNat + selection.variant.byteCount) selection.variant.opcode
      selection.bound = some bytes) :
    ∃ a, config.assemble seconds files = .ok a ∧ a.image.bytes = bytes := by
  obtain ⟨clean, slots, hplanned⟩ := h.program seconds
  have hstop : advance config.startAddress.toNat selection.variant.byteCount =
      config.startAddress.toNat + selection.variant.byteCount :=
    advance_eq_add (Nat.lt_of_le_of_lt h.room (by decide))
  have hdirect : config.direct seconds files ⟨loc, config.startAddress.toNat, none,
      selection.variant.byteCount, .instruction selection slots⟩ = some bytes := by
    rw [← hbytes, ← hstop]
    rfl
  obtain ⟨a, ha⟩ := (assemble_ok_iff clean).mpr (by simp [hplanned, hdirect])
  refine ⟨a, ha, ?_⟩
  obtain ⟨-, -, rfl⟩ := assemble_eq_ok.mp ha
  rw [written_bytes clean, hplanned]
  simp [hdirect]

theorem assembleText_spellInstruction (mnemonic : String) (variants : List Variant) (v : Variant)
    (h : (mnemonic, variants) ∈ InstructionSet.builtin.entries) (hv : v ∈ variants) :
    ∃ first, variants.find? (fun u => u.pattern = v.pattern) = some first ∧
      ∀ (address : UInt16) (values : List Int) (seconds : Nat),
        address.toNat + first.byteCount ≤ 0x10000 →
        List.Forall₂ (Placeholder.Admits (address.toNat + first.byteCount)) v.patternPlaceholders
          values →
        ∃ a, ({ startAddress := address } : Config).assembleText seconds
            (spellInstruction mnemonic v.pattern values) = .ok a ∧
          a.image.bytes = filled (address.toNat + first.byteCount) first.opcode values ∧
          a.image.bytes.length = first.byteCount := by
  obtain ⟨first, hfirst⟩ : ∃ first, variants.find? (fun u => u.pattern = v.pattern) = some first :=
    Option.isSome_iff_exists.mp (List.find?_isSome.mpr ⟨v, hv, by simp⟩)
  refine ⟨first, hfirst, ?_⟩
  intro address values seconds hroom hvalues
  obtain ⟨hname, -, hplain⟩ := InstructionSet.isCanonical_of_mem h
  have hrange := hvalues.imp fun p x (hx : Placeholder.Admits _ p x) => hx.range hroom
  obtain ⟨ts, hread, hts⟩ := readLines_spellInstruction hname (hplain v hv) hrange "<input>"
  have hselect := fun ctx => InstructionSet.select_spelled h hv hts hfirst ctx
  rw [← InstructionSet.placeholders_of_first h hfirst] at hvalues hselect
  have hslots := fun ctx spelling => planSlots_numbersFor ctx spelling hvalues.length_eq 0
  have hdirect := fun ctx => @directBytes_numbersFor ctx _ _ _ hroom hvalues
  have hsingle : Single { startAddress := address } [⟨"<input>", _⟩] _ _ :=
    ⟨rfl, ⟨mnemonic, ts, hread, hselect⟩, hslots, hroom⟩
  obtain ⟨a, ha, hbytes⟩ := hsingle.assemble seconds hdirect
  refine ⟨a, ha, hbytes, ?_⟩
  rw [hbytes]
  exact directBytes_length (hdirect ⟨fun _ => none, 0⟩)

def indexedStore : List PatternToken :=
  [.punct .leftParen, .keyword .ix, .punct .plus, .slot .disp8, .punct .rightParen, .punct .comma,
    .slot .imm8]

theorem assembleText_indexedStore :
    spellInstruction "ld" indexedStore [-5, 200] = "  ld (ix+-5),200" ∧
      ∃ a, ({ startAddress := 0xFFFC } : Config).assembleText 0
          (spellInstruction "ld" indexedStore [-5, 200]) = .ok a ∧
        a.image.bytes = [0xDD, 0x36, 0xFB, 0xC8] := by
  have hentry : ("ld", Load.ld) ∈ InstructionSet.builtin.entries := by
    simp [InstructionSet.builtin]
  have hfind : (Load.ld.find? fun u => u.pattern = indexedStore).map Variant.opcode =
      some [.byte 0xDD, .byte 0x36, .slot .disp8, .slot .imm8] := by decide +kernel
  obtain ⟨v, hv, hopcode⟩ := Option.map_eq_some_iff.mp hfind
  have hpattern : v.pattern = indexedStore := by simpa using List.find?_some hv
  obtain ⟨first, hfirst, hassembles⟩ := assembleText_spellInstruction "ld" Load.ld v hentry
    (List.mem_of_find?_eq_some hv)
  rw [hpattern, hv] at hfirst
  cases hfirst
  have hcount : v.byteCount = 4 := by
    rw [Variant.byteCount, hopcode]
    rfl
  obtain ⟨a, ha, hbytes, -⟩ := hassembles 0xFFFC [-5, 200] 0 (by rw [hcount]; decide) (by
    rw [Variant.patternPlaceholders, hpattern, hcount]
    exact .cons (by decide) (.cons (by decide) .nil))
  rw [hpattern] at ha
  refine ⟨by decide +kernel, a, ha, ?_⟩
  rw [hbytes, hopcode]
  rfl

end Config

end Z80
