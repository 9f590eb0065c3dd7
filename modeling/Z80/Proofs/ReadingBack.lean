import Mathlib
import Z80.Proofs.WholeTable

namespace Z80

structure SlotValue where
  offset : Nat
  placeholder : Placeholder
  value : Int32
deriving DecidableEq

namespace SlotValue

def place (o : SlotValue) : Nat × Placeholder :=
  (o.offset, o.placeholder)

def stop (o : SlotValue) : Nat :=
  o.offset + o.placeholder.width

def Fits (next : Nat) (o : SlotValue) : Prop :=
  o.placeholder.Admits next o.value.toInt

def data (next : Nat) (o : SlotValue) : List UInt8 :=
  o.placeholder.bytesOf next o.value.toInt

def Apart (o o' : SlotValue) : Prop :=
  o.stop ≤ o'.offset ∨ o'.stop ≤ o.offset

def StandsIn (next : Nat) (bytes : List UInt8) (o : SlotValue) : Prop :=
  match o.placeholder with
  | .imm8 | .disp8 => ∃ b, bytes[o.offset]? = some b ∧ (b.toNat : Int) ≡ o.value.toInt [ZMOD 256]
  | .imm16 => ∃ low high, bytes[o.offset]? = some low ∧ bytes[o.offset + 1]? = some high ∧
      (low.toNat + 256 * high.toNat : Int) ≡ o.value.toInt [ZMOD 65536]
  | .branch => ∃ b, bytes[o.offset]? = some b ∧ next + b.toInt8.toInt = o.value.toInt

end SlotValue

section Bytes

theorem toNat_ofInt (v : Int) : ((UInt8.ofInt v).toNat : Int) = v % 256 := by
  simp [UInt8.ofInt]
  omega

theorem toInt8_ofInt {d : Int} (h : -128 ≤ d ∧ d ≤ 127) : (UInt8.ofInt d).toInt8.toInt = d := by
  have hlt : d % 256 < 256 := Int.emod_lt_of_pos d (by decide)
  have hsigned : (UInt8.ofInt d).toInt8 = Int8.ofInt d := by
    apply Int8.toBitVec_inj.mp
    apply BitVec.eq_of_toNat_eq
    simpa [UInt8.ofInt, BitVec.toNat_ofInt] using hlt
  rw [hsigned, Int8.toInt_ofInt_of_le (by omega) (by omega)]

variable {p : Placeholder} {v : Int32} {next offset i : Nat} {data bytes out : List UInt8}

theorem Placeholder.accepts_iff {n : Int} :
    p.accepts n = true ↔ p.least ≤ n ∧ n ≤ p.greatest := by
  simp [accepts]

theorem Placeholder.encode_eq_ok :
    p.encode v next = .ok data ↔ p.Admits next v.toInt ∧ data = p.bytesOf next v.toInt := by
  cases p with
  | imm8 | imm16 | disp8 =>
      simp only [encode, check, Admits]
      split
      · next h =>
          have hrange := accepts_iff.mp h
          simp only [least, greatest] at hrange
          simp [hrange, width, littleEndian, bytesOf, UInt8.ofInt, eq_comm]
      · next h => exact iff_of_false (by simp) fun hadmits => h (accepts_iff.mpr hadmits.1)
  | branch =>
      simp only [encode, Admits]
      split
      · next h =>
          have hrange := accepts_iff.mp h
          simp only [least, greatest] at hrange
          simp [hrange, width, littleEndian, bytesOf, UInt8.ofInt, eq_comm]
      · next h => exact iff_of_false (by simp) fun hadmits => h (accepts_iff.mpr hadmits.1)

theorem putOperand_overwrite :
    putOperand next bytes offset p v = .ok out ↔
      p.Admits next v.toInt ∧ out = overwrite offset (p.bytesOf next v.toInt) bytes := by
  unfold putOperand
  rw [bind_eq_ok]
  simp only [Placeholder.encode_eq_ok, pure, Except.pure, Except.ok.injEq]
  constructor
  · rintro ⟨data, ⟨h, rfl⟩, rfl⟩
    exact ⟨h, rfl⟩
  · rintro ⟨h, rfl⟩
    exact ⟨_, ⟨h, rfl⟩, rfl⟩

theorem overwrite_length (h : offset + data.length ≤ bytes.length) :
    (overwrite offset data bytes).length = bytes.length := by
  simp only [overwrite, List.length_append, List.length_take, List.length_drop]
  omega

theorem overwrite_outside (h : offset + data.length ≤ bytes.length)
    (hi : i < offset ∨ offset + data.length ≤ i) :
    (overwrite offset data bytes)[i]? = bytes[i]? := by
  have htake : (bytes.take offset).length = offset := by
    rw [List.length_take]
    omega
  rw [overwrite, List.append_assoc]
  rcases hi with hi | hi
  · rw [List.getElem?_append_left (by omega), List.getElem?_take_of_lt hi]
  · rw [List.getElem?_append_right (by omega), htake, List.getElem?_append_right (by omega),
      List.getElem?_drop]
    congr 1
    omega

theorem overwrite_inside (h : offset + data.length ≤ bytes.length) (hi : i < data.length) :
    (overwrite offset data bytes)[offset + i]? = data[i]? := by
  have htake : (bytes.take offset).length = offset := by
    rw [List.length_take]
    omega
  rw [overwrite, List.append_assoc, List.getElem?_append_right (by omega), htake,
    Nat.add_sub_cancel_left, List.getElem?_append_left hi]

end Bytes

section Written

variable {next i k : Nat} {bytes out : List UInt8} {o : SlotValue} {os : List SlotValue}

theorem SlotValue.data_length (next : Nat) (o : SlotValue) :
    (o.data next).length = o.placeholder.width := by
  unfold data
  cases o.placeholder <;> rfl

def written (next : Nat) (bytes : List UInt8) (os : List SlotValue) : List UInt8 :=
  os.foldl (fun bytes o => overwrite o.offset (o.data next) bytes) bytes

theorem written_length (h : ∀ o ∈ os, o.stop ≤ bytes.length) :
    (written next bytes os).length = bytes.length := by
  induction os generalizing bytes with
  | nil => rfl
  | cons o os ih =>
      have hlength : (overwrite o.offset (o.data next) bytes).length = bytes.length :=
        overwrite_length (by rw [SlotValue.data_length]; exact h o (List.mem_cons_self ..))
      have hbounds : ∀ o' ∈ os, o'.stop ≤ (overwrite o.offset (o.data next) bytes).length := by
        intro o' ho'
        rw [hlength]
        exact h o' (List.mem_cons_of_mem _ ho')
      exact (ih hbounds).trans hlength

theorem written_outside (h : ∀ o ∈ os, o.stop ≤ bytes.length)
    (hi : ∀ o ∈ os, i < o.offset ∨ o.stop ≤ i) : (written next bytes os)[i]? = bytes[i]? := by
  induction os generalizing bytes with
  | nil => rfl
  | cons o os ih =>
      have hroom : o.offset + (o.data next).length ≤ bytes.length := by
        rw [SlotValue.data_length]
        exact h o (List.mem_cons_self ..)
      have hfirst : (overwrite o.offset (o.data next) bytes)[i]? = bytes[i]? := by
        refine overwrite_outside hroom ?_
        rw [SlotValue.data_length]
        exact hi o (List.mem_cons_self ..)
      have hbounds : ∀ o' ∈ os, o'.stop ≤ (overwrite o.offset (o.data next) bytes).length := by
        intro o' ho'
        rw [overwrite_length hroom]
        exact h o' (List.mem_cons_of_mem _ ho')
      exact (ih hbounds fun o' ho' => hi o' (List.mem_cons_of_mem _ ho')).trans hfirst

theorem written_inside (h : ∀ o ∈ os, o.stop ≤ bytes.length) (hapart : os.Pairwise SlotValue.Apart)
    (ho : o ∈ os) (hk : k < o.placeholder.width) :
    (written next bytes os)[o.offset + k]? = (o.data next)[k]? := by
  induction os generalizing bytes with
  | nil => cases ho
  | cons first os ih =>
      obtain ⟨hfirst, hrest⟩ := List.pairwise_cons.mp hapart
      have hroom : first.offset + (first.data next).length ≤ bytes.length := by
        rw [SlotValue.data_length]
        exact h first (List.mem_cons_self ..)
      have hbounds : ∀ o ∈ os,
          o.stop ≤ (overwrite first.offset (first.data next) bytes).length := by
        intro o ho
        rw [overwrite_length hroom]
        exact h o (List.mem_cons_of_mem _ ho)
      rcases List.mem_cons.mp ho with rfl | ho
      · -- The operands behind it leave its bytes alone.
        have hleft : (written next bytes (o :: os))[o.offset + k]? =
            (overwrite o.offset (o.data next) bytes)[o.offset + k]? := by
          refine written_outside hbounds fun o' ho' => ?_
          rcases hfirst o' ho' with hle | hle
          · left
            unfold SlotValue.stop at hle
            omega
          · right
            omega
        rw [hleft, overwrite_inside hroom (by rw [SlotValue.data_length]; exact hk)]
      · exact ih hbounds hrest ho

theorem SlotValue.standsIn_of_data (h : o.Fits next)
    (hdata : ∀ k < o.placeholder.width, out[o.offset + k]? = (o.data next)[k]?) :
    o.StandsIn next out := by
  obtain ⟨offset, p, v⟩ := o
  cases p with
  | imm8 | disp8 =>
      refine ⟨_, hdata 0 Nat.one_pos, ?_⟩
      rw [toNat_ofInt]
      exact Int.mod_modEq _ _
  | imm16 =>
      refine ⟨_, _, hdata 0 Nat.two_pos, hdata 1 Nat.one_lt_two, ?_⟩
      rw [toNat_ofInt, toNat_ofInt]
      simp only [Int.ModEq]
      omega
  | branch =>
      refine ⟨_, hdata 0 Nat.one_pos, ?_⟩
      rw [toInt8_ofInt h]
      omega

end Written

section Template

variable {base offset : Nat} {b : UInt8} {opcode : List OpcodeItem} {x : Nat × OpcodeItem}

def placed : Nat → List OpcodeItem → List (Nat × OpcodeItem)
  | _, [] => []
  | base, item :: opcode => (base, item) :: placed (base + item.width) opcode

theorem placed_bounds (h : x ∈ placed base opcode) :
    base ≤ x.1 ∧ x.1 + x.2.width ≤ base + templateSize opcode := by
  induction opcode generalizing base with
  | nil => cases h
  | cons item opcode ih =>
      simp only [templateSize]
      rcases List.mem_cons.mp h with rfl | h
      · simp only
        omega
      · have := ih h
        omega

theorem placed_pairwise (base : Nat) (opcode : List OpcodeItem) :
    (placed base opcode).Pairwise fun x y => x.1 + x.2.width ≤ y.1 := by
  induction opcode generalizing base with
  | nil => exact .nil
  | cons item opcode ih => exact .cons (fun y hy => (placed_bounds hy).1) (ih _)

theorem placed_apart {y : Nat × OpcodeItem} (hx : x ∈ placed base opcode)
    (hy : y ∈ placed base opcode) (hne : x ≠ y) :
    x.1 + x.2.width ≤ y.1 ∨ y.1 + y.2.width ≤ x.1 := by
  induction opcode generalizing base with
  | nil => cases hx
  | cons item opcode ih =>
      rcases List.mem_cons.mp hx with rfl | hx
      · rcases List.mem_cons.mp hy with rfl | hy
        · exact absurd rfl hne
        · exact .inl (placed_bounds hy).1
      · rcases List.mem_cons.mp hy with rfl | hy
        · exact .inr (placed_bounds hx).1
        · exact ih hx hy

theorem blank_length (item : OpcodeItem) : item.blank.length = item.width := by
  cases item with
  | byte b => rfl
  | slot p => simp [OpcodeItem.blank, OpcodeItem.width]

theorem Variant.template_length (v : Variant) : v.template.length = v.byteCount := by
  unfold template byteCount
  induction v.opcode with
  | nil => rfl
  | cons item opcode ih => simp [templateSize, blank_length, ih]

theorem template_byte (pre : List UInt8) (h : (offset, .byte b) ∈ placed pre.length opcode) :
    (pre ++ opcode.flatMap OpcodeItem.blank)[offset]? = some b := by
  induction opcode generalizing pre with
  | nil => cases h
  | cons item opcode ih =>
      rw [List.flatMap_cons, ← List.append_assoc]
      rcases List.mem_cons.mp h with heq | h
      · cases heq
        simp [OpcodeItem.blank]
      · refine ih (pre ++ item.blank) ?_
        rw [List.length_append, blank_length]
        exact h

def slotPlace? (x : Nat × OpcodeItem) : Option (Nat × Placeholder) :=
  x.2.placeholder?.map fun p => (x.1, p)

theorem slotPlace?_eq_some {y : Nat × Placeholder} :
    slotPlace? x = some y ↔ x = (y.1, .slot y.2) := by
  obtain ⟨offset, item⟩ := x
  obtain ⟨offset', p⟩ := y
  cases item <;> simp [slotPlace?, OpcodeItem.placeholder?]

namespace Variant

variable {v : Variant} {operands : List SlotValue} {o : SlotValue}

def elements (v : Variant) : List (Nat × OpcodeItem) :=
  placed 0 v.opcode

def places (v : Variant) : List (Nat × Placeholder) :=
  v.elements.filterMap slotPlace?

theorem mem_elements (h : operands.map SlotValue.place = v.places) (ho : o ∈ operands) :
    (o.offset, .slot o.placeholder) ∈ v.elements := by
  have hplace : o.place ∈ v.places := by
    rw [← h]
    exact List.mem_map_of_mem ho
  obtain ⟨x, hx, hslot⟩ := List.mem_filterMap.mp hplace
  rw [slotPlace?_eq_some.mp hslot] at hx
  exact hx

theorem stop_le (h : operands.map SlotValue.place = v.places) (ho : o ∈ operands) :
    o.stop ≤ v.template.length := by
  have hbounds := (placed_bounds (mem_elements h ho)).2
  rw [Nat.zero_add] at hbounds
  rw [v.template_length]
  exact hbounds

theorem operands_apart (h : operands.map SlotValue.place = v.places) :
    operands.Pairwise SlotValue.Apart := by
  have hplaces : v.places.Pairwise fun x y => x.1 + x.2.width ≤ y.1 := by
    refine List.Pairwise.filterMap slotPlace? ?_ (placed_pairwise 0 v.opcode)
    intro x x' hle y hy y' hy'
    rw [slotPlace?_eq_some.mp hy, slotPlace?_eq_some.mp hy'] at hle
    exact hle
  rw [← h, List.pairwise_map] at hplaces
  exact hplaces.imp fun hle => .inl hle

theorem byte_outside {offset : Nat} {b : UInt8} (h : operands.map SlotValue.place = v.places)
    (hb : (offset, .byte b) ∈ v.elements) (ho : o ∈ operands) :
    offset < o.offset ∨ o.stop ≤ offset :=
  placed_apart hb (mem_elements h ho) (by simp)

end Variant

end Template

def Slot.operand? (slot : Slot) : Option SlotValue :=
  slot.value?.map fun v => ⟨slot.offset, slot.placeholder, v⟩

structure Fixup.Settles (ctx : Context) (fixup : Fixup) (o : SlotValue) : Prop where
  place : (fixup.offset, fixup.placeholder) = o.place
  value : fixup.expr.eval ctx = .ok o.value

def Split (ctx : Context) (operands : List SlotValue) (slots : List Slot) (fixups : List Fixup) :
    Prop :=
  ∃ late, List.Forall₂ (Fixup.Settles ctx) fixups late ∧
    (slots.filterMap Slot.operand? ++ late).Perm operands

section Putting

variable {ctx : Context} {next : Nat} {bytes out : List UInt8} {slots : List Slot}
  {fixups : List Fixup} {late operands : List SlotValue} {variant : Variant}

theorem putSlots_written : putSlots next bytes slots = .ok out ↔
    (∀ o ∈ slots.filterMap Slot.operand?, o.Fits next) ∧
      out = written next bytes (slots.filterMap Slot.operand?) := by
  induction slots generalizing bytes with
  | nil => simp [putSlots, written, eq_comm]
  | cons slot slots ih =>
      cases hvalue : slot.value? with
      | none =>
          have hskip : slot.operand? = none := by simp [Slot.operand?, hvalue]
          rw [List.filterMap_cons_none hskip]
          simpa only [putSlots, hvalue] using ih
      | some v =>
          have hknown : slot.operand? = some ⟨slot.offset, slot.placeholder, v⟩ := by
            simp [Slot.operand?, hvalue]
          rw [List.filterMap_cons_some hknown, List.forall_mem_cons]
          simp only [putSlots, hvalue, bind_eq_ok, putOperand_overwrite, ih]
          constructor
          · rintro ⟨more, ⟨hfits, rfl⟩, hrest, rfl⟩
            exact ⟨⟨hfits, hrest⟩, rfl⟩
          · rintro ⟨⟨hfits, hrest⟩, rfl⟩
            exact ⟨_, ⟨hfits, rfl⟩, hrest, rfl⟩

theorem putFixups_written (h : List.Forall₂ (Fixup.Settles ctx) fixups late) :
    putFixups ctx next bytes fixups = .ok out ↔
      (∀ o ∈ late, o.Fits next) ∧ out = written next bytes late := by
  induction h generalizing bytes with
  | nil => simp [putFixups, written, eq_comm]
  | @cons fixup o fixups late hsettles _ ih =>
      obtain ⟨hoffset, hplaceholder⟩ := Prod.mk.inj hsettles.place
      have hvalue : fixup.expr.value ctx = .ok o.value := Expr.value_eq_ok.mpr hsettles.value
      rw [List.forall_mem_cons]
      simp only [putFixups, hvalue, hoffset, hplaceholder, bind_eq_ok, putOperand_overwrite, ih]
      constructor
      · rintro ⟨v, hv, more, ⟨hfits, rfl⟩, hrest, rfl⟩
        cases hv
        exact ⟨⟨hfits, hrest⟩, rfl⟩
      · rintro ⟨⟨hfits, hrest⟩, rfl⟩
        exact ⟨_, rfl, _, ⟨hfits, rfl⟩, hrest, rfl⟩

theorem encodeInstruction_written (h : List.Forall₂ (Fixup.Settles ctx) fixups late) :
    encodeInstruction ctx next variant slots fixups = .ok out ↔
      (∀ o ∈ slots.filterMap Slot.operand? ++ late, o.Fits next) ∧
        out = written next variant.template (slots.filterMap Slot.operand? ++ late) := by
  unfold encodeInstruction
  rw [bind_eq_ok, List.forall_mem_append]
  simp only [putSlots_written, putFixups_written h]
  constructor
  · rintro ⟨half, ⟨hearly, rfl⟩, hlate, rfl⟩
    exact ⟨⟨hearly, hlate⟩, by simp [written]⟩
  · rintro ⟨⟨hearly, hlate⟩, rfl⟩
    exact ⟨_, ⟨hearly, rfl⟩, hlate, by simp [written]⟩

structure ReadsBack (next : Nat) (variant : Variant) (operands : List SlotValue)
    (bytes : List UInt8) : Prop where
  length : bytes.length = variant.byteCount
  literal : ∀ offset b, (offset, .byte b) ∈ variant.elements → bytes[offset]? = some b
  operand : ∀ o ∈ operands, o.StandsIn next bytes

structure WithinBounds (ctx : Context) (next : Nat) (variant : Variant) (slots : List Slot)
    (fixups : List Fixup) : Prop where
  slot : ∀ n slot v bytes, slots[n]? = some slot → slot.value? = some v →
    putSlots next variant.template (slots.take n) = .ok bytes →
    slot.offset + slot.placeholder.width ≤ bytes.length
  fixup : ∀ n fixup bytes, fixups[n]? = some fixup →
    encodeInstruction ctx next variant slots (fixups.take n) = .ok bytes →
    fixup.offset + fixup.placeholder.width ≤ bytes.length

theorem encodeInstruction_ok_iff (h : Split ctx operands slots fixups) :
    (∃ bytes, encodeInstruction ctx next variant slots fixups = .ok bytes) ↔
      ∀ o ∈ operands, o.Fits next := by
  obtain ⟨late, hlate, hperm⟩ := h
  simp only [encodeInstruction_written hlate, hperm.mem_iff]
  exact ⟨fun ⟨_, hfits, _⟩ => hfits, fun hfits => ⟨_, hfits, rfl⟩⟩

theorem readsBack_of_encode (hall : operands.map SlotValue.place = variant.places)
    (h : Split ctx operands slots fixups)
    (hencode : encodeInstruction ctx next variant slots fixups = .ok bytes) :
    ReadsBack next variant operands bytes := by
  obtain ⟨late, hlate, hperm⟩ := h
  obtain ⟨hfits, rfl⟩ := (encodeInstruction_written hlate).mp hencode
  have hbounds : ∀ o ∈ slots.filterMap Slot.operand? ++ late, o.stop ≤ variant.template.length :=
    fun o ho => Variant.stop_le hall (hperm.mem_iff.mp ho)
  have hapart : (slots.filterMap Slot.operand? ++ late).Pairwise SlotValue.Apart :=
    (hperm.pairwise_iff fun hxy => hxy.symm).mpr (Variant.operands_apart hall)
  refine ⟨?_, ?_, ?_⟩
  · rw [written_length hbounds, variant.template_length]
  · intro offset b hb
    rw [written_outside hbounds fun o ho => Variant.byte_outside hall hb (hperm.mem_iff.mp ho)]
    exact template_byte [] hb
  · intro o ho
    have ho' := hperm.mem_iff.mpr ho
    exact SlotValue.standsIn_of_data (hfits o ho') fun k hk => written_inside hbounds hapart ho' hk

theorem withinBounds_of_split (hall : operands.map SlotValue.place = variant.places)
    (h : Split ctx operands slots fixups) : WithinBounds ctx next variant slots fixups := by
  obtain ⟨late, hlate, hperm⟩ := h
  have hbounds : ∀ o ∈ slots.filterMap Slot.operand? ++ late, o.stop ≤ variant.template.length :=
    fun o ho => Variant.stop_le hall (hperm.mem_iff.mp ho)
  constructor
  · intro n slot v bytes hn hvalue hput
    obtain ⟨-, rfl⟩ := putSlots_written.mp hput
    have hmem : (⟨slot.offset, slot.placeholder, v⟩ : SlotValue) ∈
        slots.filterMap Slot.operand? :=
      List.mem_filterMap.mpr ⟨slot, List.mem_of_getElem? hn, by simp [Slot.operand?, hvalue]⟩
    have hlength : (written next variant.template ((slots.take n).filterMap Slot.operand?)).length =
        variant.template.length := by
      refine written_length fun o ho => hbounds o (List.mem_append_left _ ?_)
      exact ((List.take_sublist n slots).filterMap _).subset ho
    rw [hlength]
    exact hbounds _ (List.mem_append_left _ hmem)
  · intro n fixup bytes hn hput
    have htake := List.forall₂_take n hlate
    obtain ⟨-, rfl⟩ := (encodeInstruction_written htake).mp hput
    obtain ⟨hlt, rfl⟩ := List.getElem?_eq_some_iff.mp hn
    have hlt' : n < late.length := hlate.length_eq ▸ hlt
    obtain ⟨hoffset, hplaceholder⟩ := Prod.mk.inj (hlate.get hlt hlt').place
    have hlength : (written next variant.template
        (slots.filterMap Slot.operand? ++ late.take n)).length = variant.template.length := by
      refine written_length fun o ho => hbounds o ?_
      exact ((List.Sublist.refl _).append (List.take_sublist n late)).subset ho
    rw [hlength]
    have hstop := hbounds _ (List.mem_append_right _ (List.getElem_mem hlt'))
    simp only [List.get_eq_getElem] at hoffset hplaceholder
    rw [hoffset, hplaceholder]
    exact hstop

theorem Split.known {slot : Slot} {o : SlotValue} (h : Split ctx operands slots fixups)
    (hslot : slot.operand? = some o) : Split ctx (o :: operands) (slot :: slots) fixups := by
  obtain ⟨late, hlate, hperm⟩ := h
  refine ⟨late, hlate, ?_⟩
  rw [List.filterMap_cons_some hslot]
  exact hperm.cons o

theorem Split.waiting {slot : Slot} {fixup : Fixup} {o : SlotValue}
    (h : Split ctx operands slots fixups) (hslot : slot.operand? = none)
    (hfixup : fixup.Settles ctx o) :
    Split ctx (o :: operands) (slot :: slots) (fixup :: fixups) := by
  obtain ⟨late, hlate, hperm⟩ := h
  refine ⟨o :: late, .cons hfixup hlate, ?_⟩
  rw [List.filterMap_cons_none hslot]
  exact List.perm_middle.trans (hperm.cons o)

theorem planned_split {early : Context} {spelling : String} {line : Nat} {opcode : List OpcodeItem}
    (here : early.here = ctx.here) :
    ∀ {base : Nat} {bound : List Binding} {operands : List SlotValue} {slots : List Slot},
      operands.map SlotValue.place = (placed base opcode).filterMap slotPlace? →
      List.Forall₂ (fun b o => b.expr.eval ctx = .ok o.value) bound operands →
      planSlots early spelling base opcode bound = .ok slots →
      Split ctx operands slots (planFixups early line base opcode bound) := by
  induction opcode with
  | nil =>
      intro base bound operands slots hall _ hplan
      cases List.map_eq_nil_iff.mp hall
      cases hplan
      exact ⟨[], .nil, .refl _⟩
  | cons item opcode ih =>
      intro base bound operands slots hall hvalues hplan
      cases item with
      | byte b => exact ih hall hvalues hplan
      | slot p =>
          cases operands with
          | nil => cases hall
          | cons o operands =>
              cases hvalues with
              | @cons b _ bound _ hvalue hvalues =>
                  obtain ⟨hplace, hrest⟩ := List.cons.inj hall
                  obtain ⟨hoffset, hplaceholder⟩ := Prod.mk.inj hplace
                  subst hoffset hplaceholder
                  simp only [planSlots] at hplan
                  by_cases hc : b.expr.isClosed = true
                  · simp only [hc, if_true] at hplan
                    obtain ⟨v, hv, hplan⟩ := bind_eq_ok.mp hplan
                    obtain ⟨rest, hslots, hplan⟩ := bind_eq_ok.mp hplan
                    cases hplan
                    have hsame : b.expr.eval early = .ok o.value :=
                      (Expr.eval_of_isClosed hc here).trans hvalue
                    cases (Expr.value_eq_ok.mp hv).symm.trans hsame
                    simp only [planFixups, hc, if_true, hv]
                    exact (ih hrest hvalues hslots).known rfl
                  · simp only [hc] at hplan
                    obtain ⟨rest, hslots, hplan⟩ := bind_eq_ok.mp hplan
                    cases hplan
                    simp only [planFixups, hc]
                    exact (ih hrest hvalues hslots).waiting rfl ⟨rfl, hvalue⟩

end Putting

namespace PlannedLine

theorem instruction_reads_back (variant : Variant) (operands : List SlotValue) (slots : List Slot)
    (fixups : List Fixup) (location : Location) (address : Nat) (scope : Option Nat)
    (bound : List Binding) (symbols : Symbols) (stamp : BuildStamp)
    (hall : operands.map SlotValue.place = variant.places)
    (hsplit : Split (symbols.context scope (UInt16.ofNat address)) operands slots fixups) :
    let line : PlannedLine :=
      ⟨location, address, scope, variant.byteCount, .instruction ⟨variant, bound⟩ slots⟩
    let next := line.stop
    let ctx := symbols.context scope (UInt16.ofNat address)
    (address + variant.byteCount < 2 ^ 32 → next = address + variant.byteCount) ∧
      ((∃ bytes, line.encode symbols stamp fixups = .ok bytes) ↔ ∀ o ∈ operands, o.Fits next) ∧
      (∀ bytes, line.encode symbols stamp fixups = .ok bytes →
        ReadsBack next variant operands bytes) ∧
      WithinBounds ctx next variant slots fixups ∧
      (∀ early spelling n planned, early.here = ctx.here →
        List.Forall₂ (fun b o => b.expr.eval ctx = .ok o.value) bound operands →
        planSlots early spelling 0 variant.opcode bound = .ok planned →
        Split ctx operands planned (planFixups early n 0 variant.opcode bound)) :=
  ⟨advance_eq_add, encodeInstruction_ok_iff hsplit,
    fun _ hencode => readsBack_of_encode hall hsplit hencode, withinBounds_of_split hall hsplit,
    fun _ _ _ _ here hvalues hplan => planned_split here hall hvalues hplan⟩

def offsetTable : Symbols :=
  ⟨[((none, "n"), ⟨"n", none, .constant, some (-5), ⟨0, 2⟩, none⟩)]⟩

theorem indexedStore_reads_back :
    ∃ v ∈ Load.ld, v.pattern = Config.indexedStore ∧
      ∃ bytes, PlannedLine.encode ⟨⟨0, 1⟩, 0x8000, none, v.byteCount, .instruction ⟨v, []⟩
          [⟨.disp8, 2, none⟩, ⟨.imm8, 3, some 200⟩]⟩ offsetTable (BuildStamp.ofSeconds 0 [])
          [⟨0, 2, .disp8, .symbol "n"⟩] = .ok bytes ∧
        ReadsBack (0x8000 + v.byteCount) v [⟨2, .disp8, -5⟩, ⟨3, .imm8, 200⟩] bytes := by
  have hfind : (Load.ld.find? fun u => u.pattern = Config.indexedStore).map Variant.opcode =
      some [.byte 0xDD, .byte 0x36, .slot .disp8, .slot .imm8] := by decide +kernel
  obtain ⟨v, hv, hopcode⟩ := Option.map_eq_some_iff.mp hfind
  have hplaces : ([⟨2, .disp8, -5⟩, ⟨3, .imm8, 200⟩] : List SlotValue).map SlotValue.place =
      v.places := by
    rw [Variant.places, Variant.elements, hopcode]
    rfl
  have hsplit : Split (offsetTable.context none (UInt16.ofNat 0x8000))
      [⟨2, .disp8, -5⟩, ⟨3, .imm8, 200⟩] [⟨.disp8, 2, none⟩, ⟨.imm8, 3, some 200⟩]
      [⟨0, 2, .disp8, .symbol "n"⟩] :=
    ⟨[⟨2, .disp8, -5⟩], .cons ⟨rfl, by decide⟩ .nil, .swap ..⟩
  obtain ⟨hnext, hok, hreads, -, -⟩ := instruction_reads_back v _ _ _ ⟨0, 1⟩ 0x8000 none [] _
    (BuildStamp.ofSeconds 0 []) hplaces hsplit
  have hcount : v.byteCount = 4 := by
    rw [Variant.byteCount, hopcode]
    rfl
  rw [hnext (by omega)] at hok hreads
  have hfits : ∀ o ∈ ([⟨2, .disp8, -5⟩, ⟨3, .imm8, 200⟩] : List SlotValue),
      o.Fits (0x8000 + v.byteCount) := by
    simp [SlotValue.Fits, Placeholder.Admits]
  obtain ⟨bytes, hbytes⟩ := hok.mpr hfits
  exact ⟨v, List.mem_of_find?_eq_some hv, by simpa using List.find?_some hv, bytes, hbytes,
    hreads bytes hbytes⟩

end PlannedLine

end Z80
