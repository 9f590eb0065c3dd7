import Mathlib
import Z80.Encoding
import Z80.Proofs.Evaluation

namespace Z80

def directBytes (ctx : Context) (next : Nat) :
    List OpcodeItem → List Binding → Option (List UInt8)
  | [], _ => some []
  | .byte b :: opcode, bound => do
      let rest ← directBytes ctx next opcode bound
      return b :: rest
  | .slot _ :: _, [] => none
  | .slot p :: opcode, b :: bound => do
      let v ← (b.expr.eval ctx).toOption
      let data ← (p.encode v next).toOption
      let rest ← directBytes ctx next opcode bound
      return data ++ rest

def openOperands (line : Nat) : Nat → List OpcodeItem → List Binding → List Fixup
  | offset, .byte _ :: opcode, bound => openOperands line (offset + 1) opcode bound
  | offset, .slot p :: opcode, b :: bound =>
      (if b.expr.isClosed then [] else [⟨line, offset, p, b.expr⟩]) ++
        openOperands line (offset + p.width) opcode bound
  | _, _, _ => []

def knownBytes (ctx : Context) (next : Nat) :
    List OpcodeItem → List Binding → Except Error (List UInt8)
  | [], _ => .ok []
  | .byte b :: opcode, bound => do
      let rest ← knownBytes ctx next opcode bound
      return b :: rest
  | .slot _ :: _, [] => .error (.ambiguousEncoding (.missingOperand ""))
  | .slot p :: opcode, b :: bound =>
      if b.expr.isClosed then do
        let v ← b.expr.value ctx
        let data ← p.encode v next
        let rest ← knownBytes ctx next opcode bound
        return data ++ rest
      else do
        let rest ← knownBytes ctx next opcode bound
        return List.replicate p.width 0 ++ rest

theorem littleEndian_length (n : Nat) (v : Int) : (littleEndian n v).length = n := by
  induction n generalizing v with
  | zero => rfl
  | succ n ih => simp [littleEndian, ih]

theorem Placeholder.encode_length {p : Placeholder} {v : Int32} {next : Nat} {data : List UInt8}
    (h : p.encode v next = .ok data) : data.length = p.width := by
  cases p with
  | branch =>
      simp only [Placeholder.encode] at h
      split at h
      · cases h
        exact littleEndian_length _ _
      · cases h
  | imm8 | imm16 | disp8 =>
      obtain ⟨-, -, h⟩ := bind_eq_ok.mp h
      cases h
      exact littleEndian_length _ _

theorem overwrite_middle (pre old data rest : List UInt8) (h : data.length = old.length) :
    overwrite pre.length data (pre ++ (old ++ rest)) = pre ++ (data ++ rest) := by
  have hdrop : (pre ++ (old ++ rest)).drop (pre.length + data.length) = rest := by
    rw [h, ← List.append_assoc, ← List.length_append, List.drop_left]
  simp [overwrite, hdrop]

theorem planFixups_eq_openOperands {ctx : Context} {spelling : String} {line : Nat} :
    ∀ {opcode : List OpcodeItem} {bound : List Binding} {offset : Nat} {slots : List Slot},
      planSlots ctx spelling offset opcode bound = .ok slots →
      planFixups ctx line offset opcode bound = openOperands line offset opcode bound := by
  intro opcode
  induction opcode with
  | nil =>
      intro bound offset slots _
      rfl
  | cons item opcode ih =>
      intro bound offset slots h
      cases item with
      | byte b => exact ih h
      | slot p =>
          cases bound with
          | nil => rfl
          | cons b bound =>
              simp only [planSlots] at h
              by_cases hc : b.expr.isClosed = true
              · simp only [hc, if_true] at h
                obtain ⟨v, hv, h⟩ := bind_eq_ok.mp h
                obtain ⟨rest, hrest, -⟩ := bind_eq_ok.mp h
                simp [planFixups, openOperands, hc, hv, ih hrest]
              · simp only [hc] at h
                obtain ⟨rest, hrest, -⟩ := bind_eq_ok.mp h
                simp [planFixups, openOperands, hc, ih hrest]

theorem openOperands_line {line : Nat} :
    ∀ {opcode : List OpcodeItem} {bound : List Binding} {offset : Nat},
      ∀ f ∈ openOperands line offset opcode bound, f.line = line := by
  intro opcode
  induction opcode with
  | nil =>
      intro bound offset f hf
      simp [openOperands] at hf
  | cons item opcode ih =>
      intro bound offset f hf
      cases item with
      | byte b => exact ih f hf
      | slot p =>
          cases bound with
          | nil => simp [openOperands] at hf
          | cons b bound =>
              simp only [openOperands, List.mem_append] at hf
              rcases hf with hf | hf
              · split at hf
                · cases hf
                · cases List.mem_singleton.mp hf
                  rfl
              · exact ih f hf

theorem putOperand_eq_ok {next : Nat} {pre rest out : List UInt8} {p : Placeholder} {v : Int32}
    {old : List UInt8} (ho : old.length = p.width) :
    putOperand next (pre ++ (old ++ rest)) pre.length p v = .ok out ↔
      ∃ data, p.encode v next = .ok data ∧ out = pre ++ (data ++ rest) := by
  unfold putOperand
  rw [bind_eq_ok]
  constructor
  · rintro ⟨data, hd, h⟩
    have hlen : data.length = old.length := (Placeholder.encode_length hd).trans ho.symm
    rw [overwrite_middle pre old data rest hlen] at h
    cases h
    exact ⟨data, hd, rfl⟩
  · rintro ⟨data, hd, rfl⟩
    have hlen : data.length = old.length := (Placeholder.encode_length hd).trans ho.symm
    exact ⟨data, hd, by rw [overwrite_middle pre old data rest hlen]; rfl⟩

section Opening

variable {ctx : Context} {next : Nat} {p : Placeholder} {b : Binding} {opcode : List OpcodeItem}
  {bound : List Binding} {out : List UInt8}

theorem toOption_eq_some {ε α : Type} {x : Except ε α} {a : α} :
    x.toOption = some a ↔ x = .ok a := by
  cases x <;> simp [Except.toOption]

theorem directBytes_byte {byte : UInt8} :
    directBytes ctx next (.byte byte :: opcode) bound = some out ↔
      ∃ rest, directBytes ctx next opcode bound = some rest ∧ out = byte :: rest := by
  simp only [directBytes, Option.bind_eq_bind, Option.bind_eq_some_iff, Option.pure_def,
    Option.some.injEq]
  constructor
  · rintro ⟨rest, hr, rfl⟩
    exact ⟨rest, hr, rfl⟩
  · rintro ⟨rest, hr, rfl⟩
    exact ⟨rest, hr, rfl⟩

theorem directBytes_slot :
    directBytes ctx next (.slot p :: opcode) (b :: bound) = some out ↔
      ∃ v data rest, b.expr.eval ctx = .ok v ∧ p.encode v next = .ok data ∧
        directBytes ctx next opcode bound = some rest ∧ out = data ++ rest := by
  simp only [directBytes, Option.bind_eq_bind, Option.bind_eq_some_iff, toOption_eq_some,
    Option.pure_def, Option.some.injEq]
  constructor
  · rintro ⟨v, hv, data, hd, rest, hr, rfl⟩
    exact ⟨v, data, rest, hv, hd, hr, rfl⟩
  · rintro ⟨v, data, rest, hv, hd, hr, rfl⟩
    exact ⟨v, hv, data, hd, rest, hr, rfl⟩

theorem knownBytes_byte {byte : UInt8} :
    knownBytes ctx next (.byte byte :: opcode) bound = .ok out ↔
      ∃ rest, knownBytes ctx next opcode bound = .ok rest ∧ out = byte :: rest := by
  simp only [knownBytes, bind_eq_ok, pure, Except.pure, Except.ok.injEq]
  constructor
  · rintro ⟨rest, hr, rfl⟩
    exact ⟨rest, hr, rfl⟩
  · rintro ⟨rest, hr, rfl⟩
    exact ⟨rest, hr, rfl⟩

theorem knownBytes_closed (hc : b.expr.isClosed = true) :
    knownBytes ctx next (.slot p :: opcode) (b :: bound) = .ok out ↔
      ∃ v data rest, b.expr.eval ctx = .ok v ∧ p.encode v next = .ok data ∧
        knownBytes ctx next opcode bound = .ok rest ∧ out = data ++ rest := by
  simp only [knownBytes, hc, if_true, bind_eq_ok, pure, Except.pure, Except.ok.injEq,
    Expr.value_eq_ok]
  constructor
  · rintro ⟨v, hv, data, hd, rest, hr, rfl⟩
    exact ⟨v, data, rest, hv, hd, hr, rfl⟩
  · rintro ⟨v, data, rest, hv, hd, hr, rfl⟩
    exact ⟨v, hv, data, hd, rest, hr, rfl⟩

theorem knownBytes_open (hc : b.expr.isClosed = false) :
    knownBytes ctx next (.slot p :: opcode) (b :: bound) = .ok out ↔
      ∃ rest, knownBytes ctx next opcode bound = .ok rest ∧
        out = List.replicate p.width 0 ++ rest := by
  simp only [knownBytes, hc, Bool.false_eq_true, if_false, bind_eq_ok, pure, Except.pure,
    Except.ok.injEq]
  constructor
  · rintro ⟨rest, hr, rfl⟩
    exact ⟨rest, hr, rfl⟩
  · rintro ⟨rest, hr, rfl⟩
    exact ⟨rest, hr, rfl⟩

end Opening

theorem putSlots_eq_ok {ctx : Context} {spelling : String} {next : Nat} :
    ∀ {opcode : List OpcodeItem} {bound : List Binding} {slots : List Slot}
      {pre out : List UInt8}, planSlots ctx spelling pre.length opcode bound = .ok slots →
      (putSlots next (pre ++ opcode.flatMap OpcodeItem.blank) slots = .ok out ↔
        ∃ half, knownBytes ctx next opcode bound = .ok half ∧ out = pre ++ half) := by
  intro opcode
  induction opcode with
  | nil =>
      intro bound slots pre out h
      cases h
      simp [putSlots, knownBytes, eq_comm]
  | cons item opcode ih =>
      intro bound slots pre out h
      rw [List.flatMap_cons]
      cases item with
      | byte byte =>
          have hpre : pre.length + 1 = (pre ++ [byte]).length := by simp
          simp only [planSlots, hpre] at h
          have hih := @ih _ _ _ out h
          simp only [List.append_assoc] at hih
          simp only [OpcodeItem.blank, knownBytes_byte]
          rw [hih]
          constructor
          · rintro ⟨half, hk, rfl⟩
            exact ⟨byte :: half, ⟨half, hk, rfl⟩, rfl⟩
          · rintro ⟨half, ⟨rest, hk, rfl⟩, rfl⟩
            exact ⟨rest, hk, rfl⟩
      | slot p =>
          cases bound with
          | nil => cases h
          | cons b bound =>
              simp only [OpcodeItem.blank]
              simp only [planSlots] at h
              by_cases hc : b.expr.isClosed = true
              · simp only [hc, if_true] at h
                obtain ⟨v, hv, h⟩ := bind_eq_ok.mp h
                obtain ⟨slots, hslots, h⟩ := bind_eq_ok.mp h
                cases h
                rw [Expr.value_eq_ok] at hv
                have hzero : (List.replicate p.width (0 : UInt8)).length = p.width := by simp
                simp only [putSlots, bind_eq_ok, putOperand_eq_ok hzero, knownBytes_closed hc]
                constructor
                · rintro ⟨bytes, ⟨data, hd, rfl⟩, h⟩
                  have hlen : pre.length + p.width = (pre ++ data).length := by
                    simp [Placeholder.encode_length hd]
                  rw [hlen] at hslots
                  rw [← List.append_assoc, ih hslots] at h
                  obtain ⟨half, hk, rfl⟩ := h
                  exact ⟨data ++ half, ⟨v, data, half, hv, hd, hk, rfl⟩, by simp⟩
                · rintro ⟨half, ⟨w, data, rest, hw, hd, hk, rfl⟩, rfl⟩
                  cases hv.symm.trans hw
                  have hlen : pre.length + p.width = (pre ++ data).length := by
                    simp [Placeholder.encode_length hd]
                  rw [hlen] at hslots
                  refine ⟨_, ⟨data, hd, rfl⟩, ?_⟩
                  rw [← List.append_assoc, ih hslots]
                  exact ⟨rest, hk, by simp⟩
              · have hc : b.expr.isClosed = false := by simpa using hc
                simp only [hc] at h
                obtain ⟨slots, hslots, h⟩ := bind_eq_ok.mp h
                cases h
                have hlen : pre.length + p.width =
                    (pre ++ List.replicate p.width (0 : UInt8)).length := by simp
                rw [hlen] at hslots
                simp only [putSlots, knownBytes_open hc]
                rw [← List.append_assoc, ih hslots]
                constructor
                · rintro ⟨half, hk, rfl⟩
                  exact ⟨_, ⟨half, hk, rfl⟩, by simp⟩
                · rintro ⟨half, ⟨rest, hk, rfl⟩, rfl⟩
                  exact ⟨rest, hk, by simp⟩

theorem putFixups_eq_ok {ctx early : Context} {next line : Nat} (here : early.here = ctx.here) :
    ∀ {opcode : List OpcodeItem} {bound : List Binding} {pre half out : List UInt8},
      knownBytes early next opcode bound = .ok half →
      (putFixups ctx next (pre ++ half) (openOperands line pre.length opcode bound) = .ok out ↔
        ∃ bytes, directBytes ctx next opcode bound = some bytes ∧ out = pre ++ bytes) := by
  intro opcode
  induction opcode with
  | nil =>
      intro bound pre half out h
      cases h
      simp [putFixups, openOperands, directBytes, eq_comm]
  | cons item opcode ih =>
      intro bound pre half out h
      cases item with
      | byte byte =>
          obtain ⟨rest, hk, rfl⟩ := knownBytes_byte.mp h
          have hih := @ih _ (pre ++ [byte]) _ out hk
          simp only [List.length_append, List.length_singleton, List.append_assoc,
            List.singleton_append] at hih
          simp only [openOperands, directBytes_byte]
          rw [hih]
          constructor
          · rintro ⟨bytes, hd, rfl⟩
            exact ⟨byte :: bytes, ⟨bytes, hd, rfl⟩, rfl⟩
          · rintro ⟨bytes, ⟨rest, hd, rfl⟩, rfl⟩
            exact ⟨rest, hd, rfl⟩
      | slot p =>
          cases bound with
          | nil => cases h
          | cons b bound =>
              by_cases hc : b.expr.isClosed = true
              · obtain ⟨v, data, rest, hv, hd, hk, rfl⟩ := (knownBytes_closed hc).mp h
                have hih := @ih _ (pre ++ data) _ out hk
                simp only [List.length_append, Placeholder.encode_length hd,
                  List.append_assoc] at hih
                simp only [openOperands, hc, if_true, List.nil_append, directBytes_slot]
                rw [hih]
                have hv' : b.expr.eval ctx = .ok v := (Expr.eval_of_isClosed hc here) ▸ hv
                constructor
                · rintro ⟨bytes, hb, rfl⟩
                  exact ⟨_, ⟨v, data, bytes, hv', hd, hb, rfl⟩, rfl⟩
                · rintro ⟨bytes, ⟨w, data', tail, hw, hd', hb, rfl⟩, rfl⟩
                  cases hv'.symm.trans hw
                  cases hd.symm.trans hd'
                  exact ⟨tail, hb, rfl⟩
              · have hc : b.expr.isClosed = false := by simpa using hc
                obtain ⟨rest, hk, rfl⟩ := (knownBytes_open hc).mp h
                have hzero : (List.replicate p.width (0 : UInt8)).length = p.width := by simp
                simp only [openOperands, hc, Bool.false_eq_true, if_false, List.singleton_append,
                  putFixups, bind_eq_ok, Expr.value_eq_ok, putOperand_eq_ok hzero, directBytes_slot]
                constructor
                · rintro ⟨v, hv, bytes, ⟨data, hd, rfl⟩, h⟩
                  have hih := @ih _ (pre ++ data) _ out hk
                  simp only [List.length_append, Placeholder.encode_length hd,
                    List.append_assoc] at hih
                  obtain ⟨tail, hb, rfl⟩ := hih.mp h
                  exact ⟨_, ⟨v, data, tail, hv, hd, hb, rfl⟩, rfl⟩
                · rintro ⟨bytes, ⟨v, data, tail, hv, hd, hb, rfl⟩, rfl⟩
                  have hih := @ih _ (pre ++ data) _ (pre ++ (data ++ tail)) hk
                  simp only [List.length_append, Placeholder.encode_length hd,
                    List.append_assoc] at hih
                  exact ⟨v, hv, _, ⟨data, hd, rfl⟩, hih.mpr ⟨tail, hb, rfl⟩⟩

theorem knownBytes_of_directBytes {ctx early : Context} {next : Nat}
    (here : early.here = ctx.here) :
    ∀ {opcode : List OpcodeItem} {bound : List Binding} {bytes : List UInt8},
      directBytes ctx next opcode bound = some bytes →
      ∃ half, knownBytes early next opcode bound = .ok half := by
  intro opcode
  induction opcode with
  | nil =>
      intro bound bytes _
      exact ⟨[], rfl⟩
  | cons item opcode ih =>
      intro bound bytes h
      cases item with
      | byte byte =>
          obtain ⟨rest, hr, -⟩ := directBytes_byte.mp h
          obtain ⟨half, hk⟩ := ih hr
          exact ⟨_, knownBytes_byte.mpr ⟨half, hk, rfl⟩⟩
      | slot p =>
          cases bound with
          | nil => cases h
          | cons b bound =>
              obtain ⟨v, data, rest, hv, hd, hr, -⟩ := directBytes_slot.mp h
              obtain ⟨half, hk⟩ := ih hr
              by_cases hc : b.expr.isClosed = true
              · have hv' : b.expr.eval early = .ok v := (Expr.eval_of_isClosed hc here).trans hv
                exact ⟨_, (knownBytes_closed hc).mpr ⟨v, data, half, hv', hd, hk, rfl⟩⟩
              · exact ⟨_, (knownBytes_open (by simpa using hc)).mpr ⟨half, hk, rfl⟩⟩

theorem encodeInstruction_eq_ok {ctx early : Context} {spelling : String} {next line : Nat}
    {variant : Variant} {bound : List Binding} {slots : List Slot} {bytes : List UInt8}
    (here : early.here = ctx.here)
    (h : planSlots early spelling 0 variant.opcode bound = .ok slots) :
    encodeInstruction ctx next variant slots (openOperands line 0 variant.opcode bound) =
        .ok bytes ↔
      directBytes ctx next variant.opcode bound = some bytes := by
  have hslots (out : List UInt8) : putSlots next variant.template slots = .ok out ↔
      knownBytes early next variant.opcode bound = .ok out := by
    have hput := @putSlots_eq_ok early spelling next variant.opcode bound slots [] out h
    simpa [Variant.template] using hput
  have hfixups (half out : List UInt8) (hk : knownBytes early next variant.opcode bound = .ok half) :
      putFixups ctx next half (openOperands line 0 variant.opcode bound) = .ok out ↔
        directBytes ctx next variant.opcode bound = some out := by
    have hput := @putFixups_eq_ok ctx early next line here variant.opcode bound [] half out hk
    simpa using hput
  unfold encodeInstruction
  rw [bind_eq_ok]
  constructor
  · rintro ⟨half, hput, hrest⟩
    exact (hfixups half bytes ((hslots half).mp hput)).mp hrest
  · intro hd
    obtain ⟨half, hk⟩ := knownBytes_of_directBytes here hd
    exact ⟨half, (hslots half).mpr hk, (hfixups half bytes hk).mpr hd⟩

theorem directBytes_length {ctx : Context} {next : Nat} :
    ∀ {opcode : List OpcodeItem} {bound : List Binding} {bytes : List UInt8},
      directBytes ctx next opcode bound = some bytes → bytes.length = templateSize opcode := by
  intro opcode
  induction opcode with
  | nil =>
      intro bound bytes h
      cases h
      rfl
  | cons item opcode ih =>
      intro bound bytes h
      cases item with
      | byte byte =>
          obtain ⟨rest, hr, rfl⟩ := directBytes_byte.mp h
          simp [templateSize, OpcodeItem.width, ih hr, Nat.add_comm]
      | slot p =>
          cases bound with
          | nil => cases h
          | cons b bound =>
              obtain ⟨v, data, rest, -, hd, hr, rfl⟩ := directBytes_slot.mp h
              simp [templateSize, OpcodeItem.width, ih hr, Placeholder.encode_length hd]

section Data

variable {ctx : Context} {stamp : BuildStamp} {loc : Location} {width : DataWidth}

theorem DataWidth.encode_length {v : Int32} {data : List UInt8}
    (h : width.encode v = .ok data) : data.length = width.size := by
  cases width with
  | byte | word =>
      obtain ⟨-, -, h⟩ := bind_eq_ok.mp h
      cases h
      exact littleEndian_length _ _
  | long =>
      cases h
      exact littleEndian_length _ _

theorem adjustLast_length {bytes out : List UInt8} {op : BinaryOp} {e : Expr}
    (h : adjustLast ctx bytes op e = .ok out) : out.length = bytes.length := by
  unfold adjustLast at h
  cases hl : bytes.getLast? with
  | none =>
      rw [hl] at h
      cases h
  | some last =>
      rw [hl] at h
      obtain ⟨v, -, h⟩ := bind_eq_ok.mp h
      obtain ⟨b, -, h⟩ := bind_eq_ok.mp h
      cases h
      have hne : bytes ≠ [] := by
        intro hn
        simp [hn] at hl
      have hpos : 0 < bytes.length := List.length_pos_of_ne_nil hne
      simp only [List.length_append, List.length_dropLast, List.length_singleton]
      omega

theorem BuildStamp.bytes_length (stamp : BuildStamp) (loc : Location) (p : Predefined) :
    (stamp.bytes loc p).length = (stamp.text loc p).utf8ByteSize := by
  have hlength : ∀ cs : List Char,
      (cs.flatMap String.utf8EncodeChar).length = String.utf8Len cs := by
    intro cs
    induction cs with
    | nil => rfl
    | cons c cs ih =>
        rw [List.flatMap_cons, List.length_append, String.length_utf8EncodeChar, ih,
          String.utf8Len_cons, Nat.add_comm]
  rw [bytes, hlength, String.utf8Len_toList]

theorem appendItem_length {bytes out : List UInt8} {item : DataItem}
    (h : appendItem ctx stamp loc width bytes item = .ok out) :
    out.length = bytes.length + item.size stamp loc width := by
  cases item with
  | expr e =>
      obtain ⟨v, -, h⟩ := bind_eq_ok.mp h
      obtain ⟨data, hd, h⟩ := bind_eq_ok.mp h
      cases h
      simp [DataItem.size, DataWidth.encode_length hd]
  | text text adjust =>
      cases adjust with
      | none =>
          cases h
          simp [DataItem.size]
      | some adjust =>
          rw [adjustLast_length h]
          simp [DataItem.size]
  | predefined p =>
      cases h
      simp [DataItem.size, BuildStamp.bytes_length]

theorem appendItems_length : ∀ {items : List DataItem} {bytes out : List UInt8},
    appendItems ctx stamp loc width bytes items = .ok out →
    out.length = bytes.length + dataSize stamp loc width items := by
  intro items
  induction items with
  | nil =>
      intro bytes out h
      cases h
      simp [dataSize]
  | cons item items ih =>
      intro bytes out h
      obtain ⟨more, hm, h⟩ := bind_eq_ok.mp h
      rw [ih h, appendItem_length hm]
      simp only [dataSize]
      omega

theorem encodeFill_length {count : Nat} {fill : Option Expr} {default : UInt8} {out : List UInt8}
    (h : encodeFill ctx count fill default = .ok out) : out.length = count := by
  cases fill with
  | none =>
      cases h
      simp
  | some e =>
      obtain ⟨v, -, h⟩ := bind_eq_ok.mp h
      obtain ⟨b, -, h⟩ := bind_eq_ok.mp h
      cases h
      simp

end Data

namespace PlannedLine

variable {line : PlannedLine} {symbols : Symbols} {stamp : BuildStamp} {bytes : List UInt8}

def direct (line : PlannedLine) (symbols : Symbols) (stamp : BuildStamp) : Option (List UInt8) :=
  let ctx := symbols.context line.scope line.here
  match line.item with
  | .instruction selection _ =>
      directBytes ctx line.stop selection.variant.opcode selection.bound
  | .data width items => (encodeData ctx stamp line.location width items).toOption
  | .fill count fill default => (encodeFill ctx count fill default).toOption
  | .org _ => some []

def fixups (line : PlannedLine) (n : Nat) : List Fixup :=
  match line.item with
  | .instruction selection _ => openOperands n 0 selection.variant.opcode selection.bound
  | _ => []

def Slotted (line : PlannedLine) : Prop :=
  match line.item with
  | .instruction selection slots => ∃ ctx spelling, ctx.here = line.here ∧
      planSlots ctx spelling 0 selection.variant.opcode selection.bound = .ok slots
  | _ => True

theorem fixups_line {n : Nat} : ∀ f ∈ line.fixups n, f.line = n := by
  intro f hf
  unfold fixups at hf
  split at hf
  · exact openOperands_line f hf
  · cases hf

theorem encode_eq_ok (h : line.Slotted) {n : Nat} :
    line.encode symbols stamp (line.fixups n) = .ok bytes ↔
      line.direct symbols stamp = some bytes := by
  obtain ⟨location, address, scope, size, item⟩ := line
  cases item with
  | instruction selection slots =>
      obtain ⟨ctx, spelling, here, hplan⟩ := h
      exact encodeInstruction_eq_ok here hplan
  | data width items => exact toOption_eq_some.symm
  | fill count fill default => exact toOption_eq_some.symm
  | org address => simp [encode, direct]

theorem direct_length (h : line.direct symbols stamp = some bytes) :
    bytes.length = line.item.size stamp line.location := by
  obtain ⟨location, address, scope, size, item⟩ := line
  cases item with
  | instruction selection slots => exact directBytes_length h
  | data width items => simpa [Item.size] using appendItems_length (toOption_eq_some.mp h)
  | fill count fill default => exact encodeFill_length (toOption_eq_some.mp h)
  | org address =>
      cases h
      rfl

end PlannedLine

end Z80
