import Mathlib
import Z80.Proofs.Writing

namespace Z80

structure Write where
  location : Location
  address : UInt16
  data : List UInt8
deriving DecidableEq

namespace Write

def Covers (w : Write) (a : UInt16) : Prop :=
  ∃ i < w.data.length, w.address + UInt16.ofNat i = a

theorem covers_iff {w : Write} {a : UInt16} (fits : w.data.length ≤ 0x10000) :
    w.Covers a ↔ (a - w.address).toNat < w.data.length := by
  constructor
  · rintro ⟨i, hi, rfl⟩
    have hlt : i < UInt16.size := hi.trans_le fits
    rwa [add_sub_cancel_left, UInt16.toNat_ofNat_of_lt' hlt]
  · intro h
    refine ⟨(a - w.address).toNat, h, ?_⟩
    rw [UInt16.ofNat_toNat, add_sub_cancel]

end Write

structure Memory where
  cell : UInt16 → Option (UInt8 × Nat)
  written : Nat

namespace Memory

def blank : Memory :=
  ⟨fun _ => none, 0⟩

def store (m : Memory) (a : UInt16) (b : UInt8) : Memory :=
  ⟨Function.update m.cell a (some (b, m.written)), m.written + 1⟩

def storeAll : Memory → UInt16 → List UInt8 → Memory
  | m, _, [] => m
  | m, a, b :: bs => (m.store a b).storeAll (a + 1) bs

def replay (writes : List Write) : Memory :=
  writes.foldl (fun m w => m.storeAll w.address w.data) blank

theorem storeAll_written (m : Memory) (start : UInt16) (data : List UInt8) :
    (m.storeAll start data).written = m.written + data.length := by
  induction data generalizing m start with
  | nil => rfl
  | cons b data ih =>
      rw [storeAll, ih, List.length_cons]
      simp only [store]
      omega

theorem toNat_sub_succ {a start : UInt16} (h : a ≠ start) :
    (a - start).toNat = (a - (start + 1)).toNat + 1 := by
  have hne : a.toNat ≠ start.toNat := fun heq => h (UInt16.toNat_inj.mp heq)
  have ha := a.toNat_lt
  have hstart := start.toNat_lt
  simp only [UInt16.toNat_sub, UInt16.toNat_add, UInt16.toNat_one]
  omega

theorem storeAll_cell (m : Memory) (start a : UInt16) {data : List UInt8}
    (fits : data.length ≤ 0x10000) :
    (m.storeAll start data).cell a = match data[(a - start).toNat]? with
      | some b => some (b, m.written + (a - start).toNat)
      | none => m.cell a := by
  induction data generalizing m start with
  | nil => rfl
  | cons b data ih =>
      rw [List.length_cons] at fits
      rw [storeAll, ih _ _ (by omega)]
      by_cases h : a = start
      · -- The other bytes do not come back to where they started.
        subst h
        have hlast : (a - (a + 1)).toNat = 65535 := by
          have ha := a.toNat_lt
          simp only [UInt16.toNat_sub, UInt16.toNat_add, UInt16.toNat_one]
          omega
        rw [hlast, List.getElem?_eq_none (by omega)]
        simp [store]
      · rw [toNat_sub_succ h, List.getElem?_cons_succ]
        cases data[(a - (start + 1)).toNat]? with
        | some b' =>
            simp only [store, Option.some.injEq, Prod.mk.injEq, true_and]
            omega
        | none => simp [store, h]

theorem replay_concat (writes : List Write) (w : Write) :
    replay (writes ++ [w]) = (replay writes).storeAll w.address w.data := by
  simp [replay]

theorem replay_cell_eq_none {writes : List Write} {a : UInt16}
    (fits : ∀ w ∈ writes, w.data.length ≤ 0x10000) :
    (replay writes).cell a = none ↔ ∀ w ∈ writes, ¬w.Covers a := by
  induction writes using List.reverseRecOn with
  | nil => simp [replay, blank]
  | append_singleton writes w ih =>
      have hfits := fits w (by simp)
      have hbefore := ih fun v hv => fits v (by simp [hv])
      rw [replay_concat, storeAll_cell _ _ _ hfits]
      simp only [List.forall_mem_append, List.forall_mem_singleton, Write.covers_iff hfits]
      cases hget : w.data[(a - w.address).toNat]? with
      | some b => simp [(List.getElem?_eq_some_iff.mp hget).1]
      | none => simp [hbefore, List.getElem?_eq_none_iff.mp hget]

end Memory

def Tiles : Nat → List Emission → Nat → Prop
  | start, [], stop => start = stop
  | start, r :: rs, stop => r.offset = start ∧ 0 < r.length ∧ Tiles (start + r.length) rs stop

theorem Tiles.concat {r : Emission} :
    ∀ {rs : List Emission} {start stop : Nat}, Tiles start rs stop → r.offset = stop →
      0 < r.length → Tiles start (rs ++ [r]) (stop + r.length) := by
  intro rs
  induction rs with
  | nil =>
      intro start stop h hoffset hpos
      cases h
      exact ⟨hoffset, hpos, rfl⟩
  | cons first rs ih =>
      intro start stop h hoffset hpos
      exact ⟨h.1, h.2.1, ih h.2.2 hoffset hpos⟩

theorem Tiles.sum : ∀ {rs : List Emission} {start stop : Nat}, Tiles start rs stop →
    start + (rs.map Emission.length).sum = stop := by
  intro rs
  induction rs with
  | nil =>
      intro start stop h
      exact h
  | cons r rs ih =>
      intro start stop h
      have hrest := ih h.2.2
      rw [List.map_cons, List.sum_cons]
      omega

namespace Image

variable {image : Image} {m : Memory}

def ofWrites (writes : List Write) : Image :=
  writes.foldl (fun image w => image.emit w.location w.address w.data) empty

theorem ofWrites_concat (writes : List Write) (w : Write) :
    ofWrites (writes ++ [w]) = (ofWrites writes).emit w.location w.address w.data := by
  simp [ofWrites]

theorem emit_nil (image : Image) (loc : Location) (address : UInt16) :
    image.emit loc address [] = image := rfl

theorem emit_records (image : Image) (loc : Location) (address : UInt16) {data : List UInt8}
    (h : data ≠ []) : (image.emit loc address data).records =
      image.records ++ [⟨loc, address, image.size, data.length⟩] := by
  have hempty : ¬data.isEmpty = true := by simpa using h
  rw [emit, if_neg hempty]
  rfl

theorem emit_size (image : Image) (loc : Location) (address : UInt16) (data : List UInt8) :
    (image.emit loc address data).size = image.size + data.length := by
  rw [size, emit_bytes, List.length_append, size]

theorem emit_tiles (h : Tiles 0 image.records image.size) (loc : Location) (address : UInt16)
    (data : List UInt8) : Tiles 0 (image.emit loc address data).records
      (image.emit loc address data).size := by
  by_cases hdata : data = []
  · rw [hdata, emit_nil]
    exact h
  · rw [emit_records image loc address hdata, emit_size]
    exact h.concat rfl (List.length_pos_of_ne_nil hdata)

theorem emit_offsetOf? (image : Image) (loc : Location) (address a : UInt16) (data : List UInt8) :
    (image.emit loc address data).offsetOf? a =
      if (a - address).toNat < data.length then some (image.size + (a - address).toNat)
      else image.offsetOf? a := by
  by_cases hdata : data = []
  · simp [hdata, emit_nil]
  · rw [offsetOf?, emit_records image loc address hdata, List.reverse_append]
    simp only [List.reverse_singleton, List.singleton_append, List.findSome?_cons,
      Emission.offsetOf?]
    by_cases hnew : (a - address).toNat < data.length
    · simp [hnew]
    · simp [hnew, offsetOf?, Emission.offsetOf?]

structure Maps (image : Image) (m : Memory) : Prop where
  written : m.written = image.size
  offset : ∀ a, image.offsetOf? a = (m.cell a).map Prod.snd
  byte : ∀ a b place, m.cell a = some (b, place) → image.bytes[place]? = some b

theorem Maps.emit (h : image.Maps m) (loc : Location) (address : UInt16) {data : List UInt8}
    (fits : data.length ≤ 0x10000) :
    (image.emit loc address data).Maps (m.storeAll address data) := by
  refine ⟨?_, ?_, ?_⟩
  · rw [m.storeAll_written, h.written, emit_size]
  · intro a
    rw [emit_offsetOf?, m.storeAll_cell address a fits]
    cases hget : data[(a - address).toNat]? with
    | some b => rw [if_pos (List.getElem?_eq_some_iff.mp hget).1, h.written, Option.map_some]
    | none => rw [if_neg (by simpa using hget), h.offset]
  · intro a b place hcell
    rw [m.storeAll_cell address a fits] at hcell
    rw [emit_bytes]
    cases hget : data[(a - address).toNat]? with
    | some b' =>
        rw [hget] at hcell
        cases hcell
        rw [List.getElem?_append_right (by rw [h.written, size]; omega), h.written, size,
          Nat.add_sub_cancel_left]
        exact hget
    | none =>
        rw [hget] at hcell
        have hold := h.byte a b place hcell
        rw [List.getElem?_append_left (List.getElem?_eq_some_iff.mp hold).1]
        exact hold

theorem ofWrites_tiles (writes : List Write) :
    Tiles 0 (ofWrites writes).records (ofWrites writes).size := by
  induction writes using List.reverseRecOn with
  | nil => rfl
  | append_singleton writes w ih =>
      rw [ofWrites_concat]
      exact emit_tiles ih _ _ _

theorem ofWrites_bytes (writes : List Write) :
    (ofWrites writes).bytes = writes.flatMap Write.data := by
  induction writes using List.reverseRecOn with
  | nil => rfl
  | append_singleton writes w ih =>
      rw [ofWrites_concat, emit_bytes, ih]
      simp

theorem ofWrites_maps {writes : List Write} (fits : ∀ w ∈ writes, w.data.length ≤ 0x10000) :
    (ofWrites writes).Maps (Memory.replay writes) := by
  induction writes using List.reverseRecOn with
  | nil => exact ⟨rfl, fun _ => rfl, fun _ _ _ h => by cases h⟩
  | append_singleton writes w ih =>
      rw [ofWrites_concat, Memory.replay_concat]
      exact (ih fun v hv => fits v (by simp [hv])).emit _ _ (fits w (by simp))

theorem maps_last_writes (writes : List Write) (fits : ∀ w ∈ writes, w.data.length ≤ 0x10000) :
    (ofWrites writes).bytes = writes.flatMap Write.data ∧
    Tiles 0 (ofWrites writes).records (ofWrites writes).size ∧
    ((ofWrites writes).records.map Emission.length).sum = (ofWrites writes).size ∧
    ∀ a,
      ((ofWrites writes).offsetOf? a = none ↔ (Memory.replay writes).cell a = none) ∧
      ((Memory.replay writes).cell a = none ↔ ∀ w ∈ writes, ¬w.Covers a) ∧
      ∀ b place, (Memory.replay writes).cell a = some (b, place) →
        (ofWrites writes).offsetOf? a = some place ∧ (ofWrites writes).bytes[place]? = some b := by
  have htiles := ofWrites_tiles writes
  have hmaps := ofWrites_maps fits
  refine ⟨ofWrites_bytes writes, htiles, by simpa using htiles.sum, ?_⟩
  intro a
  refine ⟨by rw [hmaps.offset, Option.map_eq_none_iff], Memory.replay_cell_eq_none fits, ?_⟩
  intro b place hcell
  exact ⟨by rw [hmaps.offset, hcell, Option.map_some], hmaps.byte a b place hcell⟩

def overlappingWrites : List Write :=
  [⟨⟨0, 1⟩, 0xFFFE, [1, 2, 3, 4]⟩, ⟨⟨0, 2⟩, 0, []⟩, ⟨⟨0, 3⟩, 1, [9]⟩]

theorem overlappingWrites_mapped :
    (∀ w ∈ overlappingWrites, w.data.length ≤ 0x10000) ∧
      (ofWrites overlappingWrites).offsetOf? 1 = some 4 ∧
      (ofWrites overlappingWrites).bytes[4]? = some 9 ∧
      (ofWrites overlappingWrites).offsetOf? 2 = none := by
  have fits : ∀ w ∈ overlappingWrites, w.data.length ≤ 0x10000 := by decide
  obtain ⟨-, -, -, haddress⟩ := maps_last_writes overlappingWrites fits
  obtain ⟨hplace, hbyte⟩ := (haddress 1).2.2 9 4 rfl
  exact ⟨fits, hplace, hbyte, (haddress 2).1.mpr rfl⟩

end Image

end Z80
