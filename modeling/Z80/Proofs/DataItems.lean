import Mathlib
import Z80.Proofs.Program

namespace Z80

variable {ctx : Context} {stamp : BuildStamp} {loc : Location} {width : DataWidth}
  {bytes a c : List UInt8} {op : BinaryOp} {e : Expr} {item : DataItem}
  {xs ys ws : List DataItem}

def adjusted (ctx : Context) (b : UInt8) (op : BinaryOp) (e : Expr) : Except Error UInt8 := do
  let v ← (Expr.binary op (.number (Int32.ofNat b.toNat)) e).value ctx
  byteValue v

theorem adjustLast_nil : adjustLast ctx [] op e = .error (.syntactic .emptyAdjusted) :=
  rfl

theorem adjustLast_concat (bytes : List UInt8) (b : UInt8) :
    adjustLast ctx (bytes ++ [b]) op e = (adjusted ctx b op e).map fun c => bytes ++ [c] := by
  simp only [adjustLast, List.getLast?_concat, List.dropLast_concat, adjusted]
  cases (Expr.binary op (.number (Int32.ofNat b.toNat)) e).value ctx with
  | error err => rfl
  | ok v => cases h : byteValue v <;> simp [h, bind, Except.bind, Except.map, pure, Except.pure]

theorem adjustLast_append (a : List UInt8) (hc : c ≠ []) :
    adjustLast ctx (a ++ c) op e = (adjustLast ctx c op e).map (a ++ ·) := by
  obtain ⟨init, b, rfl⟩ := (List.eq_nil_or_concat c).resolve_left hc
  rw [List.concat_eq_append, ← List.append_assoc, adjustLast_concat, adjustLast_concat]
  cases adjusted ctx b op e <;> simp [Except.map]

theorem appendItem_append (a : List UInt8) (h : ∀ op e, item = .text [] (some (op, e)) → c ≠ []) :
    appendItem ctx stamp loc width (a ++ c) item =
      (appendItem ctx stamp loc width c item).map (a ++ ·) := by
  cases item with
  | expr e =>
      simp only [appendItem]
      cases e.value ctx with
      | error err => rfl
      | ok v => cases hd : width.encode v <;> simp [hd, bind, Except.bind, Except.map, pure, Except.pure]
  | predefined p => simp [appendItem, Except.map]
  | text text adjust =>
      cases adjust with
      | none => simp [appendItem, Except.map]
      | some adjust =>
          obtain ⟨op, e⟩ := adjust
          have hne : c ++ text ≠ [] := by
            intro hnil
            obtain ⟨hc, rfl⟩ := List.append_eq_nil_iff.mp hnil
            exact h op e rfl hc
          simp only [appendItem, List.append_assoc]
          exact adjustLast_append a hne

theorem appendItems_single (bytes : List UInt8) (item : DataItem) :
    appendItems ctx stamp loc width bytes [item] = appendItem ctx stamp loc width bytes item := by
  cases h : appendItem ctx stamp loc width bytes item <;> simp [appendItems, h, bind, Except.bind]

theorem appendItems_concat (bytes : List UInt8) (xs ys : List DataItem) :
    appendItems ctx stamp loc width bytes (xs ++ ys) = (do
      let more ← appendItems ctx stamp loc width bytes xs
      appendItems ctx stamp loc width more ys) := by
  induction xs generalizing bytes with
  | nil => rfl
  | cons item xs ih => simp only [List.cons_append, appendItems, ih, bind_assoc]

theorem encodeData_append (xs ys : List DataItem) :
    encodeData ctx stamp loc width (xs ++ ys) = (do
      let a ← encodeData ctx stamp loc width xs
      appendItems ctx stamp loc width a ys) :=
  appendItems_concat [] xs ys

def ReachesBack (ctx : Context) (stamp : BuildStamp) (loc : Location) (width : DataWidth)
    (ys : List DataItem) (op : BinaryOp) (e : Expr) (ws : List DataItem) : Prop :=
  ∃ zs, ys = zs ++ .text [] (some (op, e)) :: ws ∧ encodeData ctx stamp loc width zs = .ok []

theorem appendItems_append (a : List UInt8)
    (h : ∀ zs op e ws, ys = zs ++ .text [] (some (op, e)) :: ws →
      appendItems ctx stamp loc width c zs ≠ .ok []) :
    appendItems ctx stamp loc width (a ++ c) ys =
      (appendItems ctx stamp loc width c ys).map (a ++ ·) := by
  induction ys generalizing c with
  | nil => rfl
  | cons item ys ih =>
      have hitem : ∀ op e, item = .text [] (some (op, e)) → c ≠ [] := by
        rintro op e rfl rfl
        exact h [] op e ys rfl rfl
      simp only [appendItems, appendItem_append a hitem]
      cases hc : appendItem ctx stamp loc width c item with
      | error err => rfl
      | ok c' =>
          refine ih fun zs op e ws hys => ?_
          have hrest := h (item :: zs) op e ws (by rw [hys]; rfl)
          rw [appendItems, hc] at hrest
          exact hrest

theorem appendItems_of_ok {d : List UInt8} (a : List UInt8)
    (h : appendItems ctx stamp loc width c ys = .ok d) :
    appendItems ctx stamp loc width (a ++ c) ys = .ok (a ++ d) := by
  have hnot : ∀ zs op e ws, ys = zs ++ .text [] (some (op, e)) :: ws →
      appendItems ctx stamp loc width c zs ≠ .ok [] := by
    rintro zs op e ws rfl hzs
    rw [appendItems_concat, hzs] at h
    cases h
  rw [appendItems_append a hnot, h]
  rfl

theorem appendItems_of_not_reachesBack (a : List UInt8)
    (h : ¬∃ op e ws, ReachesBack ctx stamp loc width ys op e ws) :
    appendItems ctx stamp loc width a ys =
      (encodeData ctx stamp loc width ys).map (a ++ ·) := by
  have happend := appendItems_append (c := []) a fun zs op e ws hys hzs =>
    h ⟨op, e, ws, zs, hys, hzs⟩
  rwa [List.append_nil] at happend

namespace ReachesBack

theorem appendItems_eq (h : ReachesBack ctx stamp loc width ys op e ws) (a : List UInt8) :
    appendItems ctx stamp loc width a ys = (do
      let more ← adjustLast ctx a op e
      appendItems ctx stamp loc width more ws) := by
  obtain ⟨zs, rfl, hzs⟩ := h
  have hfront : appendItems ctx stamp loc width a zs = .ok a := by
    simpa using appendItems_of_ok a hzs
  rw [appendItems_concat, hfront]
  simp [appendItems, appendItem, bind, Except.bind]

theorem encodeData_eq (h : ReachesBack ctx stamp loc width ys op e ws) :
    encodeData ctx stamp loc width ys = .error (.syntactic .emptyAdjusted) := by
  rw [encodeData, h.appendItems_eq, adjustLast_nil]
  rfl

end ReachesBack

section Independence

variable (ctx : Context) (stamp : BuildStamp) (loc : Location) (width : DataWidth)
  (xs ys : List DataItem)

def Independent : Prop :=
  ∀ out, encodeData ctx stamp loc width (xs ++ ys) = .ok out ↔
    ∃ a b, encodeData ctx stamp loc width xs = .ok a ∧ encodeData ctx stamp loc width ys = .ok b ∧
      out = a ++ b

def Intrudes : Prop :=
  ∃ a op e ws more out, encodeData ctx stamp loc width xs = .ok a ∧
    ReachesBack ctx stamp loc width ys op e ws ∧ adjustLast ctx a op e = .ok more ∧
    appendItems ctx stamp loc width more ws = .ok out

variable {ctx stamp loc width xs ys}

theorem independent_iff : Independent ctx stamp loc width xs ys ↔
    ¬Intrudes ctx stamp loc width xs ys := by
  constructor
  · rintro h ⟨a, op, e, ws, more, out, ha, hreach, hmore, hout⟩
    have hall : encodeData ctx stamp loc width (xs ++ ys) = .ok out := by
      rw [encodeData_append, ha]
      exact (hreach.appendItems_eq a).trans (bind_eq_ok.mpr ⟨more, hmore, hout⟩)
    obtain ⟨-, b, -, hb, -⟩ := (h out).mp hall
    rw [hreach.encodeData_eq] at hb
    cases hb
  · intro h out
    rw [encodeData_append, bind_eq_ok]
    constructor
    · rintro ⟨a, ha, hout⟩
      by_cases hreach : ∃ op e ws, ReachesBack ctx stamp loc width ys op e ws
      · obtain ⟨op, e, ws, hreach⟩ := hreach
        rw [hreach.appendItems_eq, bind_eq_ok] at hout
        obtain ⟨more, hmore, hout⟩ := hout
        exact absurd ⟨a, op, e, ws, more, out, ha, hreach, hmore, hout⟩ h
      · rw [appendItems_of_not_reachesBack a hreach, map_eq_ok] at hout
        obtain ⟨b, hb, rfl⟩ := hout
        exact ⟨a, b, ha, hb, rfl⟩
    · rintro ⟨a, b, ha, hb, rfl⟩
      exact ⟨a, ha, by simpa using appendItems_of_ok a hb⟩

theorem data_independent_iff (ctx : Context) (stamp : BuildStamp) (loc : Location)
    (width : DataWidth) (xs ys : List DataItem) :
    (Independent ctx stamp loc width xs ys ↔ ¬Intrudes ctx stamp loc width xs ys) ∧
      ((∀ op e, .text [] (some (op, e)) ∉ ys) → Independent ctx stamp loc width xs ys) ∧
      (∀ text b op e out,
        encodeData ctx stamp loc width (xs ++ [.text (text ++ [b]) (some (op, e))]) = .ok out ↔
          ∃ a c, encodeData ctx stamp loc width xs = .ok a ∧ adjusted ctx b op e = .ok c ∧
            out = a ++ (text ++ [c])) ∧
      (∀ op e, encodeData ctx stamp loc width xs = .ok [] →
        encodeData ctx stamp loc width (xs ++ .text [] (some (op, e)) :: ys) =
          .error (.syntactic .emptyAdjusted)) ∧
      (∀ op e a b, encodeData ctx stamp loc width xs = .ok (a ++ [b]) →
        encodeData ctx stamp loc width (xs ++ [.text [] (some (op, e))]) =
          (adjusted ctx b op e).map fun c => a ++ [c]) := by
  refine ⟨independent_iff, ?_, ?_, ?_, ?_⟩
  · rintro hnone
    rw [independent_iff]
    rintro ⟨a, op, e, ws, more, out, -, ⟨zs, rfl, -⟩, -, -⟩
    exact hnone op e (by simp)
  · intro text b op e out
    simp only [encodeData_append, bind_eq_ok, appendItems_single, appendItem, ← List.append_assoc,
      adjustLast_concat, map_eq_ok]
    constructor
    · rintro ⟨a, ha, c, hc, rfl⟩
      exact ⟨a, c, ha, hc, rfl⟩
    · rintro ⟨a, c, ha, hc, rfl⟩
      exact ⟨a, ha, c, hc, rfl⟩
  · intro op e hxs
    exact ReachesBack.encodeData_eq ⟨xs, rfl, hxs⟩
  · intro op e a b hxs
    have hlast : appendItem ctx stamp loc width (a ++ [b]) (.text [] (some (op, e))) =
        (adjusted ctx b op e).map fun c => a ++ [c] := by
      simp only [appendItem, List.append_nil]
      exact adjustLast_concat a b
    rw [encodeData_append, hxs]
    exact (appendItems_single _ _).trans hlast

theorem emptyString_intrudes :
    Line.parse " db 1,\"\"+1" = .ok ⟨none, some (.data .byte
        [.expr (.number 1), .text [] (some (.add, .number 1))])⟩ ∧
      (∃ a, ({} : Config).assembleText 0 " db 1,\"\"+1\n" = .ok a ∧ a.image.bytes = [0x02]) ∧
      encodeData ⟨fun _ => none, 0⟩ (BuildStamp.ofSeconds 0 ["<input>"]) ⟨0, 1⟩ .byte
        [.text [] (some (.add, .number 1))] = .error (.syntactic .emptyAdjusted) ∧
      ¬Independent ⟨fun _ => none, 0⟩ (BuildStamp.ofSeconds 0 ["<input>"]) ⟨0, 1⟩ .byte
        [.expr (.number 1)] [.text [] (some (.add, .number 1))] := by
  refine ⟨by decide +kernel, ?_, rfl, ?_⟩
  · exact ⟨_, Config.assemble_eq_ok.mpr ⟨by decide +kernel, by decide +kernel, rfl⟩, by decide +kernel⟩
  · intro h
    obtain ⟨a, b, -, hb, -⟩ := (h [0x02]).mp (by decide +kernel)
    cases hb

end Independence

end Z80
