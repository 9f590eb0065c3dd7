import Mathlib
import Z80.Proofs.Evaluation

namespace Z80

section Bits

variable {w : Nat} {x y z : BitVec w}

theorem int_eq_of_testBit {a b : Int} (h : ∀ i, a.testBit i = b.testBit i) : a = b := by
  -- Far enough to the left a number has zeros and a negative one has ones.
  have hfar : ∀ m n : Nat, ∃ i, m.testBit i = false ∧ n.testBit i = false := by
    intro m n
    have hm : m < 2 ^ (m + n) := Nat.lt_of_le_of_lt (Nat.le_add_right m n) Nat.lt_two_pow_self
    have hn : n < 2 ^ (m + n) := Nat.lt_of_le_of_lt (Nat.le_add_left n m) Nat.lt_two_pow_self
    exact ⟨m + n, Nat.testBit_lt_two_pow hm, Nat.testBit_lt_two_pow hn⟩
  cases a with
  | ofNat m =>
      cases b with
      | ofNat n => exact congrArg _ (Nat.eq_of_testBit_eq h)
      | negSucc n =>
          obtain ⟨i, hm, hn⟩ := hfar m n
          have hi := h i
          simp [Int.testBit, hm, hn] at hi
  | negSucc m =>
      cases b with
      | ofNat n =>
          obtain ⟨i, hm, hn⟩ := hfar m n
          have hi := h i
          simp [Int.testBit, hm, hn] at hi
      | negSucc n =>
          have hbits : ∀ i, m.testBit i = n.testBit i := by
            intro i
            simpa [Int.testBit] using h i
          rw [Nat.eq_of_testBit_eq hbits]

theorem testBit_toInt (x : BitVec w) (i : Nat) :
    x.toInt.testBit i = if i < w then x.getLsbD i else x.msb := by
  cases hx : x.msb with
  | false =>
      rw [BitVec.toInt_eq_toNat_of_msb hx]
      change x.toNat.testBit i = _
      rw [BitVec.testBit_toNat]
      split
      · rfl
      · next hi => exact BitVec.getLsbD_of_ge x i (by omega)
  | true =>
      have hneg : x.toInt = Int.negSucc (~~~x).toNat := by
        have hlt := x.isLt
        rw [BitVec.toInt_eq_msb_cond, hx, if_pos rfl, BitVec.toNat_not]
        omega
      rw [hneg]
      change (!(~~~x).toNat.testBit i) = _
      rw [BitVec.testBit_toNat, BitVec.getLsbD_not]
      split <;> simp [*]

theorem toInt_bitwise (f : Bool → Bool → Bool)
    (hbits : ∀ i, i < w → z.getLsbD i = f (x.getLsbD i) (y.getLsbD i))
    (hmsb : z.msb = f x.msb y.msb) : z.toInt = Int.bitwise f x.toInt y.toInt := by
  apply int_eq_of_testBit
  intro i
  rw [Int.testBit_bitwise, testBit_toInt, testBit_toInt, testBit_toInt]
  split
  · next hi => exact hbits i hi
  · exact hmsb

end Bits

section Words

variable {a b : Int32}

theorem toInt_land (a b : Int32) : (a &&& b).toInt = Int.land a.toInt b.toInt := by
  rw [← Int.bitwise_and]
  exact toInt_bitwise and (fun i _ => BitVec.getLsbD_and) BitVec.msb_and

theorem toInt_lor (a b : Int32) : (a ||| b).toInt = Int.lor a.toInt b.toInt := by
  rw [← Int.bitwise_or]
  exact toInt_bitwise or (fun i _ => BitVec.getLsbD_or) BitVec.msb_or

theorem toInt_lxor (a b : Int32) : (a ^^^ b).toInt = Int.xor a.toInt b.toInt := by
  rw [← Int.bitwise_xor]
  exact toInt_bitwise xor (fun i _ => BitVec.getLsbD_xor) BitVec.msb_xor

theorem toInt_lnot (a : Int32) : (~~~a).toInt = Int.lnot a.toInt := by
  apply int_eq_of_testBit
  intro i
  rw [Int.testBit_lnot]
  change (~~~a.toBitVec).toInt.testBit i = !a.toBitVec.toInt.testBit i
  rw [testBit_toInt, testBit_toInt, BitVec.getLsbD_not, BitVec.msb_not]
  split <;> simp [*]

theorem toInt_bounds (a : Int32) : -2147483648 ≤ a.toInt ∧ a.toInt ≤ 2147483647 :=
  ⟨a.le_toInt, Int.le_of_lt_add_one a.toInt_lt⟩

theorem toInt_ofInt {n : Int} (h : -2147483648 ≤ n ∧ n ≤ 2147483647) : (Int32.ofInt n).toInt = n :=
  Int32.toInt_ofInt_of_le h.1 (Int.lt_add_one_of_le h.2)

theorem smod_eq_self (h : 0 ≤ b.toInt ∧ b.toInt < 32) : b.toBitVec.smod 32 = b.toBitVec := by
  apply BitVec.eq_of_toInt_eq
  rw [BitVec.toInt_smod]
  exact Int.fmod_eq_of_lt h.1 h.2

theorem toNat_of_nonneg (h : 0 ≤ b.toInt) : b.toBitVec.toNat = b.toInt.toNat := by
  have hlt := b.toBitVec.isLt
  have hcond : b.toInt = _ := BitVec.toInt_eq_toNat_cond b.toBitVec
  split at hcond
  · omega
  · omega

theorem toInt_shl (h : 0 ≤ b.toInt ∧ b.toInt < 32) :
    (a <<< b).toInt = (a.toInt * 2 ^ b.toInt.toNat).bmod (2 ^ 32) := by
  change (a <<< b).toBitVec.toInt = _
  rw [Int32.toBitVec_shiftLeft, smod_eq_self h, BitVec.shiftLeft_eq', BitVec.toInt_shiftLeft,
    toNat_of_nonneg h.1]
  have hbmod : a.toInt = Int.bmod a.toBitVec.toNat (2 ^ 32) := BitVec.toInt_eq_toNat_bmod a.toBitVec
  rw [hbmod, Int.bmod_mul_bmod, Nat.shiftLeft_eq]
  push_cast
  rfl

theorem toInt_shr (h : 0 ≤ b.toInt ∧ b.toInt < 32) :
    (a >>> b).toInt = Int.fdiv a.toInt (2 ^ b.toInt.toNat) := by
  change (a >>> b).toBitVec.toInt = _
  rw [Int32.toBitVec_shiftRight, smod_eq_self h, BitVec.sshiftRight_eq', BitVec.toInt_sshiftRight,
    toNat_of_nonneg h.1, Int.shiftRight_eq_div_pow, Int.fdiv_eq_ediv_of_nonneg _ (by positivity)]
  push_cast
  rfl

end Words

def InWord (n : Int) : Prop :=
  -2147483648 ≤ n ∧ n ≤ 2147483647

instance (n : Int) : Decidable (InWord n) :=
  inferInstanceAs (Decidable (_ ∧ _))

def outside? (n : Int) : Option OperationFault :=
  if InWord n then none else some .overflow

namespace UnaryOp

def exactResult : UnaryOp → Int → Int
  | pos, a => a
  | neg, a => -a
  | not, a => Int.lnot a

def fault? : UnaryOp → Int → Option OperationFault
  | neg, a => outside? (-a)
  | pos, _ | not, _ => none

end UnaryOp

namespace BinaryOp

def exactResult : BinaryOp → Int → Int → Int
  | or, a, b => Int.lor a b
  | xor, a, b => Int.xor a b
  | and, a, b => Int.land a b
  | shl, a, b => (a * 2 ^ b.toNat).bmod (2 ^ 32)
  | shr, a, b => Int.fdiv a (2 ^ b.toNat)
  | add, a, b => a + b
  | sub, a, b => a - b
  | mul, a, b => a * b
  | div, a, b => Int.tdiv a b
  | mod, a, b => Int.tmod a b

def fault? : BinaryOp → Int → Int → Option OperationFault
  | or, _, _ | xor, _, _ | and, _, _ => none
  | shl, _, b | shr, _, b =>
      if 0 ≤ b ∧ b ≤ 31 then none else some (.shiftAmount (Int32.ofInt b))
  | add, a, b => outside? (a + b)
  | sub, a, b => outside? (a - b)
  | mul, a, b => outside? (a * b)
  | div, a, b | mod, a, b =>
      if b = 0 then some .divisionByZero
      else if a = -2147483648 ∧ b = -1 then some .overflow
      else none

end BinaryOp

def Agrees (x : Except OperationFault Int32) (fault? : Option OperationFault) (n : Int) : Prop :=
  match x with
  | .ok v => fault? = none ∧ v.toInt = n
  | .error fault => fault? = some fault

theorem inRange_of_inWord {n : Int} (h : InWord n) : inRange n = .ok (Int32.ofInt n) :=
  if_pos h

theorem inRange_of_not_inWord {n : Int} (h : ¬InWord n) : inRange n = .error .overflow :=
  if_neg h

theorem inRange_agrees (n : Int) : Agrees (inRange n) (outside? n) n := by
  by_cases h : InWord n
  · rw [inRange_of_inWord h, outside?, if_pos h]
    exact ⟨rfl, toInt_ofInt h⟩
  · rw [inRange_of_not_inWord h, outside?, if_neg h]
    rfl

theorem UnaryOp.apply_agrees (op : UnaryOp) (a : Int32) :
    Agrees (op.apply a) (op.fault? a.toInt) (op.exactResult a.toInt) := by
  cases op with
  | pos => exact ⟨rfl, rfl⟩
  | neg => exact inRange_agrees _
  | not => exact ⟨rfl, toInt_lnot a⟩

section Division

variable {a b : Int}

theorem tdiv_inWord (ha : InWord a) (hnot : ¬(a = -2147483648 ∧ b = -1)) :
    InWord (Int.tdiv a b) := by
  have habs : (Int.tdiv a b).natAbs = a.natAbs / b.natAbs := Int.natAbs_tdiv a b
  have hle : a.natAbs / b.natAbs ≤ a.natAbs := Nat.div_le_self ..
  by_cases hmin : a = -2147483648
  · by_cases hone : b = 1
    · rw [hone, Int.tdiv_one]
      exact ha
    · -- The divisor is zero or at least two in size, so the quotient is at most half.
      have hhalf : a.natAbs / b.natAbs ≤ a.natAbs / 2 := by
        by_cases hzero : b = 0
        · simp [hzero]
        · exact Nat.div_le_div_left (by omega) (by decide)
      unfold InWord
      omega
  · unfold InWord at *
    omega

theorem tmod_inWord (hb : InWord b) (hzero : b ≠ 0) : InWord (Int.tmod a b) := by
  have habs : (Int.tmod a b).natAbs = a.natAbs % b.natAbs := Int.natAbs_tmod a b
  have hlt : a.natAbs % b.natAbs < b.natAbs := Nat.mod_lt _ (Int.natAbs_pos.mpr hzero)
  unfold InWord at *
  omega

theorem tdiv_not_inWord (ha : a = -2147483648) (hb : b = -1) : ¬InWord (Int.tdiv a b) := by
  subst ha hb
  decide

end Division

theorem shifted_agrees {shift : Int32 → Int32 → Int32} {a b : Int32} {n : Int}
    (h : 0 ≤ b.toInt ∧ b.toInt < 32 → (shift a b).toInt = n) :
    Agrees (shifted shift a b)
      (if 0 ≤ b.toInt ∧ b.toInt ≤ 31 then none else some (.shiftAmount (Int32.ofInt b.toInt)))
      n := by
  by_cases hb : 0 ≤ b.toInt ∧ b.toInt < 32
  · rw [shifted, if_pos hb, if_pos (by omega)]
    exact ⟨rfl, h hb⟩
  · rw [shifted, if_neg hb, if_neg (by omega), Int32.ofInt_toInt]
    rfl

theorem divided_agrees {a b : Int32} {x : Except OperationFault Int32} {n : Int}
    (hlegal : b.toInt ≠ 0 → ¬(a.toInt = -2147483648 ∧ b.toInt = -1) → Agrees x none n)
    (hmin : a.toInt = -2147483648 ∧ b.toInt = -1 → x = .error .overflow) :
    Agrees (if b = 0 then .error .divisionByZero else x)
      (if b.toInt = 0 then some .divisionByZero
        else if a.toInt = -2147483648 ∧ b.toInt = -1 then some .overflow
        else none) n := by
  have hzero : b = 0 ↔ b.toInt = 0 := by
    rw [← Int32.toInt_inj]
    rfl
  simp only [hzero]
  by_cases hb : b.toInt = 0
  · rw [if_pos hb, if_pos hb]
    rfl
  · rw [if_neg hb, if_neg hb]
    by_cases hboth : a.toInt = -2147483648 ∧ b.toInt = -1
    · rw [if_pos hboth, hmin hboth]
      rfl
    · rw [if_neg hboth]
      exact hlegal hb hboth

theorem BinaryOp.apply_agrees (op : BinaryOp) (a b : Int32) :
    Agrees (op.apply a b) (op.fault? a.toInt b.toInt) (op.exactResult a.toInt b.toInt) := by
  cases op with
  | or => exact ⟨rfl, toInt_lor a b⟩
  | xor => exact ⟨rfl, toInt_lxor a b⟩
  | and => exact ⟨rfl, toInt_land a b⟩
  | shl => exact shifted_agrees toInt_shl
  | shr => exact shifted_agrees toInt_shr
  | add | sub | mul => exact inRange_agrees _
  | div =>
      apply divided_agrees
      · intro _ hboth
        have hquotient := tdiv_inWord (toInt_bounds a) hboth
        rw [inRange_of_inWord hquotient]
        exact ⟨rfl, toInt_ofInt hquotient⟩
      · rintro ⟨ha, hb⟩
        exact inRange_of_not_inWord (tdiv_not_inWord ha hb)
  | mod =>
      apply divided_agrees
      · intro hb hboth
        have hrest : InWord (Int.tmod a.toInt b.toInt) := tmod_inWord (toInt_bounds b) hb
        rw [inRange_of_inWord (tdiv_inWord (toInt_bounds a) hboth)]
        simp only [inRange_of_inWord hrest]
        exact ⟨rfl, toInt_ofInt hrest⟩
      · rintro ⟨ha, hb⟩
        rw [inRange_of_not_inWord (tdiv_not_inWord ha hb)]

namespace Expr

def exactValue? (ctx : Context) : Expr → Option Int
  | number n => some n.toInt
  | here => some ctx.here.toNat
  | symbol name => (ctx.value? name).map Int32.toInt
  | unary op e => do
      let a ← e.exactValue? ctx
      if op.fault? a = none then some (op.exactResult a) else none
  | binary op l r => do
      let a ← l.exactValue? ctx
      let b ← r.exactValue? ctx
      if op.fault? a b = none then some (op.exactResult a b) else none

def steps : Expr → List Expr
  | unary op e => e.steps ++ [unary op e]
  | binary op l r => l.steps ++ (r.steps ++ [binary op l r])
  | e => [e]

def ownFault? (ctx : Context) : Expr → Option EvalFault
  | number _ | here => none
  | symbol name => if ctx.value? name = none then some (.undefined name) else none
  | unary op e => do
      let a ← e.exactValue? ctx
      let fault ← op.fault? a
      return .arithmetic (.operation fault (unary op e))
  | binary op l r => do
      let a ← l.exactValue? ctx
      let b ← r.exactValue? ctx
      let fault ← op.fault? a b
      return .arithmetic (.operation fault (binary op l r))

def firstFault? (ctx : Context) (e : Expr) : Option EvalFault :=
  e.steps.findSome? (ownFault? ctx)

def Settles (ctx : Context) (e : Expr) (r : Except EvalFault Int32) : Prop :=
  match r with
  | .ok v => e.exactValue? ctx = some v.toInt ∧ e.firstFault? ctx = none
  | .error fault => e.exactValue? ctx = none ∧ e.firstFault? ctx = some fault

variable {ctx : Context} {e l r : Expr} {v : Int32} {fault : EvalFault}

theorem firstFault?_unary (op : UnaryOp) (e : Expr) :
    (unary op e).firstFault? ctx = (e.firstFault? ctx).or ((unary op e).ownFault? ctx) := by
  simp [firstFault?, steps, List.findSome?_append]

theorem firstFault?_binary (op : BinaryOp) (l r : Expr) :
    (binary op l r).firstFault? ctx =
      (l.firstFault? ctx).or ((r.firstFault? ctx).or ((binary op l r).ownFault? ctx)) := by
  simp [firstFault?, steps, List.findSome?_append]

theorem settles_within {x : Except OperationFault Int32} {fault? : Option OperationFault} {n : Int}
    (h : Agrees x fault? n) (hexact : e.exactValue? ctx = if fault? = none then some n else none)
    (hfault : e.firstFault? ctx = fault?.map fun fault => .arithmetic (.operation fault e)) :
    e.Settles ctx (OperationFault.within e x) := by
  cases x with
  | ok v =>
      obtain ⟨rfl, rfl⟩ := h
      exact ⟨hexact, hfault⟩
  | error fault =>
      cases h
      exact ⟨hexact, hfault⟩

theorem settles_unary (op : UnaryOp) (h : e.Settles ctx (e.eval ctx)) :
    (unary op e).Settles ctx ((unary op e).eval ctx) := by
  rw [eval]
  cases he : e.eval ctx with
  | error fault =>
      rw [he] at h
      obtain ⟨hexact, hfault⟩ := h
      constructor
      · simp [exactValue?, hexact]
      · simp [firstFault?_unary, hfault]
  | ok a =>
      rw [he] at h
      obtain ⟨hexact, hfault⟩ := h
      apply settles_within (op.apply_agrees a)
      · simp [exactValue?, hexact]
      · simp [firstFault?_unary, hfault, ownFault?, hexact, Option.map_eq_bind]

theorem settles_binary (op : BinaryOp) (hl : l.Settles ctx (l.eval ctx))
    (hr : r.Settles ctx (r.eval ctx)) :
    (binary op l r).Settles ctx ((binary op l r).eval ctx) := by
  rw [eval]
  cases hel : l.eval ctx with
  | error fault =>
      rw [hel] at hl
      obtain ⟨hexact, hfault⟩ := hl
      constructor
      · simp [exactValue?, hexact]
      · simp [firstFault?_binary, hfault]
  | ok a =>
      rw [hel] at hl
      obtain ⟨hexactl, hfaultl⟩ := hl
      cases her : r.eval ctx with
      | error fault =>
          rw [her] at hr
          obtain ⟨hexact, hfault⟩ := hr
          constructor
          · simp [exactValue?, hexactl, hexact]
          · simp [firstFault?_binary, hfaultl, hfault]
      | ok b =>
          rw [her] at hr
          obtain ⟨hexactr, hfaultr⟩ := hr
          apply settles_within (op.apply_agrees a b)
          · simp [exactValue?, hexactl, hexactr]
          · simp [firstFault?_binary, hfaultl, hfaultr, ownFault?, hexactl, hexactr,
              Option.map_eq_bind]

theorem eval_settles (ctx : Context) (e : Expr) : e.Settles ctx (e.eval ctx) := by
  induction e with
  | number n => exact ⟨rfl, rfl⟩
  | here =>
      have hlt : ctx.here.toNat < 2 ^ 31 := Nat.lt_trans ctx.here.toNat_lt (by decide)
      refine ⟨?_, rfl⟩
      rw [exactValue?, Int32.toInt_ofNat_of_lt hlt]
  | symbol name =>
      rw [eval]
      cases hv : ctx.value? name with
      | none => exact ⟨by simp [exactValue?, hv], by simp [firstFault?, steps, ownFault?, hv]⟩
      | some v => exact ⟨by simp [exactValue?, hv], by simp [firstFault?, steps, ownFault?, hv]⟩
  | unary op e ih => exact settles_unary op ih
  | binary op l r ihl ihr => exact settles_binary op ihl ihr

theorem eval_eq_ok : e.eval ctx = .ok v ↔ e.exactValue? ctx = some v.toInt := by
  have h := eval_settles ctx e
  cases he : e.eval ctx with
  | ok v' =>
      rw [he] at h
      rw [h.1, Option.some.injEq, Int32.toInt_inj, Except.ok.injEq]
  | error fault =>
      rw [he] at h
      simp [h.1]

theorem eval_eq_error : e.eval ctx = .error fault ↔ e.firstFault? ctx = some fault := by
  have h := eval_settles ctx e
  cases he : e.eval ctx with
  | ok v =>
      rw [he] at h
      simp [h.2]
  | error fault' =>
      rw [he] at h
      rw [h.2, Option.some.injEq, Except.error.injEq]

theorem no_fault_iff :
    (∃ v, e.eval ctx = .ok v) ↔ ∀ step ∈ e.steps, step.ownFault? ctx = none := by
  have h := eval_settles ctx e
  rw [← List.findSome?_eq_none_iff, ← firstFault?]
  cases he : e.eval ctx with
  | ok v =>
      rw [he] at h
      simp [h.2]
  | error fault =>
      rw [he] at h
      simp [h.2]

theorem evalTolerant_eq_error {fault : ArithmeticFault} :
    e.evalTolerant ctx = .error fault ↔ e.eval ctx = .error (.arithmetic fault) := by
  unfold evalTolerant
  split <;> simp_all

theorem evalTolerant_unresolved_iff {u : Expr} : e.evalTolerant ctx = .ok (.unresolved u) ↔
    u = e ∧ ∃ name, e.eval ctx = .error (.undefined name) := by
  constructor
  · exact evalTolerant_eq_unresolved
  · rintro ⟨rfl, name, h⟩
    simp [evalTolerant, h]

theorem values_exact (ctx : Context) (e : Expr) :
    (∀ v, e.value ctx = .ok v ↔ e.exactValue? ctx = some v.toInt) ∧
    ((∃ v, e.value ctx = .ok v) ↔ ∀ step ∈ e.steps, step.ownFault? ctx = none) ∧
    (∀ error, e.value ctx = .error error ↔
      ∃ fault, e.firstFault? ctx = some fault ∧ fault.toError = error) ∧
    (∀ v, e.evalTolerant ctx = .ok (.value v) ↔ e.exactValue? ctx = some v.toInt) ∧
    (∀ u, e.evalTolerant ctx = .ok (.unresolved u) ↔
      u = e ∧ ∃ name, e.firstFault? ctx = some (.undefined name)) ∧
    ∀ fault, e.evalTolerant ctx = .error fault ↔
      e.firstFault? ctx = some (.arithmetic fault) := by
  refine ⟨?_, ?_, ?_, ?_, ?_, ?_⟩
  · intro v
    rw [value_eq_ok, eval_eq_ok]
  · simp only [value_eq_ok]
    exact no_fault_iff
  · intro error
    simp only [value, mapError_eq_error, eval_eq_error]
  · intro v
    rw [evalTolerant_eq_value, eval_eq_ok]
  · intro u
    simp only [evalTolerant_unresolved_iff, eval_eq_error]
  · intro fault
    rw [evalTolerant_eq_error, eval_eq_error]

end Expr

end Z80
