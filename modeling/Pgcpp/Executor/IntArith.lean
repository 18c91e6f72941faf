import Mathlib.Algebra.Group.Nat.Defs
import Mathlib.Algebra.Ring.Int.Defs
import Mathlib.Data.Int.Order.Basic

/-!
# Integer arithmetic of the executor

`ExecEvalExpr` on trees of arithmetic operators.  The machine operations wrap
around, and a quotient by zero is taken to be zero.
-/

namespace Pgcpp.Executor

inductive IntType where
  | int4
  | int8

inductive ArithOp where
  | plus
  | minus
  | times
  | divide

/-- A row of `pg_operator`. -/
structure OprRow where
  oprname : ArithOp
  oprleft : IntType

inductive VarNo where
  | inner
  | outer
  | scan

inductive ArithExpr where
  | var (varno : VarNo) (varattno : Int)
  | const (constvalue : BitVec 64) (constisnull : Bool)
  | opExpr (opno : Nat) (left right : ArithExpr)

/-- The values and null flags of the slots, `none` for a null pointer. -/
abbrev ExprContext := VarNo → Option (List (BitVec 64 × Bool))

def ExprContext.getSlotAttr (econtext : ExprContext) (varno : VarNo) (attno : Int) :
    BitVec 64 × Bool :=
  match econtext varno with
  | none => (0, true)
  | some values => if attno ≤ 0 then (0, true) else values.getD (attno.toNat - 1) (0, true)

def applyOp (op : ArithOp) (l r : BitVec w) : BitVec w :=
  match op with
  | .plus => l + r
  | .minus => l - r
  | .times => l * r
  | .divide => if r ≠ 0 then l.sdiv r else 0

/-- A datum of type `int4` has the value in its low half. -/
def applyArithmetic (op : ArithOp) (type : IntType) (left right : BitVec 64) : BitVec 64 :=
  match type with
  | .int4 => (applyOp op (left.setWidth 32) (right.setWidth 32)).setWidth 64
  | .int8 => applyOp op left right

section

variable (catalog : Nat → Option OprRow) (econtext : ExprContext)

def execEvalExpr : ArithExpr → Except String (BitVec 64 × Bool)
  | .var varno varattno => return econtext.getSlotAttr varno varattno
  | .const constvalue constisnull => return (constvalue, constisnull)
  | .opExpr opno left right => do
    let (left, leftNull) ← execEvalExpr left
    let (right, rightNull) ← execEvalExpr right
    match catalog opno with
    | none => return (0, true)
    | some oprow =>
      if leftNull || rightNull then return (0, true)
      else return (applyArithmetic oprow.oprname oprow.oprleft left right, false)

def IntType.value (type : IntType) (datum : BitVec 64) : Int :=
  match type with
  | .int4 => (datum.setWidth 32).toInt
  | .int8 => datum.toInt

def IntType.result (type : IntType) (datum : BitVec 64 × Bool) : Option Int :=
  if datum.2 then none else some (type.value datum.1)

def IntType.Has (type : IntType) (value : Int) : Prop :=
  match type with
  | .int4 => -2 ^ 31 ≤ value ∧ value < 2 ^ 31
  | .int8 => -2 ^ 63 ≤ value ∧ value < 2 ^ 63

def exactOp : ArithOp → Int → Int → Int
  | .plus, l, r => l + r
  | .minus, l, r => l - r
  | .times, l, r => l * r
  | .divide, l, r => l.tdiv r

variable (type : IntType)

/-- The integer of a tree, `none` for null. -/
def exactValue : ArithExpr → Option Int
  | .var varno varattno => type.result (econtext.getSlotAttr varno varattno)
  | .const constvalue constisnull => type.result (constvalue, constisnull)
  | .opExpr opno left right => do
    let oprow ← catalog opno
    return exactOp oprow.oprname (← exactValue left) (← exactValue right)

/-- Every operator of the tree is one of the type. -/
def OfType : ArithExpr → Prop
  | .opExpr opno left right =>
    (∃ name, catalog opno = some ⟨name, type⟩) ∧ OfType left ∧ OfType right
  | _ => True

/-- No divisor in the tree is zero, and the type has every intermediate value. -/
def StaysInRange : ArithExpr → Prop
  | .opExpr opno left right =>
    StaysInRange left ∧ StaysInRange right ∧
      ∀ oprow l r, catalog opno = some oprow → exactValue catalog econtext type left = some l →
        exactValue catalog econtext type right = some r →
        (oprow.oprname = .divide → r ≠ 0) ∧ type.Has (exactOp oprow.oprname l r)
  | _ => True

end

variable {catalog : Nat → Option OprRow} {econtext : ExprContext} {type : IntType}

theorem toInt_applyOp (l r : BitVec w) :
    (applyOp op l r).toInt = (exactOp op l.toInt r.toInt).bmod (2 ^ w) := by
  cases op with
  | plus => exact BitVec.toInt_add l r
  | minus => exact BitVec.toInt_sub
  | times => exact BitVec.toInt_mul l r
  | divide =>
    by_cases zero : r = 0
    · simp [applyOp, exactOp, zero]
    · rw [applyOp, if_pos zero]
      exact BitVec.toInt_sdiv l r

theorem value_applyArithmetic (has : type.Has (exactOp op (type.value left) (type.value right))) :
    type.value (applyArithmetic op type left right) =
      exactOp op (type.value left) (type.value right) := by
  cases type with
  | int4 =>
    rw [IntType.value, applyArithmetic, BitVec.setWidth_setWidth_of_le _ (by decide),
      BitVec.setWidth_eq, toInt_applyOp]
    exact Int.bmod_eq_of_le has.1 has.2
  | int8 =>
    rw [IntType.value, applyArithmetic, toInt_applyOp]
    exact Int.bmod_eq_of_le has.1 has.2

theorem execEvalExpr_returns : ∃ datum, execEvalExpr catalog econtext expr = .ok datum := by
  induction expr with
  | opExpr opno _ _ inLeft inRight =>
    obtain ⟨l, evalLeft⟩ := inLeft
    obtain ⟨r, evalRight⟩ := inRight
    rw [execEvalExpr, evalLeft, evalRight]
    cases catalog opno with
    | none => exact ⟨_, rfl⟩
    | some _ =>
      dsimp only [Except.bind, bind]
      split_ifs <;> exact ⟨_, rfl⟩
  | _ => exact ⟨_, rfl⟩

theorem result_execEvalExpr (typed : OfType catalog type expr)
    (inRange : StaysInRange catalog econtext type expr)
    (eval : execEvalExpr catalog econtext expr = .ok datum) :
    type.result datum = exactValue catalog econtext type expr := by
  induction expr generalizing datum with
  | var =>
    cases eval
    rfl
  | const =>
    cases eval
    rfl
  | opExpr _ left right inLeft inRight =>
    obtain ⟨⟨_, found⟩, typedLeft, typedRight⟩ := typed
    obtain ⟨leftInRange, rightInRange, has⟩ := inRange
    obtain ⟨⟨l, leftNull⟩, evalLeft⟩ := execEvalExpr_returns
    obtain ⟨⟨r, rightNull⟩, evalRight⟩ := execEvalExpr_returns
    have leftResult := inLeft typedLeft leftInRange evalLeft
    have rightResult := inRight typedRight rightInRange evalRight
    rw [execEvalExpr, evalLeft, evalRight, found] at eval
    rw [exactValue, found, ← leftResult, ← rightResult]
    cases leftNull <;> cases rightNull <;> cases eval
    · have inType := (has _ _ _ found leftResult.symm rightResult.symm).2
      exact congrArg some (value_applyArithmetic inType)
    all_goals rfl

theorem execEvalExpr_exact_iff (typed : OfType catalog type expr) :
    (∀ datum, execEvalExpr catalog econtext expr = .ok datum →
      StaysInRange catalog econtext type expr ∧
        type.result datum = exactValue catalog econtext type expr) ↔
      StaysInRange catalog econtext type expr := by
  constructor
  · intro exact_
    obtain ⟨datum, eval⟩ := execEvalExpr_returns
    exact (exact_ datum eval).1
  · intro inRange datum eval
    exact ⟨inRange, result_execEvalExpr typed inRange eval⟩

def int4Operators : Nat → Option OprRow
  | 551 => some ⟨.plus, .int4⟩
  | 553 => some ⟨.divide, .int4⟩
  | _ => none

theorem quotient_returned :
    let quotient := ArithExpr.opExpr 553 (.opExpr 551 (.const 7 false) (.const 2 false))
      (.opExpr 551 (.const 1 false) (.const 1 false))
    ∀ datum, execEvalExpr int4Operators (fun _ => none) quotient = .ok datum →
      IntType.int4.result datum = some 4 := by
  intro quotient datum eval
  have typed : OfType int4Operators .int4 quotient :=
    ⟨⟨_, rfl⟩, ⟨⟨_, rfl⟩, trivial, trivial⟩, ⟨_, rfl⟩, trivial, trivial⟩
  have inRange : StaysInRange int4Operators (fun _ => none) .int4 quotient := by
    refine ⟨⟨trivial, trivial, ?_⟩, ⟨trivial, trivial, ?_⟩, ?_⟩ <;>
    · rintro _ _ _ ⟨⟩ ⟨⟩ ⟨⟩
      exact ⟨fun _ => by decide, by decide, by decide⟩
  exact ((execEvalExpr_exact_iff typed).2 inRange datum eval).2

theorem sum_wraps : let sum := ArithExpr.opExpr 551 (.const 0x7fffffff false) (.const 1 false)
    execEvalExpr int4Operators (fun _ => none) sum = .ok (0x80000000, false) ∧
      IntType.int4.result (0x80000000, false) = some (-2147483648) ∧
      exactValue int4Operators (fun _ => none) .int4 sum = some 2147483648 := by
  exact ⟨rfl, by decide, rfl⟩

end Pgcpp.Executor
