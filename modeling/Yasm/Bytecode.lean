import Yasm.Expr

/-! Bytecodes and data values (bytecode.c): construction, the multiplier, deletion and the
parser-finalize dispatch; every destructor call is recorded as a release. -/

namespace Yasm

inductive Dataval where
  | empty
  | expr (expn : Expr)
  | string (strVal : String)
  deriving DecidableEq, Repr

def dvNewExpr (expn : Expr) : Dataval := .expr expn

def dvNewString (strVal : String) : Dataval := .string strVal

def dvsAppend (head : List Dataval) : Option Dataval → List Dataval × Option Dataval
  | some dv => (head ++ [dv], some dv)
  | none => (head, none)

/-- A destructor call on an object a bytecode owns: `expr_delete` on one owned
expression, `xfree` of a data value's string, or whatever the architecture's
`bc_delete` releases. -/
inductive BcRelease where
  | expr (e : Expr)
  | str (s : String)
  | arch (obj : Nat)
  deriving DecidableEq, Repr

def exprDelete : Option Expr → List BcRelease
  | some e => e.parts.map .expr
  | none => []

def Dataval.release : Dataval → List BcRelease
  | .expr expn => exprDelete (some expn)
  | .string strVal => [.str strVal]
  | .empty => []

def dvsDelete (head : List Dataval) : List BcRelease := head.flatMap Dataval.release

/-- Modelled from the spec: the built-in `bytecode_type` values of bc-int.h, which is
not among the sources. Architecture types lie above them. -/
def bcEmpty : Nat := 0
def bcData : Nat := 1
def bcReserve : Nat := 2

inductive BcContents where
  | empty
  | data (datahead : List Dataval) (size : UInt8)
  | reserve (numitems : Expr) (itemsize : UInt8)
  | arch (type : Nat) (data : Nat) (hbase : bcReserve < type)
  deriving DecidableEq

def BcContents.type : BcContents → Nat
  | empty => bcEmpty
  | data .. => bcData
  | reserve .. => bcReserve
  | arch type .. => type

theorem BcContents.type_eq_bcEmpty {c : BcContents} : c.type = bcEmpty ↔ c = .empty := by
  cases c with
  | arch t data hbase => simp only [BcContents.type, bcEmpty, bcReserve] at hbase ⊢; simp; omega
  | _ => simp [BcContents.type, bcEmpty, bcData, bcReserve]

structure Bytecode where
  contents : BcContents
  multiple : Option Expr
  len : Nat
  filename : Option String
  lineno : Nat
  offset : Nat

def bcNewCommon (contents : BcContents) (loc : Loc) : Bytecode :=
  { contents, multiple := none, len := 0, filename := loc.filename, lineno := loc.line,
    offset := 0 }

def bcNewData (datahead : List Dataval) (size : UInt8) (loc : Loc) : Bytecode :=
  bcNewCommon (.data datahead size) loc

def bcNewReserve (numitems : Expr) (itemsize : UInt8) (loc : Loc) : Bytecode :=
  bcNewCommon (.reserve numitems itemsize) loc

structure Immval where
  val : Expr
  len : UInt8
  isneg : UInt8
  fLen : UInt8
  fSign : UInt8
  deriving DecidableEq, Repr

def immNewInt (intVal : Nat) : Immval :=
  { val := .int intVal,
    len := if intVal &&& 0xFF = intVal then 1 else if intVal &&& 0xFFFF = intVal then 2 else 4,
    isneg := 0, fLen := 0, fSign := 0 }

def immNewExpr (exprPtr : Expr) : Immval :=
  { val := exprPtr, len := 0, isneg := 0, fLen := 0, fSign := 0 }

/-- Picking the size by masks is picking the fewest of one or two bytes that hold the
value; everything from 2^16 up gets four, also a value that needs more. -/
theorem immNewInt_len (intVal : Nat) :
    (immNewInt intVal).len = if intVal < 2 ^ 8 then 1 else if intVal < 2 ^ 16 then 2 else 4 := by
  have h8 : intVal &&& 0xFF = intVal % 2 ^ 8 := Nat.and_pow_two_sub_one_eq_mod intVal 8
  have h16 : intVal &&& 0xFFFF = intVal % 2 ^ 16 := Nat.and_pow_two_sub_one_eq_mod intVal 16
  simp only [immNewInt, h8, h16, Nat.mod_eq_iff_lt (Nat.two_pow_pos _).ne']

structure EffAddr where
  len : UInt8
  nosplit : UInt8
  deriving DecidableEq, Repr

def eaSetLen (ptr : Option EffAddr) (len : UInt8) : Option EffAddr :=
  ptr.map fun ea => { ea with len }

def eaSetNosplit (ptr : Option EffAddr) (nosplit : UInt8) : Option EffAddr :=
  ptr.map fun ea => { ea with nosplit }

def bcSetMultiple (bc : Bytecode) (e : Expr) : Bytecode :=
  match bc.multiple with
  | some m => { bc with multiple := some (.mul m e) }
  | none => { bc with multiple := some e }

/-- `bc_get_offset` is a stub that never knows an offset. -/
def bcGetOffset (_sect : Nat) (_bc : Bytecode) : Option Nat := none

/-- The bytecode dispatch table of `cur_arch`. -/
structure ArchBc where
  typeMax : Nat
  bcDelete : Bytecode → List BcRelease
  bcParserFinalize : Bytecode → Bytecode

def BcContents.release (arch : ArchBc) (bc : Bytecode) :
    BcContents → Except String (List BcRelease)
  | .empty => .ok []
  | .data datahead _ => .ok (dvsDelete datahead)
  | .reserve numitems _ => .ok (exprDelete (some numitems))
  | .arch type .. =>
    if type < arch.typeMax then .ok (arch.bcDelete bc) else .error "Unknown bytecode type"

def bcDelete (arch : ArchBc) : Option Bytecode → Except String (List BcRelease)
  | none => .ok []
  | some bc => (bc.contents.release arch bc).map (· ++ exprDelete bc.multiple)

def bcParserFinalize (arch : ArchBc) (bc : Bytecode) : Except String Bytecode :=
  match bc.contents with
  | .empty => .error "got empty bytecode in parser_finalize"
  | _ =>
    if bc.contents.type < arch.typeMax then .ok (arch.bcParserFinalize bc)
    else .error "Unknown bytecode type"

def bcsAppend (head : List Bytecode) : Option Bytecode → List Bytecode × Option Bytecode
  | some bc => if bc.contents.type = bcEmpty then (head, none) else (head ++ [bc], some bc)
  | none => (head, none)

def bcsDelete (arch : ArchBc) : List Bytecode → Except String (List BcRelease)
  | [] => .ok []
  | bc :: rest => do
    let released ← bcDelete arch (some bc)
    let more ← bcsDelete arch rest
    pure (released ++ more)

def bcsParserFinalize (arch : ArchBc) (head : List Bytecode) : Except String (List Bytecode) :=
  head.mapM (bcParserFinalize arch)

@[simp] theorem bcSetMultiple_contents (bc : Bytecode) (e : Expr) :
    (bcSetMultiple bc e).contents = bc.contents := by
  unfold bcSetMultiple; split <;> rfl

@[simp] theorem foldl_bcSetMultiple_contents (bc : Bytecode) (es : List Expr) :
    (es.foldl bcSetMultiple bc).contents = bc.contents := by
  induction es generalizing bc with
  | nil => rfl
  | cons e es ih => simp [ih]

theorem bcSetMultiple_multiple (bc : Bytecode) (e : Expr) :
    (bcSetMultiple bc e).multiple = some ((bc.multiple.map (Expr.mul · e)).getD e) := by
  unfold bcSetMultiple; split <;> simp_all

/-- What the spec asks of the calls `bc_set_multiple e₁, …, e_k` on a new bytecode: the
left-nested product `((e₁ * e₂) * …) * e_k`, and no multiplier at all for `k = 0`. -/
def leftNested : List Expr → Option Expr
  | [] => none
  | e :: es => some (es.foldl .mul e)

theorem multiple_foldl_bcSetMultiple {bc : Bytecode} {m : Expr} (hm : bc.multiple = some m)
    (es : List Expr) : (es.foldl bcSetMultiple bc).multiple = some (es.foldl .mul m) := by
  induction es generalizing bc m with
  | nil => exact hm
  | cons e es ih => exact ih (by simp [bcSetMultiple_multiple, hm])

theorem multiple_built (c : BcContents) (loc : Loc) (es : List Expr) :
    (es.foldl bcSetMultiple (bcNewCommon c loc)).multiple = leftNested es := by
  cases es with
  | nil => rfl
  | cons e es =>
    exact multiple_foldl_bcSetMultiple (by simp [bcSetMultiple_multiple, bcNewCommon]) es

theorem eval_foldl_mul (v : Nat → Int) (m : Expr) (es : List Expr) :
    (es.foldl .mul m).eval v = m.eval v * (es.map (Expr.eval v)).prod := by
  induction es generalizing m with
  | nil => simp
  | cons e es ih => simp [ih, mul_assoc]

theorem leftNested_eval (v : Nat → Int) (es : List Expr) :
    ((leftNested es).map (Expr.eval v)).getD 1 = (es.map (Expr.eval v)).prod := by
  cases es with
  | nil => rfl
  | cons e es => simp [leftNested, eval_foldl_mul]

/-- Successive multipliers compose: after `bc_set_multiple` with `e₁, …, e_k` on any new
bytecode the multiplier is their left-nested product, so its value under every valuation
is the product of theirs and does not depend on the order of the calls. -/
theorem bcSetMultiple_compose (c : BcContents) (loc : Loc) (es : List Expr) :
    (es.foldl bcSetMultiple (bcNewCommon c loc)).multiple = leftNested es ∧
      ∀ v : Nat → Int,
        ((es.foldl bcSetMultiple (bcNewCommon c loc)).multiple.map (Expr.eval v)).getD 1 =
          (es.map (Expr.eval v)).prod ∧
        ∀ es' : List Expr, es'.Perm es →
          ((es'.foldl bcSetMultiple (bcNewCommon c loc)).multiple.map (Expr.eval v)).getD 1 =
            ((es.foldl bcSetMultiple (bcNewCommon c loc)).multiple.map (Expr.eval v)).getD 1 := by
  refine ⟨multiple_built c loc es, fun v =>
    ⟨by rw [multiple_built, leftNested_eval], fun es' hp => ?_⟩⟩
  rw [multiple_built, multiple_built, leftNested_eval, leftNested_eval, (hp.map _).prod_eq]

end Yasm
