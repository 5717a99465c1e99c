import Yasm.BytecodeList

/-! What bytecodes release: each part once, over a single `bc_delete` and over a whole run
of a list. -/

namespace Yasm

def Bytecode.tailOwned (arch : ArchBc) (bc : Bytecode) : List BcRelease :=
  match bc.contents with
  | .data datahead _ => datahead.flatMap fun
    | .expr e => e.parts.map .expr
    | .string s => [.str s]
    | .empty => []
  | .reserve numitems _ => numitems.parts.map .expr
  | .empty => []
  | .arch .. => arch.bcDelete bc

def Bytecode.owned (arch : ArchBc) (bc : Bytecode) : List BcRelease :=
  bc.tailOwned arch ++ exprDelete bc.multiple

theorem dvsDelete_eq (datahead : List Dataval) :
    dvsDelete datahead = datahead.flatMap fun
      | .expr e => e.parts.map .expr
      | .string s => [.str s]
      | .empty => [] := rfl

theorem bcDelete_eq_owned {arch : ArchBc} {bc : Bytecode} {r : List BcRelease}
    (h : bcDelete arch (some bc) = .ok r) : r = bc.owned arch := by
  unfold Bytecode.owned Bytecode.tailOwned
  cases hc : bc.contents with
  | arch t d hbase =>
    by_cases ht : t < arch.typeMax <;>
      simp_all [bcDelete, BcContents.release, Except.map]
  | _ => simp_all [bcDelete, BcContents.release, Except.map, dvsDelete_eq, exprDelete]

theorem bcsDelete_eq_owned {arch : ArchBc} {head : List Bytecode} {r : List BcRelease}
    (h : bcsDelete arch head = .ok r) : r = head.flatMap (Bytecode.owned arch) := by
  induction head generalizing r with
  | nil => cases h; rfl
  | cons bc rest ih =>
    simp only [bcsDelete] at h
    cases hb : bcDelete arch (some bc) with
    | error e => simp [hb, bind, Except.bind] at h
    | ok rb =>
      cases hr : bcsDelete arch rest with
      | error e => simp [hb, hr, bind, Except.bind] at h
      | ok rs =>
        simp only [hb, hr, bind, Except.bind, pure, Except.pure, Except.ok.injEq] at h
        simp [← h, bcDelete_eq_owned hb, ih hr]

theorem parts_foldl_mul (m : Expr) (es : List Expr) :
    (es.foldl .mul m).parts = m.parts ++ es.flatMap Expr.parts := by
  induction es generalizing m with
  | nil => simp
  | cons e es ih => simp [ih]

/-- Deleting a built-in bytecode releases each part of every expression handed to
`bc_set_multiple`, after what its tail owns. -/
theorem bcDelete_built (arch : ArchBc) (c : BcContents) (hc : c.type ≤ bcReserve)
    (loc : Loc) (es : List Expr) :
    bcDelete arch (some (es.foldl bcSetMultiple (bcNewCommon c loc))) =
      .ok ((bcNewCommon c loc).tailOwned arch ++ (es.flatMap Expr.parts).map .expr) := by
  have hm := multiple_built c loc es
  have hcont : (es.foldl bcSetMultiple (bcNewCommon c loc)).contents = c := by
    simp [bcNewCommon]
  cases c with
  | arch t d hbase => simp [BcContents.type] at hc; omega
  | _ =>
    cases es with
    | nil => simp_all [bcDelete, BcContents.release, Except.map, Bytecode.tailOwned,
        leftNested, exprDelete, bcNewCommon, dvsDelete_eq]
    | cons e es => simp_all [bcDelete, BcContents.release, Except.map, Bytecode.tailOwned,
        leftNested, exprDelete, bcNewCommon, dvsDelete_eq, parts_foldl_mul]

theorem bcDelete_built_reserve :
    (BcContents.reserve (.leaf 1) 1).type ≤ bcReserve ∧
      bcDelete ⟨3, fun _ => [], id⟩
          (some ([.leaf 2, .leaf 3].foldl bcSetMultiple (bcNewCommon (.reserve (.leaf 1) 1) ⟨none, 1⟩))) =
        .ok ((bcNewCommon (.reserve (.leaf 1) 1) ⟨none, 1⟩).tailOwned ⟨3, fun _ => [], id⟩ ++
          ([Expr.leaf 2, .leaf 3].flatMap Expr.parts).map .expr) :=
  ⟨by decide, bcDelete_built _ _ (by decide) _ _⟩

def handedIn (calls : List BcsCall) : List Bytecode :=
  calls.flatMap fun
    | .append bc => bc.toList
    | .delete => []

def lostMultiples (calls : List BcsCall) : List BcRelease :=
  (handedIn calls).flatMap fun bc => if bc.contents = .empty then exprDelete bc.multiple else []

/-- The release ledger of a list: everything handed in is released, still owned by a
stored bytecode, or lost with a discarded empty bytecode. -/
def BcsState.Accounts (arch : ArchBc) (calls : List BcsCall) (s : BcsState) : Prop :=
  ((handedIn calls).flatMap (Bytecode.owned arch)).Perm
    (s.released ++ s.head.flatMap (Bytecode.owned arch) ++ lostMultiples calls)

theorem BcsState.Accounts.step {arch : ArchBc} {calls : List BcsCall} {s s' : BcsState}
    {c : BcsCall} (hs : s.Accounts arch calls) (h : s.step arch c = .ok s') :
    s'.Accounts arch (calls ++ [c]) := by
  unfold BcsState.Accounts at *
  rw [List.perm_iff_count] at hs ⊢
  intro a
  have ha := hs a
  rcases BcsState.step_eq h with ⟨bc, rfl, rfl⟩ | ⟨rfl, r, hd, rfl⟩
  · cases bc with
    | none => simpa [handedIn, lostMultiples, kept] using ha
    | some b =>
      by_cases he : b.contents = .empty <;>
        simp [handedIn, lostMultiples, kept, Option.filter, he, Bytecode.owned,
          Bytecode.tailOwned, List.count_append] at ha ⊢ <;>
        omega
  · simp [handedIn, lostMultiples, bcsDelete_eq_owned hd, List.count_append] at ha ⊢
    omega

/-- Over every run of a bytecode list: each object owned by a bytecode handed to
`bcs_append` is released exactly once, still owned by a bytecode in the list, or is part
of the multiplier of an empty bytecode that `bcs_append` discarded, and nothing else is
released. -/
theorem bcsRun_release_ledger {arch : ArchBc} {calls : List BcsCall} {s : BcsState}
    (h : bcsRun arch calls = .ok s) : s.Accounts arch calls :=
  foldlM_invariant (P := fun calls s => s.Accounts arch calls) (.refl _)
    (fun _ _ _ _ hs h => hs.step h) calls s h

theorem bcsRun_release_ledger_reserve_empty :
    bcsRun ⟨3, fun _ => [], id⟩ [.append (some (bcNewReserve (.leaf 1) 1 ⟨none, 1⟩)),
        .append (some (bcSetMultiple (bcNewCommon .empty ⟨none, 2⟩) (.leaf 0))), .delete] =
      .ok ⟨[], [some (bcNewReserve (.leaf 1) 1 ⟨none, 1⟩), none], [.expr (.leaf 1)]⟩ ∧
    BcsState.Accounts ⟨3, fun _ => [], id⟩ [.append (some (bcNewReserve (.leaf 1) 1 ⟨none, 1⟩)),
        .append (some (bcSetMultiple (bcNewCommon .empty ⟨none, 2⟩) (.leaf 0))), .delete]
      ⟨[], [some (bcNewReserve (.leaf 1) 1 ⟨none, 1⟩), none], [.expr (.leaf 1)]⟩ :=
  ⟨rfl, bcsRun_release_ledger rfl⟩

/-- An empty bytecode given a multiplier: `bcs_append` frees it with `xfree`, so the
multiplier is never destroyed, where `bc_delete` on the same bytecode releases it. -/
theorem bcsAppend_empty_loses_multiple (arch : ArchBc) (loc : Loc) :
    bcsRun arch [.append (some (bcSetMultiple (bcNewCommon .empty loc) (.leaf 0))), .delete] =
      .ok ⟨[], [none], []⟩ ∧
    bcDelete arch (some (bcSetMultiple (bcNewCommon .empty loc) (.leaf 0))) =
      .ok [.expr (.leaf 0)] :=
  ⟨rfl, rfl⟩

end Yasm
