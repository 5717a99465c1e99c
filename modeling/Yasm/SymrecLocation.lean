import Yasm.SymrecFinalize

/-! The location a record keeps: creation sets file and line, a successful definition or
declaration sets the line again and leaves the file. -/

namespace Yasm

def Symrec.loc (sym : Symrec) : Loc := ⟨sym.filename, sym.line⟩

def SymOp.setsLine (first : Option DefKind) (op : SymOp) : Bool :=
  !op.isUse && !op.clashes first

/-- The location the history gives the record of `n`, on the run read backwards: the
in-table call that creates the record sets file and line, and every later one that
`setsLine` sets the line again. -/
def keptLocRev (n : String) : List SymCall → Option Loc
  | [] => none
  | c :: earlier =>
    if c.op.name = n ∧ c.op.inTable = true then
      let base := (keptLocRev n earlier).getD c.loc
      some (if c.op.setsLine (firstDefining n earlier.reverse) then ⟨base.filename, c.loc.line⟩
        else base)
    else keptLocRev n earlier

def keptLoc (n : String) (calls : List SymCall) : Option Loc := keptLocRev n calls.reverse

theorem keptLoc_append_call (n : String) (calls : List SymCall) (c : SymCall) :
    keptLoc n (calls ++ [c]) =
      if c.op.name = n ∧ c.op.inTable = true then
        some (if c.op.setsLine (firstDefining n calls)
          then ⟨((keptLoc n calls).getD c.loc).filename, c.loc.line⟩
          else (keptLoc n calls).getD c.loc)
      else keptLoc n calls := by
  simp [keptLoc, keptLocRev]

example : keptLoc "y" [⟨⟨some "a.asm", 10⟩, .use "y"⟩,
    ⟨⟨some "b.inc", 20⟩, .declare "y" symGlobal none⟩] = some ⟨some "a.asm", 20⟩ := rfl

theorem symrecGetOrNew_loc (t : SymTable) (loc : Loc) (n : String) :
    (symrecGetOrNew t loc n true).loc = ((t.find? n).map Symrec.loc).getD loc := by
  unfold symrecGetOrNew
  cases t.find? n <;> rfl

theorem symrecDefine_loc (t : SymTable) (loc : Loc) (n : String) (type : SymType) :
    (symrecDefine t loc n type true).1.loc =
      if (symrecGetOrNew t loc n true).status.defined = false
      then ⟨(symrecGetOrNew t loc n true).loc.filename, loc.line⟩
      else (symrecGetOrNew t loc n true).loc := by
  unfold symrecDefine
  by_cases h : (symrecGetOrNew t loc n true).status.defined <;> simp [h, Symrec.loc]

theorem SymOp.apply_loc {t : SymTable} {loc : Loc} {op : SymOp} {first : Option DefKind}
    {used : Bool} (hop : op.declaresGCE)
    (ha : Agrees (symrecGetOrNew t loc op.name true) first used) (hin : op.inTable = true)
    {r : SymReply} (hr : op.apply t loc = .ok r) :
    r.sym.loc = if op.setsLine first
      then ⟨(symrecGetOrNew t loc op.name true).loc.filename, loc.line⟩
      else (symrecGetOrNew t loc op.name true).loc := by
  have hd := ha.defined
  cases op with
  | use n =>
    cases hr
    rfl
  | defineEqu n e =>
    cases hr
    simp only [SymOp.name] at hd ⊢
    simpa [SymOp.setsLine, SymOp.clashes, SymOp.isUse, ← hd] using symrecDefine_loc t loc n .equ
  | defineLabel n sect precbc inTable =>
    cases hin
    cases hr
    simp only [SymOp.name] at hd ⊢
    simpa [SymOp.setsLine, SymOp.clashes, SymOp.isUse, ← hd] using symrecDefine_loc t loc n .label
  | declare n vis ofData =>
    simp only [SymOp.apply, SymOp.name] at hr ha ⊢
    rw [SymOp.setsLine, ← declareConflicts_eq_clashes ha hop]
    cases hc : declareConflicts (symrecGetOrNew t loc n true) vis <;> cases ofData <;>
      simp only [symrecDeclare, hc, Bool.false_eq_true, ↓reduceIte, Except.map, Except.ok.injEq,
        Symrec.storeOfData_eq _ _ (declaresGCE_declare hop)] at hr <;>
      subst hr <;> rfl

def LocAgrees (t : SymTable) (calls : List SymCall) : Prop :=
  ∀ n, (t.find? n).map Symrec.loc = keptLoc n calls

theorem LocAgrees.step {s s' : SymSession} {calls : List SymCall} {c : SymCall}
    (hs : TableAgrees s.table calls) (hl : LocAgrees s.table calls) (hop : c.op.declaresGCE)
    (hstep : s.step c = .ok s') : LocAgrees s'.table (calls ++ [c]) := by
  have ha := (hs c.op.name).getOrNew c.loc
  obtain ⟨r, hr, hn, ht, -, -⟩ := SymOp.apply_agrees hop ha
  cases (SymSession.step_of_apply hr).symm.trans hstep
  intro n
  rw [ht, keptLoc_append_call]
  cases hin : c.op.inTable with
  | false => simpa using hl n
  | true =>
    by_cases hnm : c.op.name = n
    · subst hnm
      have hloc := SymOp.apply_loc hop ha hin hr
      rw [symrecGetOrNew_loc, hl] at hloc
      simp only [SymTable.find?_put, hn, ↓reduceIte, Option.map_some', hloc, and_self]
    · simpa [hnm, hn] using hl n

/-- A run's locations, as its history gives them: each record is where `keptLoc` puts
its name, and each duplicate definition cites the line `keptLoc` gives just before the
clashing call. -/
def LocationsKept (calls : List SymCall) : Prop :=
  ∃ s, symRun calls = .ok s ∧
    (∀ n, (s.table.find? n).map Symrec.loc = keptLoc n calls) ∧
    ∀ pre c post, calls = pre ++ c :: post → c.op.clashes (firstDefining c.op.name pre) = true →
      ∃ s' r l, symRun pre = .ok s' ∧ c.op.apply s'.table c.loc = .ok r ∧
        keptLoc c.op.name pre = some l ∧
        r.diags = [.error c.loc (.duplicateDefinition c.op.name l.line)]

/-- An EXTERN declaration on line 10, a GLOBAL one on line 20, then `define_equ` on line
30: the duplicate cites line 20, though the first defining event was on line 10. A use in
one file, then a GLOBAL declaration in another: the undefined symbol is reported at the
first file with the second call's line. -/
theorem symrec_cited_locations_mixed :
    firstDefining "x" [⟨⟨some "a.asm", 10⟩, .declare "x" symExtern none⟩] = some .external ∧
    (symRun [⟨⟨some "a.asm", 10⟩, .declare "x" symExtern none⟩,
        ⟨⟨some "a.asm", 20⟩, .declare "x" symGlobal none⟩,
        ⟨⟨some "a.asm", 30⟩, .defineEqu "x" (.leaf 1)⟩]).map SymSession.diags =
      .ok [.error ⟨some "a.asm", 30⟩ (.duplicateDefinition "x" 20)] ∧
    (symRun [⟨⟨some "a.asm", 10⟩, .use "y"⟩,
        ⟨⟨some "b.inc", 20⟩, .declare "y" symGlobal none⟩]).map
        (fun s => symrecParserFinalize s.table.recs) =
      .ok [.errorAt (some "a.asm") 20 (.undefinedSymbol "y"),
        .errorAt (some "a.asm") 20 .reportedOnce] :=
  ⟨rfl, rfl, rfl⟩

end Yasm
