import Yasm.SymrecRun

/-! `symrec_parser_finalize`: the undefined-symbol reports and the summary note, with
`ULONG_MAX` as the sentinel for none. -/

namespace Yasm

/-- `ULONG_MAX` of an LP64 target. -/
def ulongMax : Nat := 2 ^ 64 - 1

structure FinalizeState where
  firstundefLine : Nat
  firstundefFilename : Option String
  diags : List Diag

def Diag.undefinedName : Diag → Option String
  | .errorAt _ _ (.undefinedSymbol name) => some name
  | _ => none

def Diag.isSummary : Diag → Bool
  | .errorAt _ _ .reportedOnce => true
  | _ => false

def Symrec.undefinedUse (sym : Symrec) : Bool := sym.status.used && !sym.status.defined

def Symrec.undefinedDiag (sym : Symrec) : Diag :=
  .errorAt sym.filename sym.line (.undefinedSymbol sym.name)

def symrecParserFinalizeChecksym (sym : Symrec) (st : FinalizeState) : Bool × FinalizeState :=
  if sym.status.used && !sym.status.defined then
    let st := { st with
      diags := st.diags ++ [.errorAt sym.filename sym.line (.undefinedSymbol sym.name)] }
    if sym.line < st.firstundefLine then
      (true, { st with firstundefLine := sym.line, firstundefFilename := sym.filename })
    else (true, st)
  else (true, st)

/-- `symrec_parser_finalize` over the records in the order the traversal visits them.
The filename static is read only after this pass has set the line, so it starts null. -/
def symrecParserFinalize (order : List Symrec) : List Diag :=
  let st := (symrecTraverse symrecParserFinalizeChecksym order ⟨ulongMax, none, []⟩).2
  if st.firstundefLine < ulongMax then
    st.diags ++ [.errorAt st.firstundefFilename st.firstundefLine .reportedOnce]
  else st.diags

theorem checksym_spec (sym : Symrec) (st : FinalizeState) :
    let r := symrecParserFinalizeChecksym sym st
    r.1 = true ∧
      r.2.diags = st.diags ++ ([sym].filter Symrec.undefinedUse).map Symrec.undefinedDiag ∧
      r.2.firstundefLine ≤ st.firstundefLine ∧
      (sym.undefinedUse → r.2.firstundefLine ≤ sym.line) ∧
      (r.2.firstundefLine = st.firstundefLine ∧ r.2.firstundefFilename = st.firstundefFilename ∨
        sym.undefinedUse ∧ r.2.firstundefLine = sym.line ∧
          r.2.firstundefFilename = sym.filename) := by
  unfold symrecParserFinalizeChecksym
  by_cases hu : sym.undefinedUse
  · simp only [Symrec.undefinedUse] at hu
    by_cases hl : sym.line < st.firstundefLine
    · simp [hu, hl, Symrec.undefinedUse, Symrec.undefinedDiag, Nat.le_of_lt hl]
    · simp [hu, hl, Symrec.undefinedUse, Symrec.undefinedDiag]; omega
  · simp only [Symrec.undefinedUse] at hu
    simp [hu, Symrec.undefinedUse]

theorem traverse_checksym (order : List Symrec) (st : FinalizeState) :
    let r := symrecTraverse symrecParserFinalizeChecksym order st
    r.1 = true ∧
      r.2.diags = st.diags ++ (order.filter Symrec.undefinedUse).map Symrec.undefinedDiag ∧
      r.2.firstundefLine ≤ st.firstundefLine ∧
      (∀ sym ∈ order, sym.undefinedUse → r.2.firstundefLine ≤ sym.line) ∧
      (r.2.firstundefLine = st.firstundefLine ∧ r.2.firstundefFilename = st.firstundefFilename ∨
        ∃ sym ∈ order, sym.undefinedUse ∧ r.2.firstundefLine = sym.line ∧
          r.2.firstundefFilename = sym.filename) := by
  induction order generalizing st with
  | nil => simp [symrecTraverse]
  | cons sym rest ih =>
    obtain ⟨hc, hd, hle, hsym, hkeep⟩ := checksym_spec sym st
    obtain ⟨hc', hd', hle', hrest, hkeep'⟩ := ih (symrecParserFinalizeChecksym sym st).2
    simp only [symrecTraverse, hc, if_true]
    refine ⟨hc', ?_, by omega, ?_, ?_⟩
    · cases hu : sym.undefinedUse <;> simp [hd', hd, List.filter_cons, hu]
    · intro x hx hxu
      rcases List.mem_cons.mp hx with rfl | hx
      · have := hsym hxu; omega
      · exact hrest x hx hxu
    · rcases hkeep' with ⟨h1, h2⟩ | ⟨x, hx, hxu, h1, h2⟩
      · rcases hkeep with ⟨h3, h4⟩ | ⟨hsu, h3, h4⟩
        · exact .inl ⟨h1.trans h3, h2.trans h4⟩
        · exact .inr ⟨sym, List.mem_cons_self _ _, hsu, h1.trans h3, h2.trans h4⟩
      · exact .inr ⟨x, List.mem_cons_of_mem _ hx, hxu, h1, h2⟩

theorem TableAgrees.undefinedUse_iff {t : SymTable} {calls : List SymCall}
    (ha : TableAgrees t calls) {sym : Symrec} (hsym : sym ∈ t.recs) :
    sym.undefinedUse = true ↔ usedIn sym.name calls = true ∧ firstDefining sym.name calls = none := by
  have h : Agrees sym (firstDefining sym.name calls) (usedIn sym.name calls) := by
    simpa [AgreesAt, SymTable.find?_of_mem hsym] using ha sym.name
  rw [Symrec.undefinedUse, h.used, h.defined]
  cases firstDefining sym.name calls <;> simp

theorem symrecParserFinalize_undefinedNames (order : List Symrec) :
    (symrecParserFinalize order).filterMap Diag.undefinedName =
      (order.filter Symrec.undefinedUse).map Symrec.name := by
  obtain ⟨-, hd, -⟩ := traverse_checksym order ⟨ulongMax, none, []⟩
  unfold symrecParserFinalize
  generalize (symrecTraverse symrecParserFinalizeChecksym order ⟨ulongMax, none, []⟩).2 = st
    at hd ⊢
  dsimp only at hd ⊢
  have hname : Diag.undefinedName ∘ Symrec.undefinedDiag = some ∘ Symrec.name := rfl
  split <;> simp [hd, List.filterMap_map, hname, List.filterMap_eq_map, Diag.undefinedName]

theorem symrecParserFinalize_summary (order : List Symrec) :
    ((symrecParserFinalize order).filter Diag.isSummary).length =
        (if ∃ sym ∈ order, sym.undefinedUse ∧ sym.line < ulongMax then 1 else 0) ∧
      ∀ d ∈ symrecParserFinalize order, d.isSummary →
        ∃ sym ∈ order, sym.undefinedUse ∧ d = .errorAt sym.filename sym.line .reportedOnce ∧
          ∀ sym' ∈ order, sym'.undefinedUse → sym.line ≤ sym'.line := by
  obtain ⟨-, hd, -, hmin, hkeep⟩ := traverse_checksym order ⟨ulongMax, none, []⟩
  have hnone : ∀ d ∈ (order.filter Symrec.undefinedUse).map Symrec.undefinedDiag,
      d.isSummary = false := by
    intro d hd
    obtain ⟨x, -, rfl⟩ := List.mem_map.mp hd
    rfl
  have hsum : ((order.filter Symrec.undefinedUse).map Symrec.undefinedDiag).filter
      Diag.isSummary = [] := List.filter_eq_nil_iff.mpr fun d h => by simp [hnone d h]
  unfold symrecParserFinalize
  generalize (symrecTraverse symrecParserFinalizeChecksym order ⟨ulongMax, none, []⟩).2 = st
    at hd hmin hkeep ⊢
  dsimp only at hd hkeep ⊢
  split
  · rename_i hlt
    obtain ⟨sym, hsym, hu, hl, hf⟩ := hkeep.resolve_left fun h => absurd h.1 (by omega)
    refine ⟨?_, fun d hd' hs => ⟨sym, hsym, hu, ?_, fun x hx hxu => hl ▸ hmin x hx hxu⟩⟩
    · rw [if_pos ⟨sym, hsym, hu, hl ▸ hlt⟩]
      simp only [hd, List.nil_append, List.filter_append, hsum]
      rfl
    · rw [List.mem_append, hd] at hd'
      rcases hd' with hd' | hd'
      · simp [hnone d (by simpa using hd')] at hs
      · simp only [List.mem_singleton] at hd'
        rw [hd', hl, hf]
  · rename_i hge
    refine ⟨?_, fun d hd' hs => ?_⟩
    · rw [if_neg fun ⟨x, hx, hxu, hxl⟩ => hge (lt_of_le_of_lt (hmin x hx hxu) hxl)]
      simp [hd, hsum]
    · simp [hnone d (by simpa [hd] using hd')] at hs

theorem TableAgrees.exists_undefined_iff {t : SymTable} {calls : List SymCall}
    (ha : TableAgrees t calls) (n : String) :
    (∃ sym ∈ t.recs, sym.undefinedUse ∧ sym.name = n) ↔
      usedIn n calls = true ∧ firstDefining n calls = none := by
  constructor
  · rintro ⟨sym, hsym, hu, rfl⟩
    exact (ha.undefinedUse_iff hsym).mp hu
  · rintro ⟨hu, hf⟩
    cases hfind : t.find? n with
    | none => simpa [AgreesAt, hfind, hu] using ha n
    | some sym =>
      obtain ⟨hsym, rfl⟩ := SymTable.mem_of_find? hfind
      exact ⟨sym, hsym, (ha.undefinedUse_iff hsym).mpr ⟨hu, hf⟩, rfl⟩

/-- What `symrec_parser_finalize` reports after a run, whatever order the traversal
takes: one undefined-symbol diagnostic for each name the run uses and never defines and
none for any other name, and one summary note exactly when such a name's record has a
line below `ULONG_MAX`, at the file and line of such a record with the lowest line. -/
def FinalizeReports (calls : List SymCall) : Prop :=
  ∃ s, symRun calls = .ok s ∧ ∀ order, order.Perm s.table.recs →
    (∀ n, ((symrecParserFinalize order).filterMap Diag.undefinedName).count n =
      if usedIn n calls ∧ firstDefining n calls = none then 1 else 0) ∧
    ((symrecParserFinalize order).filter Diag.isSummary).length =
      (if ∃ sym ∈ s.table.recs, usedIn sym.name calls ∧ firstDefining sym.name calls = none ∧
          sym.line < ulongMax then 1 else 0) ∧
    ∀ d ∈ symrecParserFinalize order, d.isSummary →
      ∃ sym ∈ s.table.recs, usedIn sym.name calls ∧ firstDefining sym.name calls = none ∧
        d = .errorAt sym.filename sym.line .reportedOnce ∧
        ∀ sym' ∈ s.table.recs, usedIn sym'.name calls → firstDefining sym'.name calls = none →
          sym.line ≤ sym'.line

theorem symRun_finalize_reports (calls : List SymCall)
    (hvis : ∀ c ∈ calls, c.op.declaresGCE) : FinalizeReports calls := by
  obtain ⟨s, hs, ha⟩ := symRun_agrees hvis
  refine ⟨s, hs, fun order hp => ⟨fun n => ?_, ?_, fun d hd hsd => ?_⟩⟩
  · have hnd : ((order.filter Symrec.undefinedUse).map Symrec.name).Nodup :=
      ((List.filter_sublist order).map _).nodup ((hp.map _).nodup_iff.mpr s.table.nodup)
    rw [symrecParserFinalize_undefinedNames, List.count_eq_of_nodup hnd]
    have hmem : n ∈ (order.filter Symrec.undefinedUse).map Symrec.name ↔
        ∃ sym ∈ s.table.recs, sym.undefinedUse ∧ sym.name = n := by
      simp [hp.mem_iff, and_assoc]
    simp only [hmem, ha.exists_undefined_iff n]
  · rw [(symrecParserFinalize_summary order).1]
    congr 1
    simp only [hp.mem_iff]
    exact propext ⟨fun ⟨x, hx, hu, hl⟩ => ⟨x, hx, (ha.undefinedUse_iff hx).mp hu |>.1,
        (ha.undefinedUse_iff hx).mp hu |>.2, hl⟩,
      fun ⟨x, hx, hu, hf, hl⟩ => ⟨x, hx, (ha.undefinedUse_iff hx).mpr ⟨hu, hf⟩, hl⟩⟩
  · obtain ⟨sym, hsym, hu, rfl, hmin⟩ := (symrecParserFinalize_summary order).2 d hd hsd
    have hsym' := hp.subset hsym
    obtain ⟨hused, hfirst⟩ := (ha.undefinedUse_iff hsym').mp hu
    exact ⟨sym, hsym', hused, hfirst, rfl, fun x hx hxu hxf =>
      hmin x (hp.mem_iff.mpr hx) ((ha.undefinedUse_iff hx).mpr ⟨hxu, hxf⟩)⟩

theorem symRun_finalize_reports_two_uses :
    (∀ c ∈ [⟨⟨some "a.asm", 3⟩, .use "a"⟩, ⟨⟨some "a.asm", 5⟩, .use "b"⟩,
        ⟨⟨some "a.asm", 7⟩, .declare "b" symExtern none⟩], SymOp.declaresGCE (SymCall.op c)) ∧
      FinalizeReports [⟨⟨some "a.asm", 3⟩, .use "a"⟩, ⟨⟨some "a.asm", 5⟩, .use "b"⟩,
        ⟨⟨some "a.asm", 7⟩, .declare "b" symExtern none⟩] :=
  ⟨by decide, symRun_finalize_reports _ (by decide)⟩

/-- A name used only on line `ULONG_MAX`: it is reported undefined, yet the sentinel
keeps the summary note from being emitted. -/
theorem symrecParserFinalize_ulongMax_no_summary :
    usedIn "x" [⟨⟨none, ulongMax⟩, .use "x"⟩] = true ∧
      firstDefining "x" [⟨⟨none, ulongMax⟩, .use "x"⟩] = none ∧
      (symRun [⟨⟨none, ulongMax⟩, .use "x"⟩]).map (fun s => symrecParserFinalize s.table.recs) =
        .ok [.errorAt none ulongMax (.undefinedSymbol "x")] :=
  ⟨rfl, rfl, rfl⟩

end Yasm
