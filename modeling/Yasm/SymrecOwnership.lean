import Yasm.SymrecRun

/-! The end of a translation, and who destroys backend data: over any run and its
teardown no handle is destroyed more often than the run handed it in. -/

namespace Yasm

/-- The end of a translation: `symrec_delete` on each record the caller kept from an
out-of-table `define_label`, then `symrec_delete_all` in tree order. -/
def SymSession.teardown (s : SymSession) (order : List Symrec) : List SymRelease :=
  s.loose.flatMap symrecDelete ++ (symrecDeleteAll order).1

def SymSession.lifetimeReleases (s : SymSession) : List SymRelease :=
  s.released ++ s.teardown s.table.recs

/-- Three runs whose teardown misses owned objects: a duplicate `define_equ` loses the
first expression; a repeated EXTERN declaration loses the first backend data; a duplicate
`define_label` after `define_equ` loses the expression and passes the section pointer to
`expr_delete`. -/
theorem symRun_teardown_misses :
    (symRun [⟨⟨none, 1⟩, .defineEqu "x" (.leaf 1)⟩, ⟨⟨none, 2⟩, .defineEqu "x" (.leaf 2)⟩]).map
        SymSession.lifetimeReleases =
      .ok [.name "x", .exprDelete (.expr (.leaf 2))] ∧
    (symRun [⟨⟨none, 1⟩, .declare "y" symExtern (some 7)⟩,
        ⟨⟨none, 2⟩, .declare "y" symExtern (some 8)⟩]).map SymSession.lifetimeReleases =
      .ok [.name "y", .ofData symExtern 8] ∧
    (symRun [⟨⟨none, 1⟩, .defineEqu "z" (.leaf 3)⟩,
        ⟨⟨none, 2⟩, .defineLabel "z" (some 9) none true⟩]).map SymSession.lifetimeReleases =
      .ok [.name "z", .exprDelete (.sect 9)] :=
  ⟨rfl, rfl, rfl⟩

def SymRelease.data? : SymRelease → Option Nat
  | .ofData _ data => some data
  | _ => none

def Symrec.slots (sym : Symrec) : List Nat := sym.ofDataVisG.toList ++ sym.ofDataVisCe.toList

def SymOp.handed : SymOp → List Nat
  | .declare _ _ ofData => ofData.toList
  | _ => []

def handedData (calls : List SymCall) : List Nat := calls.flatMap (·.op.handed)

theorem count_flatMap_le {α : Type} {f g : α → List Nat}
    (h : ∀ a x, (f a).count x ≤ (g a).count x) (l : List α) (x : Nat) :
    (l.flatMap f).count x ≤ (l.flatMap g).count x := by
  induction l with
  | nil => simp
  | cons a l ih => simp only [List.flatMap_cons, List.count_append]; have := h a x; omega

theorem symrecDeleteOne_data (sym : Symrec) :
    (symrecDeleteOne sym).filterMap SymRelease.data? =
      (if sym.visibility.global then sym.ofDataVisG.toList else []) ++
        (if sym.visibility.common || sym.visibility.external then sym.ofDataVisCe.toList
        else []) := by
  have hequ : sym.equObjects.filterMap SymRelease.data? = [] := by
    unfold Symrec.equObjects
    split
    · cases sym.value.word0 <;> rfl
    · rfl
  simp only [symrecDeleteOne_eq, List.filterMap_cons, SymRelease.data?, List.filterMap_append,
    hequ, Symrec.gObjects, Symrec.ceObjects]
  cases sym.ofDataVisG <;> cases sym.ofDataVisCe <;> cases sym.visibility.global <;>
    cases sym.visibility.common <;> cases sym.visibility.external <;> rfl

theorem symrecDeleteOne_data_sublist (sym : Symrec) :
    ((symrecDeleteOne sym).filterMap SymRelease.data?).Sublist sym.slots := by
  rw [symrecDeleteOne_data]
  refine List.Sublist.append ?_ ?_ <;> split <;> simp

theorem symrecGetOrNew_slots (t : SymTable) (loc : Loc) (n : String) (inTable : Bool) :
    (symrecGetOrNew t loc n inTable).slots =
      if inTable then (t.find? n).toList.flatMap Symrec.slots else [] := by
  unfold symrecGetOrNew
  cases inTable
  · rfl
  · cases t.find? n <;> simp [Symrec.slots, Symrec.new]

theorem symrecDefine_slots (t : SymTable) (loc : Loc) (n : String) (type : SymType)
    (inTable : Bool) :
    (symrecDefine t loc n type inTable).1.slots = (symrecGetOrNew t loc n inTable).slots := by
  unfold symrecDefine
  by_cases h : (symrecGetOrNew t loc n inTable).status.defined <;> simp [h, Symrec.slots]

theorem SymOp.apply_data {t : SymTable} {loc : Loc} {op : SymOp} (hop : op.declaresGCE)
    {r : SymReply} (hr : op.apply t loc = .ok r) (x : Nat) :
    (r.released.filterMap SymRelease.data?).count x + r.sym.slots.count x ≤
      (symrecGetOrNew t loc op.name op.inTable).slots.count x + op.handed.count x := by
  cases op with
  | use n =>
    cases hr
    simp [symrecUse, Symrec.slots, SymOp.name, SymOp.inTable]
  | defineEqu n e =>
    cases hr
    rw [show (symrecDefineEqu t loc n e).sym.slots = (symrecDefine t loc n .equ true).1.slots
      from rfl, symrecDefine_slots]
    simp [symrecDefineEqu, SymOp.name, SymOp.inTable]
  | defineLabel n sect precbc inTable =>
    cases hr
    rw [show (symrecDefineLabel t loc n sect precbc inTable).sym.slots =
      (symrecDefine t loc n .label inTable).1.slots from rfl, symrecDefine_slots]
    simp [symrecDefineLabel, SymOp.name, SymOp.inTable]
  | declare n vis ofData =>
    simp only [SymOp.apply, SymOp.name, SymOp.inTable, SymOp.handed] at hr ⊢
    cases hc : declareConflicts (symrecGetOrNew t loc n true) vis <;> cases ofData <;>
      simp only [symrecDeclare, hc, Bool.false_eq_true, ↓reduceIte, Except.map, Except.ok.injEq,
        Symrec.storeOfData_eq _ _ (declaresGCE_declare hop)] at hr <;>
      subst hr <;> simp [Symrec.slots, SymRelease.data?, List.filterMap_map] <;> try omega
    -- a stored handle replaces what its slot held
    by_cases hg : vis = symGlobal <;> simp [hg]
    omega

theorem SymOp.handed_of_not_inTable {op : SymOp} (h : op.inTable = false) : op.handed = [] := by
  cases op <;> simp_all [SymOp.inTable, SymOp.handed]

theorem SymTable.put_slots (t : SymTable) (sym : Symrec) (x : Nat) :
    ((t.put sym).recs.flatMap Symrec.slots).count x +
        ((t.find? sym.name).toList.flatMap Symrec.slots).count x =
      (t.recs.flatMap Symrec.slots).count x + sym.slots.count x := by
  simpa [List.count_append] using (t.put_flatMap_perm sym Symrec.slots).count_eq x

/-- What a run's data handles can be: destroyed already or kept in a slot of the table,
none more often than the run handed it in; records outside the table keep none. -/
structure DataOwned (s : SymSession) (calls : List SymCall) : Prop where
  bounded : ∀ x, (s.released.filterMap SymRelease.data?).count x +
    (s.table.recs.flatMap Symrec.slots).count x ≤ (handedData calls).count x
  loose : ∀ sym ∈ s.loose, sym.slots = []

theorem DataOwned.step {s s' : SymSession} {calls : List SymCall} {c : SymCall}
    (hs : TableAgrees s.table calls) (hd : DataOwned s calls) (hop : c.op.declaresGCE)
    (hstep : s.step c = .ok s') : DataOwned s' (calls ++ [c]) := by
  obtain ⟨r, hr, hn, ht, hA, -⟩ := SymOp.apply_agrees hop ((hs c.op.name).getOrNew c.loc)
  cases (SymSession.step_of_apply hr).symm.trans hstep
  have h2 := SymOp.apply_data hop hr
  simp only [symrecGetOrNew_slots] at h2
  have hhand : ∀ x, (handedData (calls ++ [c])).count x =
      (handedData calls).count x + c.op.handed.count x := by
    simp [handedData, List.count_append]
  cases hin : c.op.inTable with
  | false =>
    -- the record stays out of the table and keeps no handle
    simp only [hin, SymOp.handed_of_not_inTable hin, Bool.false_eq_true, ↓reduceIte,
      List.count_nil] at h2 ht
    have hnil : r.sym.slots = [] := List.eq_nil_iff_forall_not_mem.mpr fun x hx => by
      have := List.count_pos_iff.mpr hx; have := h2 x; omega
    refine ⟨fun x => ?_, fun sym hsym => ?_⟩
    · have := hd.bounded x; have := h2 x
      simp only [ht, List.filterMap_append, List.count_append, hhand,
        SymOp.handed_of_not_inTable hin, List.count_nil]
      omega
    · split at hsym
      · rcases List.mem_append.mp hsym with hsym | hsym
        · exact hd.loose sym hsym
        · rw [List.mem_singleton.mp hsym, hnil]
      · exact hd.loose sym hsym
  | true =>
    -- the record is written back over the one of its name
    simp only [hin, ↓reduceIte] at h2 ht
    have hout : r.sym.status.notInTable = false := (hA hin).inTable
    refine ⟨fun x => ?_, fun sym hsym => hd.loose sym (by simpa [hout] using hsym)⟩
    have := hd.bounded x; have := h2 x; have := s.table.put_slots r.sym x
    simp only [ht, List.filterMap_append, List.count_append, hhand, hn] at *
    omega

theorem symrecDelete_data (sym : Symrec) (x : Nat) :
    ((symrecDelete sym).filterMap SymRelease.data?).count x ≤ sym.slots.count x := by
  unfold symrecDelete
  split
  · exact (symrecDeleteOne_data_sublist sym).count_le x
  · simp

theorem symRun_data_owned {calls : List SymCall} (hvis : ∀ c ∈ calls, c.op.declaresGCE) :
    ∃ s, symRun calls = .ok s ∧ TableAgrees s.table calls ∧ DataOwned s calls := by
  refine symRun_progress (P := fun calls s => TableAgrees s.table calls ∧ DataOwned s calls)
    ⟨fun _ => ⟨rfl, rfl⟩, fun x => by simp [SymSession.init, SymTable.empty], fun sym h => by
      simp [SymSession.init] at h⟩ (fun _ _ _ ⟨ha, hd⟩ hop => ?_) hvis
  obtain ⟨s', hs', ha', -⟩ := ha.step hop
  exact ⟨s', hs', ha', hd.step ha hop hs'⟩

/-- Backend data over a run and its teardown in any tree order: every handle passed to
`declare_data_delete` was handed to `symrec_declare`, and none is destroyed more often
than it was handed in. -/
def DataDestroyedAtMostOnce (calls : List SymCall) : Prop :=
  ∃ s, symRun calls = .ok s ∧ ∀ order, order.Perm s.table.recs →
    ((s.released ++ s.teardown order).filterMap SymRelease.data?).Subperm (handedData calls)

theorem symRun_data_destroyed_at_most_once (calls : List SymCall)
    (hvis : ∀ c ∈ calls, c.op.declaresGCE) : DataDestroyedAtMostOnce calls := by
  obtain ⟨s, hs, -, hd⟩ := symRun_data_owned hvis
  refine ⟨s, hs, fun order hp => List.subperm_ext_iff.mpr fun x _ => ?_⟩
  have hloose : (s.loose.flatMap Symrec.slots).count x = 0 := by
    simp [List.flatMap_eq_nil_iff.mpr hd.loose]
  have h1 := count_flatMap_le (fun sym x => symrecDelete_data sym x) s.loose x
  have h2 := count_flatMap_le (fun sym x => (symrecDeleteOne_data_sublist sym).count_le x) order x
  have h3 := (hp.flatMap_right Symrec.slots).count_eq x
  have := hd.bounded x
  simp only [SymSession.teardown, symrecDeleteAll, List.filterMap_append, List.count_append,
    List.filterMap_flatMap] at h1 h2 ⊢
  omega

theorem symRun_data_destroyed_at_most_once_redeclared :
    (∀ c ∈ [⟨⟨none, 1⟩, .declare "y" symExtern (some 7)⟩,
        ⟨⟨none, 2⟩, .declare "y" symExtern (some 8)⟩], SymOp.declaresGCE (SymCall.op c)) ∧
      DataDestroyedAtMostOnce [⟨⟨none, 1⟩, .declare "y" symExtern (some 7)⟩,
        ⟨⟨none, 2⟩, .declare "y" symExtern (some 8)⟩] :=
  ⟨by decide, symRun_data_destroyed_at_most_once _ (by decide)⟩

end Yasm
