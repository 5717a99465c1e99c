import Yasm.SymrecHistory
import Yasm.SymrecOwnership

/-! What the teardown destroys when no definition clashes and no slot is filled twice:
every object handed in, exactly once. -/

namespace Yasm

def SymRelease.isObject : SymRelease → Bool
  | .name _ => false
  | _ => true

def SymOp.owned : SymOp → List SymRelease
  | .defineEqu _ e => [.exprDelete (.expr e)]
  | .declare _ vis ofData => ofData.toList.map (.ofData vis)
  | _ => []

def SymOp.isDefinition : SymOp → Bool
  | .defineEqu .. => true
  | .defineLabel _ _ _ inTable => inTable
  | _ => false

theorem symrecDeleteOne_objects (sym : Symrec) :
    (symrecDeleteOne sym).filter SymRelease.isObject =
      sym.equObjects ++ sym.gObjects ++ sym.ceObjects := by
  have hequ : sym.equObjects.filter SymRelease.isObject = sym.equObjects := by
    unfold Symrec.equObjects
    split
    · cases sym.value.word0 <;> rfl
    · rfl
  have hdata (vis : SymVisibility) (o : Option Nat) :
      (o.toList.map (SymRelease.ofData vis)).filter SymRelease.isObject =
        o.toList.map (.ofData vis) := by
    cases o <;> rfl
  rw [symrecDeleteOne_eq, List.filter_cons_of_neg (by simp [SymRelease.isObject]),
    List.filter_append, List.filter_append, hequ]
  unfold Symrec.gObjects Symrec.ceObjects
  split_ifs <;> simp only [hdata, List.filter_nil]

structure Symrec.SlotsCovered (sym : Symrec) : Prop where
  g : sym.ofDataVisG.isSome → sym.visibility.global = true
  ce : sym.ofDataVisCe.isSome → (sym.visibility.common || sym.visibility.external) = true

theorem Symrec.gObjects_of_covered {sym : Symrec} (h : sym.SlotsCovered) :
    sym.gObjects = sym.ofDataVisG.toList.map (.ofData symGlobal) := by
  unfold Symrec.gObjects
  cases hg : sym.ofDataVisG with
  | none => simp
  | some x => simp [h.g (by simp [hg])]

theorem Symrec.ceObjects_of_covered {sym : Symrec} (h : sym.SlotsCovered) :
    sym.ceObjects = sym.ofDataVisCe.toList.map
      (.ofData (if sym.visibility.common then symCommon else symExtern)) := by
  unfold Symrec.ceObjects
  cases hc : sym.ofDataVisCe with
  | none => simp
  | some x =>
    have := h.ce (by simp [hc])
    cases hcm : sym.visibility.common <;> simp_all

theorem symrecDeclare_covered {t : SymTable} {loc : Loc} {n : String} {vis : SymVisibility}
    {ofData : Option Nat} {old : Symrec} (hold : symrecGetOrNew t loc n true = old)
    (hcov : old.SlotsCovered) (hop : (SymOp.declare n vis ofData).declaresGCE) {r : SymReply}
    (hr : symrecDeclare t loc n vis ofData = .ok r) : r.sym.SlotsCovered := by
  unfold symrecDeclare at hr
  rw [hold] at hr
  dsimp only at hr
  obtain ⟨hg, hce⟩ := hcov
  split at hr
  · cases hr
    exact ⟨hg, hce⟩
  · rcases declaresGCE_declare hop with rfl | rfl | rfl <;> cases ofData <;>
      simp only [Except.map, Except.ok.injEq,
        Symrec.storeOfData_eq _ _ (declaresGCE_declare hop)] at hr <;> subst hr <;>
      constructor <;> simp_all [SymVisibility.or, symGlobal, symCommon, symExtern]

theorem symrecDeclare_objects {t : SymTable} {loc : Loc} {n : String} {vis : SymVisibility}
    {ofData : Option Nat} {first : Option DefKind} {used : Bool} {old : Symrec}
    (hold : symrecGetOrNew t loc n true = old) (ha : Agrees old first used)
    (hcov : old.SlotsCovered) (hop : (SymOp.declare n vis ofData).declaresGCE)
    (hfree : (SymOp.declare n vis ofData).clashes first = false → ofData.isSome →
      (if vis = symGlobal then old.ofDataVisG else old.ofDataVisCe) = none)
    {r : SymReply} (hr : symrecDeclare t loc n vis ofData = .ok r) :
    ((r.released ++ symrecDeleteOne r.sym).filter SymRelease.isObject).Perm
      ((symrecDeleteOne old).filter SymRelease.isObject ++ ofData.toList.map (.ofData vis)) := by
  have hnew := symrecDeclare_covered hold hcov hop hr
  unfold symrecDeclare at hr
  rw [hold] at hr
  dsimp only at hr
  rw [declareConflicts_eq_clashes ha hop] at hr
  cases hcl : (SymOp.declare n vis ofData).clashes first with
  | true =>
    simp only [hcl, ↓reduceIte, Except.ok.injEq] at hr
    subst hr
    have hobj : (ofData.toList.map (SymRelease.ofData vis)).filter SymRelease.isObject =
        ofData.toList.map (SymRelease.ofData vis) := by
      cases ofData <;> rfl
    rw [List.filter_append, hobj]
    exact List.perm_append_comm
  | false =>
    have hf := hfree hcl
    simp only [hcl, Bool.false_eq_true, ↓reduceIte] at hr
    rw [List.filter_append, symrecDeleteOne_objects, symrecDeleteOne_objects,
      Symrec.gObjects_of_covered hnew, Symrec.ceObjects_of_covered hnew,
      Symrec.gObjects_of_covered hcov, Symrec.ceObjects_of_covered hcov]
    rcases declaresGCE_declare hop with rfl | rfl | rfl
    · -- GLOBAL: the data goes into the GLOBAL slot, empty when data comes
      cases ofData <;> simp only [Except.map, Except.ok.injEq,
        Symrec.storeOfData_eq _ _ (declaresGCE_declare hop)] at hr <;> subst hr <;>
        simp [Symrec.equObjects, SymVisibility.or, symGlobal] at hf ⊢
      simp only [hf, Option.toList_none, List.map_nil, List.nil_append]
      exact List.Perm.append_left _ (List.perm_append_singleton _ _).symm
    · -- COMMON: only on a record with no defining event, so with an empty shared slot
      obtain rfl : first = none := by simpa [SymOp.clashes, symCommon] using hcl
      have hc : old.visibility.common = false := by simpa using ha.common
      have he : old.visibility.external = false := by simpa using ha.external
      have hce : old.ofDataVisCe = none :=
        Option.not_isSome_iff_eq_none.mp fun h => by simpa [hc, he] using hcov.ce h
      cases ofData <;> simp only [Except.map, Except.ok.injEq,
        Symrec.storeOfData_eq _ _ (declaresGCE_declare hop)] at hr <;> subst hr <;>
        simp [Symrec.equObjects, SymVisibility.or, symGlobal, symCommon, hc, hce]
    · -- EXTERN: only on a record that is not COMMON
      have hc : old.visibility.common = false := by
        rw [ha.common]
        rcases first with _ | ⟨_ | _ | _ | _⟩ <;> simp_all [SymOp.clashes, symCommon, symExtern]
      cases ofData <;> simp only [Except.map, Except.ok.injEq,
        Symrec.storeOfData_eq _ _ (declaresGCE_declare hop)] at hr <;> subst hr <;>
        simp [Symrec.equObjects, SymVisibility.or, symGlobal, symExtern, hc] at hf ⊢
      simp [hf]

theorem symrecDefine_of_undefined {t : SymTable} {loc : Loc} {n : String} {type : SymType}
    {old : Symrec} (hold : symrecGetOrNew t loc n true = old) (hd : old.status.defined = false) :
    symrecDefine t loc n type true =
      ({ old with line := loc.line, type, status := { old.status with defined := true } }, []) := by
  simp [symrecDefine, hold, hd]

theorem SymOp.apply_objects {t : SymTable} {loc : Loc} {op : SymOp} {first : Option DefKind}
    {used : Bool} {old : Symrec} (hold : symrecGetOrNew t loc op.name true = old)
    (hop : op.declaresGCE) (ha : Agrees old first used) (hcov : old.SlotsCovered)
    (hin : op.inTable = true) (hdef : op.isDefinition → op.clashes first = false)
    (hfree : op.clashes first = false →
      (op.slotG?.isSome → old.ofDataVisG = none) ∧ (op.slotCe?.isSome → old.ofDataVisCe = none))
    {r : SymReply} (hr : op.apply t loc = .ok r) :
    ((r.released ++ symrecDeleteOne r.sym).filter SymRelease.isObject).Perm
        ((symrecDeleteOne old).filter SymRelease.isObject ++ op.owned) ∧ r.sym.SlotsCovered := by
  cases op with
  | use n =>
    cases hr
    subst hold
    refine ⟨?_, ⟨hcov.g, hcov.ce⟩⟩
    simp only [symrecUse, SymOp.owned, List.nil_append, List.append_nil]
    exact List.Perm.refl _
  | defineEqu n e =>
    cases hr
    obtain rfl : first = none := by simpa [SymOp.clashes] using hdef rfl
    have hd : old.status.defined = false := by simpa using ha.defined
    have ht : old.type = .unknown := ha.type
    simp only [SymOp.name] at hold
    simp only [symrecDefineEqu, symrecDefine_of_undefined hold hd]
    refine ⟨?_, ⟨hcov.g, hcov.ce⟩⟩
    simp only [List.nil_append, symrecDeleteOne_objects, Symrec.equObjects, ht, SymOp.owned]
    simp only [exprDeleteWord, ↓reduceIte, reduceCtorEq, List.singleton_append, List.nil_append,
      List.append_assoc]
    simpa only [List.cons_append, List.append_assoc] using
      (List.perm_append_singleton (SymRelease.exprDelete (.expr e)) (old.gObjects ++ old.ceObjects)).symm
  | defineLabel n sect precbc inTable =>
    cases hin
    cases hr
    obtain rfl : first = none := by simpa [SymOp.clashes] using hdef rfl
    have hd : old.status.defined = false := by simpa using ha.defined
    have ht : old.type = .unknown := ha.type
    simp only [SymOp.name] at hold
    simp only [symrecDefineLabel, symrecDefine_of_undefined hold hd]
    refine ⟨?_, ⟨hcov.g, hcov.ce⟩⟩
    simp [symrecDeleteOne_objects, Symrec.equObjects, ht, SymOp.owned, Symrec.gObjects,
      Symrec.ceObjects]
  | declare n vis ofData =>
    refine ⟨symrecDeclare_objects hold ha hcov hop (fun hcl hs => ?_) hr,
      symrecDeclare_covered hold hcov hop hr⟩
    obtain ⟨hG, hCe⟩ := hfree hcl
    rcases declaresGCE_declare hop with rfl | rfl | rfl <;> cases ofData <;>
      simp_all [SymOp.slotG?, SymOp.slotCe?, symGlobal, symCommon, symExtern]

def Symrec.owes (sym : Symrec) : List SymRelease := (symrecDeleteOne sym).filter SymRelease.isObject

/-- What a run's handed-in objects have become: destroyed already, or owed by a record of
the table, each exactly once; records outside the table owe nothing. -/
structure ObjectsOwed (s : SymSession) (calls : List SymCall) : Prop where
  ledger : (s.released.filter SymRelease.isObject ++ s.table.recs.flatMap Symrec.owes).Perm
    (calls.flatMap (·.op.owned))
  covered : ∀ sym ∈ s.table.recs, sym.SlotsCovered
  loose : ∀ sym ∈ s.loose, (symrecDelete sym).filter SymRelease.isObject = []

theorem symrecGetOrNew_owes (t : SymTable) (loc : Loc) (n : String) :
    (t.find? n).toList.flatMap Symrec.owes = (symrecGetOrNew t loc n true).owes := by
  cases h : t.find? n <;> simp [symrecGetOrNew, h, Symrec.owes, symrecDeleteOne_objects,
    Symrec.new, Symrec.equObjects, Symrec.gObjects, Symrec.ceObjects, symLocal]

theorem symrecGetOrNew_covered {t : SymTable} (hcov : ∀ sym ∈ t.recs, sym.SlotsCovered)
    (loc : Loc) (n : String) : (symrecGetOrNew t loc n true).SlotsCovered := by
  unfold symrecGetOrNew
  cases h : t.find? n with
  | none => exact ⟨by simp [Symrec.new], by simp [Symrec.new]⟩
  | some sym => exact hcov sym (SymTable.mem_of_find? h).1

theorem ObjectsOwed.step {s : SymSession} {calls : List SymCall} {c : SymCall}
    (hs : SessionAgrees s calls) (ho : ObjectsOwed s calls) (hop : c.op.declaresGCE)
    (hdef : c.op.isDefinition → c.op.clashes (firstDefining c.op.name calls) = false)
    (hfree : c.op.clashes (firstDefining c.op.name calls) = false →
      (c.op.slotG?.isSome → slotGIn c.op.name calls = none) ∧
        (c.op.slotCe?.isSome → slotCeIn c.op.name calls = none))
    {s' : SymSession} (hstep : s.step c = .ok s') : ObjectsOwed s' (calls ++ [c]) := by
  have ha := (TableAgrees.of_history hs.table c.op.name).getOrNew c.loc
  have hv := symrecGetOrNew_values hs.table c.loc c.op.name
  obtain ⟨r, hr, hn, ht, hA, -⟩ := SymOp.apply_agrees hop ha
  cases (SymSession.step_of_apply hr).symm.trans hstep
  have hown : ∀ y, ((calls ++ [c]).flatMap (·.op.owned)).count y =
      (calls.flatMap (·.op.owned)).count y + c.op.owned.count y := by
    simp [List.count_append]
  cases hin : c.op.inTable with
  | false =>
    -- an out-of-table label: the table and the ledger stay, the record owes nothing
    obtain ⟨loc, op⟩ := c
    cases op <;> simp only [SymOp.inTable, Bool.true_eq_false] at hin
    case defineLabel m sect precbc inTable =>
    subst hin
    cases hr
    refine ⟨?_, ho.covered, fun sym hsym => ?_⟩
    · simpa [symrecDefineLabel, SymOp.owned] using ho.ledger
    · simp only [symrecDefineLabel, symrecDefine, symrecGetOrNew, Symrec.new] at hsym
      simp only [↓reduceIte, Bool.false_eq_true, List.mem_append, List.mem_singleton] at hsym
      rcases hsym with hsym | rfl
      · exact ho.loose sym hsym
      · simp [symrecDelete, Symrec.owes, symrecDeleteOne, SymRelease.isObject]
  | true =>
    obtain ⟨hobj, hcov'⟩ := SymOp.apply_objects rfl hop ha (symrecGetOrNew_covered ho.covered _ _)
      hin hdef (fun hcl => by rw [hv.slotG, hv.slotCe]; exact hfree hcl) hr
    simp only [hin, ↓reduceIte] at ht
    have hout : r.sym.status.notInTable = false := (hA hin).inTable
    refine ⟨List.perm_iff_count.mpr fun y => ?_, fun sym hsym => ?_,
      fun sym hsym => ho.loose sym (by simpa [hout] using hsym)⟩
    · have h1 := (List.perm_iff_count.mp ho.ledger) y
      have h2 := (List.perm_iff_count.mp hobj) y
      have h3 := (List.perm_iff_count.mp (s.table.put_flatMap_perm r.sym Symrec.owes)) y
      rw [hn, symrecGetOrNew_owes s.table c.loc] at h3
      simp only [Symrec.owes, List.filter_append, List.count_append] at h1 h2 h3 ⊢
      rw [ht, hown]
      omega
    · rw [ht] at hsym
      simp only [SymTable.put, List.mem_append, List.mem_filter, List.mem_singleton] at hsym
      rcases hsym with ⟨hsym, -⟩ | rfl
      · exact ho.covered sym hsym
      · exact hcov'

theorem lastAccepted_eq_none {n : String} {calls : List SymCall} {c : SymCall}
    {pick : SymOp → Option Nat} (hlen : ((acceptedOn n (calls ++ [c])).filterMap pick).length ≤ 1)
    (hn : c.op.name = n) (hcl : c.op.clashes (firstDefining n calls) = false)
    (hs : (pick c.op).isSome) : ((acceptedOn n calls).filterMap pick).getLast? = none := by
  obtain ⟨d, hd⟩ := Option.isSome_iff_exists.mp hs
  rw [acceptedOn_append_call, if_pos ⟨hn, hcl⟩, List.filterMap_append, List.length_append] at hlen
  simp only [List.filterMap_cons, hd, List.filterMap_nil, List.length_singleton] at hlen
  rw [List.getLast?_eq_none_iff, ← List.length_eq_zero]
  omega

theorem priorCalls_prefix (calls more : List SymCall) :
    priorCalls calls <+: priorCalls (calls ++ more) := by
  induction more using List.reverseRecOn with
  | nil => simp
  | append_singleton more c ih =>
    rw [← List.append_assoc, priorCalls_append_call]
    exact ih.trans (List.prefix_append _ _)

theorem symRun_objectsOwed {calls : List SymCall} (hvis : ∀ c ∈ calls, c.op.declaresGCE)
    (hdef : ∀ p ∈ priorCalls calls,
      p.2.op.isDefinition → p.2.op.clashes (firstDefining p.2.op.name p.1) = false)
    (hslot : ∀ c ∈ calls, ((acceptedOn c.op.name calls).filterMap SymOp.slotG?).length ≤ 1 ∧
      ((acceptedOn c.op.name calls).filterMap SymOp.slotCe?).length ≤ 1) :
    ∃ s, symRun calls = .ok s ∧ SessionAgrees s calls ∧ ObjectsOwed s calls := by
  unfold symRun
  refine foldlM_progress (P := fun calls (s : SymSession) => SessionAgrees s calls ∧ ObjectsOwed s calls)
    (Q := fun pre c => c.op.declaresGCE ∧
      (c.op.isDefinition → c.op.clashes (firstDefining c.op.name pre) = false) ∧
      (c.op.clashes (firstDefining c.op.name pre) = false →
        (c.op.slotG?.isSome → slotGIn c.op.name pre = none) ∧
          (c.op.slotCe?.isSome → slotCeIn c.op.name pre = none)))
    ?_ (fun _ _ _ ⟨ha, ho⟩ ⟨hop, hd, hf⟩ => ?_) calls fun pre c post h => ?_
  · exact ⟨⟨fun n => rfl, rfl, rfl, rfl⟩, ⟨by simp [SymSession.init, SymTable.empty],
      by simp [SymSession.init, SymTable.empty], by simp [SymSession.init]⟩⟩
  · obtain ⟨s', hs', ha'⟩ := ha.step hop
    exact ⟨s', hs', ha', ho.step ha hop hd hf hs'⟩
  · -- the call sees the run before it, a prefix of the whole run
    have hsplit : calls = pre ++ [c] ++ post := by simp [h]
    have hp := priorCalls_prefix (pre ++ [c]) post
    rw [← hsplit] at hp
    have hc := hslot c (by simp [h])
    have hlen (pick : SymOp → Option Nat)
        (hl : ((acceptedOn c.op.name calls).filterMap pick).length ≤ 1) :
        ((acceptedOn c.op.name (pre ++ [c])).filterMap pick).length ≤ 1 :=
      (((hp.filterMap _).filterMap pick).length_le).trans hl
    refine ⟨hvis c (by simp [h]), hdef (pre, c) (hp.subset (by simp [priorCalls_append_call])),
      fun hcl => ⟨lastAccepted_eq_none (hlen _ hc.1) rfl hcl,
        lastAccepted_eq_none (hlen _ hc.2) rfl hcl⟩⟩

/-- Objects over a run and its teardown in any tree order: the expressions and backend
data destroyed, besides the names, are a permutation of those the run handed in. -/
def ObjectsDestroyedOnce (calls : List SymCall) : Prop :=
  ∃ s, symRun calls = .ok s ∧ ∀ order, order.Perm s.table.recs →
    ((s.released ++ s.teardown order).filter SymRelease.isObject).Perm
      (calls.flatMap (·.op.owned))

/-- Ownership holds exactly when nothing is overwritten. Over any run whose declarations
have a visibility the `switch` accepts, in which no definition clashes and no name gets
backend data for one slot from two declarations that do not clash, the clashing
declarations and the teardown destroy every expression handed to `define_equ` and every
handle handed to `symrec_declare` exactly once, with the visibility it was declared with,
and destroy nothing else but the names. -/
theorem symRun_objects_destroyed_once (calls : List SymCall)
    (hvis : ∀ c ∈ calls, c.op.declaresGCE)
    (hdef : ∀ p ∈ priorCalls calls,
      p.2.op.isDefinition → p.2.op.clashes (firstDefining p.2.op.name p.1) = false)
    (hslot : ∀ c ∈ calls, ((acceptedOn c.op.name calls).filterMap SymOp.slotG?).length ≤ 1 ∧
      ((acceptedOn c.op.name calls).filterMap SymOp.slotCe?).length ≤ 1) :
    ObjectsDestroyedOnce calls := by
  obtain ⟨s, hs, -, ho⟩ := symRun_objectsOwed hvis hdef hslot
  refine ⟨s, hs, fun order hp => ?_⟩
  have hloose : (s.loose.flatMap symrecDelete).filter SymRelease.isObject = [] := by
    rw [List.filter_flatMap, List.flatMap_eq_nil_iff]
    exact ho.loose
  simp only [SymSession.teardown, symrecDeleteAll, List.filter_append, hloose, List.nil_append,
    List.filter_flatMap]
  exact (hp.flatMap_right Symrec.owes).append_left _ |>.trans ho.ledger

theorem symRun_objects_destroyed_once_mixed :
    (∀ c ∈ [⟨⟨none, 1⟩, .defineEqu "x" (.leaf 1)⟩, ⟨⟨none, 2⟩, .declare "y" symExtern (some 7)⟩,
        ⟨⟨none, 3⟩, .declare "y" symGlobal (some 8)⟩, ⟨⟨none, 4⟩, .use "z"⟩,
        ⟨⟨none, 5⟩, .declare "x" symCommon (some 9)⟩], SymOp.declaresGCE (SymCall.op c)) ∧
      (∀ p ∈ priorCalls [⟨⟨none, 1⟩, .defineEqu "x" (.leaf 1)⟩,
          ⟨⟨none, 2⟩, .declare "y" symExtern (some 7)⟩, ⟨⟨none, 3⟩, .declare "y" symGlobal (some 8)⟩,
          ⟨⟨none, 4⟩, .use "z"⟩, ⟨⟨none, 5⟩, .declare "x" symCommon (some 9)⟩],
        p.2.op.isDefinition → p.2.op.clashes (firstDefining p.2.op.name p.1) = false) ∧
      (∀ c ∈ ([⟨⟨none, 1⟩, .defineEqu "x" (.leaf 1)⟩, ⟨⟨none, 2⟩, .declare "y" symExtern (some 7)⟩,
          ⟨⟨none, 3⟩, .declare "y" symGlobal (some 8)⟩, ⟨⟨none, 4⟩, .use "z"⟩,
          ⟨⟨none, 5⟩, .declare "x" symCommon (some 9)⟩] : List SymCall),
        ((acceptedOn c.op.name [⟨⟨none, 1⟩, .defineEqu "x" (.leaf 1)⟩,
          ⟨⟨none, 2⟩, .declare "y" symExtern (some 7)⟩, ⟨⟨none, 3⟩, .declare "y" symGlobal (some 8)⟩,
          ⟨⟨none, 4⟩, .use "z"⟩, ⟨⟨none, 5⟩, .declare "x" symCommon (some 9)⟩]).filterMap
            SymOp.slotG?).length ≤ 1 ∧
        ((acceptedOn c.op.name [⟨⟨none, 1⟩, .defineEqu "x" (.leaf 1)⟩,
          ⟨⟨none, 2⟩, .declare "y" symExtern (some 7)⟩, ⟨⟨none, 3⟩, .declare "y" symGlobal (some 8)⟩,
          ⟨⟨none, 4⟩, .use "z"⟩, ⟨⟨none, 5⟩, .declare "x" symCommon (some 9)⟩]).filterMap
            SymOp.slotCe?).length ≤ 1) ∧
      ObjectsDestroyedOnce [⟨⟨none, 1⟩, .defineEqu "x" (.leaf 1)⟩,
        ⟨⟨none, 2⟩, .declare "y" symExtern (some 7)⟩, ⟨⟨none, 3⟩, .declare "y" symGlobal (some 8)⟩,
        ⟨⟨none, 4⟩, .use "z"⟩, ⟨⟨none, 5⟩, .declare "x" symCommon (some 9)⟩] :=
  ⟨by decide, by decide, by decide, symRun_objects_destroyed_once _ (by decide) (by decide) (by decide)⟩

end Yasm
