import Yasm.SymrecLocation

/-! The symbol table as a function of the run: what the table, the records handed back,
the diagnostics and the releases hold is read off the calls, name by name. -/

namespace Yasm

def priorCalls (calls : List SymCall) : List (List SymCall × SymCall) :=
  calls.enum.map fun (i, c) => (calls.take i, c)

theorem priorCalls_append_call (calls : List SymCall) (c : SymCall) :
    priorCalls (calls ++ [c]) = priorCalls calls ++ [(calls, c)] := by
  simp only [priorCalls, List.enum_append, List.enumFrom_singleton, List.map_append,
    List.map_cons, List.map_nil, List.take_left]
  congr 1
  refine List.map_congr_left fun ⟨i, c'⟩ h => ?_
  simp [List.take_append_of_le_length (Nat.le_of_lt (List.fst_lt_of_mem_enum h))]

namespace SymOp

def word0? : SymOp → Option Word
  | defineEqu _ e => some (.expr e)
  | defineLabel _ sect _ true => some ((sect.map .sect).getD .null)
  | _ => none

def word1? : SymOp → Option Word
  | defineLabel _ _ precbc true => some ((precbc.map .bc).getD .null)
  | _ => none

def isDefineEqu : SymOp → Bool
  | defineEqu .. => true
  | _ => false

def isGlobalDecl : SymOp → Bool
  | declare _ vis _ => vis = symGlobal
  | _ => false

def slotG? : SymOp → Option Nat
  | declare _ vis (some data) => if vis = symGlobal then some data else none
  | _ => none

def slotCe? : SymOp → Option Nat
  | declare _ vis (some data) => if vis = symCommon ∨ vis = symExtern then some data else none
  | _ => none

theorem writes_of_not_inTable {op : SymOp} (h : op.inTable = false) :
    op.isDefineEqu = false ∧ op.word0? = none ∧ op.word1? = none ∧ op.isGlobalDecl = false ∧
      op.slotG? = none ∧ op.slotCe? = none := by
  cases op <;> simp_all [inTable, isDefineEqu, word0?, word1?, isGlobalDecl, slotG?, slotCe?]

end SymOp

def lastOn {α : Type} (n : String) (pick : SymOp → Option α) (calls : List SymCall) :
    Option α :=
  (calls.filterMap fun c => if c.op.name = n then pick c.op else none).getLast?

def acceptedOn (n : String) (calls : List SymCall) : List SymOp :=
  (priorCalls calls).filterMap fun (pre, c) =>
    if c.op.name = n ∧ c.op.clashes (firstDefining n pre) = false then some c.op else none

def valuedIn (n : String) (calls : List SymCall) : Bool :=
  calls.any fun c => c.op.name = n ∧ c.op.isDefineEqu

def globalIn (n : String) (calls : List SymCall) : Bool := (acceptedOn n calls).any SymOp.isGlobalDecl

def slotGIn (n : String) (calls : List SymCall) : Option Nat :=
  ((acceptedOn n calls).filterMap SymOp.slotG?).getLast?

def slotCeIn (n : String) (calls : List SymCall) : Option Nat :=
  ((acceptedOn n calls).filterMap SymOp.slotCe?).getLast?

/-- The record the history gives `n`, if an in-table call used the name. -/
def historyRecord (n : String) (calls : List SymCall) : Option Symrec :=
  (keptLoc n calls).map fun l =>
    { name := n
      type := DefKind.symType (firstDefining n calls)
      status := ⟨usedIn n calls, (firstDefining n calls).isSome, valuedIn n calls, false⟩
      visibility := ⟨globalIn n calls, firstDefining n calls == some .common,
        firstDefining n calls == some .external⟩
      filename := l.filename
      line := l.line
      value := ⟨(lastOn n SymOp.word0? calls).getD .null, (lastOn n SymOp.word1? calls).getD .null⟩
      ofDataVisCe := slotCeIn n calls
      ofDataVisG := slotGIn n calls }

def SymCall.looseRecord? (c : SymCall) : Option Symrec :=
  match c.op with
  | .defineLabel n sect precbc false =>
    some { Symrec.new n { defined := true, notInTable := true } c.loc with
      type := .label
      value := ⟨(sect.map .sect).getD .null, (precbc.map .bc).getD .null⟩ }
  | _ => none

def historyLoose (calls : List SymCall) : List Symrec := calls.filterMap SymCall.looseRecord?

def SymCall.dupDiags (c : SymCall) (pre : List SymCall) : List Diag :=
  match keptLoc c.op.name pre with
  | some l =>
    if c.op.clashes (firstDefining c.op.name pre) then
      [.error c.loc (.duplicateDefinition c.op.name l.line)]
    else []
  | none => []

def historyDiags (calls : List SymCall) : List Diag :=
  (priorCalls calls).flatMap fun (pre, c) => c.dupDiags pre

def Diag.duplicateName : Diag → Option String
  | .error _ (.duplicateDefinition name _) => some name
  | _ => none

def SymOp.dataReleases : SymOp → List SymRelease
  | .declare _ vis ofData => ofData.toList.map (.ofData vis)
  | _ => []

def historyReleased (calls : List SymCall) : List SymRelease :=
  (priorCalls calls).flatMap fun (pre, c) =>
    if c.op.clashes (firstDefining c.op.name pre) then c.op.dataReleases else []

theorem lastOn_append_call {α : Type} (n : String) (pick : SymOp → Option α)
    (calls : List SymCall) (c : SymCall) :
    lastOn n pick (calls ++ [c]) =
      (if c.op.name = n then pick c.op else none).or (lastOn n pick calls) := by
  simp only [lastOn, List.filterMap_append, List.getLast?_append, List.filterMap_cons,
    List.filterMap_nil]
  by_cases h : c.op.name = n <;> simp only [h, ↓reduceIte] <;> cases pick c.op <;> rfl

theorem acceptedOn_append_call (n : String) (calls : List SymCall) (c : SymCall) :
    acceptedOn n (calls ++ [c]) = acceptedOn n calls ++
      if c.op.name = n ∧ c.op.clashes (firstDefining n calls) = false then [c.op] else [] := by
  simp only [acceptedOn, priorCalls_append_call, List.filterMap_append, List.filterMap_cons,
    List.filterMap_nil]
  by_cases h : c.op.name = n ∧ c.op.clashes (firstDefining n calls) = false <;> simp [h]

theorem valuedIn_append_call (n : String) (calls : List SymCall) (c : SymCall) :
    valuedIn n (calls ++ [c]) = (valuedIn n calls || decide (c.op.name = n) && c.op.isDefineEqu) := by
  simp [valuedIn]

theorem globalIn_append_call (n : String) (calls : List SymCall) (c : SymCall) :
    globalIn n (calls ++ [c]) = (globalIn n calls ||
      decide (c.op.name = n ∧ c.op.clashes (firstDefining n calls) = false) && c.op.isGlobalDecl) := by
  simp only [globalIn, acceptedOn_append_call, List.any_append]
  by_cases h : c.op.name = n ∧ c.op.clashes (firstDefining n calls) = false <;> simp [h]

theorem slotGIn_append_call (n : String) (calls : List SymCall) (c : SymCall) :
    slotGIn n (calls ++ [c]) = (if c.op.name = n ∧ c.op.clashes (firstDefining n calls) = false
      then c.op.slotG? else none).or (slotGIn n calls) := by
  simp only [slotGIn, acceptedOn_append_call, List.filterMap_append, List.getLast?_append]
  by_cases h : c.op.name = n ∧ c.op.clashes (firstDefining n calls) = false <;>
    simp only [h, and_self, ↓reduceIte, List.filterMap_cons, List.filterMap_nil] <;>
    cases c.op.slotG? <;> rfl

theorem slotCeIn_append_call (n : String) (calls : List SymCall) (c : SymCall) :
    slotCeIn n (calls ++ [c]) = (if c.op.name = n ∧ c.op.clashes (firstDefining n calls) = false
      then c.op.slotCe? else none).or (slotCeIn n calls) := by
  simp only [slotCeIn, acceptedOn_append_call, List.filterMap_append, List.getLast?_append]
  by_cases h : c.op.name = n ∧ c.op.clashes (firstDefining n calls) = false <;>
    simp only [h, and_self, ↓reduceIte, List.filterMap_cons, List.filterMap_nil] <;>
    cases c.op.slotCe? <;> rfl

theorem history_append_other {n : String} {calls : List SymCall} {c : SymCall}
    (h : ¬(c.op.name = n ∧ c.op.inTable = true)) :
    keptLoc n (calls ++ [c]) = keptLoc n calls ∧
      firstDefining n (calls ++ [c]) = firstDefining n calls ∧
      usedIn n (calls ++ [c]) = usedIn n calls ∧ valuedIn n (calls ++ [c]) = valuedIn n calls ∧
      globalIn n (calls ++ [c]) = globalIn n calls ∧
      lastOn n SymOp.word0? (calls ++ [c]) = lastOn n SymOp.word0? calls ∧
      lastOn n SymOp.word1? (calls ++ [c]) = lastOn n SymOp.word1? calls ∧
      slotGIn n (calls ++ [c]) = slotGIn n calls ∧ slotCeIn n (calls ++ [c]) = slotCeIn n calls := by
  by_cases hn : c.op.name = n
  · have hin : c.op.inTable = false := by simpa [hn] using h
    obtain ⟨hd, hu⟩ := SymOp.defKind_of_not_inTable hin
    obtain ⟨e1, e2, e3, e4, e5, e6⟩ := SymOp.writes_of_not_inTable hin
    simp [keptLoc_append_call, firstDefining_append_call, usedIn_append_call,
      valuedIn_append_call, globalIn_append_call, lastOn_append_call, slotGIn_append_call,
      slotCeIn_append_call, hn, hin, hd, hu, e1, e2, e3, e4, e5, e6]
  · have hb : (c.op.name == n) = false := by simpa using hn
    simp [keptLoc_append_call, firstDefining_append_call, usedIn_append_call,
      valuedIn_append_call, globalIn_append_call, lastOn_append_call, slotGIn_append_call,
      slotCeIn_append_call, hn, hb]

theorem historyRecord_append_other {n : String} {calls : List SymCall} {c : SymCall}
    (h : ¬(c.op.name = n ∧ c.op.inTable = true)) :
    historyRecord n (calls ++ [c]) = historyRecord n calls := by
  obtain ⟨h1, h2, h3, h4, h5, h6, h7, h8, h9⟩ := @history_append_other _ calls _ h
  simp only [historyRecord, h1, h2, h3, h4, h5, h6, h7, h8, h9]

theorem history_of_keptLoc_none {n : String} {calls : List SymCall}
    (h : keptLoc n calls = none) :
    firstDefining n calls = none ∧ usedIn n calls = false ∧ valuedIn n calls = false ∧
      globalIn n calls = false ∧ lastOn n SymOp.word0? calls = none ∧
      lastOn n SymOp.word1? calls = none ∧ slotGIn n calls = none ∧ slotCeIn n calls = none := by
  induction calls using List.reverseRecOn with
  | nil => exact ⟨rfl, rfl, rfl, rfl, rfl, rfl, rfl, rfl⟩
  | append_singleton calls c ih =>
    have hc : ¬(c.op.name = n ∧ c.op.inTable = true) := fun hc => by
      simp [keptLoc_append_call, hc] at h
    obtain ⟨h1, h2, h3, h4, h5, h6, h7, h8, h9⟩ := @history_append_other _ calls _ hc
    rw [h1] at h
    simpa only [h2, h3, h4, h5, h6, h7, h8, h9] using ih h

structure ValueAgrees (sym : Symrec) (n : String) (calls : List SymCall) : Prop where
  valued : sym.status.valued = valuedIn n calls
  global : sym.visibility.global = globalIn n calls
  value : sym.value =
    ⟨(lastOn n SymOp.word0? calls).getD .null, (lastOn n SymOp.word1? calls).getD .null⟩
  slotG : sym.ofDataVisG = slotGIn n calls
  slotCe : sym.ofDataVisCe = slotCeIn n calls

theorem historyRecord_eq_some {n : String} {calls : List SymCall} {sym : Symrec} :
    historyRecord n calls = some sym ↔ keptLoc n calls = some sym.loc ∧ sym.name = n ∧
      Agrees sym (firstDefining n calls) (usedIn n calls) ∧ ValueAgrees sym n calls := by
  constructor
  · intro h
    obtain ⟨l, hl, rfl⟩ := Option.map_eq_some'.mp h
    exact ⟨hl, rfl, ⟨rfl, rfl, rfl, rfl, rfl, rfl⟩, ⟨rfl, rfl, rfl, rfl, rfl⟩⟩
  · rintro ⟨hl, hn, ⟨hd, ht, hc, he, hu, hi⟩, ⟨hv, hg, hval, hG, hCe⟩⟩
    rw [historyRecord, hl, Option.map_some']
    obtain ⟨name, type, ⟨u, d, v, nt⟩, ⟨g, c, e⟩, f, line, value, ce, gd⟩ := sym
    simp only at hn hd ht hc he hu hi hv hg hval hG hCe
    subst_vars
    rfl

theorem symrecDefine_keeps (t : SymTable) (loc : Loc) (n : String) (type : SymType)
    (inTable : Bool) :
    (symrecDefine t loc n type inTable).1.status.valued =
        (symrecGetOrNew t loc n inTable).status.valued ∧
      (symrecDefine t loc n type inTable).1.visibility =
        (symrecGetOrNew t loc n inTable).visibility ∧
      (symrecDefine t loc n type inTable).1.value = (symrecGetOrNew t loc n inTable).value ∧
      (symrecDefine t loc n type inTable).1.ofDataVisG =
        (symrecGetOrNew t loc n inTable).ofDataVisG ∧
      (symrecDefine t loc n type inTable).1.ofDataVisCe =
        (symrecGetOrNew t loc n inTable).ofDataVisCe := by
  unfold symrecDefine
  by_cases h : (symrecGetOrNew t loc n inTable).status.defined <;> simp [h]

theorem SymOp.apply_value {t : SymTable} {loc : Loc} {op : SymOp} {first : Option DefKind}
    {used : Bool} {old : Symrec} (hold : symrecGetOrNew t loc op.name true = old)
    (hop : op.declaresGCE) (ha : Agrees old first used) (hin : op.inTable = true)
    {r : SymReply} (hr : op.apply t loc = .ok r) :
    r.sym.status.valued = (old.status.valued || op.isDefineEqu) ∧
      r.sym.visibility.global =
        (old.visibility.global || !op.clashes first && op.isGlobalDecl) ∧
      r.sym.value = ⟨op.word0?.getD old.value.word0, op.word1?.getD old.value.word1⟩ ∧
      r.sym.ofDataVisG = (if op.clashes first then none else op.slotG?).or old.ofDataVisG ∧
      r.sym.ofDataVisCe = (if op.clashes first then none else op.slotCe?).or old.ofDataVisCe := by
  subst hold
  cases op with
  | use n =>
    cases hr
    simp [symrecUse, SymOp.name, SymOp.isDefineEqu, SymOp.isGlobalDecl, SymOp.word0?,
      SymOp.word1?, SymOp.slotG?, SymOp.slotCe?]
  | defineEqu n e =>
    cases hr
    obtain ⟨-, h2, h3, h4, h5⟩ := symrecDefine_keeps t loc n .equ true
    simp only [SymOp.name] at h2 h3 h4 h5 ⊢
    simp [symrecDefineEqu, SymOp.isDefineEqu, SymOp.isGlobalDecl, SymOp.word0?, SymOp.word1?,
      SymOp.slotG?, SymOp.slotCe?, h2, h3, h4, h5]
  | defineLabel n sect precbc inTable =>
    cases hin
    cases hr
    obtain ⟨h1, h2, -, h4, h5⟩ := symrecDefine_keeps t loc n .label true
    simp only [SymOp.name] at h1 h2 h4 h5 ⊢
    simp [symrecDefineLabel, SymOp.isDefineEqu, SymOp.isGlobalDecl, SymOp.word0?, SymOp.word1?,
      SymOp.slotG?, SymOp.slotCe?, h1, h2, h4, h5]
  | declare n vis ofData =>
    simp only [SymOp.apply, SymOp.name] at hr ha ⊢
    rw [← declareConflicts_eq_clashes ha hop]
    rcases declaresGCE_declare hop with rfl | rfl | rfl <;>
      cases hc : declareConflicts (symrecGetOrNew t loc n true) _ <;> cases ofData <;>
      simp only [symrecDeclare, hc, Bool.false_eq_true, ↓reduceIte, Except.map, Except.ok.injEq,
        Symrec.storeOfData_eq _ _ (declaresGCE_declare hop)] at hr <;>
      subst hr <;>
      simp [SymOp.isDefineEqu, SymOp.isGlobalDecl, SymOp.word0?, SymOp.word1?, SymOp.slotG?,
        SymOp.slotCe?, SymVisibility.or, symGlobal, symCommon, symExtern]

/-- `define_equ` twice, then an in-table `define_label` after `define_equ`: each second
call reports the duplicate, and `symrec_get_equ` then returns the second expression, or
the label's section pointer read as an expression. -/
theorem symrecDefine_duplicate_overwrites :
    (symRun [⟨⟨none, 1⟩, .defineEqu "x" (.leaf 1)⟩, ⟨⟨none, 2⟩, .defineEqu "x" (.leaf 2)⟩]).map
        (fun s => (s.diags, (s.table.find? "x").map symrecGetEqu)) =
      .ok ([.error ⟨none, 2⟩ (.duplicateDefinition "x" 1)], some (.expr (.leaf 2))) ∧
    (symRun [⟨⟨none, 1⟩, .defineEqu "x" (.leaf 1)⟩,
        ⟨⟨none, 2⟩, .defineLabel "x" (some 5) none true⟩]).map
        (fun s => (s.diags, (s.table.find? "x").map symrecGetEqu)) =
      .ok ([.error ⟨none, 2⟩ (.duplicateDefinition "x" 1)], some (.sect 5)) :=
  ⟨rfl, rfl⟩

theorem SymOp.apply_released {t : SymTable} {loc : Loc} {op : SymOp} {first : Option DefKind}
    {used : Bool} (hop : op.declaresGCE)
    (ha : Agrees (symrecGetOrNew t loc op.name true) first used) {r : SymReply}
    (hr : op.apply t loc = .ok r) :
    r.released = if op.clashes first then op.dataReleases else [] := by
  cases op with
  | declare n vis ofData =>
    simp only [SymOp.apply, SymOp.name] at hr ha
    rw [← declareConflicts_eq_clashes ha hop]
    cases hc : declareConflicts (symrecGetOrNew t loc n true) vis <;> cases ofData <;>
      simp only [symrecDeclare, hc, Bool.false_eq_true, ↓reduceIte, Except.map, Except.ok.injEq,
        Symrec.storeOfData_eq _ _ (declaresGCE_declare hop)] at hr <;>
      subst hr <;> rfl
  | _ => cases hr; split <;> rfl

theorem SymCall.apply_values {t : SymTable} {c : SymCall} {calls : List SymCall} {used : Bool}
    (hop : c.op.declaresGCE)
    (ha : Agrees (symrecGetOrNew t c.loc c.op.name true) (firstDefining c.op.name calls) used)
    (hv : ValueAgrees (symrecGetOrNew t c.loc c.op.name true) c.op.name calls)
    (hin : c.op.inTable = true) {r : SymReply} (hr : c.op.apply t c.loc = .ok r) :
    ValueAgrees r.sym c.op.name (calls ++ [c]) := by
  obtain ⟨v1, v2, v3, v4, v5⟩ := SymOp.apply_value rfl hop ha hin hr
  refine ⟨?_, ?_, ?_, ?_, ?_⟩
  · simp [v1, hv.valued, valuedIn_append_call]
  · simp [v2, hv.global, globalIn_append_call]
  · rw [v3, hv.value, lastOn_append_call, lastOn_append_call]
    simp only [↓reduceIte]
    cases c.op.word0? <;> cases c.op.word1? <;> rfl
  · rw [v4, hv.slotG, slotGIn_append_call]
    cases c.op.clashes (firstDefining c.op.name calls) <;> simp
  · rw [v5, hv.slotCe, slotCeIn_append_call]
    cases c.op.clashes (firstDefining c.op.name calls) <;> simp

section History

variable {t : SymTable} {calls : List SymCall}

theorem keptLoc_of_find?_none (hT : ∀ n, t.find? n = historyRecord n calls) {n : String}
    (hf : t.find? n = none) : keptLoc n calls = none :=
  Option.map_eq_none'.mp ((hT n).symm.trans hf)

theorem TableAgrees.of_history (hT : ∀ n, t.find? n = historyRecord n calls) :
    TableAgrees t calls := by
  intro n
  cases hf : t.find? n with
  | some sym => exact (historyRecord_eq_some.mp ((hT n).symm.trans hf)).2.2.1
  | none =>
    obtain ⟨h1, h2, -⟩ := history_of_keptLoc_none (keptLoc_of_find?_none hT hf)
    exact ⟨h1, h2⟩

theorem LocAgrees.of_history (hT : ∀ n, t.find? n = historyRecord n calls) :
    LocAgrees t calls := by
  intro n
  rw [hT n, historyRecord]
  cases keptLoc n calls <;> rfl

theorem symrecGetOrNew_values (hT : ∀ n, t.find? n = historyRecord n calls) (loc : Loc)
    (n : String) : ValueAgrees (symrecGetOrNew t loc n true) n calls := by
  cases hf : t.find? n with
  | some sym =>
    simpa [symrecGetOrNew, hf] using (historyRecord_eq_some.mp ((hT n).symm.trans hf)).2.2.2
  | none =>
    obtain ⟨-, -, hv, hg, h0, h1, hG, hCe⟩ := history_of_keptLoc_none (keptLoc_of_find?_none hT hf)
    simp only [symrecGetOrNew, hf, ↓reduceIte, Option.getD_none]
    exact ⟨hv.symm, hg.symm, by rw [h0, h1]; rfl, hG.symm, hCe.symm⟩

theorem historyTable_step (hT : ∀ n, t.find? n = historyRecord n calls) {c : SymCall}
    (hop : c.op.declaresGCE) {s s' : SymSession} (htab : s.table = t) (hstep : s.step c = .ok s') :
    ∀ n, s'.table.find? n = historyRecord n (calls ++ [c]) := by
  subst htab
  have ha := TableAgrees.of_history hT
  have hg := (ha c.op.name).getOrNew c.loc
  obtain ⟨r, hr, hn, ht, hA, -⟩ := SymOp.apply_agrees hop hg
  have hl' := (LocAgrees.of_history hT).step ha hop hstep
  cases (SymSession.step_of_apply hr).symm.trans hstep
  intro n
  by_cases hc : c.op.name = n ∧ c.op.inTable = true
  · obtain ⟨rfl, hin⟩ := hc
    have hfind : r.table.find? c.op.name = some r.sym := by simp [ht, hin, hn]
    rw [hfind, eq_comm, historyRecord_eq_some]
    refine ⟨by simpa [hfind] using (hl' c.op.name).symm, hn, ?_,
      SymCall.apply_values hop hg (symrecGetOrNew_values hT c.loc c.op.name) hin hr⟩
    simpa [firstDefining_append_call, usedIn_append_call] using hA hin
  · rw [historyRecord_append_other hc, ← hT n, ht]
    cases hin : c.op.inTable with
    | false => rfl
    | true =>
      have hne : c.op.name ≠ n := by simpa [hin] using hc
      simp [hin, hn, hne]

theorem SymCall.apply_diags (hT : ∀ n, t.find? n = historyRecord n calls) {c : SymCall}
    (hop : c.op.declaresGCE) {r : SymReply} (hr : c.op.apply t c.loc = .ok r) :
    r.diags = c.dupDiags calls := by
  have ha := TableAgrees.of_history hT
  obtain ⟨r', hr', -, -, -, hD⟩ := SymOp.apply_agrees hop ((ha c.op.name).getOrNew c.loc)
  cases hr.symm.trans hr'
  rw [hD, SymCall.dupDiags]
  cases hf : t.find? c.op.name with
  | none =>
    obtain ⟨hfirst, -⟩ : _ ∧ _ := by simpa [AgreesAt, hf] using ha c.op.name
    rw [keptLoc_of_find?_none hT hf]
    cases hcl : c.op.clashes (firstDefining c.op.name calls) with
    | false => rfl
    | true => simpa [hfirst] using SymOp.isSome_of_clashes hcl
  | some sym =>
    have hk : keptLoc c.op.name calls = some sym.loc := by
      simpa [hf] using (LocAgrees.of_history hT c.op.name).symm
    simp [hk, symrecGetOrNew, hf, Symrec.loc]

end History

theorem historyLoose_append_call (calls : List SymCall) (c : SymCall) :
    historyLoose (calls ++ [c]) = historyLoose calls ++ c.looseRecord?.toList := by
  simp only [historyLoose, List.filterMap_append, List.filterMap_cons, List.filterMap_nil]
  cases c.looseRecord? <;> rfl

theorem historyDiags_append_call (calls : List SymCall) (c : SymCall) :
    historyDiags (calls ++ [c]) = historyDiags calls ++ c.dupDiags calls := by
  simp [historyDiags, priorCalls_append_call]

theorem historyReleased_append_call (calls : List SymCall) (c : SymCall) :
    historyReleased (calls ++ [c]) = historyReleased calls ++
      if c.op.clashes (firstDefining c.op.name calls) then c.op.dataReleases else [] := by
  simp [historyReleased, priorCalls_append_call]

theorem SymCall.looseRecord?_apply {t : SymTable} {c : SymCall} {r : SymReply}
    (hA : c.op.inTable = true → r.sym.status.notInTable = false)
    (hr : c.op.apply t c.loc = .ok r) :
    c.looseRecord?.toList = if r.sym.status.notInTable then [r.sym] else [] := by
  obtain ⟨loc, op⟩ := c
  cases op with
  | defineLabel n sect precbc inTable =>
    cases hr
    cases inTable with
    | true => simp [hA rfl, SymCall.looseRecord?]
    | false => rfl
  | _ => simp [hA rfl, SymCall.looseRecord?]

/-- The session equals its history: the table holds the history's record for every name,
and the records handed back, the diagnostics and the releases are the history's. -/
structure SessionAgrees (s : SymSession) (calls : List SymCall) : Prop where
  table : ∀ n, s.table.find? n = historyRecord n calls
  loose : s.loose = historyLoose calls
  diags : s.diags = historyDiags calls
  released : s.released = historyReleased calls

theorem SessionAgrees.step {s : SymSession} {calls : List SymCall} {c : SymCall}
    (hs : SessionAgrees s calls) (hop : c.op.declaresGCE) :
    ∃ s', s.step c = .ok s' ∧ SessionAgrees s' (calls ++ [c]) := by
  have hg := (TableAgrees.of_history hs.table c.op.name).getOrNew c.loc
  obtain ⟨r, hr, -, -, hA, -⟩ := SymOp.apply_agrees hop hg
  have hstep := SymSession.step_of_apply hr
  refine ⟨_, hstep, historyTable_step hs.table hop rfl hstep, ?_, ?_, ?_⟩
  · rw [historyLoose_append_call, ← hs.loose,
      SymCall.looseRecord?_apply (fun hin => (hA hin).inTable) hr]
    split <;> simp
  · rw [historyDiags_append_call, ← hs.diags, SymCall.apply_diags hs.table hop hr]
  · rw [historyReleased_append_call, ← hs.released, SymOp.apply_released hop hg hr]

theorem symRun_sessionAgrees {calls : List SymCall} (hvis : ∀ c ∈ calls, c.op.declaresGCE) :
    ∃ s, symRun calls = .ok s ∧ SessionAgrees s calls :=
  symRun_progress (P := fun calls s => SessionAgrees s calls) ⟨fun _ => rfl, rfl, rfl, rfl⟩
    (fun _ _ _ hs hop => hs.step hop) hvis

/-- Each record is where its history puts it, and each duplicate definition cites the
line the history gives just before the clashing call. -/
theorem symRun_locations_kept (calls : List SymCall) (hvis : ∀ c ∈ calls, c.op.declaresGCE) :
    LocationsKept calls := by
  obtain ⟨s, hs, ha⟩ := symRun_sessionAgrees hvis
  refine ⟨s, hs, LocAgrees.of_history ha.table, fun pre c post hsplit hcl => ?_⟩
  subst hsplit
  have hpre : ∀ c' ∈ pre, c'.op.declaresGCE := fun c' hc' => hvis c' (by simp [hc'])
  obtain ⟨s', hs', ha'⟩ := symRun_sessionAgrees hpre
  have hop := hvis c (by simp)
  obtain ⟨r, hr, -⟩ := SymOp.apply_agrees hop
    ((TableAgrees.of_history ha'.table c.op.name).getOrNew c.loc)
  have hdiag := SymCall.apply_diags ha'.table hop hr
  cases hk : keptLoc c.op.name pre with
  | none => exact absurd (SymOp.isSome_of_clashes hcl) (by simp [(history_of_keptLoc_none hk).1])
  | some l => exact ⟨s', r, l, hs', hr, rfl, by rw [hdiag, SymCall.dupDiags, hk, hcl]; rfl⟩

theorem symRun_locations_kept_mixed :
    (∀ c ∈ [⟨⟨some "a.asm", 10⟩, .declare "x" symExtern none⟩,
        ⟨⟨some "a.asm", 20⟩, .declare "x" symGlobal none⟩,
        ⟨⟨some "a.asm", 30⟩, .defineEqu "x" (.leaf 1)⟩, ⟨⟨some "a.asm", 10⟩, .use "y"⟩,
        ⟨⟨some "b.inc", 20⟩, .declare "y" symGlobal none⟩], SymOp.declaresGCE (SymCall.op c)) ∧
      LocationsKept [⟨⟨some "a.asm", 10⟩, .declare "x" symExtern none⟩,
        ⟨⟨some "a.asm", 20⟩, .declare "x" symGlobal none⟩,
        ⟨⟨some "a.asm", 30⟩, .defineEqu "x" (.leaf 1)⟩, ⟨⟨some "a.asm", 10⟩, .use "y"⟩,
        ⟨⟨some "b.inc", 20⟩, .declare "y" symGlobal none⟩] :=
  ⟨by decide, symRun_locations_kept _ (by decide)⟩

/-- What the history determines of a run: the run succeeds, the session it leaves is the
history's, and its table holds no record but the history's. -/
def HistoryDetermines (calls : List SymCall) : Prop :=
  ∃ s, symRun calls = .ok s ∧ SessionAgrees s calls ∧
    ∀ sym, sym ∈ s.table.recs ↔ ∃ n, historyRecord n calls = some sym

/-- The symbol table refines its history semantics: after any run of the entry points
whose declarations have a visibility the `switch` accepts, the table holds exactly one
record for each name an in-table call used, the one its calls give it; the records handed
back out of the table are those of the out-of-table labels in order; each clashing call
has reported one duplicate definition at the line its record then had; and only the
backend data of clashing declarations has been destroyed. -/
theorem symRun_history (calls : List SymCall) (hvis : ∀ c ∈ calls, c.op.declaresGCE) :
    HistoryDetermines calls := by
  obtain ⟨s, hs, ha⟩ := symRun_sessionAgrees hvis
  refine ⟨s, hs, ha, fun sym => ⟨fun h => ⟨_, (ha.table _).symm.trans (SymTable.find?_of_mem h)⟩,
    fun ⟨n, h⟩ => (SymTable.mem_of_find? ((ha.table n).trans h)).1⟩⟩

theorem symRun_history_mixed :
    (∀ c ∈ [⟨⟨none, 1⟩, .declare "x" symExtern none⟩, ⟨⟨none, 2⟩, .declare "x" symCommon (some 7)⟩,
        ⟨⟨none, 3⟩, .defineLabel "x" (some 1) none true⟩,
        ⟨⟨none, 4⟩, .defineLabel "y" none (some 2) false⟩], SymOp.declaresGCE (SymCall.op c)) ∧
      HistoryDetermines [⟨⟨none, 1⟩, .declare "x" symExtern none⟩,
        ⟨⟨none, 2⟩, .declare "x" symCommon (some 7)⟩,
        ⟨⟨none, 3⟩, .defineLabel "x" (some 1) none true⟩,
        ⟨⟨none, 4⟩, .defineLabel "y" none (some 2) false⟩] :=
  ⟨by decide, symRun_history _ (by decide)⟩

def callsOn (n : String) (calls : List SymCall) : List SymCall := calls.filter (·.op.name = n)

section Locality

variable (n : String) (calls : List SymCall)

theorem filterMap_callsOn {β : Type} (f : SymOp → Option β) :
    (callsOn n calls).filterMap (fun c => if c.op.name = n then f c.op else none) =
      calls.filterMap fun c => if c.op.name = n then f c.op else none := by
  rw [callsOn, List.filterMap_filter]
  congr 1
  funext c
  by_cases h : c.op.name = n <;> simp [h]

theorem firstDefining_callsOn : firstDefining n (callsOn n calls) = firstDefining n calls := by
  simp only [firstDefining, filterMap_callsOn]

theorem lastOn_callsOn {α : Type} (pick : SymOp → Option α) :
    lastOn n pick (callsOn n calls) = lastOn n pick calls := by
  simp only [lastOn, filterMap_callsOn]

theorem usedIn_callsOn : usedIn n (callsOn n calls) = usedIn n calls := by
  rw [usedIn, callsOn, List.any_filter]
  congr 1
  funext c
  by_cases h : c.op.name = n <;> simp [h]

theorem valuedIn_callsOn : valuedIn n (callsOn n calls) = valuedIn n calls := by
  rw [valuedIn, callsOn, List.any_filter]
  congr 1
  funext c
  by_cases h : c.op.name = n <;> simp [h]

theorem callsOn_append_call (c : SymCall) :
    callsOn n (calls ++ [c]) = callsOn n calls ++ if c.op.name = n then [c] else [] := by
  by_cases h : c.op.name = n <;> simp [callsOn, h]

theorem keptLoc_callsOn : keptLoc n (callsOn n calls) = keptLoc n calls := by
  induction calls using List.reverseRecOn with
  | nil => rfl
  | append_singleton calls c ih =>
    rw [callsOn_append_call]
    by_cases h : c.op.name = n
    · simp only [h, ↓reduceIte, keptLoc_append_call, ih, firstDefining_callsOn]
    · simp only [h, ↓reduceIte, List.append_nil, keptLoc_append_call, false_and, ih]

theorem acceptedOn_callsOn : acceptedOn n (callsOn n calls) = acceptedOn n calls := by
  induction calls using List.reverseRecOn with
  | nil => rfl
  | append_singleton calls c ih =>
    rw [callsOn_append_call]
    by_cases h : c.op.name = n
    · simp only [h, ↓reduceIte, acceptedOn_append_call, ih, firstDefining_callsOn]
    · simp only [h, ↓reduceIte, List.append_nil, acceptedOn_append_call, false_and, ih,
        List.append_nil]

theorem historyRecord_callsOn : historyRecord n (callsOn n calls) = historyRecord n calls := by
  simp only [historyRecord, globalIn, slotGIn, slotCeIn, keptLoc_callsOn, firstDefining_callsOn,
    usedIn_callsOn, valuedIn_callsOn, lastOn_callsOn, acceptedOn_callsOn]

theorem SymCall.dupDiags_callsOn (c : SymCall) :
    c.dupDiags (callsOn c.op.name calls) = c.dupDiags calls := by
  simp only [SymCall.dupDiags, keptLoc_callsOn, firstDefining_callsOn]

theorem SymCall.filter_dupDiags (c : SymCall) :
    (c.dupDiags calls).filter (·.duplicateName = some n) =
      if c.op.name = n then c.dupDiags calls else [] := by
  unfold SymCall.dupDiags
  by_cases h : c.op.name = n <;> split <;> (try split) <;> simp [h, Diag.duplicateName]

theorem SymCall.filter_looseRecord? (c : SymCall) :
    c.looseRecord?.toList.filter (·.name = n) = if c.op.name = n then c.looseRecord?.toList else [] := by
  obtain ⟨loc, op⟩ := c
  cases op with
  | defineLabel m sect precbc inTable =>
    cases inTable <;> by_cases h : m = n <;> simp [SymCall.looseRecord?, SymOp.name, Symrec.new, h]
  | _ => simp [SymCall.looseRecord?]

theorem historyDiags_callsOn :
    (historyDiags calls).filter (·.duplicateName = some n) = historyDiags (callsOn n calls) := by
  induction calls using List.reverseRecOn with
  | nil => rfl
  | append_singleton calls c ih =>
    rw [historyDiags_append_call, List.filter_append, ih, SymCall.filter_dupDiags,
      callsOn_append_call]
    by_cases h : c.op.name = n
    · subst h
      simp only [↓reduceIte, historyDiags_append_call, SymCall.dupDiags_callsOn]
    · simp only [h, ↓reduceIte, List.append_nil]

theorem historyLoose_callsOn :
    (historyLoose calls).filter (·.name = n) = historyLoose (callsOn n calls) := by
  induction calls using List.reverseRecOn with
  | nil => rfl
  | append_singleton calls c ih =>
    rw [historyLoose_append_call, List.filter_append, ih, SymCall.filter_looseRecord?,
      callsOn_append_call]
    by_cases h : c.op.name = n
    · simp only [h, ↓reduceIte, historyLoose_append_call]
    · simp only [h, ↓reduceIte, List.append_nil]

end Locality

/-- Two sessions say the same about every name: its record in the table, the records
handed back for it, and the duplicate definitions reported about it, in order. -/
def SymSession.SameOnNames (s s' : SymSession) : Prop :=
  ∀ n, s'.table.find? n = s.table.find? n ∧
    s'.loose.filter (·.name = n) = s.loose.filter (·.name = n) ∧
    s'.diags.filter (·.duplicateName = some n) = s.diags.filter (·.duplicateName = some n)

/-- Calls on different names commute: two runs that make the same calls on each name, in
the same order for each name, however they interleave them, both succeed and say the same
about every name. -/
theorem symRun_names_independent (calls calls' : List SymCall)
    (hvis : ∀ c ∈ calls, c.op.declaresGCE) (hsame : ∀ n, callsOn n calls' = callsOn n calls) :
    ∃ s s', symRun calls = .ok s ∧ symRun calls' = .ok s' ∧ s.SameOnNames s' := by
  have hvis' : ∀ c ∈ calls', c.op.declaresGCE := fun c hc => by
    have hmem : c ∈ callsOn c.op.name calls' := List.mem_filter.mpr ⟨hc, by simp⟩
    rw [hsame] at hmem
    exact hvis c (List.mem_filter.mp hmem).1
  obtain ⟨s, hs, ha⟩ := symRun_sessionAgrees hvis
  obtain ⟨s', hs', ha'⟩ := symRun_sessionAgrees hvis'
  refine ⟨s, s', hs, hs', fun n => ⟨?_, ?_, ?_⟩⟩
  · rw [ha.table, ha'.table, ← historyRecord_callsOn, hsame, historyRecord_callsOn]
  · rw [ha.loose, ha'.loose, historyLoose_callsOn, hsame, historyLoose_callsOn]
  · rw [ha.diags, ha'.diags, historyDiags_callsOn, hsame, historyDiags_callsOn]

theorem symRun_names_independent_global :
    (∀ c ∈ [⟨⟨none, 1⟩, .use "x"⟩, ⟨⟨none, 2⟩, .declare "y" symGlobal (some 3)⟩,
        ⟨⟨none, 3⟩, .defineEqu "x" (.leaf 1)⟩, ⟨⟨none, 4⟩, .defineEqu "x" (.leaf 2)⟩],
        SymOp.declaresGCE (SymCall.op c)) ∧
      (∀ n, callsOn n [⟨⟨none, 2⟩, .declare "y" symGlobal (some 3)⟩, ⟨⟨none, 1⟩, .use "x"⟩,
          ⟨⟨none, 3⟩, .defineEqu "x" (.leaf 1)⟩, ⟨⟨none, 4⟩, .defineEqu "x" (.leaf 2)⟩] =
        callsOn n [⟨⟨none, 1⟩, .use "x"⟩, ⟨⟨none, 2⟩, .declare "y" symGlobal (some 3)⟩,
          ⟨⟨none, 3⟩, .defineEqu "x" (.leaf 1)⟩, ⟨⟨none, 4⟩, .defineEqu "x" (.leaf 2)⟩]) ∧
      ∃ s s', symRun [⟨⟨none, 1⟩, .use "x"⟩, ⟨⟨none, 2⟩, .declare "y" symGlobal (some 3)⟩,
          ⟨⟨none, 3⟩, .defineEqu "x" (.leaf 1)⟩, ⟨⟨none, 4⟩, .defineEqu "x" (.leaf 2)⟩] = .ok s ∧
        symRun [⟨⟨none, 2⟩, .declare "y" symGlobal (some 3)⟩, ⟨⟨none, 1⟩, .use "x"⟩,
          ⟨⟨none, 3⟩, .defineEqu "x" (.leaf 1)⟩, ⟨⟨none, 4⟩, .defineEqu "x" (.leaf 2)⟩] = .ok s' ∧
        s.SameOnNames s' :=
  have hsame : ∀ n, callsOn n [⟨⟨none, 2⟩, .declare "y" symGlobal (some 3)⟩,
      ⟨⟨none, 1⟩, .use "x"⟩, ⟨⟨none, 3⟩, .defineEqu "x" (.leaf 1)⟩,
      ⟨⟨none, 4⟩, .defineEqu "x" (.leaf 2)⟩] =
      callsOn n [⟨⟨none, 1⟩, .use "x"⟩, ⟨⟨none, 2⟩, .declare "y" symGlobal (some 3)⟩,
        ⟨⟨none, 3⟩, .defineEqu "x" (.leaf 1)⟩, ⟨⟨none, 4⟩, .defineEqu "x" (.leaf 2)⟩] := fun n => by
    by_cases hx : n = "x"
    · subst hx; rfl
    by_cases hy : n = "y"
    · subst hy; rfl
    simp [callsOn, SymOp.name, Ne.symm hx, Ne.symm hy]
  ⟨by decide, hsame, symRun_names_independent _ _ (by decide) hsame⟩

end Yasm
