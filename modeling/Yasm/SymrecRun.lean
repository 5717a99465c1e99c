import Yasm.Symrec

/-! Runs of symbol-table calls, and the history they stand for: a name's record keeps the
outcome of its first defining event. -/

namespace Yasm

inductive SymOp where
  | use (name : String)
  | defineEqu (name : String) (e : Expr)
  | defineLabel (name : String) (sect precbc : Option Nat) (inTable : Bool)
  | declare (name : String) (vis : SymVisibility) (ofData : Option Nat)
  deriving DecidableEq, Repr

structure SymCall where
  loc : Loc
  op : SymOp
  deriving DecidableEq, Repr

namespace SymOp

def name : SymOp → String
  | use name | defineEqu name _ | defineLabel name .. | declare name .. => name

def inTable : SymOp → Bool
  | defineLabel _ _ _ inTable => inTable
  | _ => true

def apply (table : SymTable) (loc : Loc) : SymOp → Except String SymReply
  | use name => .ok (symrecUse table loc name)
  | defineEqu name e => .ok (symrecDefineEqu table loc name e)
  | defineLabel name sect precbc inTable =>
    .ok (symrecDefineLabel table loc name sect precbc inTable)
  | declare name vis ofData => symrecDeclare table loc name vis ofData

/-- The visibilities the `switch` of `symrec_declare` accepts. -/
def declaresGCE : SymOp → Bool
  | declare _ vis _ => vis == symGlobal || vis == symCommon || vis == symExtern
  | _ => true

end SymOp

/-- The table with everything the calls so far have reported, released, or handed back
out of the table (records of `define_label` with `in_table = 0`). -/
structure SymSession where
  table : SymTable
  loose : List Symrec
  diags : List Diag
  released : List SymRelease

def SymSession.init : SymSession := ⟨.empty, [], [], []⟩

def SymSession.step (s : SymSession) (c : SymCall) : Except String SymSession :=
  (c.op.apply s.table c.loc).map fun r =>
    { table := r.table
      loose := if r.sym.status.notInTable then s.loose ++ [r.sym] else s.loose
      diags := s.diags ++ r.diags
      released := s.released ++ r.released }

def symRun (calls : List SymCall) : Except String SymSession :=
  calls.foldlM SymSession.step .init

theorem SymSession.step_of_apply {s : SymSession} {c : SymCall} {r : SymReply}
    (hr : c.op.apply s.table c.loc = .ok r) :
    s.step c = .ok
      { table := r.table
        loose := if r.sym.status.notInTable then s.loose ++ [r.sym] else s.loose
        diags := s.diags ++ r.diags
        released := s.released ++ r.released } := by
  simp only [SymSession.step, hr, Except.map]

/-- What every call with an accepted visibility carries to the session it steps to holds
after every run of such calls. -/
theorem symRun_progress {P : List SymCall → SymSession → Prop} (h0 : P [] .init)
    (hstep : ∀ pre s c, P pre s → c.op.declaresGCE → ∃ s', s.step c = .ok s' ∧ P (pre ++ [c]) s')
    {calls : List SymCall} (hvis : ∀ c ∈ calls, c.op.declaresGCE) :
    ∃ s, symRun calls = .ok s ∧ P calls s :=
  foldlM_progress (Q := fun _ c => c.op.declaresGCE) h0 hstep calls
    fun _ c _ h => hvis c (by simp [h])

inductive DefKind where
  | equ
  | label
  | common
  | external
  deriving DecidableEq, Repr

def SymOp.defKind : SymOp → Option DefKind
  | .defineEqu .. => some .equ
  | .defineLabel _ _ _ inTable => if inTable then some .label else none
  | .declare _ vis _ =>
    if vis = symCommon then some .common else if vis = symExtern then some .external else none
  | .use _ => none

def firstDefining (n : String) (calls : List SymCall) : Option DefKind :=
  (calls.filterMap fun c => if c.op.name = n then c.op.defKind else none).head?

def SymOp.isUse : SymOp → Bool
  | .use _ => true
  | _ => false

def usedIn (n : String) (calls : List SymCall) : Bool :=
  calls.any fun c => c.op.isUse && c.op.name == n

def DefKind.symType : Option DefKind → SymType
  | some .equ => .equ
  | some .label => .label
  | _ => .unknown

/-- When an operation reports a duplicate definition, given the first defining event for
its name so far: a definition after any defining event, a COMMON declaration after any,
and any other declaration after one that is not an EXTERN declaration. -/
def SymOp.clashes (first : Option DefKind) : SymOp → Bool
  | .use _ => false
  | .defineEqu .. => first.isSome
  | .defineLabel _ _ _ inTable => inTable && first.isSome
  | .declare _ vis _ =>
    if vis = symCommon then first.isSome else first.isSome && first != some .external

theorem firstDefining_append_call (n : String) (calls : List SymCall) (c : SymCall) :
    firstDefining n (calls ++ [c]) =
      (firstDefining n calls).or (if c.op.name = n then c.op.defKind else none) := by
  unfold firstDefining
  by_cases h : c.op.name = n <;> cases hk : c.op.defKind <;> simp [h, hk, List.head?_append]

theorem usedIn_append_call (n : String) (calls : List SymCall) (c : SymCall) :
    usedIn n (calls ++ [c]) = (usedIn n calls || c.op.isUse && c.op.name == n) := by
  simp [usedIn]

/-- A record agrees with the history of its name: it is defined exactly after a defining
event, has the kind and COMMON or EXTERN bit that the first one gives, and is used exactly
after a `use`. -/
structure Agrees (sym : Symrec) (first : Option DefKind) (used : Bool) : Prop where
  defined : sym.status.defined = first.isSome
  type : sym.type = DefKind.symType first
  common : sym.visibility.common = (first == some .common)
  external : sym.visibility.external = (first == some .external)
  used : sym.status.used = used
  inTable : sym.status.notInTable = false

def AgreesAt : Option Symrec → Option DefKind → Bool → Prop
  | some sym, first, used => Agrees sym first used
  | none, first, used => first = none ∧ used = false

theorem symrecGetOrNew_name (t : SymTable) (loc : Loc) (n : String) (inTable : Bool) :
    (symrecGetOrNew t loc n inTable).name = n := by
  unfold symrecGetOrNew
  split
  · cases h : t.find? n with
    | none => rfl
    | some sym => simpa [SymTable.find?] using List.find?_some h
  · rfl

theorem AgreesAt.getOrNew {t : SymTable} {n : String} {first : Option DefKind} {used : Bool}
    (h : AgreesAt (t.find? n) first used) (loc : Loc) :
    Agrees (symrecGetOrNew t loc n true) first used := by
  unfold symrecGetOrNew
  cases hf : t.find? n with
  | some sym => simpa [hf, AgreesAt] using h
  | none =>
    obtain ⟨rfl, rfl⟩ : first = none ∧ used = false := by simpa [hf, AgreesAt] using h
    exact ⟨rfl, rfl, rfl, rfl, rfl, rfl⟩

theorem symrecDefine_agrees {t : SymTable} {loc : Loc} {n : String} {first : Option DefKind}
    {used : Bool} (ha : Agrees (symrecGetOrNew t loc n true) first used) {k : DefKind}
    (hk : k = .equ ∨ k = .label) :
    Agrees (symrecDefine t loc n (DefKind.symType (some k)) true).1 (first.or (some k)) used ∧
      (symrecDefine t loc n (DefKind.symType (some k)) true).2 =
        if first.isSome then
          [.error loc (.duplicateDefinition n (symrecGetOrNew t loc n true).line)]
        else [] := by
  unfold symrecDefine
  generalize symrecGetOrNew t loc n true = sym at ha ⊢
  obtain ⟨hd, ht, hc, he, hu, hi⟩ := ha
  cases first with
  | none =>
    simp only [Option.isSome_none] at hd
    simp only [hd, Bool.false_eq_true, ↓reduceIte, Option.isSome_none, Option.none_or]
    rcases hk with rfl | rfl <;>
      exact ⟨⟨rfl, rfl, by simpa using hc, by simpa using he, hu, hi⟩, trivial⟩
  | some f =>
    simp only [Option.isSome_some] at hd
    simp only [hd, ↓reduceIte, Option.isSome_some, Option.or_some]
    exact ⟨⟨by simpa using hd, ht, hc, he, hu, hi⟩, trivial⟩

theorem declaresGCE_declare {n : String} {vis : SymVisibility} {d : Option Nat}
    (h : (SymOp.declare n vis d).declaresGCE) :
    vis = symGlobal ∨ vis = symCommon ∨ vis = symExtern := by
  simpa [SymOp.declaresGCE, or_assoc] using h

theorem declareConflicts_eq_clashes {sym : Symrec} {first : Option DefKind} {used : Bool}
    (ha : Agrees sym first used) {n : String} {vis : SymVisibility} {d : Option Nat}
    (hvis : (SymOp.declare n vis d).declaresGCE) :
    declareConflicts sym vis = (SymOp.declare n vis d).clashes first := by
  unfold declareConflicts SymOp.clashes
  rw [ha.defined, ha.common, ha.external]
  rcases declaresGCE_declare hvis with rfl | rfl | rfl <;>
    rcases first with _ | ⟨_ | _ | _ | _⟩ <;> rfl

theorem declare_update_agrees {sym : Symrec} {first : Option DefKind} {used : Bool}
    (ha : Agrees sym first used) {n : String} {vis : SymVisibility} {d : Option Nat}
    (hvis : (SymOp.declare n vis d).declaresGCE)
    (hno : (SymOp.declare n vis d).clashes first = false) (line : Nat) :
    Agrees { sym with
        line
        visibility := sym.visibility.or vis
        status := if vis = symCommon ∨ vis = symExtern then { sym.status with defined := true }
          else sym.status }
      (first.or (SymOp.declare n vis d).defKind) used := by
  obtain ⟨hd, ht, hc, he, hu, hi⟩ := ha
  rcases declaresGCE_declare hvis with rfl | rfl | rfl
  · -- GLOBAL is no defining event and sets neither bit
    rw [show (SymOp.declare n symGlobal d).defKind = none from rfl, Option.or_none]
    exact ⟨hd, ht, by simpa [SymVisibility.or, symGlobal] using hc,
      by simpa [SymVisibility.or, symGlobal] using he, hu, hi⟩
  · -- COMMON clashes with any defining event before it
    obtain rfl : first = none := by cases first <;> simp_all [SymOp.clashes]
    rw [show (SymOp.declare n symCommon d).defKind = some .common from rfl]
    exact ⟨rfl, ht, by simp [SymVisibility.or, symCommon],
      by simpa [SymVisibility.or, symCommon] using he, hu, hi⟩
  · -- EXTERN clashes with any defining event but an earlier EXTERN
    rw [show (SymOp.declare n symExtern d).defKind = some .external from rfl]
    obtain rfl | rfl : first = none ∨ first = some .external := by
      rcases first with _ | ⟨_ | _ | _ | _⟩ <;> simp_all [SymOp.clashes, symCommon, symExtern]
    all_goals exact ⟨rfl, ht, by simpa [SymVisibility.or, symExtern] using hc,
      by simp [SymVisibility.or, symExtern], hu, hi⟩

theorem Agrees.withOfData {sym : Symrec} {first : Option DefKind} {used : Bool}
    (ha : Agrees sym first used) (g ce : Option Nat) :
    Agrees { sym with ofDataVisG := g, ofDataVisCe := ce } first used :=
  ⟨ha.defined, ha.type, ha.common, ha.external, ha.used, ha.inTable⟩

theorem Symrec.storeOfData_eq (sym : Symrec) {vis : SymVisibility} (data : Nat)
    (hvis : vis = symGlobal ∨ vis = symCommon ∨ vis = symExtern) :
    sym.storeOfData vis data = .ok { sym with
      ofDataVisG := if vis = symGlobal then some data else sym.ofDataVisG
      ofDataVisCe := if vis = symGlobal then sym.ofDataVisCe else some data } := by
  rcases hvis with rfl | rfl | rfl <;> rfl

theorem SymOp.isSome_of_clashes {op : SymOp} {first : Option DefKind}
    (h : op.clashes first = true) : first.isSome := by
  unfold SymOp.clashes at h
  split at h <;> simp_all
  split at h <;> simp_all

theorem symrecDeclare_agrees {t : SymTable} {loc : Loc} {n : String} {vis : SymVisibility}
    {ofData : Option Nat} {first : Option DefKind} {used : Bool}
    (ha : Agrees (symrecGetOrNew t loc n true) first used)
    (hvis : (SymOp.declare n vis ofData).declaresGCE) :
    ∃ r, symrecDeclare t loc n vis ofData = .ok r ∧ r.table = t.put r.sym ∧ r.sym.name = n ∧
      Agrees r.sym (first.or (SymOp.declare n vis ofData).defKind) used ∧
      r.diags = if (SymOp.declare n vis ofData).clashes first then
        [.error loc (.duplicateDefinition n (symrecGetOrNew t loc n true).line)] else [] := by
  have hname := symrecGetOrNew_name t loc n true
  unfold symrecDeclare
  generalize symrecGetOrNew t loc n true = sym at ha hname ⊢
  dsimp only
  rw [declareConflicts_eq_clashes ha hvis]
  cases hcl : (SymOp.declare n vis ofData).clashes first with
  | true =>
    obtain ⟨k, rfl⟩ := Option.isSome_iff_exists.mp (SymOp.isSome_of_clashes hcl)
    exact ⟨_, rfl, rfl, hname, by simpa using ha, rfl⟩
  | false =>
    have hu := declare_update_agrees ha hvis hcl loc.line
    cases ofData with
    | none => exact ⟨_, rfl, rfl, hname, hu, rfl⟩
    | some data =>
      simp only [Bool.false_eq_true, ↓reduceIte,
        Symrec.storeOfData_eq _ data (declaresGCE_declare hvis)]
      exact ⟨_, rfl, rfl, hname, hu.withOfData _ _, rfl⟩

theorem Agrees.setUsed {sym : Symrec} {first : Option DefKind} {used : Bool}
    (ha : Agrees sym first used) :
    Agrees { sym with status := { sym.status with used := true } } first true :=
  ⟨ha.defined, ha.type, ha.common, ha.external, rfl, ha.inTable⟩

theorem Agrees.setValue {sym : Symrec} {first : Option DefKind} {used : Bool}
    (ha : Agrees sym first used) (value : SymValue) (valued : Bool) :
    Agrees { sym with value, status := { sym.status with valued } } first used :=
  ⟨ha.defined, ha.type, ha.common, ha.external, ha.used, ha.inTable⟩

theorem Agrees.withValue {sym : Symrec} {first : Option DefKind} {used : Bool}
    (ha : Agrees sym first used) (value : SymValue) : Agrees { sym with value } first used :=
  ⟨ha.defined, ha.type, ha.common, ha.external, ha.used, ha.inTable⟩

theorem symrecDefine_name (t : SymTable) (loc : Loc) (n : String) (type : SymType)
    (inTable : Bool) : (symrecDefine t loc n type inTable).1.name = n := by
  unfold symrecDefine
  dsimp only
  split <;> exact symrecGetOrNew_name t loc n inTable

theorem SymOp.apply_agrees {t : SymTable} {loc : Loc} {op : SymOp} {first : Option DefKind}
    {used : Bool} (hop : op.declaresGCE)
    (ha : Agrees (symrecGetOrNew t loc op.name true) first used) :
    ∃ r, op.apply t loc = .ok r ∧ r.sym.name = op.name ∧
      (r.table = if op.inTable then t.put r.sym else t) ∧
      (op.inTable → Agrees r.sym (first.or op.defKind) (used || op.isUse)) ∧
      r.diags = if op.clashes first then
        [.error loc (.duplicateDefinition op.name (symrecGetOrNew t loc op.name true).line)]
        else [] := by
  cases op with
  | use n =>
    exact ⟨_, rfl, symrecGetOrNew_name t loc n true, rfl, fun _ => by
      simpa only [SymOp.defKind, Option.or_none, SymOp.isUse, Bool.or_true] using ha.setUsed, rfl⟩
  | defineEqu n e =>
    obtain ⟨hA, hD⟩ := symrecDefine_agrees ha (k := .equ) (.inl rfl)
    exact ⟨_, rfl, symrecDefine_name t loc n _ true, rfl, fun _ => by
      simpa only [SymOp.isUse, Bool.or_false] using hA.setValue _ true, hD⟩
  | defineLabel n sect precbc inTable =>
    cases inTable with
    | true =>
      obtain ⟨hA, hD⟩ := symrecDefine_agrees ha (k := .label) (.inr rfl)
      exact ⟨_, rfl, symrecDefine_name t loc n _ true, rfl, fun _ => by
        simpa only [SymOp.isUse, Bool.or_false] using hA.withValue _, by simpa using hD⟩
    | false =>
      refine ⟨_, rfl, symrecDefine_name t loc n .label false, rfl,
        fun h => absurd h Bool.false_ne_true, ?_⟩
      simp [symrecDefineLabel, symrecDefine, symrecGetOrNew, Symrec.new, SymOp.clashes]
  | declare n vis ofData =>
    obtain ⟨r, hr, ht, hn, hA, hD⟩ := symrecDeclare_agrees ha hop
    exact ⟨r, hr, hn, ht, fun _ => by simpa only [SymOp.isUse, Bool.or_false] using hA, hD⟩

theorem SymOp.defKind_of_not_inTable {op : SymOp} (h : op.inTable = false) :
    op.defKind = none ∧ op.isUse = false := by
  cases op <;> simp_all [SymOp.inTable, SymOp.defKind, SymOp.isUse]

def TableAgrees (t : SymTable) (calls : List SymCall) : Prop :=
  ∀ n, AgreesAt (t.find? n) (firstDefining n calls) (usedIn n calls)

theorem TableAgrees.step {s : SymSession} {calls : List SymCall} {c : SymCall}
    (hs : TableAgrees s.table calls) (hop : c.op.declaresGCE) :
    ∃ s', s.step c = .ok s' ∧ TableAgrees s'.table (calls ++ [c]) ∧
      ∃ r, c.op.apply s.table c.loc = .ok r ∧ s'.diags = s.diags ++ r.diags ∧
        r.diags = if c.op.clashes (firstDefining c.op.name calls) then
          [.error c.loc (.duplicateDefinition c.op.name
            (symrecGetOrNew s.table c.loc c.op.name true).line)]
          else [] := by
  obtain ⟨r, hr, hn, ht, hA, hD⟩ := SymOp.apply_agrees hop ((hs c.op.name).getOrNew c.loc)
  refine ⟨_, SymSession.step_of_apply hr, ?_, r, hr, rfl, hD⟩
  intro n
  simp only [firstDefining_append_call, usedIn_append_call, ht]
  cases hin : c.op.inTable with
  | true =>
    by_cases hnm : c.op.name = n
    · subst hnm
      simpa [AgreesAt, hn] using hA hin
    · have hb : (c.op.name == n) = false := by simpa using hnm
      simpa [hnm, hn, hb] using hs n
  | false =>
    obtain ⟨hk, hu⟩ := SymOp.defKind_of_not_inTable hin
    simpa [hk, hu] using hs n

theorem symRun_agrees {calls : List SymCall} (hvis : ∀ c ∈ calls, c.op.declaresGCE) :
    ∃ s, symRun calls = .ok s ∧ TableAgrees s.table calls :=
  symRun_progress (P := fun calls s => TableAgrees s.table calls) (fun _ => ⟨rfl, rfl⟩)
    (fun _ _ _ hs hop => (hs.step hop).imp fun _ h => ⟨h.1, h.2.1⟩) hvis

/-- The first-defining-event rule over a run: each name's record is defined exactly when
the run holds a defining event for it, its kind and COMMON and EXTERN bits are those the
first one gives (so never both bits), and each call reports a duplicate definition
exactly when it clashes with the history before it. -/
def FirstDefiningWins (calls : List SymCall) : Prop :=
  ∃ s, symRun calls = .ok s ∧
    (∀ n sym, s.table.find? n = some sym →
      sym.status.defined = (firstDefining n calls).isSome ∧
      sym.type = DefKind.symType (firstDefining n calls) ∧
      sym.visibility.common = (firstDefining n calls == some .common) ∧
      sym.visibility.external = (firstDefining n calls == some .external) ∧
      ¬(sym.visibility.common ∧ sym.visibility.external)) ∧
    ∀ pre c post, calls = pre ++ c :: post →
      ∃ s' r, symRun pre = .ok s' ∧ c.op.apply s'.table c.loc = .ok r ∧
        (c.op.clashes (firstDefining c.op.name pre) = false ∧ r.diags = [] ∨
          c.op.clashes (firstDefining c.op.name pre) = true ∧
            ∃ line, r.diags = [.error c.loc (.duplicateDefinition c.op.name line)])

theorem symRun_first_defining_wins (calls : List SymCall)
    (hvis : ∀ c ∈ calls, c.op.declaresGCE) : FirstDefiningWins calls := by
  obtain ⟨s, hs, ha⟩ := symRun_agrees hvis
  refine ⟨s, hs, fun n sym hsym => ?_, fun pre c post hsplit => ?_⟩
  · have h : Agrees sym (firstDefining n calls) (usedIn n calls) := by
      simpa [AgreesAt, hsym] using ha n
    refine ⟨h.defined, h.type, h.common, h.external, ?_⟩
    rw [h.common, h.external]
    rcases firstDefining n calls with _ | ⟨_ | _ | _ | _⟩ <;> decide
  · subst hsplit
    have hpre : ∀ c' ∈ pre, c'.op.declaresGCE := fun c' hc' => hvis c' (by simp [hc'])
    obtain ⟨s', hs', ha'⟩ := symRun_agrees hpre
    obtain ⟨-, -, -, r, hr, -, hD⟩ := ha'.step (hvis c (by simp))
    refine ⟨s', r, hs', hr, ?_⟩
    cases hcl : c.op.clashes (firstDefining c.op.name pre) <;> simp [hcl] at hD ⊢ <;> simp [hD]

theorem symRun_first_defining_wins_extern_common :
    (∀ c ∈ [⟨⟨none, 1⟩, .declare "x" symExtern none⟩, ⟨⟨none, 2⟩, .declare "x" symCommon (some 7)⟩],
        SymOp.declaresGCE (SymCall.op c)) ∧
      FirstDefiningWins
        [⟨⟨none, 1⟩, .declare "x" symExtern none⟩, ⟨⟨none, 2⟩, .declare "x" symCommon (some 7)⟩] :=
  ⟨by decide, symRun_first_defining_wins _ (by decide)⟩

end Yasm
