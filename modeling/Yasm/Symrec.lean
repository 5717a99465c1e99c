import Yasm.Expr

/-! The symbol table of symrec.c: records, the fetch-or-create lookup, and the entry
points with the diagnostics and destructor calls they make. -/

namespace Yasm

structure SymStatus where
  used : Bool := false
  defined : Bool := false
  valued : Bool := false
  notInTable : Bool := false
  deriving DecidableEq, Repr

inductive SymType where
  | unknown
  | equ
  | label
  deriving DecidableEq, Repr

/-- Modelled from the spec: `SymVisibility`, a bit set over global, common and extern
whose empty value is `SYM_LOCAL`; its header is not among the sources. -/
structure SymVisibility where
  global : Bool := false
  common : Bool := false
  external : Bool := false
  deriving DecidableEq, Repr

def symLocal : SymVisibility := {}
def symGlobal : SymVisibility := { global := true }
def symCommon : SymVisibility := { common := true }
def symExtern : SymVisibility := { external := true }

def SymVisibility.or (a b : SymVisibility) : SymVisibility :=
  ⟨a.global || b.global, a.common || b.common, a.external || b.external⟩

inductive Word where
  | null
  | expr (e : Expr)
  | sect (id : Nat)
  | bc (id : Nat)
  deriving DecidableEq, Repr

structure SymValue where
  word0 : Word
  word1 : Word
  deriving DecidableEq, Repr

structure Symrec where
  name : String
  type : SymType
  status : SymStatus
  visibility : SymVisibility
  filename : Option String
  line : Nat
  value : SymValue
  ofDataVisCe : Option Nat
  ofDataVisG : Option Nat
  deriving DecidableEq, Repr

inductive SymMsg where
  | duplicateDefinition (name : String) (line : Nat)
  | undefinedSymbol (name : String)
  | reportedOnce
  deriving DecidableEq, Repr

inductive Diag where
  | error (loc : Loc) (msg : SymMsg)
  | errorAt (filename : Option String) (line : Nat) (msg : SymMsg)
  deriving DecidableEq, Repr

/-- A destructor call: `expr_delete` on a record's `value.expn`, the object format's
`declare_data_delete`, or `xfree` of a record's name. -/
inductive SymRelease where
  | exprDelete (w : Word)
  | ofData (vis : SymVisibility) (data : Nat)
  | name (s : String)
  deriving DecidableEq, Repr

/-- `sym_table`: at most one record per name. -/
structure SymTable where
  recs : List Symrec
  nodup : (recs.map Symrec.name).Nodup

theorem filter_name_of_nodup {l : List Symrec} (hl : (l.map Symrec.name).Nodup) (n : String) :
    l.filter (·.name == n) = (l.find? (·.name == n)).toList := by
  induction l with
  | nil => rfl
  | cons a l ih =>
    rw [List.map_cons, List.nodup_cons] at hl
    by_cases h : a.name = n
    · have hnil : l.filter (·.name == n) = [] := List.filter_eq_nil_iff.mpr fun b hb hbn =>
        hl.1 (by rw [h, ← beq_iff_eq.mp hbn]; exact List.mem_map_of_mem _ hb)
      simp [List.filter_cons, List.find?_cons, h, hnil]
    · simp [List.filter_cons, List.find?_cons, h, ih hl.2]

namespace SymTable

def empty : SymTable := ⟨[], List.nodup_nil⟩

def find? (t : SymTable) (name : String) : Option Symrec := t.recs.find? (·.name == name)

def put (t : SymTable) (sym : Symrec) : SymTable :=
  ⟨t.recs.filter (·.name != sym.name) ++ [sym], by
    rw [List.map_append, List.nodup_append]
    refine ⟨(List.filter_sublist _).map _ |>.nodup t.nodup, List.nodup_singleton _, ?_⟩
    simp [List.disjoint_singleton]⟩

@[simp] theorem find?_put (t : SymTable) (sym : Symrec) (n : String) :
    (t.put sym).find? n = if sym.name = n then some sym else t.find? n := by
  by_cases h : sym.name = n
  · subst h
    simp [put, find?, List.find?_append]
  · have hq : (fun r : Symrec => decide ((r.name != sym.name) = true ∧ (r.name == n) = true)) =
        (·.name == n) := by
      funext r; by_cases hr : r.name = n <;> simp [hr, Ne.symm h]
    simp only [put, find?, List.find?_append, List.find?_filter, hq, h, if_false]
    cases t.recs.find? (·.name == n) <;> simp [h]

theorem mem_of_find? {t : SymTable} {n : String} {sym : Symrec}
    (h : t.find? n = some sym) : sym ∈ t.recs ∧ sym.name = n :=
  ⟨List.mem_of_find?_eq_some h, by simpa using List.find?_some h⟩

theorem find?_of_mem {t : SymTable} {sym : Symrec} (h : sym ∈ t.recs) :
    t.find? sym.name = some sym := by
  cases hf : t.find? sym.name with
  | none => simp only [find?, List.find?_eq_none] at hf; simpa using hf sym h
  | some x =>
    obtain ⟨hx, hn⟩ := mem_of_find? hf
    rw [List.inj_on_of_nodup_map t.nodup hx h hn]

theorem put_flatMap_perm {β : Type} (t : SymTable) (sym : Symrec) (f : Symrec → List β) :
    ((t.put sym).recs.flatMap f ++ (t.find? sym.name).toList.flatMap f).Perm
      (t.recs.flatMap f ++ f sym) := by
  have hp := (List.filter_append_perm (·.name != sym.name) t.recs).flatMap_right f
  have hq : (fun r : Symrec => !(r.name != sym.name)) = (·.name == sym.name) := by
    funext r; simp [bne]
  rw [hq, filter_name_of_nodup t.nodup] at hp
  simp only [put, find?, List.flatMap_append, List.flatMap_cons, List.flatMap_nil,
    List.append_nil] at hp ⊢
  have hswap : ((t.recs.filter (·.name != sym.name)).flatMap f ++ f sym ++
      (t.recs.find? (·.name == sym.name)).toList.flatMap f).Perm
      ((t.recs.filter (·.name != sym.name)).flatMap f ++
        (t.recs.find? (·.name == sym.name)).toList.flatMap f ++ f sym) := by
    simpa only [List.append_assoc] using List.perm_append_comm.append_left _
  exact hswap.trans (hp.append_right _)

end SymTable

/-- A fresh record as `symrec_get_or_new` fills it in. -/
def Symrec.new (name : String) (status : SymStatus) (loc : Loc) : Symrec :=
  { name, type := .unknown, status, visibility := symLocal, filename := loc.filename,
    line := loc.line, value := ⟨.null, .null⟩, ofDataVisCe := none, ofDataVisG := none }

def symrecGetOrNew (table : SymTable) (loc : Loc) (name : String) (inTable : Bool) : Symrec :=
  if inTable then (table.find? name).getD (Symrec.new name {} loc)
  else Symrec.new name { notInTable := true } loc

/-- What an entry point leaves behind: the table, the record it returns, and the
diagnostics and destructor calls it made. -/
structure SymReply where
  table : SymTable
  sym : Symrec
  diags : List Diag
  released : List SymRelease

def symrecUse (table : SymTable) (loc : Loc) (name : String) : SymReply :=
  let sym := symrecGetOrNew table loc name true
  let sym := { sym with status := { sym.status with used := true } }
  ⟨table.put sym, sym, [], []⟩

/-- `symrec_define`, the defining transition shared by EQU and label definitions. -/
def symrecDefine (table : SymTable) (loc : Loc) (name : String) (type : SymType)
    (inTable : Bool) : Symrec × List Diag :=
  let sym := symrecGetOrNew table loc name inTable
  if sym.status.defined then (sym, [.error loc (.duplicateDefinition name sym.line)])
  else ({ sym with line := loc.line, type, status := { sym.status with defined := true } }, [])

def symrecDefineEqu (table : SymTable) (loc : Loc) (name : String) (e : Expr) : SymReply :=
  let (sym, diags) := symrecDefine table loc name .equ true
  let sym := { sym with
    value := { sym.value with word0 := .expr e }
    status := { sym.status with valued := true } }
  ⟨table.put sym, sym, diags, []⟩

def symrecDefineLabel (table : SymTable) (loc : Loc) (name : String) (sect precbc : Option Nat)
    (inTable : Bool) : SymReply :=
  let (sym, diags) := symrecDefine table loc name .label inTable
  let sym := { sym with value := ⟨(sect.map .sect).getD .null, (precbc.map .bc).getD .null⟩ }
  ⟨if inTable then table.put sym else table, sym, diags, []⟩

/-- The three-clause conflict test of `symrec_declare`. -/
def declareConflicts (sym : Symrec) (vis : SymVisibility) : Bool :=
  sym.status.defined && !sym.visibility.external || sym.visibility.common && vis == symExtern ||
    sym.visibility.external && vis == symCommon

/-- The `switch (vis)` of `symrec_declare`: the slot that keeps the backend data. -/
def Symrec.storeOfData (sym : Symrec) (vis : SymVisibility) (data : Nat) :
    Except String Symrec :=
  if vis = symGlobal then .ok { sym with ofDataVisG := some data }
  else if vis = symCommon ∨ vis = symExtern then .ok { sym with ofDataVisCe := some data }
  else .error "Unexpected vis value"

def symrecDeclare (table : SymTable) (loc : Loc) (name : String) (vis : SymVisibility)
    (ofData : Option Nat) : Except String SymReply :=
  let sym := symrecGetOrNew table loc name true
  if declareConflicts sym vis then
    .ok ⟨table.put sym, sym, [.error loc (.duplicateDefinition name sym.line)],
      ofData.toList.map (.ofData vis)⟩
  else
    let sym := { sym with
      line := loc.line
      visibility := sym.visibility.or vis
      status := if vis = symCommon ∨ vis = symExtern then { sym.status with defined := true }
        else sym.status }
    match ofData with
    | none => .ok ⟨table.put sym, sym, [], []⟩
    | some data => (sym.storeOfData vis data).map fun sym => ⟨table.put sym, sym, [], []⟩

def symrecGetName (sym : Symrec) : String := sym.name

def symrecGetVisibility (sym : Symrec) : SymVisibility := sym.visibility

def symrecGetEqu (sym : Symrec) : Word := if sym.type = .equ then sym.value.word0 else .null

/-- `symrec_traverse` over the records in the order the tree yields them; it stops at
the first visit that returns false and reports whether it visited all. -/
def symrecTraverse {σ : Type} (func : Symrec → σ → Bool × σ) :
    List Symrec → σ → Bool × σ
  | [], d => (true, d)
  | sym :: rest, d =>
    let (cont, d) := func sym d
    if cont then symrecTraverse func rest d else (false, d)

def exprDeleteWord : Word → List SymRelease
  | .null => []
  | w => [.exprDelete w]

def symrecDeleteOne (sym : Symrec) : List SymRelease :=
  let equ := if sym.type = .equ then exprDeleteWord sym.value.word0 else []
  let global := match sym.ofDataVisG with
    | some data => if sym.visibility.global then [SymRelease.ofData symGlobal data] else []
    | none => []
  let (common, ce) := match sym.ofDataVisCe with
    | some data =>
      if sym.visibility.common then ([SymRelease.ofData symCommon data], none) else ([], some data)
    | none => ([], none)
  let ext := match ce with
    | some data => if sym.visibility.external then [SymRelease.ofData symExtern data] else []
    | none => []
  .name sym.name :: equ ++ global ++ common ++ ext

def Symrec.equObjects (sym : Symrec) : List SymRelease :=
  if sym.type = .equ then exprDeleteWord sym.value.word0 else []

def Symrec.gObjects (sym : Symrec) : List SymRelease :=
  if sym.visibility.global then sym.ofDataVisG.toList.map (SymRelease.ofData symGlobal) else []

def Symrec.ceObjects (sym : Symrec) : List SymRelease :=
  if sym.visibility.common then sym.ofDataVisCe.toList.map (SymRelease.ofData symCommon)
  else if sym.visibility.external then sym.ofDataVisCe.toList.map (SymRelease.ofData symExtern)
  else []

theorem symrecDeleteOne_eq (sym : Symrec) :
    symrecDeleteOne sym = .name sym.name :: (sym.equObjects ++ sym.gObjects ++ sym.ceObjects) := by
  unfold symrecDeleteOne Symrec.equObjects Symrec.gObjects Symrec.ceObjects
  cases sym.ofDataVisG <;> cases sym.ofDataVisCe <;> cases sym.visibility.global <;>
    cases sym.visibility.common <;> cases sym.visibility.external <;> simp

def symrecDeleteAll (order : List Symrec) : List SymRelease × SymTable :=
  (order.flatMap symrecDeleteOne, SymTable.empty)

def symrecDelete (sym : Symrec) : List SymRelease :=
  if sym.status.notInTable then symrecDeleteOne sym else []

end Yasm
