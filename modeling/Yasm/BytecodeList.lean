import Yasm.Bytecode

/-! A section's bytecode list across any sequence of `bcs_append` and `bcs_delete` calls. -/

namespace Yasm

inductive BcsCall where
  | append (bc : Option Bytecode)
  | delete

def BcsCall.isDelete : BcsCall → Bool
  | .delete => true
  | .append _ => false

structure BcsState where
  head : List Bytecode
  returned : List (Option Bytecode)
  released : List BcRelease

def BcsState.init : BcsState := ⟨[], [], []⟩

def BcsState.step (arch : ArchBc) (s : BcsState) : BcsCall → Except String BcsState
  | .append bc =>
    let (head, ret) := bcsAppend s.head bc
    pure { s with head, returned := s.returned ++ [ret] }
  | .delete => do
    let released ← bcsDelete arch s.head
    pure { s with head := [], released := s.released ++ released }

def bcsRun (arch : ArchBc) (calls : List BcsCall) : Except String BcsState :=
  calls.foldlM (BcsState.step arch) BcsState.init

/-- What `bcs_append` keeps: a non-null bytecode that is not empty. -/
def kept (bc : Option Bytecode) : Option Bytecode :=
  bc.filter fun b => decide (b.contents ≠ .empty)

theorem bcsAppend_eq (head : List Bytecode) (bc : Option Bytecode) :
    bcsAppend head bc = (head ++ (kept bc).toList, kept bc) := by
  cases bc with
  | none => simp [bcsAppend, kept]
  | some b => by_cases he : b.contents = .empty <;> simp [bcsAppend, kept, Option.filter, he,
      BcContents.type_eq_bcEmpty]

def sinceLastDelete (calls : List BcsCall) : List BcsCall :=
  (calls.reverse.takeWhile fun c => !c.isDelete).reverse

theorem sinceLastDelete_append_call (calls : List BcsCall) (c : BcsCall) :
    sinceLastDelete (calls ++ [c]) = if c.isDelete then [] else sinceLastDelete calls ++ [c] := by
  cases hc : c.isDelete <;> simp [sinceLastDelete, List.takeWhile_cons, hc]

def appended (calls : List BcsCall) : List Bytecode :=
  calls.flatMap fun
    | .append bc => (kept bc).toList
    | .delete => []

def appendReturns (calls : List BcsCall) : List (Option Bytecode) :=
  calls.flatMap fun
    | .append bc => [kept bc]
    | .delete => []

/-- The list invariant: contents and returns as the spec describes them. -/
structure BcsState.Agrees (calls : List BcsCall) (s : BcsState) : Prop where
  head : s.head = appended (sinceLastDelete calls)
  returned : s.returned = appendReturns calls

theorem BcsState.step_eq {arch : ArchBc} {s s' : BcsState} {c : BcsCall}
    (h : s.step arch c = .ok s') :
    (∃ bc, c = .append bc ∧
      s' = { s with head := s.head ++ (kept bc).toList, returned := s.returned ++ [kept bc] }) ∨
    (c = .delete ∧ ∃ r, bcsDelete arch s.head = .ok r ∧
      s' = { s with head := [], released := s.released ++ r }) := by
  cases c with
  | append bc =>
    simp only [BcsState.step, bcsAppend_eq, pure, Except.pure, Except.ok.injEq] at h
    exact .inl ⟨bc, rfl, h.symm⟩
  | delete =>
    cases hd : bcsDelete arch s.head with
    | error e => simp [BcsState.step, hd, bind, Except.bind] at h
    | ok r =>
      simp only [BcsState.step, hd, bind, Except.bind, pure, Except.pure, Except.ok.injEq] at h
      exact .inr ⟨rfl, r, rfl, h.symm⟩

theorem BcsState.Agrees.step {arch : ArchBc} {calls : List BcsCall} {s s' : BcsState}
    {c : BcsCall} (hs : s.Agrees calls) (h : s.step arch c = .ok s') :
    s'.Agrees (calls ++ [c]) := by
  rcases BcsState.step_eq h with ⟨bc, rfl, rfl⟩ | ⟨rfl, r, -, rfl⟩
  · exact ⟨by simp [sinceLastDelete_append_call, BcsCall.isDelete, appended, hs.head],
      by simp [appendReturns, hs.returned]⟩
  · exact ⟨by simp [sinceLastDelete_append_call, BcsCall.isDelete, appended],
      by simp [appendReturns, hs.returned]⟩

theorem bcsRun_agrees {arch : ArchBc} {calls : List BcsCall} {s : BcsState}
    (h : bcsRun arch calls = .ok s) : s.Agrees calls :=
  foldlM_invariant (P := fun calls s => BcsState.Agrees calls s) ⟨rfl, rfl⟩
    (fun _ _ _ _ hs h => hs.step h) calls s h

theorem bcParserFinalize_error {arch : ArchBc} {bc : Bytecode} {e : String}
    (h : bcParserFinalize arch bc = .error e) :
    bc.contents = .empty ∨ e = "Unknown bytecode type" := by
  unfold bcParserFinalize at h
  split at h
  · exact .inl ‹_›
  · split at h
    · cases h
    · cases h; exact .inr rfl

theorem bcsParserFinalize_error {arch : ArchBc} {head : List Bytecode} {e : String}
    (h : bcsParserFinalize arch head = .error e) :
    ∃ bc ∈ head, bcParserFinalize arch bc = .error e := by
  induction head with
  | nil => cases h
  | cons bc rest ih =>
    simp only [bcsParserFinalize, List.mapM_cons] at h ih
    cases hb : bcParserFinalize arch bc with
    | error e' =>
      simp only [hb, bind, Except.bind, Except.error.injEq] at h
      exact ⟨bc, by simp, h ▸ hb⟩
    | ok b =>
      cases hr : rest.mapM (bcParserFinalize arch) with
      | error e' =>
        simp only [hb, hr, bind, Except.bind, Except.error.injEq] at h
        obtain ⟨x, hx, hxe⟩ := ih (h ▸ hr)
        exact ⟨x, List.mem_cons_of_mem bc hx, hxe⟩
      | ok bs => simp only [hb, hr, bind, Except.bind, pure, Except.pure] at h; cases h

theorem bcsParserFinalize_ne_empty_error {arch : ArchBc} {head : List Bytecode}
    (h : ∀ bc ∈ head, bc.contents ≠ .empty) :
    bcsParserFinalize arch head ≠ .error "got empty bytecode in parser_finalize" := by
  intro he
  obtain ⟨bc, hbc, hfe⟩ := bcsParserFinalize_error he
  rcases bcParserFinalize_error hfe with hc | hc
  · exact h bc hbc hc
  · exact absurd hc (by decide)

theorem mem_appended {calls : List BcsCall} {bc : Bytecode} (h : bc ∈ appended calls) :
    bc.contents ≠ .empty ∧ BcsCall.append (some bc) ∈ calls := by
  obtain ⟨c, hc, hbc⟩ := List.mem_flatMap.mp h
  cases c with
  | append b =>
    cases b with
    | none => simp [kept] at hbc
    | some b =>
      by_cases he : b.contents = .empty <;> simp_all [kept, Option.filter]
  | delete => simp at hbc

def ArchBc.Knows (arch : ArchBc) (bc : Bytecode) : Prop :=
  bcReserve < bc.contents.type → bc.contents.type < arch.typeMax

theorem bcDelete_ok {arch : ArchBc} {bc : Bytecode} (h : arch.Knows bc) :
    ∃ r, bcDelete arch (some bc) = .ok r := by
  unfold ArchBc.Knows at h
  cases hc : bc.contents with
  | arch t d hbase =>
    have ht : t < arch.typeMax := by simp only [hc, BcContents.type] at h; exact h hbase
    exact ⟨_, by simp [bcDelete, hc, BcContents.release, ht]; rfl⟩
  | _ => exact ⟨_, by simp [bcDelete, hc, BcContents.release]; rfl⟩

theorem bcsDelete_ok {arch : ArchBc} {head : List Bytecode} (h : ∀ bc ∈ head, arch.Knows bc) :
    ∃ r, bcsDelete arch head = .ok r := by
  induction head with
  | nil => exact ⟨[], rfl⟩
  | cons bc rest ih =>
    obtain ⟨r, hr⟩ := bcDelete_ok (h bc (by simp))
    obtain ⟨rs, hrs⟩ := ih fun x hx => h x (List.mem_cons_of_mem bc hx)
    exact ⟨r ++ rs, by simp [bcsDelete, hr, hrs, bind, Except.bind, pure, Except.pure]⟩

theorem sinceLastDelete_suffix (calls : List BcsCall) : sinceLastDelete calls <:+ calls := by
  simpa [sinceLastDelete] using List.reverse_prefix.mp
    (by simpa using List.takeWhile_prefix (fun c => !c.isDelete) (l := calls.reverse))

theorem bcsRun_ok {arch : ArchBc} {calls : List BcsCall}
    (h : ∀ bc ∈ appended calls, arch.Knows bc) : ∃ s, bcsRun arch calls = .ok s := by
  refine (foldlM_progress (P := fun calls s => BcsState.Agrees calls s)
    (Q := fun pre _ => ∀ bc ∈ appended pre, arch.Knows bc) ⟨rfl, rfl⟩ (fun pre s c hs hq => ?_)
    calls fun pre c post hsplit bc hbc => h bc ?_).imp fun _ h => h.1
  · cases c with
    | append bc => exact ⟨_, rfl, hs.step (show s.step arch (.append bc) = _ from rfl)⟩
    | delete =>
      have hhead : ∀ bc ∈ s.head, arch.Knows bc := by
        rw [hs.head]
        intro bc hbc
        obtain ⟨hne, hmem⟩ := mem_appended hbc
        exact hq bc (List.mem_flatMap.mpr ⟨_, (sinceLastDelete_suffix pre).subset hmem,
          by simp [kept, Option.filter, hne]⟩)
      obtain ⟨r, hr⟩ := bcsDelete_ok hhead
      have hstep : s.step arch .delete = .ok { s with head := [], released := s.released ++ r } := by
        simp only [BcsState.step, hr, bind, Except.bind, pure, Except.pure]
      exact ⟨_, hstep, hs.step hstep⟩
  · subst hsplit
    simp only [appended, List.flatMap_append, List.mem_append] at hbc ⊢
    exact .inl hbc

/-- Over every sequence of `bcs_append` and `bcs_delete` calls on a list that starts
empty: each append stores and returns its argument exactly when it is non-null and not
empty; the list then holds exactly those stored since the last delete, once each and in
call order; the finalize pass on it never reports an empty bytecode; and the run ends
whenever `bc_delete` knows every stored bytecode. -/
theorem bcsRun_holds_appended (arch : ArchBc) :
    (∀ head bc, bcsAppend head bc = (head ++ (kept bc).toList, kept bc)) ∧
    (∀ calls s, bcsRun arch calls = .ok s →
      s.head = appended (sinceLastDelete calls) ∧ s.returned = appendReturns calls ∧
      bcsParserFinalize arch s.head ≠ .error "got empty bytecode in parser_finalize") ∧
    (∀ calls, (∀ bc ∈ appended calls, arch.Knows bc) → ∃ s, bcsRun arch calls = .ok s) := by
  refine ⟨bcsAppend_eq, fun calls s hs => ?_, fun _ => bcsRun_ok⟩
  have ha := bcsRun_agrees hs
  refine ⟨ha.head, ha.returned, bcsParserFinalize_ne_empty_error fun bc hbc => ?_⟩
  rw [ha.head] at hbc
  exact (mem_appended hbc).1

end Yasm
