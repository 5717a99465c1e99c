import Mathlib

/-! Expressions and source locations, which this code takes from outside, and the two
lemmas every run of a call sequence is proved with. -/

namespace Yasm

/-- Expression trees of the `expr` module. A tree built elsewhere is an opaque leaf;
this code only builds `expr_new_tree (lhs, EXPR_MUL, rhs)` nodes and the integer
constants of `imm_new_int`. -/
inductive Expr where
  | leaf (id : Nat)
  | int (val : Nat)
  | mul (lhs rhs : Expr)
  deriving DecidableEq, Repr

namespace Expr

def eval (v : Nat → Int) : Expr → Int
  | leaf id => v id
  | int val => val
  | mul lhs rhs => eval v lhs * eval v rhs

@[simp] theorem eval_mul (v : Nat → Int) (lhs rhs : Expr) :
    (mul lhs rhs).eval v = lhs.eval v * rhs.eval v := rfl

def parts : Expr → List Expr
  | leaf id => [leaf id]
  | int val => [int val]
  | mul lhs rhs => parts lhs ++ parts rhs

@[simp] theorem parts_mul (lhs rhs : Expr) : (mul lhs rhs).parts = lhs.parts ++ rhs.parts := rfl

end Expr

structure Loc where
  filename : Option String
  line : Nat
  deriving DecidableEq, Repr

section Run

variable {σ α : Type} {step : σ → α → Except String σ} {init : σ}

theorem foldlM_invariant {P : List α → σ → Prop} (h0 : P [] init)
    (hstep : ∀ pre s a s', P pre s → step s a = .ok s' → P (pre ++ [a]) s') :
    ∀ l s, l.foldlM step init = .ok s → P l s := by
  intro l
  induction l using List.reverseRecOn with
  | nil => intro s h; cases h; exact h0
  | append_singleton l a ih =>
    intro s h
    simp only [List.foldlM_append, List.foldlM_cons, List.foldlM_nil, bind_pure] at h
    cases hl : l.foldlM step init with
    | error e => simp [hl, bind, Except.bind] at h
    | ok t => exact hstep l t a s (ih t hl) (by simpa [hl, bind, Except.bind] using h)

theorem foldlM_progress {P : List α → σ → Prop} {Q : List α → α → Prop} (h0 : P [] init)
    (hstep : ∀ pre s a, P pre s → Q pre a → ∃ s', step s a = .ok s' ∧ P (pre ++ [a]) s')
    (l : List α) (hq : ∀ pre a post, l = pre ++ a :: post → Q pre a) :
    ∃ s, l.foldlM step init = .ok s ∧ P l s := by
  induction l using List.reverseRecOn with
  | nil => exact ⟨init, rfl, h0⟩
  | append_singleton l a ih =>
    obtain ⟨s, hs, hp⟩ := ih fun pre b post h => hq pre b (post ++ [a]) (by simp [h])
    obtain ⟨s', hs', hp'⟩ := hstep l s a hp (hq l a [] rfl)
    refine ⟨s', ?_, hp'⟩
    simp only [List.foldlM_append, List.foldlM_cons, List.foldlM_nil, bind_pure, hs]
    exact hs'

end Run

end Yasm
