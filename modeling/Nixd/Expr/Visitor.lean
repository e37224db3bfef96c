import Mathlib.Control.Basic

/-!
# The recursive AST visitor

`RecursiveASTVisitor<Derived>` of `Expr.h` walks a Nix AST. `traverseExpr` returns `true`
at a null pointer and otherwise dispatches on the dynamic type to `traverse##EXPR`, which
`DEF_TRAVERSE_TYPE` writes as: the visit hook first unless `shouldTraversePostOrder()`,
then the children through `TRY_TO_TRAVERSE`, then the hook last if it is; `TRY_TO`
returns `false` at once when its call does. `traverseExprError` runs the hook of an
`ExprError`, a leaf. The child lists come from `Traverse.inc`, outside the source, so a
node carries the children its `traverse##EXPR` descends into, a null child as `none`. The
hooks of the derived visitor may have any effect: they run in an arbitrary monad.

The traversal is the library's `List.allM` of the hook over the pre-order list of the
nodes (the post-order list when `shouldTraversePostOrder()` is `true`): the hook is called
on each node of that list in turn, the first `false` ends the walk, and the result is
`true` exactly when no hook returned `false`.
-/

namespace Nixd

/-- A node of the AST as the traversal sees it: an expression of one of the types of
`Nodes.inc`, with what its hooks read of it and the children its `traverse##EXPR`
descends into, in order (a null child is `none`); or an `ExprError`, a leaf. -/
inductive Expr (K : Type)
  | node (data : K) (children : List (Option (Expr K)))
  | error (data : K)

namespace Expr

variable {K : Type}

mutual

/-- The nodes of the tree in pre-order, or in post-order when `postOrder` holds. -/
def enumerate (postOrder : Bool) : Expr K → List (Expr K)
  | e@(node _ cs) =>
      if postOrder then enumerateChildren postOrder cs ++ [e]
      else e :: enumerateChildren postOrder cs
  | e@(error _) => [e]

/-- The nodes under a possibly null pointer. -/
def enumerateOption (postOrder : Bool) : Option (Expr K) → List (Expr K)
  | none => []
  | some e => enumerate postOrder e

/-- The nodes under a list of children, one child after the other. -/
def enumerateChildren (postOrder : Bool) : List (Option (Expr K)) → List (Expr K)
  | [] => []
  | c :: cs => enumerateOption postOrder c ++ enumerateChildren postOrder cs

end

end Expr

/-- A derived visitor: its `shouldTraversePostOrder()`, constant, and its visit hook
(`visit##EXPR` and `visitExprError`, which default to `visitExpr`), run in the monad `m`
of the visitor's effects. -/
structure Visitor (m : Type → Type) (K : Type) where
  postOrder : Bool
  visit : Expr K → m Bool

section Traverse

variable {m : Type → Type} [Monad m] {K : Type}

/-- `TRY_TO(CALL_EXPR)` followed by the code after it: `false` at once when the call
returns `false`. -/
def tryTo (call rest : m Bool) : m Bool := do
  if (← call) then rest else pure false

/-- `if (COND) TRY_TO(CALL_EXPR);` followed by the code after it. -/
def tryToIf (cond : Bool) (call rest : m Bool) : m Bool :=
  if cond then tryTo call rest else rest

@[simp] theorem tryToIf_true (call rest : m Bool) : tryToIf true call rest = tryTo call rest :=
  rfl

@[simp] theorem tryToIf_false (call rest : m Bool) : tryToIf false call rest = rest := rfl

mutual

/-- `traverse##EXPR` as `DEF_TRAVERSE_TYPE` writes it, its `{ CODE; }` running
`TRY_TO_TRAVERSE` on each child in order, and `traverseExprError`. -/
def traverseNode (v : Visitor m K) : Expr K → m Bool
  | e@(.node _ cs) =>
      tryToIf (!v.postOrder) (v.visit e) <|
        tryTo (traverseChildren v cs) <|
          tryToIf v.postOrder (v.visit e) (pure true)
  | e@(.error _) =>
      tryToIf (!v.postOrder) (v.visit e) <| tryToIf v.postOrder (v.visit e) (pure true)

/-- `RecursiveASTVisitor::traverseExpr`: `true` at a null pointer, else the traversal of
the node's type. -/
def traverseExpr (v : Visitor m K) : Option (Expr K) → m Bool
  | none => pure true
  | some e => traverseNode v e

/-- The children of a node, each through `TRY_TO_TRAVERSE`. -/
def traverseChildren (v : Visitor m K) : List (Option (Expr K)) → m Bool
  | [] => pure true
  | c :: cs => tryTo (traverseExpr v c) (traverseChildren v cs)

end

theorem allM_nil (p : Expr K → m Bool) : List.allM p [] = pure true := rfl

theorem allM_cons (p : Expr K → m Bool) (e : Expr K) (l : List (Expr K)) :
    List.allM p (e :: l) = tryTo (p e) (List.allM p l) := by
  simp only [List.allM, tryTo]
  congr 1
  funext b
  cases b <;> rfl

variable [LawfulMonad m]

theorem tryTo_pure_true (call : m Bool) : tryTo call (pure true) = call := by
  have h : (fun b : Bool => if b then (pure true : m Bool) else pure false) = pure := by
    funext b
    cases b <;> rfl
  rw [tryTo, h, bind_pure]

theorem tryTo_assoc (a b c : m Bool) : tryTo (tryTo a b) c = tryTo a (tryTo b c) := by
  simp only [tryTo, bind_assoc]
  congr 1
  funext x
  cases x <;> simp

/-- Checking two lists in a row is checking the first and, if it passed, the second. -/
theorem allM_append (p : Expr K → m Bool) (l₁ l₂ : List (Expr K)) :
    List.allM p (l₁ ++ l₂) = tryTo (List.allM p l₁) (List.allM p l₂) := by
  induction l₁ with
  | nil =>
      simp only [List.nil_append, List.allM, tryTo, pure_bind]
      rfl
  | cons e l ih => rw [List.cons_append, allM_cons, allM_cons, ih, tryTo_assoc]

variable (v : Visitor m K)

mutual

theorem traverseNode_eq : ∀ e : Expr K,
    traverseNode v e = List.allM v.visit (e.enumerate v.postOrder)
  | e@(.node _ cs) => by
      cases hp : v.postOrder <;>
        simp only [traverseNode, hp, Bool.not_false, Bool.not_true, tryToIf_true, tryToIf_false,
          Expr.enumerate, Bool.false_eq_true, ↓reduceIte, allM_append, allM_cons, allM_nil,
          tryTo_pure_true, traverseChildren_eq cs]
  | e@(.error _) => by
      cases hp : v.postOrder <;>
        simp only [traverseNode, hp, Bool.not_false, Bool.not_true, tryToIf_true, tryToIf_false,
          Expr.enumerate, allM_cons, allM_nil, tryTo_pure_true]

theorem traverseChildren_eq : ∀ cs : List (Option (Expr K)),
    traverseChildren v cs = List.allM v.visit (Expr.enumerateChildren v.postOrder cs)
  | [] => rfl
  | none :: cs => by
      rw [traverseChildren, Expr.enumerateChildren, allM_append, traverseChildren_eq cs]
      rfl
  | some e :: cs => by
      rw [traverseChildren, Expr.enumerateChildren, allM_append, traverseChildren_eq cs,
        traverseExpr, Expr.enumerateOption, traverseNode_eq e]

end

/-- `traverseExpr` on a root, null or not, calls the hook on the nodes of the tree in
pre-order (post-order when `shouldTraversePostOrder()`), stops at the first that returns
`false`, and returns `true` exactly when none did. -/
theorem traverseExpr_eq_allM : ∀ e : Option (Expr K),
    traverseExpr v e = List.allM v.visit (Expr.enumerateOption v.postOrder e)
  | none => rfl
  | some e => traverseNode_eq v e

/-! ## The calls a visitor sees -/

/-- A visitor whose hook records the node it is called on and answers `p` there. -/
def Visitor.recording (postOrder : Bool) (p : Expr K → Bool) :
    Visitor (StateM (List (Expr K))) K where
  postOrder := postOrder
  visit e := do
    modify (· ++ [e])
    pure (p e)

@[simp] theorem Visitor.recording_visit (postOrder : Bool) (p : Expr K → Bool) (e : Expr K) :
    (Visitor.recording postOrder p).visit e = (modify (· ++ [e]) >>= fun _ => pure (p e)) :=
  rfl

/-- Over a list, the recording hook is called on the nodes up to and including the first
that fails `p`, and the result is whether all pass. -/
theorem allM_recording (postOrder : Bool) (p : Expr K → Bool) (l log : List (Expr K)) :
    (List.allM (Visitor.recording postOrder p).visit l).run log =
      (l.all p, log ++ (l.takeWhile p ++ (l.dropWhile p).take 1)) := by
  induction l generalizing log with
  | nil => simp [List.allM]
  | cons e l ih =>
      cases hp : p e
      · simp [List.allM, hp]
      · simp [List.allM, hp, ih]

end Traverse

/-- For every derived visitor with a constant `shouldTraversePostOrder()`, whatever the
effects of its hooks, `traverseExpr` calls the hook on the nodes of the pre-order list
(post-order list) in turn, up to the first whose hook returns `false`, and returns whether
none did; a visitor that records its calls records exactly that prefix. -/
theorem traverseExpr_visits (K : Type) :
    (∀ (m : Type → Type) [Monad m] [LawfulMonad m] (v : Visitor m K) (e : Option (Expr K)),
      traverseExpr v e = List.allM v.visit (Expr.enumerateOption v.postOrder e)) ∧
    ∀ (postOrder : Bool) (p : Expr K → Bool) (e : Option (Expr K)),
      (traverseExpr (Visitor.recording postOrder p) e).run [] =
        ((Expr.enumerateOption postOrder e).all p,
          (Expr.enumerateOption postOrder e).takeWhile p ++
            ((Expr.enumerateOption postOrder e).dropWhile p).take 1) :=
  ⟨fun _ _ _ v e => traverseExpr_eq_allM v e, fun postOrder p e => by
    rw [traverseExpr_eq_allM, allM_recording]
    rfl⟩

/-- A node with an error child, a null child and a second error child, in pre-order under a
recording visitor that stops at errors: the hook sees the node and the first error only. -/
theorem traverseExpr_visits_stop :
    (traverseExpr (Visitor.recording false fun e => match e with | .error _ => false | _ => true)
      (some (.node 0 [some (.error 1), none, some (.error 2)]))).run [] =
      (false, [.node 0 [some (.error 1), none, some (.error 2)], .error 1]) := by
  rw [(traverseExpr_visits Nat).1]
  rfl

/-! ## The two traversal modes -/

section Modes

variable {K : Type}

mutual

theorem enumerate_perm : ∀ e : Expr K, (e.enumerate true).Perm (e.enumerate false)
  | .node d cs => by
      simp only [Expr.enumerate, if_true, Bool.false_eq_true, if_false]
      exact (List.perm_append_singleton _ _).trans ((enumerateChildren_perm cs).cons _)
  | .error _ => List.Perm.refl _

theorem enumerateChildren_perm : ∀ cs : List (Option (Expr K)),
    (Expr.enumerateChildren true cs).Perm (Expr.enumerateChildren false cs)
  | [] => List.Perm.refl _
  | none :: cs => by
      simpa [Expr.enumerateChildren, Expr.enumerateOption] using enumerateChildren_perm cs
  | some e :: cs => by
      simp only [Expr.enumerateChildren, Expr.enumerateOption]
      exact (enumerate_perm e).append (enumerateChildren_perm cs)

end

end Modes

end Nixd
