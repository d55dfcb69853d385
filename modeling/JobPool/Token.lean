/-
JobPool.Token — signals that ask work to stop.

A pool has one root token and hands out children of it: one for each loop of a
worker, one for each stretch of upkeep, one for each attempt. Cancelling a child
concerns that child alone; cancelling the root cancels every child, those handed
out later included. Nothing takes a cancellation back.
-/

namespace JobPool

/-- The number of a child token, in the order of handing out. -/
abbrev TokenId := Nat

/-- A root token and its children. -/
structure Tokens where
  /-- True once the root is cancelled. -/
  root : Bool := false
  /-- For each child, whether it was cancelled itself. -/
  children : List Bool := []
  deriving DecidableEq, Repr, Inhabited

namespace Tokens

/-- Hands out a new child. -/
def child (t : Tokens) : TokenId × Tokens :=
  (t.children.length, { t with children := t.children ++ [false] })

/-- Cancels one child. -/
def cancel (t : Tokens) (i : TokenId) : Tokens :=
  { t with children := t.children.set i true }

/-- Cancels the root. -/
def cancelRoot (t : Tokens) : Tokens := { t with root := true }

/-- True if the child or the root is cancelled. -/
def isCancelled (t : Tokens) (i : TokenId) : Bool := t.root || (t.children[i]?).getD false

theorem isCancelled_child (t : Tokens) : t.child.2.isCancelled t.child.1 = t.root := by
  simp [child, isCancelled]

theorem isCancelled_child_of_lt (t : Tokens) {i : TokenId} (h : i < t.children.length) :
    t.child.2.isCancelled i = t.isCancelled i := by
  simp [child, isCancelled, List.getElem?_append_left h]

theorem isCancelled_cancel (t : Tokens) {i : TokenId} (h : i < t.children.length) :
    (t.cancel i).isCancelled i = true := by
  simp [cancel, isCancelled, h]

theorem isCancelled_cancel_of_ne (t : Tokens) {i j : TokenId} (h : i ≠ j) :
    (t.cancel i).isCancelled j = t.isCancelled j := by
  simp [cancel, isCancelled, h]

@[simp] theorem isCancelled_cancelRoot (t : Tokens) (i : TokenId) :
    t.cancelRoot.isCancelled i = true := rfl

end Tokens
end JobPool
