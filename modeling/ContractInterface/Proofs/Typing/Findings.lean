import ContractInterface.Contract.Typing

/-!
# Findings

A checker that takes down what was found keeps its tables and the issues it had.  Behind these come
the issues up to the first obstacle:

    Unhindered fs → c.note (fs ++ gs) = (c.withIssues (issuesOf fs)).note gs          (note_append)
-/

namespace ContractInterface

/-- The issue that was found, if it is one. -/
def Finding.issue? : Finding → Option Issue
  | .issue i => some i
  | .obstacle _ => none

namespace Checker

variable {fs gs : List Finding}

/-! ## Issues -/

/-- The issues among what was found. -/
def issuesOf (fs : List Finding) : List Issue := fs.filterMap Finding.issue?

@[simp] theorem issuesOf_nil : issuesOf [] = [] := rfl

@[simp] theorem issuesOf_cons_issue (i : Issue) :
    issuesOf (.issue i :: fs) = i :: issuesOf fs := rfl

@[simp] theorem issuesOf_cons_obstacle (e : CheckError) :
    issuesOf (.obstacle e :: fs) = issuesOf fs := rfl

@[simp] theorem issuesOf_append : issuesOf (fs ++ gs) = issuesOf fs ++ issuesOf gs :=
  List.filterMap_append

@[simp] theorem issuesOf_map_obstacle (es : List CheckError) :
    issuesOf (es.map .obstacle) = [] := by
  rw [issuesOf, List.filterMap_map]
  exact List.filterMap_eq_nil_iff.2 fun _ _ => rfl

theorem issuesOf_flatMap {α : Type} (f : α → List Finding) (xs : List α) :
    issuesOf (xs.flatMap f) = xs.flatMap fun x => issuesOf (f x) := by
  induction xs with
  | nil => rfl
  | cons x xs ih => rw [List.flatMap_cons, issuesOf_append, ih, List.flatMap_cons]

@[simp] theorem issuesOf_ite {p : Prop} [Decidable p] :
    issuesOf (if p then fs else gs) = if p then issuesOf fs else issuesOf gs :=
  apply_ite issuesOf p fs gs

/-! ## Obstacles -/

/-- Nothing that was found stops the checker. -/
def Unhindered (fs : List Finding) : Prop := ∀ e, Finding.obstacle e ∉ fs

@[simp] theorem unhindered_nil : Unhindered [] := fun _ => List.not_mem_nil

@[simp] theorem unhindered_cons_issue {i : Issue} :
    Unhindered (.issue i :: fs) ↔ Unhindered fs := by
  simp [Unhindered]

@[simp] theorem not_unhindered_cons_obstacle {e : CheckError} :
    ¬ Unhindered (.obstacle e :: fs) :=
  fun h => h e (by simp)

@[simp] theorem unhindered_append : Unhindered (fs ++ gs) ↔ Unhindered fs ∧ Unhindered gs := by
  simp [Unhindered, not_or, forall_and]

theorem unhindered_flatMap {α : Type} {f : α → List Finding} {xs : List α} :
    Unhindered (xs.flatMap f) ↔ ∀ x ∈ xs, Unhindered (f x) := by
  simp only [Unhindered, List.mem_flatMap, not_exists, not_and]
  exact forall_comm.trans (forall_congr' fun x => forall_comm)

theorem unhindered_ite {p : Prop} [Decidable p] (hfs : Unhindered fs) (hgs : Unhindered gs) :
    Unhindered (if p then fs else gs) := by
  split
  · exact hfs
  · exact hgs

/-! ## Taking down -/

def withIssues (c : Checker) (is : List Issue) : Checker :=
  ⟨c.contractNames, c.localTypes, c.issues ++ is⟩

theorem note_append (h : Unhindered fs) (gs : List Finding) (c : Checker) :
    c.note (fs ++ gs) = (c.withIssues (issuesOf fs)).note gs := by
  induction fs generalizing c with
  | nil => rw [List.nil_append, withIssues, issuesOf_nil, List.append_nil]
  | cons f fs ih =>
    cases f with
    | issue i =>
      rw [List.cons_append, note, ih (unhindered_cons_issue.1 h), withIssues, withIssues,
        issuesOf_cons_issue, List.append_assoc]
      rfl
    | obstacle e => exact absurd h not_unhindered_cons_obstacle

theorem note_of_unhindered (h : Unhindered fs) (c : Checker) :
    c.note fs = (none, c.withIssues (issuesOf fs)) := by
  have hfs := note_append h [] c
  rwa [List.append_nil] at hfs

end Checker

end ContractInterface
