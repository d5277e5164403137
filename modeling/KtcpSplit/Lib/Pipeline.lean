import Mathlib.Data.List.Basic

/-!
# Stages in a row

A stage takes elements in and gives them away in order, and what it gives away
travels to the next stage.  Whatever the stages do in between, nothing is lost:
what the first one took is what the last one gave away, followed by what is still
on the way, the elements that went furthest first.
-/

namespace KtcpSplit.Pipeline

variable {α : Type*}

structure Stage (α : Type*) where
  taken : List α
  given : List α

namespace Stage

/-- What was taken and not given away. -/
def held (stage : Stage α) : List α := stage.taken.drop stage.given.length

/-- What was given away is the front of what was taken. -/
def Ordered (stage : Stage α) : Prop := stage.given <+: stage.taken

theorem Ordered.given_append_held {stage : Stage α} (hordered : stage.Ordered) :
    stage.given ++ stage.held = stage.taken := by
  obtain ⟨rest, hrest⟩ := hordered
  rw [held, ← hrest, List.drop_left]

end Stage

/-- The stages, and what is between a stage and the next. -/
structure Line (α : Type*) where
  stage : ℕ → Stage α
  link : ℕ → List α

namespace Line

variable (line : Line α)

/-- The first `n` stages give away in order, and what one gave away is what the
next one took, followed by what is between them. -/
structure Ordered (n : ℕ) : Prop where
  stage : ∀ i < n, (line.stage i).Ordered
  link : ∀ i, i + 1 < n → (line.stage i).given = (line.stage (i + 1)).taken ++ line.link i

/-- What the stages from `i` on hold and what is between them, for `k` stages more. -/
def between (i : ℕ) : ℕ → List α
  | 0 => (line.stage i).held
  | k + 1 => (line.stage (i + k + 1)).held ++ (line.link (i + k) ++ between i k)

variable {line} {n i k : ℕ}

/-- Everything that was taken was given away behind or is on the way there. -/
theorem Ordered.taken_eq (hordered : line.Ordered n) (hlt : i + k < n) :
    (line.stage i).taken = (line.stage (i + k)).given ++ line.between i k := by
  induction k with
  | zero => exact ((hordered.stage i hlt).given_append_held).symm
  | succ k ih =>
      have hnext : (line.stage (i + k + 1)).Ordered := hordered.stage (i + k + 1) hlt
      calc
        (line.stage i).taken = (line.stage (i + k)).given ++ line.between i k :=
          ih (by omega)
        _ = (line.stage (i + k + 1)).taken ++ line.link (i + k) ++ line.between i k := by
          rw [hordered.link (i + k) hlt]
        _ = (line.stage (i + (k + 1))).given ++ line.between i (k + 1) := by
          rw [← hnext.given_append_held, between]
          simp only [List.append_assoc, Nat.add_assoc]

/-- Nothing is on the way when no stage and no link holds anything. -/
theorem between_eq_nil (hheld : ∀ j, i ≤ j → j ≤ i + k → (line.stage j).held = [])
    (hlink : ∀ j, i ≤ j → j < i + k → line.link j = []) : line.between i k = [] := by
  induction k with
  | zero => exact hheld i (Nat.le_refl _) (Nat.le_refl _)
  | succ k ih =>
      rw [between, hheld (i + k + 1) (by omega) (by omega), hlink (i + k) (by omega) (by omega),
        ih (fun j hle hle' => hheld j hle (by omega)) fun j hle hlt => hlink j hle (by omega)]
      rfl

end Line

end KtcpSplit.Pipeline
