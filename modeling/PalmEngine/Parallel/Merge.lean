import PalmEngine.Parallel.Pattern

/-!
# Merging the results of all branches

The results are stored by the slugs of the branches, which are distinct, and merged in the order in
which the branches are configured, so the order in which they completed does not matter. The merged
result has them by their output keys: of several branches with one output key it has the last only.
-/

namespace PalmEngine.Parallel

open PalmEngine.Context

variable {n : ℕ} {σ : Type}

/-- The result of a branch that has succeeded. -/
structure BranchSuccess where
  payload : List (String × Value)
  success : (valueOf? "status" payload).bind Value.asStr = some "success"

namespace ParallelPattern

variable (p : ParallelPattern n σ)

/-- The parent state after the branches have completed in an order. -/
def recordAll (outcomes : Fin n → BranchSuccess) (state : BlackboardState)
    (order : List (Fin n)) : BlackboardState :=
  order.foldl (fun s i => recordBranchResult s (p.slug i) (outcomes i).payload) state

/-- All branches have completed, each once. -/
def Completions (order : List (Fin n)) : Prop := order.Perm (List.finRange n)

/-- A merged result has the result of every branch under its output key. -/
def HasEach (outcomes : Fin n → BranchSuccess) (merged : List (String × Value)) : Prop :=
  ∀ i, valueOf? (p.config.branches i).outputKey merged = some (branchValue (outcomes i).payload)

variable {p}

/-- A recorded result is stored under the slug of its branch. -/
theorem getBranchResults_record (state : BlackboardState) (branchSlug : String)
    (result : List (String × Value)) :
    getBranchResults (recordBranchResult state branchSlug result) =
      setEntry branchSlug (.dict result) (getBranchResults state) := by
  rw [getBranchResults, recordBranchResult]
  simp [BlackboardState.get, BlackboardState.set, Value.asDict]

/-- A result stays while the results of other branches are recorded. -/
theorem valueOf?_recordAll_of_not_mem (outcomes : Fin n → BranchSuccess) (state : BlackboardState)
    {order : List (Fin n)} {i : Fin n} (hi : i ∉ order) :
    valueOf? (p.slug i) (getBranchResults (p.recordAll outcomes state order)) =
      valueOf? (p.slug i) (getBranchResults state) := by
  induction order generalizing state with
  | nil => rfl
  | cons j order ih =>
    rw [List.mem_cons, not_or] at hi
    have hslug : p.slug i ≠ p.slug j := fun heq => hi.1 (p.toBranches.slug_injective heq)
    rw [recordAll, List.foldl_cons, ← recordAll, ih _ hi.2, getBranchResults_record,
      valueOf?_setEntry_ne _ _ hslug]

/-- The result of a branch that has completed is its own. -/
theorem valueOf?_recordAll (outcomes : Fin n → BranchSuccess) (state : BlackboardState)
    {order : List (Fin n)} {i : Fin n} (hi : i ∈ order) :
    valueOf? (p.slug i) (getBranchResults (p.recordAll outcomes state order)) =
      some (.dict (outcomes i).payload) := by
  induction order generalizing state with
  | nil => cases hi
  | cons j order ih =>
    rw [recordAll, List.foldl_cons, ← recordAll]
    by_cases hrest : i ∈ order
    · exact ih _ hrest
    · obtain rfl : i = j := (List.mem_cons.mp hi).resolve_right hrest
      rw [valueOf?_recordAll_of_not_mem outcomes _ hrest, getBranchResults_record,
        valueOf?_setEntry_self]

/-- Every branch that has completed has succeeded. -/
theorem succeeded_recordAll (outcomes : Fin n → BranchSuccess) (state : BlackboardState)
    {order : List (Fin n)} {i : Fin n} (hi : i ∈ order) :
    succeeded (getBranchResults (p.recordAll outcomes state order)) (p.slug i) =
      some (outcomes i).payload := by
  rw [succeeded, valueOf?_recordAll outcomes state hi]
  exact Option.filter_eq_some_iff.mpr ⟨rfl, decide_eq_true (outcomes i).success⟩

/-- The results of some branches by their output keys. -/
def mergedOf (p : ParallelPattern n σ) (outcomes : Fin n → BranchSuccess) (branches : List (Fin n))
    (merged : List (String × Value)) : List (String × Value) :=
  branches.foldl (fun merged i =>
    setEntry (p.config.branches i).outputKey (branchValue (outcomes i).payload) merged) merged

/-- Once all branches have completed, their results are merged, whatever the order was. -/
theorem mergeAll_recordAll (outcomes : Fin n → BranchSuccess) (state : BlackboardState)
    {order : List (Fin n)} (horder : Completions order) :
    p.mergeAll (getBranchResults (p.recordAll outcomes state order)) =
      some (p.mergedOf outcomes (List.finRange n) []) := by
  have hloop : ∀ (branches : List (Fin n)) (merged : List (String × Value)),
      branches.foldlM (fun merged i =>
        (succeeded (getBranchResults (p.recordAll outcomes state order)) (p.slug i)).map
          fun payload => setEntry (p.config.branches i).outputKey (branchValue payload) merged)
        merged = some (p.mergedOf outcomes branches merged) := by
    intro branches
    induction branches with
    | nil => exact fun _ => rfl
    | cons i branches ih =>
      intro merged
      have hi : i ∈ order := horder.symm.subset (List.mem_finRange i)
      rw [List.foldlM_cons, succeeded_recordAll outcomes state hi]
      exact ih _
  exact hloop _ _

/-- Under a key the merged result has the result of the last branch with it. -/
theorem valueOf?_mergedOf (outcomes : Fin n → BranchSuccess) (branches : List (Fin n))
    (merged : List (String × Value)) (k : String) :
    valueOf? k (p.mergedOf outcomes branches merged) =
      ((branches.reverse.find? fun i => (p.config.branches i).outputKey = k).map fun i =>
        branchValue (outcomes i).payload).or (valueOf? k merged) := by
  induction branches generalizing merged with
  | nil => rfl
  | cons i branches ih =>
    rw [mergedOf, List.foldl_cons, ← mergedOf, ih, List.reverse_cons, List.find?_append]
    cases branches.reverse.find? fun i => (p.config.branches i).outputKey = k with
    | some j => rfl
    | none =>
      by_cases hi : (p.config.branches i).outputKey = k
      · simp [hi]
      · simp [hi, valueOf?_setEntry_ne _ _ (Ne.symm hi)]

/-- The merged result has the result of every branch exactly if branches with one output key have one
result. -/
theorem hasEach_mergedOf_iff (outcomes : Fin n → BranchSuccess) :
    p.HasEach outcomes (p.mergedOf outcomes (List.finRange n) []) ↔
      ∀ i j, (p.config.branches i).outputKey = (p.config.branches j).outputKey →
        branchValue (outcomes i).payload = branchValue (outcomes j).payload := by
  constructor
  · intro h i j hkey
    have hi := h i
    rw [hkey, h j] at hi
    exact (Option.some.inj hi).symm
  · intro h i
    rw [valueOf?_mergedOf]
    cases hfind : (List.finRange n).reverse.find? fun j =>
        (p.config.branches j).outputKey = (p.config.branches i).outputKey with
    | none =>
      have hi := List.find?_eq_none.mp hfind i (by simp)
      exact absurd (decide_eq_true rfl) hi
    | some j =>
      have hkey := List.find?_some hfind
      rw [h i j (of_decide_eq_true hkey).symm]
      rfl

/-- When all branches have succeeded, the merged result is the same for every order in which they
completed; and it has the result of every branch exactly if branches with one output key have one
result. -/
theorem mergeAll_hasEach_iff (p : ParallelPattern n σ) (outcomes : Fin n → BranchSuccess)
    (state : BlackboardState) : ∃ merged,
      (∀ order, Completions order →
        p.mergeAll (getBranchResults (p.recordAll outcomes state order)) = some merged) ∧
      (p.HasEach outcomes merged ↔
        ∀ i j, (p.config.branches i).outputKey = (p.config.branches j).outputKey →
          branchValue (outcomes i).payload = branchValue (outcomes j).payload) :=
  ⟨p.mergedOf outcomes (List.finRange n) [],
    fun _ horder => mergeAll_recordAll outcomes state horder, hasEach_mergedOf_iff outcomes⟩

/-- Two branches of which the second has the slug of the first as its result key. -/
def oneOutputKey : ParallelPattern 2 Unit where
  config := {
    branches := ![⟨"a", none, none, by decide⟩, ⟨"b", none, some "a", by decide⟩]
    nonempty := Nat.two_pos
    slugs_injective := by decide }
  executables _ := { name := "flow", tick := fun held state => (.success, { held, state }) }
  validateState _ _ := true
  validateKey _ _ _ := true
  otherTruthy _ := true

/-- A branch that has succeeded with a value. -/
def successWith (v : Value) : BranchSuccess := ⟨[("status", .str "success"), ("value", v)], rfl⟩

/-- The result of the first of two branches with one output key is lost. -/
theorem mergeAll_hasEach_fails : ¬∀ (outcomes : Fin 2 → BranchSuccess) (order : List (Fin 2)),
    Completions order → ∀ merged,
      oneOutputKey.mergeAll (getBranchResults (oneOutputKey.recordAll outcomes {} order)) =
        some merged → oneOutputKey.HasEach outcomes merged := by
  intro h
  have horder : Completions (List.finRange 2) := List.Perm.refl _
  have hall := h (fun i => successWith (.int i)) (List.finRange 2) horder _
    (mergeAll_recordAll _ _ horder)
  have hsame := (hasEach_mergedOf_iff _).mp hall 0 1 rfl
  have hvalue : Value.int 0 = .int 1 := hsame
  cases hvalue

end ParallelPattern

end PalmEngine.Parallel
