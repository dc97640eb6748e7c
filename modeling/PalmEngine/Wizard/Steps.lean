import PalmEngine.BehaviorTree.Resume

/-!
# The steps of a wizard

A wizard is a sequence of steps: phases, and branches that choose between two sequences of steps.
A summary and a commit step are added at the end if the wizard includes them and has no step under
their slugs. The slugs of the steps are distinct.

What a phase shows, validates or runs is not part of a step here.
-/

namespace PalmEngine.Wizard

open PalmEngine.BehaviorTree

/-- A field of the items of a collection. -/
structure CollectionFieldConfig where
  slug : String
  required : Bool := true
  deriving DecidableEq, Repr

/-- What a collection step collects. -/
structure CollectionConfig where
  collectionKey : String
  itemFields : List CollectionFieldConfig
  minItems : ℕ := 1
  deriving DecidableEq, Repr

/-- The kinds of the steps other than branches. A transform may run in the scope of its step. -/
inductive PhaseKind where
  | input
  | introduction
  | summary
  | commit
  | resource
  | workload
  | collection (config : CollectionConfig)
  | transform (inScope : Bool)
  deriving DecidableEq, Repr

/-- Whether a kind of step is never gone back to. -/
def PhaseKind.isProtected : PhaseKind → Bool
  | introduction | summary | commit => true
  | _ => false

/-- A step: a phase, or a branch with its two arms; it may refuse to be gone back to. -/
inductive WizardStep where
  | phase (slug : String) (kind : PhaseKind) (refusesBacktrack : Bool)
  | branch (slug : String) (refusesBacktrack : Bool) (n : ℕ) (thenSteps : Fin n → WizardStep) (m : ℕ)
      (elseSteps : Fin m → WizardStep)

/-- A leaf of the tree of a wizard: the condition of a branch, or a phase with the index of the step
of the wizard that it is or is nested in. -/
inductive WizardLeaf where
  | condition (slug : String)
  | phase (slug : String) (stepIndex : ℕ) (kind : PhaseKind)
  deriving DecidableEq, Repr

/-- The slug of the step of a leaf. -/
def WizardLeaf.slug : WizardLeaf → String
  | condition slug => slug
  | phase slug _ _ => slug

namespace WizardStep

/-- The slug of a step. -/
def slug : WizardStep → String
  | phase slug _ _ => slug
  | branch slug _ _ _ _ _ => slug

/-- Whether a step is never gone back to. -/
def isProtected : WizardStep → Bool
  | phase _ kind refusesBacktrack => kind.isProtected || refusesBacktrack
  | branch _ refusesBacktrack _ _ _ _ => refusesBacktrack

/-- The slugs of a step and of the steps that are nested in it. -/
def allSlugs : WizardStep → List String
  | phase slug _ _ => [slug]
  | branch slug _ _ thenSteps _ elseSteps =>
    slug :: ((List.ofFn fun i => (thenSteps i).allSlugs).flatten ++
      (List.ofFn fun j => (elseSteps j).allSlugs).flatten)

/-- The tree of a step at an index: a branch tries the condition and the then-steps, and the
else-steps if these fail. -/
def tree (stepIndex : ℕ) : WizardStep → Node WizardLeaf
  | phase slug kind _ => .leafNode (.phase slug stepIndex kind)
  | branch slug _ n thenSteps m elseSteps =>
    .selectorNode 2
      ![.sequenceNode (n + 1)
          (Fin.cons (.leafNode (.condition slug)) fun i => (thenSteps i).tree stepIndex),
        .sequenceNode m fun j => (elseSteps j).tree stepIndex]

/-- The leaves of the tree of a step. -/
def leaves (stepIndex : ℕ) : WizardStep → List WizardLeaf
  | phase slug kind _ => [.phase slug stepIndex kind]
  | branch slug _ _ thenSteps _ elseSteps =>
    .condition slug :: ((List.ofFn fun i => (thenSteps i).leaves stepIndex).flatten ++
      (List.ofFn fun j => (elseSteps j).leaves stepIndex).flatten)

end WizardStep

/-- A wizard without its checks. -/
structure WizardOptions where
  steps : List WizardStep
  allowBacktrack : Bool := true
  introductionSlug : Option String := none
  includeSummary : Bool := false
  includeCommit : Bool := false
  summarySlug : String := "summary"
  commitSlug : String := "commit"

namespace WizardOptions

variable (c : WizardOptions)

/-- Whether one of the steps has a slug. -/
def hasSlug (steps : List WizardStep) (slug : String) : Bool :=
  steps.any fun step => step.slug = slug

/-- The steps with the summary and the commit step that are added. -/
def iterTreeSteps : List WizardStep :=
  let items := if c.includeSummary && !hasSlug c.steps c.summarySlug then
    c.steps ++ [.phase c.summarySlug .summary true] else c.steps
  if c.includeCommit && !hasSlug items c.commitSlug then
    items ++ [.phase c.commitSlug .commit true] else items

/-- The slugs that are never gone back to. -/
def protectedSlugs : List String :=
  c.introductionSlug.toList ++ (if c.includeSummary then [c.summarySlug] else []) ++
    (if c.includeCommit then [c.commitSlug] else []) ++
    (c.iterTreeSteps.filter WizardStep.isProtected).map WizardStep.slug

/-- The index of the step with a slug. -/
def indexOf (slug : String) : Option ℕ := c.iterTreeSteps.findIdx? fun step => step.slug = slug

/-- Whether the step with a slug may be gone back to. -/
def canBacktrackTo (slug : String) : Bool := c.allowBacktrack && slug ∉ c.protectedSlugs

end WizardOptions

/-- A wizard: it has steps, and their slugs are distinct. -/
structure WizardConfig extends WizardOptions where
  steps_ne_nil : steps ≠ []
  nodup_slugs : (toWizardOptions.iterTreeSteps.flatMap WizardStep.allSlugs).Nodup

namespace WizardConfig

variable (c : WizardConfig)

/-- How many steps the sequence has. -/
abbrev count : ℕ := c.iterTreeSteps.length

/-- The tree of a step of the sequence. -/
def stepTree (i : Fin c.count) : Node WizardLeaf := (c.iterTreeSteps.get i).tree i

/-- The leaves of all steps. -/
def leaves : List WizardLeaf :=
  (List.ofFn fun i : Fin c.count => (c.iterTreeSteps.get i).leaves i).flatten

end WizardConfig

/-- The tree of a step has its leaves. -/
theorem WizardStep.sequential_tree (stepIndex : ℕ) (step : WizardStep) :
    (step.tree stepIndex).Sequential (· ∈ step.leaves stepIndex) := by
  induction step with
  | phase slug kind refusesBacktrack => exact List.mem_singleton_self _
  | branch slug refusesBacktrack n thenSteps m elseSteps ihThen ihElse =>
    have hthen : ∀ i leaf, leaf ∈ (thenSteps i).leaves stepIndex →
        leaf ∈ (branch slug refusesBacktrack n thenSteps m elseSteps).leaves stepIndex := by
      intro i leaf hleaf
      refine List.mem_cons_of_mem _ (List.mem_append_left _ ?_)
      exact List.mem_flatten_of_mem (List.mem_ofFn.mpr ⟨i, rfl⟩) hleaf
    have helse : ∀ j leaf, leaf ∈ (elseSteps j).leaves stepIndex →
        leaf ∈ (branch slug refusesBacktrack n thenSteps m elseSteps).leaves stepIndex := by
      intro j leaf hleaf
      refine List.mem_cons_of_mem _ (List.mem_append_right _ ?_)
      exact List.mem_flatten_of_mem (List.mem_ofFn.mpr ⟨j, rfl⟩) hleaf
    intro arm
    refine Fin.cases ?_ (fun arm => ?_) arm
    · intro i
      refine Fin.cases ?_ (fun i => ?_) i
      · exact List.mem_cons_self
      · exact (ihThen i).mono (hthen i)
    · rw [Subsingleton.elim arm 0]
      intro j
      exact (ihElse j).mono (helse j)

/-- The tree of a step of a wizard has leaves of the wizard. -/
theorem WizardConfig.sequential_stepTree (c : WizardConfig) (i : Fin c.count) :
    (c.stepTree i).Sequential (· ∈ c.leaves) :=
  ((c.iterTreeSteps.get i).sequential_tree i).mono fun _ hleaf =>
    List.mem_flatten_of_mem (List.mem_ofFn.mpr ⟨i, rfl⟩) hleaf

end PalmEngine.Wizard
