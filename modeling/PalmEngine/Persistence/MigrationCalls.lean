import PalmEngine.Persistence.InstanceCalls
import PalmEngine.Persistence.InstanceMigration

/-!
# Migrations next to running jobs

A migration gets its instance from the manager, saves it with the intent to migrate, writes the
new state, the revision and the definition into it and saves it again. The hooks of a job get the
instance too and write into it what the job holds. Each reads or writes one field of an object at
once, and the calls of the manager take the steps they have in the instance store, so the
processes can come between any two of these.

A job runs the definition that its executable was built from for as long as it is there. What it
writes after a migration was produced by the older definition, and a migration leaves the step and
the position that the older definition produced. As long as neither happens, no stored instance
combines a revision with what an older definition has produced.
-/

namespace PalmEngine.Persistence

open PalmEngine.Lib

variable {σ π : Type}

/-- A running job as its hooks see it: the definition it runs, whether its metadata carries that
definition, its state, the step and the position its pattern names, and its status. -/
structure LiveJob (σ π : Type) where
  definition : FlowDefinition
  embedded : Bool
  state : σ
  step : Option String
  position : Option π
  status : String
  metadata : Dict String MetadataValue

namespace LiveJob

variable (job : LiveJob σ π)

/-- The revision of the definition that a job runs. -/
def revision : ℕ := job.definition.revision.getD 1

/-- What a job holds is the product of its execution. -/
def produced {α : Type} (value : α) : Produced α := ⟨value, some job.revision⟩

/-- `build_instance_from_job`: a new instance for a job. -/
def buildInstance (i : String) : ProcessInstance σ π where
  instanceId := i
  status := job.status
  stateSnapshot := job.produced job.state
  definitionRevision := job.definition.revision
  flowId := some job.definition.definitionId
  flowRevision := job.definition.revision
  flowName := some job.definition.name
  metadata := job.metadata
  currentStepSlug := job.step.map job.produced
  runtimePosition := job.position.map job.produced

/-- `update_instance_from_job`: the writes to the fields of an instance. -/
def writes : List (FieldWrite σ π) :=
  [.stateSnapshot (job.produced job.state), .jobMetadata job.metadata,
    .currentStepSlug (job.step.map job.produced),
    .runtimePosition (job.position.map job.produced), .status job.status]

end LiveJob

/-- A migration as it is asked for, with what the definition repository has for the flow of the
instance at the target revision. -/
structure MigrationRequest where
  instanceId : String
  target : ℕ
  dryRun : Bool
  found : Option FlowDefinition

/-- A migration that its rule allows. -/
structure MigrationPlan (σ : Type) where
  request : MigrationRequest
  flowId : String
  fromRevision : ℕ
  flow : FlowDefinition
  migrated : σ

/-- What is done to instances. -/
inductive InstanceTask (σ π : Type) where
  | migrate (request : MigrationRequest)
  | jobStatusChanged (i : String) (job : LiveJob σ π)
  | appendStateSnapshot (i : String)
  | get (i : String)
  | save (o : ℕ)
  | delete (i : String)

/-- What follows a call of the manager. -/
inductive AfterCall (σ π : Type) where
  /-- Nothing follows. -/
  | done
  /-- A migration goes on with the instance it has got. -/
  | check (request : MigrationRequest)
  /-- A hook updates the instance it has got, or creates one. -/
  | ensure (i : String) (job : LiveJob σ π)
  /-- An update writes the fields of the object that it finds; a hook creates one if there is
  none. -/
  | update (i : String) (job : LiveJob σ π)
  /-- A state snapshot is attached to the object that is found. -/
  | snapshot
  /-- A migration that has saved its intent is applied to the object. -/
  | apply (o : ℕ) (plan : MigrationPlan σ)
  /-- A migration that was not allowed returns. -/
  | fail (result : MigrationResult σ)
  /-- A migration returns that was applied. -/
  | succeed (o : ℕ) (plan : MigrationPlan σ)

/-- A task at one of its steps. -/
inductive MigrationProc (σ π : Type) where
  | start (task : InstanceTask σ π)
  /-- It is within a call of the manager. -/
  | calling (p : InstanceProc (ProcessInstance σ π)) (next : AfterCall σ π)
  /-- A migration is about to read the flow and the revision of its object. -/
  | checking (o : ℕ) (request : MigrationRequest)
  /-- A migration is about to read the state and to ask the rule. -/
  | planning (o : ℕ) (request : MigrationRequest) (flowId : String) (fromRevision : ℕ)
    (flow : FlowDefinition)
  /-- A migration is about to note its intent. -/
  | requesting (o : ℕ) (plan : MigrationPlan σ)
  /-- It is about to write fields of an object, to save it then. -/
  | writing (o : ℕ) (writes : List (FieldWrite σ π)) (next : AfterCall σ π)
  /-- An update is about to write fields of an object. -/
  | updating (i : String) (o : ℕ) (writes : List (FieldWrite σ π))
  | raised (error : MigrationError)
  | returned (result : Option (MigrationResult σ))

/-- The instances, and the history of the migrations that were applied: to which instance, and
the revision. -/
structure MigrationStore (σ π : Type) where
  store : InstanceStore (ProcessInstance σ π)
  applied : List (String × ℕ) := []

namespace MigrationStore

variable (s : MigrationStore σ π)

/-- The content of an object. -/
def content (o : ℕ) : Option (ProcessInstance σ π) := (s.store.objects[o]?).map Prod.snd

/-- Write a field of an object. -/
def write (o : ℕ) (w : FieldWrite σ π) : MigrationStore σ π :=
  { s with store := { s.store with
      objects := s.store.objects.modify o (Prod.map id fun c => c.write w) } }

end MigrationStore

namespace MigrationProc

/-- A migration goes on if its source is valid and its target was found. -/
def check (o : ℕ) (request : MigrationRequest) (c : ProcessInstance σ π) : MigrationProc σ π :=
  match c.migrationSource request.target with
  | .error error => raised error
  | .ok (flowId, fromRevision) =>
    match request.found with
    | none => raised (.targetNotFound request.instanceId request.target flowId)
    | some flow => planning o request flowId fromRevision flow

/-- A migration goes on if its rule allows it; else it notes that it has failed. Nothing is written
by a dry run. -/
def plan (rules : MigrationRegistry σ) (o : ℕ) (request : MigrationRequest) (flowId : String)
    (fromRevision : ℕ) (flow : FlowDefinition) (c : ProcessInstance σ π) : MigrationProc σ π :=
  match rules.plan (c.migrationContext flowId fromRevision request.target) with
  | .error blockers =>
    let result := MigrationResult.blocked request.instanceId flowId fromRevision request.target
      request.dryRun blockers
    if request.dryRun then returned (some result)
    else writing o [.migration "failed" request.target fromRevision blockers] (.fail result)
  | .ok migrated =>
    if request.dryRun then
      returned (some (.preview request.instanceId flowId fromRevision request.target migrated))
    else requesting o ⟨request, flowId, fromRevision, flow, migrated⟩

/-- A migration notes its intent, and then that it is running. -/
def request (o : ℕ) (plan : MigrationPlan σ) (c : ProcessInstance σ π) : MigrationProc σ π :=
  match c.requestMigration plan.request.target with
  | .error error => raised error
  | .ok intent => writing o [intent, .migrationStatus "running"] (.apply o plan)

/-- A hook without an instance creates one if the job carries its definition. -/
def create (i : String) (job : LiveJob σ π) : MigrationProc σ π :=
  if job.embedded then calling (.start (.create i (job.buildInstance i))) .done else returned none

/-- What follows a call that has returned an object, or has raised or has none to return. -/
def resume (s : MigrationStore σ π) :
    AfterCall σ π → Option ℕ → MigrationStore σ π × MigrationProc σ π
  | .check request, some o => (s, checking o request)
  | .check request, none => (s, raised (.instanceNotFound request.instanceId))
  | .ensure i job, some _ => (s, calling (.start (.update i id)) (.update i job))
  | .ensure i job, none => (s, create i job)
  | .update i job, none => (s, create i job)
  | .apply o plan, _ =>
    (s, writing o (ProcessInstance.migrationWrites plan.request.target plan.flow plan.migrated)
      (.succeed o plan))
  | .fail result, _ => (s, returned (some result))
  | .succeed o plan, _ =>
    ({ s with applied := s.applied ++ [(plan.request.instanceId, plan.request.target)] },
      returned ((s.content o).map fun c => .succeeded plan.request.instanceId plan.flowId
        plan.fromRevision plan.request.target c.stateSnapshot.value))
  | .update _ _, some _ | .done, _ | .snapshot, _ => (s, returned none)

/-- What a call does that has found the object it is to change: an update writes its fields, a
snapshot leaves the fields and saves it. -/
def found (s : MigrationStore σ π) (i : String) (o : ℕ) :
    AfterCall σ π → MigrationStore σ π × MigrationProc σ π
  | .update _ job => (s, updating i o job.writes)
  | next =>
    let out := InstanceProc.beginSave s.store i o .save
    ({ s with store := out.1 }, calling out.2 next)

/-- The first step of a task: it calls the manager, an attached snapshot the repository. -/
def begin : InstanceTask σ π → MigrationProc σ π
  | .migrate request => calling (.start (.get request.instanceId)) (.check request)
  | .jobStatusChanged i job => calling (.start (.get i)) (.ensure i job)
  | .appendStateSnapshot i => calling (.lookup i (some id)) .snapshot
  | .get i => calling (.start (.get i)) .done
  | .save o => calling (.start (.save o)) .done
  | .delete i => calling (.start (.delete i)) .done

/-- The next step of a task. -/
def move (limits : InstanceLimits (ProcessInstance σ π)) (rules : MigrationRegistry σ)
    (s : MigrationStore σ π) :
    MigrationProc σ π → Option (MigrationStore σ π × MigrationProc σ π)
  | start task => some (s, begin task)
  | calling p next =>
    match p with
    | .returned o => some (resume s next o)
    | .change i o _ => some (found s i o next)
    | p => (p.move limits s.store).map fun out => ({ s with store := out.1 }, calling out.2 next)
  | checking o request => (s.content o).map fun c => (s, check o request c)
  | planning o request flowId fromRevision flow =>
    (s.content o).map fun c => (s, plan rules o request flowId fromRevision flow c)
  | requesting o plan => (s.content o).map fun c => (s, MigrationProc.request o plan c)
  | writing o [] next => some (s, calling (.start (.save o)) next)
  | writing o (w :: rest) next => some (s.write o w, writing o rest next)
  | updating i o [] => some (s, calling (.cacheObject i o) .done)
  | updating i o (w :: rest) => some (s.write o w, updating i o rest)
  | raised _ => none
  | returned _ => none

end MigrationProc

/-- Concurrent tasks on the instances. -/
abbrev MigrationPool (σ π : Type) := Pool (MigrationStore σ π) (MigrationProc σ π)

/-- A step of a task. -/
abbrev migrationStep (limits : InstanceLimits (ProcessInstance σ π))
    (rules : MigrationRegistry σ) : MigrationPool σ π → ℕ → Option (MigrationPool σ π) :=
  Pool.step (MigrationProc.move limits rules)

namespace ProcessInstance

variable (c : ProcessInstance σ π)

/-- The revisions of the definitions that have produced the state, the step and the position. -/
def producers : List ℕ :=
  c.stateSnapshot.producer.toList ++ (c.currentStepSlug.bind Produced.producer).toList ++
    (c.runtimePosition.bind Produced.producer).toList

/-- Nothing in an instance was produced by a definition that is older than its revision. -/
def Pinned : Prop := ∀ v ∈ c.flowRevision, ∀ k ∈ c.producers, v ≤ k

end ProcessInstance

/-- A content of an instance that is stored: its record, or an object in one of the caches. -/
def InstanceStore.Stored {ρ : Type} (s : InstanceStore ρ) (i : String) (c : ρ) : Prop :=
  s.records.get? i = some c ∨
    ∃ o, (s.cache.get? i = some o ∨ s.managerCache.get? i = some o) ∧
      (s.objects[o]?).map Prod.snd = some c

namespace FieldWrite

/-- The revisions of the definitions that have produced what is written. -/
def producers : FieldWrite σ π → List ℕ
  | .stateSnapshot state => state.producer.toList
  | .currentStepSlug step => (step.bind Produced.producer).toList
  | .runtimePosition position => (position.bind Produced.producer).toList
  | _ => []

/-- The revision that is written. -/
def revision : FieldWrite σ π → Option ℕ
  | .flowRevision revision => some revision
  | _ => none

/-- A state, a step or a position is written that was produced by a definition no older than the
revision of the instance, and a revision where nothing is left of an older definition. -/
def KeepsPin (w : FieldWrite σ π) (c : ProcessInstance σ π) : Prop :=
  (∀ v ∈ c.flowRevision, ∀ k ∈ w.producers, v ≤ k) ∧ ∀ v ∈ w.revision, ∀ k ∈ c.producers, v ≤ k

instance (w : FieldWrite σ π) (c : ProcessInstance σ π) : Decidable (w.KeepsPin c) :=
  inferInstanceAs (Decidable (_ ∧ _))

end FieldWrite

namespace MigrationPool

/-- A store that is just opened on a storage, and tasks that have not begun. -/
def start (records : Dict String (ProcessInstance σ π)) (index : Option (List String))
    (tasks : List (InstanceTask σ π)) : MigrationPool σ π :=
  ⟨⟨⟨records, index, [], .empty, .empty, [], [], []⟩, []⟩, tasks.map .start⟩

/-- Once a migration to a revision was applied, no stored content of its instance combines this
revision or a later one with what an older definition has produced. -/
def SurvivesJobs (pool : MigrationPool σ π) : Prop :=
  ∀ i r, (i, r) ∈ pool.shared.applied → ∀ c, pool.shared.store.Stored i c →
    ∀ v ∈ c.flowRevision, r ≤ v → ∀ k ∈ c.producers, r ≤ k

/-- The fields that a task is about to write. -/
def KeepsPins (pool : MigrationPool σ π) : MigrationProc σ π → Prop
  | .writing o (w :: _) _ | .updating _ o (w :: _) => ∀ c ∈ pool.shared.content o, w.KeepsPin c
  | _ => True

instance (pool : MigrationPool σ π) : (p : MigrationProc σ π) → Decidable (pool.KeepsPins p)
  | .writing o (w :: _) _ | .updating _ o (w :: _) =>
    inferInstanceAs (Decidable (∀ c ∈ pool.shared.content o, w.KeepsPin c))
  | .start _ | .calling _ _ | .checking _ _ | .planning _ _ _ _ _ | .requesting _ _
  | .writing _ [] _ | .updating _ _ [] | .raised _ | .returned _ => .isTrue trivial

end MigrationPool

/-- A property of contents that all objects and all records have. -/
structure InstanceStore.Holds {ρ : Type} (Q : ρ → Prop) (s : InstanceStore ρ) : Prop where
  objects : ∀ object ∈ s.objects, Q object.2
  records : ∀ i, ∀ c ∈ s.records.get? i, Q c

/-- A call brings no content without a property: neither a new one nor one it has loaded or is
going to change. -/
def InstanceProc.Carries {ρ : Type} (Q : ρ → Prop) : InstanceProc ρ → Prop
  | .start (.create _ c) => Q c
  | .start (.update _ f) => ∀ c, Q c → Q (f c)
  | .lookup _ f | .load _ f => ∀ g ∈ f, ∀ c, Q c → Q (g c)
  | .put _ c f => Q c ∧ ∀ g ∈ f, ∀ c, Q c → Q (g c)
  | .change _ _ f => ∀ c, Q c → Q (f c)
  | _ => True

section Holds

variable {ρ : Type} {Q : ρ → Prop} {limits : InstanceLimits ρ} {s s' : InstanceStore ρ}
  {p q : InstanceProc ρ}

/-- Only objects and records matter. -/
theorem InstanceStore.Holds.congr (h : s.Holds Q) (hobjects : s'.objects = s.objects)
    (hrecords : s'.records = s.records) : s'.Holds Q :=
  ⟨hobjects ▸ h.objects, hrecords ▸ h.records⟩

/-- A new object has it if its content has. -/
theorem InstanceStore.Holds.newObject (h : s.Holds Q) (i : String) {c : ρ} (hc : Q c) :
    (s.newObject i c).Holds Q := by
  refine ⟨fun object hobject => ?_, h.records⟩
  rcases List.mem_append.mp hobject with hobject | hobject
  · exact h.objects object hobject
  · rw [List.mem_singleton.mp hobject]
    exact hc

/-- A changed object has it if the change keeps it. -/
theorem InstanceStore.Holds.modify (h : s.Holds Q) (o : ℕ) {f : ρ → ρ}
    (hf : ∀ object ∈ s.objects[o]?, Q (f object.2)) :
    ({ s with objects := s.objects.modify o (Prod.map id f) } : InstanceStore ρ).Holds Q := by
  refine ⟨fun object hobject => ?_, h.records⟩
  obtain ⟨j, hj⟩ := List.mem_iff_getElem?.mp hobject
  rw [List.getElem?_modify] at hj
  split at hj
  · next heq =>
    obtain ⟨old, hold, rfl⟩ := Option.map_eq_some_iff.mp hj
    exact hf old (heq ▸ hold)
  · exact h.objects object (List.mem_of_getElem? (by simpa using hj))

/-- A found object is going to be changed as was asked for. -/
theorem InstanceProc.carries_found (i : String) (o : ℕ) {f : Option (ρ → ρ)}
    (hf : ∀ g ∈ f, ∀ c, Q c → Q (g c)) : (InstanceProc.found i o f).Carries Q := by
  cases f with
  | none => trivial
  | some g => exact hf g rfl

/-- The last step of a call leaves the objects. -/
theorem InstanceProc.finish_objects (limits : InstanceLimits ρ) (s : InstanceStore ρ) (i : String)
    (o : ℕ) (use : InstanceUse) : (finish limits s i o use).1.objects = s.objects := by
  cases use with
  | get | save => rfl
  | create =>
    simp only [finish]
    split <;> rfl
  | update =>
    simp only [finish, InstanceStore.afterUpdate]
    split
    · rfl
    · split <;> rfl

/-- The last step of a call makes no content without the property. -/
theorem InstanceStore.Holds.finish (hs : s.Holds Q) (i : String) (o : ℕ) (use : InstanceUse) :
    (InstanceProc.finish limits s i o use).1.Holds Q :=
  hs.congr (InstanceProc.finish_objects _ _ _ _ _) (InstanceProc.finish_records _ _ _ _ _)

/-- A stored object is a record with the property. -/
theorem InstanceStore.Holds.storeRecord (hs : s.Holds Q) (i : String) (o : ℕ) :
    ({ s with records := s.records.setSome i ((s.objects[o]?).map Prod.snd) } :
      InstanceStore ρ).Holds Q := by
  refine ⟨hs.objects, fun j c hc => ?_⟩
  by_cases hj : j = i
  · subst hj
    rw [Option.mem_def, Dict.get?_setSome_self] at hc
    cases hobject : s.objects[o]? with
    | none => exact hs.records j c (by simpa [hobject] using hc)
    | some object =>
      obtain rfl : object.2 = c := by simpa [hobject] using hc
      exact hs.objects object (List.mem_of_getElem? hobject)
  · rw [Option.mem_def, Dict.get?_setSome_ne _ _ hj] at hc
    exact hs.records j c hc

/-- A dropped record leaves the others. -/
theorem InstanceStore.Holds.dropRecord (hs : s.Holds Q) (i : String) :
    ({ s with records := s.records.erase i } : InstanceStore ρ).Holds Q := by
  refine ⟨hs.objects, fun j c hc => ?_⟩
  simp only [Dict.get?_erase, Option.mem_def] at hc
  split at hc
  · cases hc
  · exact hs.records j c hc

/-- The calls of the manager make no content without the property. -/
theorem InstanceProc.Moved.holds (h : Moved limits s p s' q) (hs : s.Holds Q) (hp : p.Carries Q)
    (hload : ∀ i c f, q = .put i c f → Q c) : s'.Holds Q ∧ q.Carries Q := by
  cases h with
  | create => exact ⟨(hs.newObject _ hp).congr rfl rfl, trivial⟩
  | update => exact ⟨hs, fun g hg => Option.some.inj hg ▸ hp⟩
  | miss => exact ⟨hs, fun g hg => by cases hg⟩
  | found => exact ⟨hs.congr rfl rfl, carries_found _ _ hp⟩
  | unfound => exact ⟨hs, hp⟩
  | loaded => exact ⟨hs, hload _ _ _ rfl, hp⟩
  | put => exact ⟨(hs.newObject _ hp.1).congr rfl rfl, carries_found _ _ hp.2⟩
  | change =>
    exact ⟨hs.modify _ fun object hobject => hp _ (hs.objects _ (List.mem_of_getElem? hobject)),
      trivial⟩
  | storeRecord => exact ⟨hs.storeRecord _ _, trivial⟩
  | dropRecord => exact ⟨hs.dropRecord _, trivial⟩
  | cachePut => exact ⟨hs.finish _ _ _, trivial⟩
  | cachePutSaved => exact ⟨(hs.finish _ _ _).congr rfl rfl, trivial⟩
  | _ => exact ⟨hs.congr rfl rfl, trivial⟩

/-- A content that is about to become an object was loaded from a record. -/
theorem InstanceProc.loaded_of_move {i : String} {c : ρ} {f : Option (ρ → ρ)}
    (h : p.move limits s = some (s', .put i c f)) : s.records.get? i = some c := by
  cases p with
  | load j g =>
    simp only [move] at h
    split at h
    · next content hcontent =>
      cases h
      exact hcontent
    · cases h
  | start call =>
    cases call with
    | get j =>
      simp only [move] at h
      split at h <;> cases h
    | create j content => cases h
    | update j g => cases h
    | save o =>
      obtain ⟨object, -, hsave⟩ := Option.map_eq_some_iff.mp h
      cases hsave
    | delete j => cases h
  | lookup j g =>
    simp only [move] at h
    split at h
    · cases g <;> cases h
    · cases h
  | put j content g => cases g <;> cases h
  | readIndex j o use n =>
    simp only [move] at h
    split at h <;> cases h
  | cachePut j o use n =>
    obtain ⟨out, hout⟩ := finish_returned limits s j o use
    simp only [move, hout] at h
    cases h
  | readDrop j n =>
    simp only [move] at h
    cases hindex : s.index <;> simp [hindex] at h
  | change | cacheObject | storeRecord | writeIndex | dropRecord | writeDrop | dropObject
  | returned => cases h

/-- A step of a call of the manager makes no content without the property. -/
theorem InstanceProc.holds_move (h : p.move limits s = some (s', q)) (hs : s.Holds Q)
    (hp : p.Carries Q) : s'.Holds Q ∧ q.Carries Q :=
  (moved_of_move h).holds hs hp fun i c _ hq => hs.records i c (loaded_of_move (hq ▸ h))

end Holds

namespace ProcessInstance

variable {c : ProcessInstance σ π}

/-- A written field brings its own producers and leaves those of the other fields. -/
theorem producers_write (w : FieldWrite σ π) {k : ℕ} (h : k ∈ (c.write w).producers) :
    k ∈ w.producers ∨ k ∈ c.producers := by
  cases w <;> simp only [write, producers, FieldWrite.producers, List.mem_append] at h ⊢ <;> tauto

/-- A revision is one that was there or one that was written, which leaves the producers. -/
theorem revision_write (w : FieldWrite σ π) {v : ℕ} (h : v ∈ (c.write w).flowRevision) :
    v ∈ c.flowRevision ∨ v ∈ w.revision ∧ (c.write w).producers = c.producers := by
  cases w with
  | flowRevision revision => exact .inr ⟨h, rfl⟩
  | _ => exact .inl h

/-- An instance stays pinned if the writes to it keep its pin. -/
theorem Pinned.write (h : c.Pinned) {w : FieldWrite σ π} (hw : w.KeepsPin c) :
    (c.write w).Pinned := by
  intro v hv k hk
  rcases revision_write w hv with hv | ⟨hv, hproducers⟩
  · rcases producers_write w hk with hk | hk
    · exact hw.1 v hv k hk
    · exact h v hv k hk
  · exact hw.2 v hv k (hproducers ▸ hk)

/-- All that a new instance has was produced by the definition its job runs. -/
theorem producers_buildInstance (job : LiveJob σ π) (i : String) {k : ℕ}
    (h : k ∈ (job.buildInstance i).producers) : k = job.revision := by
  simp only [producers, List.mem_append, Option.mem_toList, LiveJob.buildInstance] at h
  rcases h with (h | h) | h
  · exact (Option.some.inj h).symm
  · obtain ⟨step, hstep, hk⟩ := Option.bind_eq_some_iff.mp h
    obtain ⟨value, -, rfl⟩ := Option.map_eq_some_iff.mp hstep
    exact (Option.some.inj hk).symm
  · obtain ⟨position, hposition, hk⟩ := Option.bind_eq_some_iff.mp h
    obtain ⟨value, -, rfl⟩ := Option.map_eq_some_iff.mp hposition
    exact (Option.some.inj hk).symm

/-- A new instance is pinned to the revision that its job runs. -/
theorem pinned_buildInstance (job : LiveJob σ π) (i : String) : (job.buildInstance i).Pinned := by
  intro v hv k hk
  have hdefinition : job.definition.revision = some v := hv
  have hrevision : job.revision = v := by simp [LiveJob.revision, hdefinition]
  exact (hrevision.symm.trans (producers_buildInstance job i hk).symm).le

end ProcessInstance

namespace MigrationProc

variable {limits : InstanceLimits (ProcessInstance σ π)} {rules : MigrationRegistry σ}
  {s s' : MigrationStore σ π} {p q : MigrationProc σ π}

/-- A task brings no content that is not pinned. -/
def Carries : MigrationProc σ π → Prop
  | calling call _ => call.Carries ProcessInstance.Pinned
  | _ => True

/-- A created instance is pinned. -/
theorem carries_create (i : String) (job : LiveJob σ π) : (create i job).Carries := by
  unfold create
  split
  · exact ProcessInstance.pinned_buildInstance job i
  · trivial

/-- What follows a call keeps the instances and brings none that is not pinned. -/
theorem holds_resume (hs : s.store.Holds ProcessInstance.Pinned) (next : AfterCall σ π)
    (o : Option ℕ) :
    (resume s next o).1.store.Holds ProcessInstance.Pinned ∧ (resume s next o).2.Carries := by
  cases next with
  | ensure i job =>
    cases o with
    | none => exact ⟨hs, carries_create i job⟩
    | some o => exact ⟨hs, fun c hc => hc⟩
  | update i job =>
    cases o with
    | none => exact ⟨hs, carries_create i job⟩
    | some o => exact ⟨hs, trivial⟩
  | check request => cases o <;> exact ⟨hs, trivial⟩
  | done | snapshot | apply | fail | succeed => exact ⟨hs, trivial⟩

/-- What a call does with the object it has found keeps the instances. -/
theorem holds_found (hs : s.store.Holds ProcessInstance.Pinned) (i : String) (o : ℕ)
    (next : AfterCall σ π) :
    (found s i o next).1.store.Holds ProcessInstance.Pinned ∧ (found s i o next).2.Carries := by
  cases next with
  | update => exact ⟨hs, trivial⟩
  | _ => exact ⟨hs.congr rfl rfl, trivial⟩

/-- The check of a migration brings no instance. -/
theorem carries_check (o : ℕ) (request : MigrationRequest) (c : ProcessInstance σ π) :
    (check o request c).Carries := by
  unfold check
  split
  · trivial
  · split <;> trivial

/-- What a rule answers brings no instance. -/
theorem carries_plan (o : ℕ) (request : MigrationRequest) (flowId : String) (fromRevision : ℕ)
    (flow : FlowDefinition) (c : ProcessInstance σ π) :
    (plan rules o request flowId fromRevision flow c).Carries := by
  unfold plan
  split
  · dsimp only
    split <;> trivial
  · split <;> trivial

/-- The intent to migrate brings no instance. -/
theorem carries_request (o : ℕ) (plan : MigrationPlan σ) (c : ProcessInstance σ π) :
    (MigrationProc.request o plan c).Carries := by
  unfold MigrationProc.request
  split <;> trivial

/-- A written field keeps the instances pinned. -/
theorem holds_write (hs : s.store.Holds ProcessInstance.Pinned) {o : ℕ} {w : FieldWrite σ π}
    (hw : ∀ c ∈ s.content o, w.KeepsPin c) :
    (s.write o w).store.Holds ProcessInstance.Pinned := by
  refine hs.modify o fun object hobject => ?_
  refine (hs.objects object (List.mem_of_getElem? hobject)).write (hw _ ?_)
  exact Option.mem_map_of_mem Prod.snd hobject

/-- A step of a task within a call is a step of the call, unless the call has ended or has found
the object it is to change. -/
theorem calling_cases {call : InstanceProc (ProcessInstance σ π)} {next : AfterCall σ π}
    (h : (calling call next).move limits rules s = some (s', q)) :
    (∃ o, (s', q) = resume s next o) ∨ (∃ i o, (s', q) = found s i o next) ∨
      ∃ store call', call.move limits s.store = some (store, call') ∧
        s' = { s with store := store } ∧ q = calling call' next := by
  cases call with
  | returned o => exact .inl ⟨o, (Option.some.inj h).symm⟩
  | change i o f => exact .inr (.inl ⟨i, o, (Option.some.inj h).symm⟩)
  | _ =>
    simp only [move] at h
    obtain ⟨⟨store, call'⟩, hcall, hout⟩ := Option.map_eq_some_iff.mp h
    cases hout
    exact .inr (.inr ⟨store, call', hcall, rfl, rfl⟩)

/-- A step whose writes keep the pins keeps all instances pinned. -/
theorem holds_move (h : p.move limits rules s = some (s', q))
    (hs : s.store.Holds ProcessInstance.Pinned) (hp : p.Carries)
    (procs : List (MigrationProc σ π)) (hok : MigrationPool.KeepsPins ⟨s, procs⟩ p) :
    s'.store.Holds ProcessInstance.Pinned ∧ q.Carries := by
  cases p with
  | start task =>
    cases h
    refine ⟨hs, ?_⟩
    cases task with
    | appendStateSnapshot i =>
      intro g hg c hc
      cases hg
      exact hc
    | _ => trivial
  | calling call next =>
    rcases calling_cases h with ⟨o, hout⟩ | ⟨i, o, hout⟩ | ⟨store, call', hcall, rfl, rfl⟩
    · have hkept := holds_resume hs next o
      rwa [← hout] at hkept
    · have hkept := holds_found hs i o next
      rwa [← hout] at hkept
    · exact InstanceProc.holds_move hcall hs hp
  | checking o request =>
    obtain ⟨c, -, hout⟩ := Option.map_eq_some_iff.mp h
    cases hout
    exact ⟨hs, carries_check o request c⟩
  | planning o request flowId fromRevision flow =>
    obtain ⟨c, -, hout⟩ := Option.map_eq_some_iff.mp h
    cases hout
    exact ⟨hs, carries_plan o request flowId fromRevision flow c⟩
  | requesting o plan =>
    obtain ⟨c, -, hout⟩ := Option.map_eq_some_iff.mp h
    cases hout
    exact ⟨hs, carries_request o plan c⟩
  | writing o writes next =>
    cases writes with
    | nil =>
      cases h
      exact ⟨hs, trivial⟩
    | cons w rest =>
      cases h
      exact ⟨holds_write hs hok, trivial⟩
  | updating i o writes =>
    cases writes with
    | nil =>
      cases h
      exact ⟨hs, trivial⟩
    | cons w rest =>
      cases h
      exact ⟨holds_write hs hok, trivial⟩
  | raised error => cases h
  | returned result => cases h

end MigrationProc

namespace MigrationPool

variable {limits : InstanceLimits (ProcessInstance σ π)} {rules : MigrationRegistry σ}

/-- All instances are pinned, and so are those the tasks are going to make. -/
structure Sound (pool : MigrationPool σ π) : Prop where
  store : pool.shared.store.Holds ProcessInstance.Pinned
  procs : ∀ p ∈ pool.procs, p.Carries

/-- A step that keeps the pins keeps this. -/
theorem Sound.turn {pool next : MigrationPool σ π} {turn : ℕ} (hs : pool.Sound)
    (h : migrationStep limits rules pool turn = some next)
    (hok : Pool.OnTurn KeepsPins pool turn next) : next.Sound := by
  obtain ⟨p, s, q, hp, hmove, rfl⟩ := Pool.step_cases h
  have hkept := MigrationProc.holds_move hmove hs.store (hs.procs p (List.mem_of_getElem? hp))
    pool.procs (hok p hp)
  refine ⟨hkept.1, fun r hr => ?_⟩
  rcases Pool.mem_set_cases hr with rfl | hr
  · exact hkept.2
  · exact hs.procs r hr

/-- A stored content is the content of a record or of an object. -/
theorem Sound.stored {pool : MigrationPool σ π} (hs : pool.Sound) {i : String}
    {c : ProcessInstance σ π} (h : pool.shared.store.Stored i c) : c.Pinned := by
  rcases h with h | ⟨o, -, h⟩
  · exact hs.store.records i c h
  · obtain ⟨object, hobject, rfl⟩ := Option.map_eq_some_iff.mp h
    exact hs.store.objects object (List.mem_of_getElem? hobject)

/-- In every run over pinned records whose writes keep the pins, a migration that was applied
survives: no stored content of its instance combines its revision or a later one with what an
older definition has produced. -/
theorem survivesJobs_run (limits : InstanceLimits (ProcessInstance σ π))
    (rules : MigrationRegistry σ) {records : Dict String (ProcessInstance σ π)}
    (hrecords : ∀ i, ∀ c ∈ records.get? i, c.Pinned) (index : Option (List String))
    (tasks : List (InstanceTask σ π)) {turns : List ℕ} {pool : MigrationPool σ π}
    (hok : AllSteps (migrationStep limits rules) (Pool.OnTurn KeepsPins)
      (start records index tasks) turns)
    (hrun : runSteps (migrationStep limits rules) (start records index tasks) turns = some pool) :
    pool.SurvivesJobs := by
  have hstart : (start records index tasks).Sound := by
    refine ⟨⟨fun object hobject => (by cases hobject), hrecords⟩, fun p hp => ?_⟩
    obtain ⟨task, -, rfl⟩ := List.mem_map.mp hp
    trivial
  have hsound : pool.Sound :=
    invariant_of_allSteps (fun s l t hs h hok => Sound.turn hs h hok) hstart hok hrun
  intro i r _ c hc v hv hrv k hk
  exact hrv.trans (hsound.stored hc v hv k hk)

/-- The flow has a name. -/
private theorem onboard_ne : "onboard" ≠ "" := by decide

/-- A flow with two revisions. -/
def onboardRevision (revision : ℕ) : FlowDefinition :=
  { name := "onboard", pattern := "dag", revision := some revision, name_ne := onboard_ne }

/-- A rule from the first revision of the flow to the second. -/
def onboardRules : MigrationRegistry String :=
  MigrationRegistry.register .empty
    ⟨"onboard", 1, 2, fun _ => (true, []), fun ctx => ctx.state ++ "+"⟩

/-- A job that runs one of the revisions. -/
def onboardJob (revision : ℕ) : LiveJob String String :=
  ⟨onboardRevision revision, true, "Ada", none, none, "RUNNING", .empty⟩

/-- An instance is migrated to the second revision, next to a hook of a job. -/
def onboardMigration (jobRevision : ℕ) : MigrationPool String String :=
  start (Dict.empty.set "inst-1" ((onboardJob 1).buildInstance "inst-1")) (some ["inst-1"])
    [.migrate ⟨"inst-1", 2, false, some (onboardRevision 2)⟩,
      .jobStatusChanged "inst-1" (onboardJob jobRevision)]

/-- The limits of the manager. -/
def onboardLimits : InstanceLimits (ProcessInstance String String) := ⟨128, 32, fun _ => false⟩

/-- The migration first, then the hook. -/
def migrationThenHook : List ℕ := List.replicate 28 0 ++ List.replicate 17 1

/-- A migration survives the hook of a job that runs the new revision. -/
theorem survivesJobs_run_resumed :
    ∃ pool, runSteps (migrationStep onboardLimits onboardRules) (onboardMigration 2)
        migrationThenHook = some pool ∧ ("inst-1", 2) ∈ pool.shared.applied ∧ pool.SurvivesJobs := by
  have hrun : ((runSteps (migrationStep onboardLimits onboardRules) (onboardMigration 2)
      migrationThenHook).any fun pool => decide (("inst-1", 2) ∈ pool.shared.applied)) = true := by
    decide +kernel
  obtain ⟨pool, hpool, happlied⟩ := (Option.any_eq_true _ _).mp hrun
  refine ⟨pool, hpool, of_decide_eq_true happlied, ?_⟩
  refine survivesJobs_run onboardLimits onboardRules (fun i c hc => ?_) (some ["inst-1"]) _
    (by decide +kernel) hpool
  by_cases hi : i = "inst-1"
  · subst hi
    rw [Dict.get?_set_self] at hc
    exact Option.some.inj hc ▸ ProcessInstance.pinned_buildInstance (onboardJob 1) "inst-1"
  · rw [Dict.get?_set_ne _ _ hi] at hc
    cases hc

/-- A migration does not survive the hook of a job that runs the old revision: the record has the
new revision and the state that the old definition produced. -/
theorem survivesJobs_run_fails :
    ∃ pool, runSteps (migrationStep onboardLimits onboardRules) (onboardMigration 1)
        migrationThenHook = some pool ∧ ¬pool.SurvivesJobs := by
  have hrun : ((runSteps (migrationStep onboardLimits onboardRules) (onboardMigration 1)
      migrationThenHook).any fun pool => decide (("inst-1", 2) ∈ pool.shared.applied) &&
        (pool.shared.store.records.get? "inst-1").any fun c =>
          decide (c.flowRevision = some 2 ∧ 1 ∈ c.producers)) = true := by
    decide +kernel
  obtain ⟨pool, hpool, hfacts⟩ := (Option.any_eq_true _ _).mp hrun
  obtain ⟨happlied, hrecord⟩ := Bool.and_eq_true_iff.mp hfacts
  obtain ⟨c, hc, hmixed⟩ := (Option.any_eq_true _ _).mp hrecord
  obtain ⟨hrevision, hproducer⟩ := of_decide_eq_true hmixed
  refine ⟨pool, hpool, fun hsurvives => ?_⟩
  have hle := hsurvives "inst-1" 2 (of_decide_eq_true happlied) c (.inl hc) 2 hrevision le_rfl 1
    hproducer
  omega

end MigrationPool

end PalmEngine.Persistence
