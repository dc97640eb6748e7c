import PalmEngine.Design.Proposal
import PalmEngine.Lib.Pool

/-!
# Concurrent calls on one proposal

A proposal is validated, its impact is analyzed, it is committed or discarded. All calls write into
the object that the repository has in its cache, or into one that they make of the stored document.
A commit reads the status first, validates and analyzes the proposal, publishes its definition, and
writes the status last. A discard writes its status whatever the proposal is, saves the proposal and
deletes it.

Calls take turns. What the catalog and the storage do in a turn, and whether they fail, comes with
the turn.
-/

namespace PalmEngine.Design

open PalmEngine.Lib

variable {β : Type}

/-- What the storage does when a proposal is saved: the document and the index are stored, the index
fails after the document is stored, or the document fails. -/
inductive SaveOutcome where
  | saved
  | unindexed
  | unsaved
  deriving DecidableEq, Repr

/-- What the catalog does when a definition is to be published: it refuses, it fails after it has
published, or it publishes. -/
inductive PublishOutcome where
  | refused
  | broken
  | published
  deriving DecidableEq, Repr

/-- What the catalog and the storage do in a turn. -/
structure Answer (β : Type) where
  /-- The checks and the look-ups of the turn do not fail. -/
  passes : Bool
  /-- The proposal is valid. -/
  valid : Bool
  /-- The validation or the impact. -/
  report : β
  save : SaveOutcome
  /-- The document is deleted. -/
  deletes : Bool
  publication : PublishOutcome
  /-- The newest revision before the publication, and the id of what is published. -/
  latest : ℕ
  publishedId : String
  now : String

/-- The proposal as all calls see it: the objects made of it, the one in the cache, and the stored
document; and the revisions published from it, none for a definition that has no revisions. -/
structure ProposalDesk (β : Type) where
  objects : List (DesignProposal β)
  cache : Option ℕ
  doc : Option (DesignProposal β)
  published : List (Option ℕ)

/-- What a call does with the proposal that it looks up. -/
inductive DesignTask where
  | validate
  | impact
  | commit
  | discard
  deriving DecidableEq, Repr

/-- A call at one of its steps. A commit validates and analyzes the proposal as calls of their own
do, and goes on with the object that it has looked up itself. -/
inductive DesignProc (β : Type) where
  /-- It is about to look the proposal up. -/
  | lookup (task : DesignTask) (own : Option ℕ)
  /-- It is about to make an object of the document it has read. -/
  | loading (task : DesignTask) (own : Option ℕ) (doc : DesignProposal β)
  /-- It has the proposal. -/
  | working (task : DesignTask) (own : Option ℕ) (o : ℕ)
  /-- A commit is about to find out what to publish. -/
  | resolving (o : ℕ)
  /-- It is about to publish. -/
  | publishing (o : ℕ)
  /-- It is about to write what it has published. -/
  | recording (o : ℕ) (revision : Option ℕ) (publishedId : String)
  /-- It is about to save the proposal. -/
  | saving (o : ℕ)
  /-- A discard is about to save the proposal. -/
  | discarding (o : ℕ)
  /-- It is about to delete the proposal. -/
  | deleting (o : ℕ)
  /-- It has returned or raised. -/
  | finished

/-- The statuses of a proposal that is not a draft any more. -/
def committedStatus : String := "committed"

@[inherit_doc committedStatus] def discardedStatus : String := "discarded"

namespace DesignProposal

/-- The revision that a publication has: a dashboard counts as the first one, a resource has none. -/
def revisionAfter (p : DesignProposal β) (latest : ℕ) : Option ℕ :=
  if p.kind = "resource" then none
  else if p.kind = "dashboard" then some 1
  else some (latest + 1)

/-- The proposal with what was published of it. -/
def commit (p : DesignProposal β) (revision : Option ℕ) (publishedId : String) : DesignProposal β :=
  if p.kind = "resource" then { p with status := committedStatus, resourceId := some publishedId }
  else { p with
    status := committedStatus, committedRevision := revision, flowId := some publishedId }

end DesignProposal

namespace ProposalDesk

/-- Change an object. -/
def modify (d : ProposalDesk β) (o : ℕ) (f : DesignProposal β → DesignProposal β) : ProposalDesk β :=
  { d with objects := d.objects.modify o f }

/-- Save an object: it is cached, and stored unless that fails. -/
def save (d : ProposalDesk β) (o : ℕ) (a : Answer β) : ProposalDesk β :=
  let d := d.modify o fun p => { p with updatedAt := a.now }
  { d with
    cache := some o
    doc := if a.save = .unsaved then d.doc else d.objects[o]? }

/-- Delete the proposal: it leaves the cache, and the storage unless that fails. -/
def delete (d : ProposalDesk β) (a : Answer β) : ProposalDesk β :=
  { d with cache := none, doc := if a.deletes then none else d.doc }

/-- The proposal that a get returns. -/
def current (d : ProposalDesk β) : Option (DesignProposal β) :=
  match d.cache with
  | some o => d.objects[o]?
  | none => d.doc

/-- A get returns a committed proposal with this revision. -/
def Committed (d : ProposalDesk β) (revision : Option ℕ) : Prop :=
  ∃ p, d.current = some p ∧ p.status = committedStatus ∧ p.committedRevision = revision

end ProposalDesk

namespace DesignProc

/-- A part of a commit is over: the commit goes on, and a call of its own ends. -/
def resume (own : Option ℕ) (next : ℕ → DesignProc β) : DesignProc β :=
  match own with
  | none => finished
  | some o => next o

/-- A call looks the proposal up. -/
def look (d : ProposalDesk β) (task : DesignTask) (own : Option ℕ) : DesignProc β :=
  match d.cache, d.doc with
  | some o, _ => working task own o
  | none, some doc => loading task own doc
  | none, none => finished

/-- A call works on the proposal it has looked up. -/
def work (a : Answer β) (d : ProposalDesk β) (own : Option ℕ) (o : ℕ) :
    DesignTask → ProposalDesk β × DesignProc β
  | .validate =>
    if a.passes then
      ((d.modify o fun p => { p with validation := some a.report }).save o a,
        if a.save = .saved ∧ a.valid = true then resume own resolving else finished)
    else (d, finished)
  | .impact =>
    if a.passes then
      ((d.modify o fun p => { p with impact := some a.report }).save o a,
        if a.save = .saved then resume own publishing else finished)
    else (d, finished)
  | .commit =>
    if (d.objects[o]?).map DesignProposal.status = some openStatus ∧ a.passes = true then
      (d, lookup .validate (some o))
    else (d, finished)
  | .discard => (d.modify o fun p => { p with status := discardedStatus }, discarding o)

/-- A commit publishes the definition. -/
def publish (a : Answer β) (d : ProposalDesk β) (o : ℕ) : ProposalDesk β × DesignProc β :=
  match d.objects[o]? with
  | none => (d, finished)
  | some p =>
    let revision := p.revisionAfter a.latest
    match a.publication with
    | .refused => (d, finished)
    | .broken => ({ d with published := d.published ++ [revision] }, finished)
    | .published => ({ d with published := d.published ++ [revision] },
        recording o revision a.publishedId)

/-- The next step of a call. -/
def move (a : Answer β) (d : ProposalDesk β) :
    DesignProc β → Option (ProposalDesk β × DesignProc β)
  | lookup task own => some (d, look d task own)
  | loading task own doc => some
      ({ d with objects := d.objects ++ [doc.fromDict a.now], cache := some d.objects.length },
        working task own d.objects.length)
  | working task own o => some (work a d own o task)
  | resolving o => some (d,
      if a.passes then
        if (d.objects[o]?).map DesignProposal.kind = some "dashboard" then publishing o
        else lookup .impact (some o)
      else finished)
  | publishing o => some (publish a d o)
  | recording o revision publishedId => some (d.modify o (·.commit revision publishedId), saving o)
  | saving o => some (d.save o a, finished)
  | discarding o => some (d.save o a, if a.save = .saved then deleting o else finished)
  | deleting _ => some (d.delete a, finished)
  | finished => none

/-- The objects that a call has. -/
def held : DesignProc β → List ℕ
  | lookup _ own | loading _ own _ => own.toList
  | working _ own o => own.toList ++ [o]
  | resolving o | publishing o | recording o _ _ | saving o | discarding o | deleting o => [o]
  | finished => []

/-- A call has looked the proposal up and has not ended. -/
def underway : DesignProc β → Bool
  | lookup _ own => own.isSome
  | finished => false
  | _ => true

/-- A commit has passed the check of the status and has not ended. -/
def committing : DesignProc β → Bool
  | lookup _ own | loading _ own _ | working _ own _ => own.isSome
  | resolving _ | publishing _ | recording _ _ _ | saving _ => true
  | discarding _ | deleting _ | finished => false

end DesignProc

/-- Concurrent calls on a proposal. -/
abbrev ProposalPool (β : Type) := Pool (ProposalDesk β) (DesignProc β)

namespace ProposalPool

/-- A call takes its turn, with what the catalog and the storage do in it. -/
def step (pool : ProposalPool β) (turn : ℕ × Answer β) : Option (ProposalPool β) :=
  Pool.step (DesignProc.move turn.2) pool turn.1

/-- The proposal is open and nothing was published from it; no call has begun. -/
structure Starts (pool : ProposalPool β) : Prop where
  published_eq : pool.shared.published = []
  cache : ∀ o ∈ pool.shared.cache, o < pool.shared.objects.length
  objects : ∀ p ∈ pool.shared.objects, p.status = openStatus ∧ p.committedRevision = none
  doc : ∀ p ∈ pool.shared.doc, p.status = openStatus ∧ p.committedRevision = none
  procs : ∀ proc ∈ pool.procs, ∃ task, proc = .lookup task none

/-- The condition on the turn of a call: it makes an object of the document only while no other call
is under way and there is none in the cache; a commit passes the check of the status only while no
other one has passed it, and before anything is published; and a discard writes its status only
while no commit has passed the check, and not into a committed proposal. -/
def Alone (pool : ProposalPool β) (a : Answer β) : DesignProc β → Prop
  | .loading _ _ _ =>
    pool.shared.cache = none ∧ pool.procs.countP DesignProc.underway ≤ 1
  | .working .commit _ o =>
    (pool.shared.objects[o]?).map DesignProposal.status = some openStatus → a.passes = true →
      pool.shared.published = [] ∧ pool.procs.countP DesignProc.committing = 0
  | .working .discard _ o =>
    pool.procs.countP DesignProc.committing = 0 ∧
      (pool.shared.objects[o]?).map DesignProposal.status ≠ some committedStatus
  | _ => True

instance (pool : ProposalPool β) (a : Answer β) : ∀ proc, Decidable (pool.Alone a proc)
  | .loading _ _ _ => inferInstanceAs (Decidable (_ ∧ _))
  | .working .commit _ _ => inferInstanceAs (Decidable (_ → _ → _ ∧ _))
  | .working .discard _ _ => inferInstanceAs (Decidable (_ ∧ _))
  | .working .validate _ _ | .working .impact _ _ | .lookup _ _ | .resolving _ | .publishing _
  | .recording _ _ _ | .saving _ | .discarding _ | .deleting _ | .finished => .isTrue trivial

/-- The condition on a turn. -/
def TurnAlone (pool : ProposalPool β) (turn : ℕ × Answer β) (_ : ProposalPool β) : Prop :=
  ∀ proc ∈ pool.procs[turn.1]?, pool.Alone turn.2 proc

instance (pool : ProposalPool β) (turn : ℕ × Answer β) (next : ProposalPool β) :
    Decidable (pool.TurnAlone turn next) :=
  match h : pool.procs[turn.1]? with
  | none => .isTrue (by simp [TurnAlone, h])
  | some proc => decidable_of_iff (pool.Alone turn.2 proc) (by simp [TurnAlone, h])

end ProposalPool

end PalmEngine.Design
