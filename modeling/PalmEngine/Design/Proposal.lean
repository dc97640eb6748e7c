import PalmEngine.Lib.Dict
import PalmEngine.Lib.StableSort

/-!
# Design proposals and their repositories

A proposal is a draft of a definition. One repository keeps the proposals in memory. The other one
stores each proposal as a document, with an index of the proposals that are open, and has the
proposals that it has seen in a cache, which is gone when the repository is created again.

The bodies, validations and impacts of proposals are JSON dictionaries of which nothing is used.
-/

namespace PalmEngine.Design

open PalmEngine.Lib

/-- The status of a proposal that is still a draft. -/
def openStatus : String := "open"

/-- A draft of a definition before its revision is published. -/
structure DesignProposal (β : Type) where
  proposalId : String
  body : β
  status : String
  kind : String
  baseFlowId : Option String
  flowId : Option String
  baseResourceId : Option String
  resourceId : Option String
  validation : Option β
  impact : Option β
  committedRevision : Option ℕ
  createdAt : String
  updatedAt : String
  deriving DecidableEq

variable {β : Type}

namespace DesignProposal

/-- A text or, if it is empty, another one. -/
def textOr (text other : String) : String := if text = "" then other else text

/-- The proposal of a document, where empty texts stand for defaults. -/
def fromDict (now : String) (doc : DesignProposal β) : DesignProposal β :=
  { doc with
    status := textOr doc.status openStatus
    kind := textOr doc.kind "flow"
    createdAt := textOr doc.createdAt now
    updatedAt := textOr doc.updatedAt now }

/-- No text that has a default is empty. -/
def Plain (p : DesignProposal β) : Prop :=
  p.status ≠ "" ∧ p.kind ≠ "" ∧ p.createdAt ≠ "" ∧ p.updatedAt ≠ ""

instance (p : DesignProposal β) : Decidable p.Plain := inferInstanceAs (Decidable (_ ∧ _))

/-- A proposal without empty texts is read back as it was. -/
theorem Plain.fromDict_eq {p : DesignProposal β} (h : p.Plain) (now : String) :
    p.fromDict now = p := by
  obtain ⟨hstatus, hkind, hcreated, hupdated⟩ := h
  simp [fromDict, textOr, hstatus, hkind, hcreated, hupdated]

/-- The proposal belongs to a flow and has a status, as far as these are asked for. -/
def selected (p : DesignProposal β) (flowId status : Option String) : Bool :=
  flowId.all (fun f => p.flowId = some f ∨ p.baseFlowId = some f) && status.all (p.status = ·)

end DesignProposal

/-- What a new proposal is made of, with the suffix of its id and the time. -/
structure ProposalRequest (β : Type) where
  suffix : String
  body : β
  kind : String
  baseFlowId : Option String
  flowId : Option String
  baseResourceId : Option String
  resourceId : Option String
  createdAt : String

/-- The new proposal. The ids of its base stand for its own if these are missing. -/
def ProposalRequest.proposal (request : ProposalRequest β) : DesignProposal β where
  proposalId := "prop-" ++ request.suffix
  body := request.body
  status := openStatus
  kind := request.kind
  baseFlowId := request.baseFlowId
  flowId := (request.flowId.filter (· ≠ "")).or request.baseFlowId
  baseResourceId := request.baseResourceId
  resourceId := (request.resourceId.filter (· ≠ "")).or request.baseResourceId
  validation := none
  impact := none
  committedRevision := none
  createdAt := request.createdAt
  updatedAt := request.createdAt

/-- A call of a proposal repository, with the time when it is made. -/
inductive ProposalCall (β : Type) where
  | create (request : ProposalRequest β) (now : String)
  | save (p : DesignProposal β) (now : String)
  | get (proposalId : String) (now : String)
  | delete (proposalId : String)
  | listProposals (flowId status : Option String) (now : String)
  /-- The repository is created again, if it has a storage. -/
  | recreate

/-- What a call returns. -/
inductive ProposalAnswer (β : Type) where
  | proposal (p : DesignProposal β)
  | notFound (proposalId : String)
  | deleted (existed : Bool)
  | rows (rows : List (DesignProposal β))
  | created
  /-- What is stored is no document of a proposal. -/
  | malformed (proposalId : String)
  deriving DecidableEq

/-- What a get returns. -/
def ProposalAnswer.found (proposalId : String) : Option (DesignProposal β) → ProposalAnswer β
  | none => notFound proposalId
  | some p => proposal p

/-- The proposals that are asked for, the newest first. -/
def listedRows (rows : List (DesignProposal β)) (flowId status : Option String) :
    List (DesignProposal β) :=
  sortDescending DesignProposal.updatedAt (rows.filter (·.selected flowId status))

/-- The proposals in memory. -/
structure DesignProposalRepository (β : Type) where
  proposals : Dict String (DesignProposal β)

namespace DesignProposalRepository

/-- A repository without proposals. -/
def empty : DesignProposalRepository β := ⟨.empty⟩

/-- Keep a proposal with the time. -/
def save (m : DesignProposalRepository β) (p : DesignProposal β) (now : String) :
    DesignProposalRepository β :=
  ⟨m.proposals.set p.proposalId { p with updatedAt := now }⟩

/-- A call of the repository in memory. -/
def step (m : DesignProposalRepository β) :
    ProposalCall β → DesignProposalRepository β × ProposalAnswer β
  | .create request now =>
    (m.save request.proposal now, .proposal { request.proposal with updatedAt := now })
  | .save p now => (m.save p now, .proposal { p with updatedAt := now })
  | .get proposalId _ => (m, .found proposalId (m.proposals.get? proposalId))
  | .delete proposalId =>
    (⟨m.proposals.erase proposalId⟩, .deleted (m.proposals.get? proposalId).isSome)
  | .listProposals flowId status _ => (m, .rows (listedRows m.proposals.values flowId status))
  | .recreate => (m, .created)

end DesignProposalRepository

/-- What is stored: the document of a proposal, or the ids of the open ones. -/
inductive StoredDocument (β : Type) where
  | proposal (doc : DesignProposal β)
  | ids (ids : List String)

/-- The name under which the index is stored among the proposals. -/
def indexName : String := "_index"

/-- The documents in the storage by the ends of their keys, and the cache. -/
structure StorageDesignProposalRepository (β : Type) where
  storage : Dict String (StoredDocument β)
  cache : Dict String (DesignProposal β)

namespace StorageDesignProposalRepository

/-- A repository over an empty storage. -/
def empty : StorageDesignProposalRepository β := ⟨.empty, .empty⟩

/-- The ids in the index, none if there is no list. -/
def indexRead (s : StorageDesignProposalRepository β) : List String :=
  match s.storage.get? indexName with
  | some (.ids ids) => ids
  | _ => []

/-- Store the index. -/
def indexWrite (s : StorageDesignProposalRepository β) (ids : List String) :
    StorageDesignProposalRepository β :=
  { s with storage := s.storage.set indexName (.ids ids) }

/-- Add an id to the index unless it is there. -/
def indexAdd (s : StorageDesignProposalRepository β) (proposalId : String) :
    StorageDesignProposalRepository β :=
  if proposalId ∈ s.indexRead then s else s.indexWrite (s.indexRead ++ [proposalId])

/-- Take an id out of the index. -/
def indexRemove (s : StorageDesignProposalRepository β) (proposalId : String) :
    StorageDesignProposalRepository β :=
  s.indexWrite (s.indexRead.filter (· ≠ proposalId))

/-- Cache and store a proposal. -/
def persist (s : StorageDesignProposalRepository β) (p : DesignProposal β) :
    StorageDesignProposalRepository β where
  storage := s.storage.set p.proposalId (.proposal p)
  cache := s.cache.set p.proposalId p

/-- Keep a proposal with the time, and have it in the index if it is open. -/
def save (s : StorageDesignProposalRepository β) (p : DesignProposal β) (now : String) :
    StorageDesignProposalRepository β :=
  let stored := s.persist { p with updatedAt := now }
  if p.status = openStatus then stored.indexAdd p.proposalId else stored.indexRemove p.proposalId

/-- The proposal in the cache, or else the one in the storage, which is cached. -/
def get (s : StorageDesignProposalRepository β) (proposalId now : String) :
    StorageDesignProposalRepository β × ProposalAnswer β :=
  match s.cache.get? proposalId with
  | some p => (s, .proposal p)
  | none =>
    match s.storage.get? proposalId with
    | none => (s, .notFound proposalId)
    | some (.ids _) => (s, .malformed proposalId)
    | some (.proposal doc) =>
      ({ s with cache := s.cache.set proposalId (doc.fromDict now) }, .proposal (doc.fromDict now))

/-- Remove a proposal everywhere. -/
def delete (s : StorageDesignProposalRepository β) (proposalId : String) :
    StorageDesignProposalRepository β :=
  indexRemove ⟨s.storage.erase proposalId, s.cache.erase proposalId⟩ proposalId

/-- The proposals of some ids after those that were found before. An id without a proposal leaves
the index. -/
def rows (now : String) : StorageDesignProposalRepository β → List (DesignProposal β) → List String →
    StorageDesignProposalRepository β × Except String (List (DesignProposal β))
  | s, found, [] => (s, .ok found)
  | s, found, proposalId :: rest =>
    match s.get proposalId now with
    | (s, .proposal p) => rows now s (found ++ [p]) rest
    | (s, .notFound _) => rows now (s.indexRemove proposalId) found rest
    | (s, _) => (s, .error proposalId)

/-- List the proposals of the index. -/
def listProposals (s : StorageDesignProposalRepository β) (flowId status : Option String)
    (now : String) : StorageDesignProposalRepository β × ProposalAnswer β :=
  match s.rows now [] s.indexRead with
  | (s, .ok found) => (s, .rows (listedRows found flowId status))
  | (s, .error proposalId) => (s, .malformed proposalId)

/-- A call of the repository with a storage. -/
def step (s : StorageDesignProposalRepository β) :
    ProposalCall β → StorageDesignProposalRepository β × ProposalAnswer β
  | .create request now =>
    (s.save request.proposal now, .proposal { request.proposal with updatedAt := now })
  | .save p now => (s.save p now, .proposal { p with updatedAt := now })
  | .get proposalId now => s.get proposalId now
  | .delete proposalId =>
    (s.delete proposalId,
      .deleted ((s.cache.get? proposalId).isSome || (s.storage.get? proposalId).isSome))
  | .listProposals flowId status now => s.listProposals flowId status now
  | .recreate => ({ s with cache := .empty }, .created)

end StorageDesignProposalRepository

end PalmEngine.Design
