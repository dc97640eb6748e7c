import PalmEngine.Persistence.InstanceStore
import PalmEngine.Storage.Backend

/-!
# Calls of the instance manager one after the other

A call of the manager goes through the repository, which answers from its own cache or from the
storage, and puts the object into the cache of the manager. The storage may not be open, and it may
raise in the middle of a saving.

A stored instance is found in one of the caches or in the storage; taking it out of the cache of the
manager leaves it in the one of the repository.
-/

namespace PalmEngine.Persistence

open PalmEngine.Lib PalmEngine.Storage

/-- How the storage answers a call: it works, is not open, or raises when it is read, or when it is
written, before or after the record is. -/
inductive StorageTurn where
  | works
  | closed
  | raises (written : Bool)
  deriving DecidableEq, Repr

/-- Whether a saving ends well: without an open storage it only caches. -/
def StorageTurn.saves : StorageTurn → Bool
  | works | closed => true
  | raises _ => false

/-- What a call of the manager raises. -/
inductive ManagerError where
  | instanceNotFound
  | activeLimit
  | storage
  deriving DecidableEq, Repr

/-- The call of a manager, with how the storage answers it, or a change that a holder of an object
makes. -/
inductive ManagerCall (ρ : Type) where
  | create (turn : StorageTurn) (i : String) (content : ρ)
  | get (turn : StorageTurn) (i : String)
  | acquire (turn : StorageTurn) (i : String)
  | release (i : String)
  | update (turn : StorageTurn) (i : String) (change : ρ → ρ)
  | evict
  | change (o : ℕ) (change : ρ → ρ)

namespace InstanceStore

variable {ρ : Type} (limits : InstanceLimits ρ) (s : InstanceStore ρ)

/-- Store the record of an object. -/
def storeRecord (i : String) (o : ℕ) : InstanceStore ρ :=
  { s with records := s.records.setSome i ((s.objects[o]?).map Prod.snd) }

/-- Put an id into the index. -/
def updateIndex (i : String) : InstanceStore ρ := if i ∈ s.ids then s else s.setIndex (s.ids ++ [i])

/-- Change the content of an object. -/
def changeObject (o : ℕ) (f : ρ → ρ) : InstanceStore ρ :=
  { s with objects := s.objects.modify o (Prod.map id f) }

/-- Put the record of an instance into the cache of the repository, as a new object. -/
def cacheNew (i : String) (content : ρ) : InstanceStore ρ :=
  (s.newObject i content).cacheSet i s.objects.length

/-- The object of an instance, from the cache of the repository or made of the stored record. -/
def repositoryGet (turn : StorageTurn) (i : String) : Outcome (InstanceStore ρ) ManagerError ℕ :=
  match s.cache.get? i with
  | some o => (.ok o, s)
  | none =>
    match turn with
    | .closed => (.error .instanceNotFound, s)
    | .raises _ => (.error .storage, s)
    | .works =>
      match s.records.get? i with
      | none => (.error .instanceNotFound, s)
      | some content => (.ok s.objects.length, s.cacheNew i content)

/-- Save an object in memory and, if it is open, in the storage. -/
def repositorySave (turn : StorageTurn) (i : String) (o : ℕ) :
    Outcome (InstanceStore ρ) ManagerError Unit :=
  let s := s.cacheSet i o
  match turn with
  | .closed => (.ok (), s)
  | .works => (.ok (), (s.storeRecord i o).updateIndex i)
  | .raises written => (.error .storage, if written then s.storeRecord i o else s)

/-- Take objects that are not active out of the cache of the manager until it is small enough. -/
def evict : InstanceStore ρ :=
  { s with managerCache := evictCache limits.maxLoaded s.active s.managerCache }

/-- Get an object and move it to the end of the cache of the manager. -/
def get (turn : StorageTurn) (i : String) : Outcome (InstanceStore ρ) ManagerError ℕ :=
  match s.managerCache.get? i with
  | some o => (.ok o, { s with managerCache := (s.managerCache.erase i).set i o })
  | none =>
    match s.repositoryGet turn i with
    | (.error e, s) => (.error e, s)
    | (.ok o, s) => (.ok o, s.managerPut limits i o)

/-- Get an object and mark its instance as active, or raise if there are too many. -/
def acquire (turn : StorageTurn) (i : String) : Outcome (InstanceStore ρ) ManagerError ℕ :=
  match s.get limits turn i with
  | (.error e, s) => (.error e, s)
  | (.ok o, s) =>
    if s.canMarkActive limits i then (.ok o, s.markActive i) else (.error .activeLimit, s)

/-- Save a new instance, put it into the cache and mark it as active, or raise if there are too
many. -/
def create (turn : StorageTurn) (i : String) (content : ρ) :
    Outcome (InstanceStore ρ) ManagerError ℕ :=
  let o := s.objects.length
  match (s.newObject i content).repositorySave turn i o with
  | (.error e, s) => (.error e, s)
  | (.ok _, s) =>
    let s := s.managerPut limits i o
    if s.canMarkActive limits i then (.ok o, s.markActive i) else (.error .activeLimit, s)

/-- Change and save an instance and put it into the cache; a terminal one is active no more, and
another one is marked as active if there is room. -/
def update (turn : StorageTurn) (i : String) (f : ρ → ρ) :
    Outcome (InstanceStore ρ) ManagerError ℕ :=
  match s.repositoryGet turn i with
  | (.error e, s) => (.error e, s)
  | (.ok o, s) =>
    match (s.changeObject o f).repositorySave turn i o with
    | (.error e, s) => (.error e, s)
    | (.ok _, s) => (.ok o, (s.managerPut limits i o).afterUpdate limits i o)

/-- The store after a call, whether it raised or not. -/
def call : ManagerCall ρ → InstanceStore ρ
  | .create turn i content => (s.create limits turn i content).2
  | .get turn i => (s.get limits turn i).2
  | .acquire turn i => (s.acquire limits turn i).2
  | .release i => s.releaseActive i
  | .update turn i f => (s.update limits turn i f).2
  | .evict => s.evict limits
  | .change o f => s.changeObject o f

/-- The store after a list of calls. -/
def calls (list : List (ManagerCall ρ)) : InstanceStore ρ := list.foldl (call limits) s

end InstanceStore

end PalmEngine.Persistence
