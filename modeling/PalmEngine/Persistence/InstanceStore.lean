import PalmEngine.Lib.Dict
import PalmEngine.Lib.Pool

/-!
# The instance store

A repository keeps the records of instances in a storage, next to an index of their ids, and the
objects it has made of them in a cache; a manager has a cache of its own in front of it. The calls
of the manager take the steps below, each of which reads or writes one of these at once; what the
manager does under its lock is one step.

Objects are numbered: two callers share an object or hold different ones. Beside the program's data
a store has a history: which objects were handed out for an instance since it was deleted last, and
when savings and deletions have begun and ended. The history decides nothing.
-/

namespace PalmEngine.Persistence

open PalmEngine.Lib

/-- The beginning of a saving or a deletion of an instance, and its end with the length of the
history at its beginning. -/
inductive InstanceMark where
  | saving (i : String)
  | saved (i : String) (since : ℕ)
  | deleting (i : String)
  | deleted (i : String) (since : ℕ)
  deriving DecidableEq, Repr

/-- The storage, the objects, the two caches and the history. The cache of the manager starts with
the instance that was not used for longest. -/
structure InstanceStore (ρ : Type) where
  records : Dict String ρ
  index : Option (List String)
  objects : List (String × ρ)
  cache : Dict String ℕ
  managerCache : Dict String ℕ
  active : List String
  held : List (String × ℕ)
  log : List InstanceMark

/-- The bounds of the manager, and the contents with a terminal status. -/
structure InstanceLimits (ρ : Type) where
  maxLoaded : ℕ
  maxActive : ℕ
  terminal : ρ → Bool

/-- A call of the manager: a new object is given by its content, an update by what it does to the
content of an object, and the caller saves an object that is there. -/
inductive InstanceCall (ρ : Type) where
  | get (i : String)
  | create (i : String) (content : ρ)
  | update (i : String) (change : ρ → ρ)
  | save (o : ℕ)
  | delete (i : String)

/-- What a call does to the cache of the manager in its last step. -/
inductive InstanceUse where
  | get
  | create
  | update
  | save
  deriving DecidableEq, Repr

/-- A call at one of its steps; a saving and a deletion know the length of the history at their
beginning. -/
inductive InstanceProc (ρ : Type) where
  /-- It has done nothing yet. -/
  | start (call : InstanceCall ρ)
  /-- It is about to look for the object in the cache of the repository, to change it if it is an
  update. -/
  | lookup (i : String) (change : Option (ρ → ρ))
  /-- It is about to load the record. -/
  | load (i : String) (change : Option (ρ → ρ))
  /-- It is about to put a new object for the record into the cache of the repository. -/
  | put (i : String) (content : ρ) (change : Option (ρ → ρ))
  /-- An update that is about to change the object. -/
  | change (i : String) (o : ℕ) (change : ρ → ρ)
  /-- An update that is about to put the object into the cache of the repository again. -/
  | cacheObject (i : String) (o : ℕ)
  /-- A saving that is about to store the record. -/
  | storeRecord (i : String) (o : ℕ) (use : InstanceUse) (since : ℕ)
  /-- A saving that is about to read the index. -/
  | readIndex (i : String) (o : ℕ) (use : InstanceUse) (since : ℕ)
  /-- A saving that is about to write the index. -/
  | writeIndex (i : String) (o : ℕ) (ids : List String) (use : InstanceUse) (since : ℕ)
  /-- It is about to put the object into the cache of the manager and to return it. -/
  | cachePut (i : String) (o : ℕ) (use : InstanceUse) (since : Option ℕ)
  /-- A deletion that is about to delete the record. -/
  | dropRecord (i : String) (since : ℕ)
  /-- A deletion that is about to read the index. -/
  | readDrop (i : String) (since : ℕ)
  /-- A deletion that is about to write the index. -/
  | writeDrop (i : String) (ids : List String) (since : ℕ)
  /-- A deletion that is about to take the object out of the cache of the manager. -/
  | dropObject (i : String) (since : ℕ)
  /-- It has returned an object, or has raised or has none to return. -/
  | returned (o : Option ℕ)

namespace InstanceStore

variable {ρ : Type} (s : InstanceStore ρ)

/-- Hand out an object for an instance. -/
def hold (i : String) (o : ℕ) : InstanceStore ρ := { s with held := s.held ++ [(i, o)] }

/-- Note a mark in the history. -/
def mark (m : InstanceMark) : InstanceStore ρ := { s with log := s.log ++ [m] }

/-- Make an object. -/
def newObject (i : String) (content : ρ) : InstanceStore ρ :=
  { s with objects := s.objects ++ [(i, content)] }

/-- Put an object into the cache of the repository. -/
def cacheSet (i : String) (o : ℕ) : InstanceStore ρ := { s with cache := s.cache.set i o }

/-- Write the index. -/
def setIndex (ids : List String) : InstanceStore ρ := { s with index := some ids }

/-- The ids in the index, none if there is no list. -/
def ids : List String := s.index.getD []

/-- Take entries that are not active out of a cache, from its start, until it is small enough. -/
def evictCache (maxLoaded : ℕ) (active : List String) (cache : Dict String ℕ) : Dict String ℕ :=
  let extra := cache.entries.length - maxLoaded
  let evicted := ((cache.keys.filter (· ∉ active)).take extra)
  evicted.foldl Dict.erase cache

/-- Put an object at the end of the cache of the manager. -/
def managerPut (limits : InstanceLimits ρ) (i : String) (o : ℕ) : InstanceStore ρ :=
  { s with managerCache :=
      evictCache limits.maxLoaded s.active ((s.managerCache.erase i).set i o) }

/-- Whether an instance can be marked as active. -/
def canMarkActive (limits : InstanceLimits ρ) (i : String) : Bool :=
  i ∈ s.active ∨ s.active.length < limits.maxActive

/-- Mark an instance as active. -/
def markActive (i : String) : InstanceStore ρ :=
  { s with active := if i ∈ s.active then s.active else s.active ++ [i] }

/-- Mark an instance as not active. -/
def releaseActive (i : String) : InstanceStore ρ := { s with active := s.active.filter (· ≠ i) }

/-- Mark what an update has left as active or not; nothing is marked beyond the limit. -/
def afterUpdate (limits : InstanceLimits ρ) (i : String) (o : ℕ) : InstanceStore ρ :=
  if (s.objects[o]?).any fun object => limits.terminal object.2 then s.releaseActive i
  else if s.canMarkActive limits i then s.markActive i
  else s

end InstanceStore

namespace InstanceProc

variable {ρ : Type}

/-- What follows when an object is found: an update changes it, and a get returns it. -/
def found (i : String) (o : ℕ) : Option (ρ → ρ) → InstanceProc ρ
  | some f => .change i o f
  | none => .cachePut i o .get none

/-- Begin a saving: put the object into the cache of the repository. -/
def beginSave (s : InstanceStore ρ) (i : String) (o : ℕ) (use : InstanceUse) :
    InstanceStore ρ × InstanceProc ρ :=
  ((((s.cacheSet i o).hold i o).mark (.saving i)), .storeRecord i o use s.log.length)

/-- Put an object into the cache of the manager and return it, unless it is new and there are too
many active instances. -/
def finish (limits : InstanceLimits ρ) (s : InstanceStore ρ) (i : String) (o : ℕ) :
    InstanceUse → InstanceStore ρ × InstanceProc ρ
  | .get | .save => (s.managerPut limits i o, .returned (some o))
  | .create =>
    let s := s.managerPut limits i o
    if s.canMarkActive limits i then (s.markActive i, .returned (some o)) else (s, .returned none)
  | .update => ((s.managerPut limits i o).afterUpdate limits i o, .returned (some o))

/-- The next step of a call. -/
def move (limits : InstanceLimits ρ) (s : InstanceStore ρ) :
    InstanceProc ρ → Option (InstanceStore ρ × InstanceProc ρ)
  | start (.get i) =>
    match s.managerCache.get? i with
    | some o => some ({ s.hold i o with managerCache := (s.managerCache.erase i).set i o },
        .returned (some o))
    | none => some (s, lookup i none)
  | start (.create i content) =>
    some (beginSave (s.newObject i content) i s.objects.length .create)
  | start (.update i f) => some (s, lookup i (some f))
  | start (.save o) => (s.objects[o]?).map fun object => beginSave s object.1 o .save
  | start (.delete i) =>
    some (({ s with cache := s.cache.erase i, held := s.held.filter (·.1 ≠ i) } :
      InstanceStore ρ).mark (.deleting i), dropRecord i s.log.length)
  | lookup i f =>
    match s.cache.get? i with
    | some o => some (s.hold i o, found i o f)
    | none => some (s, load i f)
  | load i f =>
    match s.records.get? i with
    | some content => some (s, put i content f)
    | none => some (s, returned none)
  | put i content f =>
    let o := s.objects.length
    some ((((s.newObject i content).cacheSet i o).hold i o), found i o f)
  | change i o f =>
    some ({ s with objects := s.objects.modify o (Prod.map id f) }, cacheObject i o)
  | cacheObject i o => some (beginSave s i o .update)
  | storeRecord i o use since =>
    some ({ s with records := s.records.setSome i ((s.objects[o]?).map Prod.snd) },
      readIndex i o use since)
  | readIndex i o use since =>
    some (s, if i ∈ s.ids then cachePut i o use (some since) else writeIndex i o s.ids use since)
  | writeIndex i o ids use since => some (s.setIndex (ids ++ [i]), cachePut i o use (some since))
  | cachePut i o use since =>
    let out := finish limits s i o use
    some (since.elim out.1 fun n => out.1.mark (.saved i n), out.2)
  | dropRecord i since => some ({ s with records := s.records.erase i }, readDrop i since)
  | readDrop i since =>
    some (s, s.index.elim (dropObject i since) fun ids => writeDrop i ids since)
  | writeDrop i ids since => some (s.setIndex (ids.filter (· ≠ i)), dropObject i since)
  | dropObject i since =>
    some ((({ s with managerCache := s.managerCache.erase i } : InstanceStore ρ).releaseActive
      i).mark (.deleted i since), returned none)
  | returned _ => none

/-- The instance that a call is saving. -/
def saves (i : String) : InstanceProc ρ → Bool
  | storeRecord i' _ _ _ | readIndex i' _ _ _ | writeIndex i' _ _ _ _ => i' = i
  | cachePut i' _ _ since => since.isSome && i' = i
  | _ => false

/-- The instance that a call is deleting. -/
def deletes (i : String) : InstanceProc ρ → Bool
  | dropRecord i' _ | readDrop i' _ | writeDrop i' _ _ | dropObject i' _ => i' = i
  | _ => false

end InstanceProc

end PalmEngine.Persistence
