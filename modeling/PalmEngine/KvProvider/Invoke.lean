import PalmEngine.Resource.DocumentStorage

/-!
# The key-value provider

The provider gets, puts, deletes and lists values by namespace and logical key, in the process
memory or in the storage of the host. An action that the provider refuses and one that raises leave
what was done before them.
-/

namespace PalmEngine.KvProvider

open PalmEngine.Lib PalmEngine.Storage PalmEngine.Resource

/-- The actions of the provider, and any other name. -/
inductive KvAction where
  | list
  | get
  | put
  | delete
  | other (action : Text)
  deriving DecidableEq, Repr

/-- Where the values are kept. -/
inductive KvBackendMode where
  | memory
  | storage
  deriving DecidableEq, Repr

/-- Structured parameters; the key is the one among the extras. -/
structure KvInvokeParams (V : Type*) where
  ns : Text := defaultNamespace
  backend : Text := "auto".toList
  default : Option V := none
  value : Option V := none
  pre : Text := []
  key : Text := []

/-- Why an invocation returns a failed result. -/
inductive KvRefusal where
  | storageNotOpen
  | unsupportedBackend (backend : Text)
  | keyRequired
  | valueRequired
  | unsupportedAction (action : Text)
  deriving DecidableEq, Repr

/-- A failed result, or what an invocation raises. -/
inductive KvFailure (E : Type*) where
  | refused (refusal : KvRefusal)
  | key (error : KvKeyError)
  | storage (error : E)

/-- What an invocation returns. -/
inductive KvAnswer (V : Type*) where
  | value (found : Bool) (value : Option V) (key ns : Text) (backend : KvBackendMode)
  | written (key ns : Text) (backend : KvBackendMode)
  | deleted (deleted : Bool) (key ns : Text) (backend : KvBackendMode)
  | keys (keys : List Text) (ns pre : Text) (backend : KvBackendMode)

/-- The process memory and the storage with whether it is open. -/
structure KvHost (S V : Type*) where
  memory : Dict Key (Option V)
  storage : S
  isOpen : Bool

/-- `backend or "auto"`. -/
def backendOrAuto (backend : Text) : Text := if backend = [] then "auto".toList else backend

/-- Resolve `auto|memory|storage` to a concrete backend mode. -/
def resolveKvBackend (backend : Text) (isOpen : Bool) : Except KvRefusal KvBackendMode :=
  let normalized := (stripChars (backendOrAuto backend)).map Char.toLower
  if normalized = "memory".toList then .ok .memory
  else if normalized = "storage".toList then
    if isOpen then .ok .storage else .error .storageNotOpen
  else if normalized = "auto".toList then .ok (if isOpen then .storage else .memory)
  else .error (.unsupportedBackend backend)

/-- The key of a value. -/
def buildKey : KvBackendMode → Text → Text → Except KvKeyError Key
  | .memory => buildMemoryKey
  | .storage => buildStorageKey

/-- The prefix of a listing. -/
def buildPrefix : KvBackendMode → Text → Text → Except KvKeyError Key
  | .memory => buildMemoryPrefix
  | .storage => buildStoragePrefix

variable {S V E : Type*}

namespace KvHost

variable (b : BaseBackend S V E) (host : KvHost S V)

/-- Read a value. -/
def get (key : Key) : KvBackendMode → Outcome (KvHost S V) E (Option V)
  | .memory => (.ok (host.memory.get? key).join, host)
  | .storage =>
    let out := b.get host.storage key
    (out.1, { host with storage := out.2 })

/-- Write a value. -/
def set (key : Key) (value : V) : KvBackendMode → Outcome (KvHost S V) E Unit
  | .memory => (.ok (), { host with memory := host.memory.set key (some value) })
  | .storage =>
    let out := b.set host.storage key (some value)
    (out.1, { host with storage := out.2 })

/-- Remove a value and tell whether it was there. The storage is read first. -/
def delete (key : Key) : KvBackendMode → Outcome (KvHost S V) E Bool
  | .memory =>
    (.ok (host.memory.get? key).join.isSome, { host with memory := host.memory.erase key })
  | .storage =>
    match b.get host.storage key with
    | (.error e, s) => (.error e, { host with storage := s })
    | (.ok none, s) => (.ok false, { host with storage := s })
    | (.ok (some _), s) =>
      let out := b.delete s key
      (out.1.map fun _ => true, { host with storage := out.2 })

/-- The keys that start with a prefix, sorted. -/
def listPrefix (pre : Key) : KvBackendMode → Except E (List Key)
  | .memory => .ok (sortedKeys (host.memory.keys.filter fun key => pre <+: key))
  | .storage => b.keysWithPrefix host.storage pre

/-- The answer of a call of a store, or what it raises. -/
def answer {A : Type*} (out : Outcome (KvHost S V) E A) (f : A → KvAnswer V) :
    Outcome (KvHost S V) (KvFailure E) (KvAnswer V) :=
  ((out.1.mapError KvFailure.storage).map f, out.2)

end KvHost

section Invoke

variable (b : BaseBackend S V E) (host : KvHost S V) (params : KvInvokeParams V)

/-- Get a value, or the default. -/
def invokeGet (logicalKey : Text) (mode : KvBackendMode) :
    Outcome (KvHost S V) (KvFailure E) (KvAnswer V) :=
  match buildKey mode params.ns logicalKey with
  | .error e => (.error (.key e), host)
  | .ok key => KvHost.answer (host.get b key mode) fun
    | none => .value false params.default logicalKey params.ns mode
    | some value => .value true (some value) logicalKey params.ns mode

/-- Put a value. -/
def invokePut (logicalKey : Text) (mode : KvBackendMode) :
    Outcome (KvHost S V) (KvFailure E) (KvAnswer V) :=
  match params.value with
  | none => (.error (.refused .valueRequired), host)
  | some value =>
    match buildKey mode params.ns logicalKey with
    | .error e => (.error (.key e), host)
    | .ok key => KvHost.answer (host.set b key value mode) fun _ =>
      .written logicalKey params.ns mode

/-- Delete a value. -/
def invokeDelete (logicalKey : Text) (mode : KvBackendMode) :
    Outcome (KvHost S V) (KvFailure E) (KvAnswer V) :=
  match buildKey mode params.ns logicalKey with
  | .error e => (.error (.key e), host)
  | .ok key => KvHost.answer (host.delete b key mode) fun deleted =>
    .deleted deleted logicalKey params.ns mode

/-- List the keys of a namespace. -/
def invokeList (mode : KvBackendMode) : Outcome (KvHost S V) (KvFailure E) (KvAnswer V) :=
  match buildPrefix mode params.ns params.pre with
  | .error e => (.error (.key e), host)
  | .ok pre => KvHost.answer (host.listPrefix b pre mode, host) fun fullKeys =>
    .keys (logicalKeysFromPrefixed fullKeys pre) params.ns params.pre mode

end Invoke

/-- An invocation as it is asked for. -/
structure KvCall (V : Type*) where
  action : KvAction
  params : KvInvokeParams V := {}
  resourceId : Text := []

/-- The logical key that a call names: the resource id, or the key among the extras. -/
def KvCall.logicalKey (call : KvCall V) : Text :=
  stripChars (if call.resourceId = [] then call.params.key else call.resourceId)

/-- Invoke an action of the provider. -/
def invokeAction (b : BaseBackend S V E) (call : KvCall V) (host : KvHost S V) :
    Outcome (KvHost S V) (KvFailure E) (KvAnswer V) :=
  match resolveKvBackend call.params.backend host.isOpen with
  | .error e => (.error (.refused e), host)
  | .ok mode =>
    match call.action, call.logicalKey with
    | .list, _ => invokeList b host call.params mode
    | _, [] => (.error (.refused .keyRequired), host)
    | .get, key => invokeGet b host call.params key mode
    | .put, key => invokePut b host call.params key mode
    | .delete, key => invokeDelete b host call.params key mode
    | .other action, _ => (.error (.refused (.unsupportedAction action)), host)

/-- The host after a list of calls, whether they raised or not. -/
def KvHost.run (b : BaseBackend S V E) (host : KvHost S V) (calls : List (KvCall V)) : KvHost S V :=
  calls.foldl (fun host call => (invokeAction b call host).2) host

@[simp] theorem KvHost.run_concat (b : BaseBackend S V E) (host : KvHost S V)
    (calls : List (KvCall V)) (call : KvCall V) :
    host.run b (calls ++ [call]) = (invokeAction b call (host.run b calls)).2 := by
  rw [KvHost.run, List.foldl_append]
  rfl

end PalmEngine.KvProvider
