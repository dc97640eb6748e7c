import PalmEngine.KvProvider.Invoke
import PalmEngine.Storage.PrefixListing

/-!
# What the provider writes

Every call has at most one effect: it reads, puts or deletes the value of one name in one store.
The values of the names are what the last puts and deletions left there, and a store holds them
under the keys of the names.

The storage reads a value before it deletes it. For the memory and the filesystem backend this
makes no difference to what they hold, so a run of calls leaves what a run of plain operations
leaves; a tiered backend may remember what it has read.
-/

namespace PalmEngine.KvProvider

open PalmEngine.Lib PalmEngine.Storage PalmEngine.Resource

/-- What the keys of a store start with, before the namespace. -/
def KvBackendMode.base : KvBackendMode → Key
  | .memory => []
  | .storage => kvStoragePrefix ++ [':']

/-- The key of a name in a store. -/
def keyIn (mode : KvBackendMode) (n : KvName) : Key := mode.base ++ (n.ns ++ ':' :: n.key)

/-- The prefix of the listing of a namespace. -/
def prefixIn (mode : KvBackendMode) (ns : Text) : Key := mode.base ++ ns

section Keys

variable {mode : KvBackendMode} {n n' : KvName}

/-- The key that is built is the one of the name. -/
theorem buildKey_eq (mode : KvBackendMode) (ns key : Text) :
    buildKey mode ns key = (kvName ns key).map (keyIn mode) := by
  unfold kvName
  split
  · rename_i e hns
    cases mode <;> simp [buildKey, buildMemoryKey, buildStorageKey, hns, bind, Except.bind, Except.map]
  · rename_i ns' hns
    split
    · rename_i e hkey
      cases mode <;>
        simp [buildKey, buildMemoryKey, buildStorageKey, hns, hkey, bind, Except.bind, Except.map]
    · rename_i key' hkey
      cases mode <;>
        simp [buildKey, buildMemoryKey, buildStorageKey, hns, hkey, bind, Except.bind, Except.map,
          keyIn, KvBackendMode.base, pure, Except.pure]

/-- The prefix that is built for a whole namespace. -/
theorem buildPrefix_nil (mode : KvBackendMode) (ns : Text) :
    buildPrefix mode ns [] = (normalizeNamespace ns).map (prefixIn mode) := by
  have hbase : normalizePrefix [] = .ok [] := by decide
  cases hns : normalizeNamespace ns <;> cases mode <;>
    simp [buildPrefix, buildMemoryPrefix, buildStoragePrefix, hns, hbase, bind, Except.bind,
      Except.map, prefixIn, KvBackendMode.base, pure, Except.pure]

/-- A key tells its namespace and its logical key. -/
theorem keyIn_inj (h : keyIn mode n = keyIn mode n') : n = n' := by
  obtain ⟨hns, hkey⟩ := (framed_inj (colon_not_mem_namespace n.ns_ok)
    (colon_not_mem_namespace n'.ns_ok)).mp (List.append_cancel_left h)
  cases n
  cases n'
  cases hns
  cases hkey
  rfl

/-- A key starts with the prefix of a namespace just when its own namespace does. -/
theorem prefixIn_isPrefix {ns : Text} (h : ':' ∉ ns) :
    prefixIn mode ns <+: keyIn mode n ↔ ns <+: n.ns := by
  rw [prefixIn, keyIn, List.prefix_append_right_inj]
  refine ⟨fun hpre => ?_, fun hpre => hpre.trans (List.prefix_append _ _)⟩
  rcases List.prefix_or_prefix_of_prefix hpre (List.prefix_append n.ns _) with hns | ⟨back, rfl⟩
  · exact hns
  · rw [List.prefix_append_right_inj] at hpre
    cases back with
    | nil => simp
    | cons c back =>
      obtain ⟨rfl, -⟩ := List.cons_prefix_cons.mp hpre
      exact absurd (by simp) h

end Keys

section Effects

variable {S V E : Type*}

/-- What a call does to a store, if it is neither refused nor a listing. -/
inductive KvEffect (V : Type*) where
  | get (name : KvName)
  | put (name : KvName) (value : V)
  | delete (name : KvName)

/-- The store that a call is about and what it does there. -/
def KvCall.effect? (isOpen : Bool) (call : KvCall V) : Option (KvBackendMode × KvEffect V) :=
  match resolveKvBackend call.params.backend isOpen, kvName call.params.ns call.logicalKey with
  | .ok mode, .ok name =>
    match call.action, call.params.value with
    | .get, _ => some (mode, .get name)
    | .put, some value => some (mode, .put name value)
    | .delete, _ => some (mode, .delete name)
    | _, _ => none
  | _, _ => none

/-- The host after an effect. -/
def KvHost.after (b : BaseBackend S V E) (host : KvHost S V) :
    Option (KvBackendMode × KvEffect V) → KvHost S V
  | some (mode, .get name) => (host.get b (keyIn mode name) mode).2
  | some (mode, .put name value) => (host.set b (keyIn mode name) value mode).2
  | some (mode, .delete name) => (host.delete b (keyIn mode name) mode).2
  | none => host

/-- A name has a key that is not empty. -/
theorem ne_nil_of_kvName {ns key : Text} {n : KvName} (h : kvName ns key = .ok n) : key ≠ [] := by
  rintro rfl
  have hkey : normalizeLogicalKey [] = .error .emptyKey := by decide
  have hbuilt := buildKey_eq .memory ns []
  rw [h, buildKey, buildMemoryKey, hkey] at hbuilt
  cases hns : normalizeNamespace ns <;>
    simp [hns, bind, Except.bind, Except.map] at hbuilt

/-- An invocation leaves what its effect leaves. -/
theorem invokeAction_host (b : BaseBackend S V E) (call : KvCall V) (host : KvHost S V) :
    (invokeAction b call host).2 = host.after b (call.effect? host.isOpen) := by
  unfold invokeAction KvCall.effect?
  cases resolveKvBackend call.params.backend host.isOpen with
  | error e => rfl
  | ok mode =>
    cases hname : kvName call.params.ns call.logicalKey with
    | error e =>
      have hkey : buildKey mode call.params.ns call.logicalKey = .error e := by
        rw [buildKey_eq, hname]
        rfl
      cases hlogical : call.logicalKey <;> rw [hlogical] at hkey <;> cases haction : call.action <;>
        simp only [invokeGet, invokePut, invokeDelete, hkey, KvHost.after]
      all_goals
        first
        | (unfold invokeList; split <;> rfl)
        | (split <;> rfl)
    | ok n =>
      have hkey : buildKey mode call.params.ns call.logicalKey = .ok (keyIn mode n) := by
        rw [buildKey_eq, hname]
        rfl
      obtain ⟨c, rest, hlogical⟩ := List.exists_cons_of_ne_nil (ne_nil_of_kvName hname)
      rw [hlogical] at hkey ⊢
      cases haction : call.action with
      | list =>
        simp only [KvHost.after, invokeList]
        split <;> rfl
      | get =>
        simp only [invokeGet, hkey]
        rfl
      | put =>
        cases hvalue : call.params.value <;> simp only [invokePut, hvalue, hkey] <;> rfl
      | delete =>
        simp only [invokeDelete, hkey]
        rfl
      | other action => rfl

end Effects

section Writes

variable {V : Type*}

/-- What an effect writes: a name and its value, or none where it deletes. -/
def KvEffect.write? : KvEffect V → Option (KvName × Option V)
  | .get _ => none
  | .put name value => some (name, some value)
  | .delete name => some (name, none)

/-- What a call writes in a store. -/
def KvCall.write? (isOpen : Bool) (mode : KvBackendMode) (call : KvCall V) :
    Option (KvName × Option V) :=
  (call.effect? isOpen).bind fun effect => if effect.1 = mode then effect.2.write? else none

/-- What a list of calls writes in a store. -/
def KvCall.writes (isOpen : Bool) (mode : KvBackendMode) (calls : List (KvCall V)) :
    List (KvName × Option V) :=
  calls.filterMap (write? isOpen mode)

/-- The values that writes leave, by namespace and logical key: the last write to a name wins. -/
def written (writes : List (KvName × Option V)) : Text × Text → Option V :=
  writes.foldl (fun values w => Function.update values (w.1.ns, w.1.key) w.2) fun _ => none

/-- A write as an operation on the keys of a store. -/
def toOp (mode : KvBackendMode) : KvName × Option V → MapOp Key (Option V)
  | (n, some value) => .set (keyIn mode n) (some value)
  | (n, none) => .delete (keyIn mode n)

/-- Writes as operations on the keys of a store. -/
def toOps (mode : KvBackendMode) (writes : List (KvName × Option V)) :
    List (MapOp Key (Option V)) :=
  writes.map (toOp mode)

@[simp] theorem key_toOp (mode : KvBackendMode) (w : KvName × Option V) :
    (toOp mode w).key = keyIn mode w.1 := by
  obtain ⟨n, _ | value⟩ := w <;> rfl

@[simp] theorem written_toOp (mode : KvBackendMode) (w : KvName × Option V) :
    (toOp mode w).written = w.2.map some := by
  obtain ⟨n, _ | value⟩ := w <;> rfl

variable {mode : KvBackendMode} {writes : List (KvName × Option V)}

/-- A store holds the value of a name at its key. -/
theorem lastWrite_toOps (mode : KvBackendMode) (writes : List (KvName × Option V)) (n : KvName) :
    lastWrite (toOps mode writes) (keyIn mode n) = (written writes (n.ns, n.key)).map some := by
  induction writes using List.reverseRecOn with
  | nil => rfl
  | append_singleton writes w ih =>
    rw [toOps, List.map_append, List.map_singleton, lastWrite_concat, written, List.foldl_append]
    by_cases heq : n = w.1
    · rw [heq, ← key_toOp mode w, writeTo_self, written_toOp]
      simp
    · have hkey : keyIn mode n ≠ (toOp mode w).key := by
        rw [key_toOp]
        exact fun h => heq (keyIn_inj h)
      have hpair : (n.ns, n.key) ≠ (w.1.ns, w.1.key) := fun h =>
        heq (@keyIn_inj mode _ _ (by rw [keyIn, keyIn, (Prod.mk.inj h).1, (Prod.mk.inj h).2]))
      rw [writeTo_of_ne _ _ hkey]
      refine ih.trans (congrArg _ ?_)
      exact (Function.update_of_ne hpair _ _).symm

/-- A store holds only keys of names that were written. -/
theorem known_of_lastWrite {k : Key} (h : (lastWrite (toOps mode writes) k).isSome) :
    ∃ w ∈ writes, k = keyIn mode w.1 := by
  induction writes using List.reverseRecOn with
  | nil => cases h
  | append_singleton writes w ih =>
    rw [toOps, List.map_append, List.map_singleton, lastWrite_concat] at h
    by_cases heq : k = (toOp mode w).key
    · exact ⟨w, by simp, by rw [heq, key_toOp]⟩
    · rw [writeTo_of_ne _ _ heq] at h
      obtain ⟨w', hw', hk⟩ := ih h
      exact ⟨w', List.mem_append_left _ hw', hk⟩

/-- Only names that were written have a value. -/
theorem known_of_written {p : Text × Text} (h : (written writes p).isSome) :
    ∃ w ∈ writes, p = (w.1.ns, w.1.key) := by
  induction writes using List.reverseRecOn with
  | nil => cases h
  | append_singleton writes w ih =>
    rw [written, List.foldl_append] at h
    by_cases heq : p = (w.1.ns, w.1.key)
    · exact ⟨w, by simp, heq⟩
    · obtain ⟨w', hw', hp⟩ := ih (by
        rw [← h]
        exact congrArg Option.isSome (Function.update_of_ne heq _ _).symm)
      exact ⟨w', List.mem_append_left _ hw', hp⟩

end Writes

section Runs

variable {S V E : Type*} {b : BaseBackend S V E} {isOpen : Bool} {mode : KvBackendMode}

/-- The name that a call is about is in use. -/
def KvCall.Names (U : KvName → Prop) (call : KvCall V) : Prop :=
  ∀ n, kvName call.params.ns call.logicalKey = .ok n → U n

/-- The name that an effect is about. -/
def KvEffect.name : KvEffect V → KvName
  | .get name | .put name _ | .delete name => name

/-- An effect is about the name of its call. -/
theorem name_of_effect? {call : KvCall V} {e : KvEffect V}
    (h : call.effect? isOpen = some (mode, e)) :
    kvName call.params.ns call.logicalKey = .ok e.name := by
  unfold KvCall.effect? at h
  split at h
  · rename_i n _ hname
    split at h <;> cases h <;> exact hname
  · cases h

/-- A write is about the name of its call. -/
theorem name_of_write? {call : KvCall V} {w : KvName × Option V}
    (h : call.write? isOpen mode = some w) :
    kvName call.params.ns call.logicalKey = .ok w.1 := by
  obtain ⟨⟨m, e⟩, heffect, hwrite⟩ := Option.bind_eq_some_iff.mp h
  rw [name_of_effect? heffect]
  split at hwrite
  · cases e <;> cases hwrite <;> rfl
  · cases hwrite

/-- The writes of calls that name what is in use are about names in use. -/
theorem names_of_writes {U : KvName → Prop} {calls : List (KvCall V)}
    (h : ∀ call ∈ calls, call.Names U) : ∀ w ∈ KvCall.writes isOpen mode calls, U w.1 := by
  intro w hw
  obtain ⟨call, hcall, hwrite⟩ := List.mem_filterMap.mp hw
  exact h call hcall w.1 (name_of_write? hwrite)

/-- One more call may make one more write. -/
theorem run_writes_concat (s : S) (calls : List (KvCall V)) (call : KvCall V) :
    b.run s (toOps mode (KvCall.writes isOpen mode (calls ++ [call]))) =
      (call.write? isOpen mode).elim id (fun w s => b.apply s (toOp mode w))
        (b.run s (toOps mode (KvCall.writes isOpen mode calls))) := by
  rw [KvCall.writes, List.filterMap_append]
  cases hwrite : call.write? isOpen mode with
  | none => simp [hwrite, KvCall.writes]
  | some w =>
    rw [List.filterMap_cons_some hwrite, List.filterMap_nil, toOps, List.map_append,
      List.map_singleton, BaseBackend.run_concat]
    rfl

/-- One more call may make one more write to the map. -/
theorem lastWrite_writes_concat (calls : List (KvCall V)) (call : KvCall V) :
    lastWrite (toOps mode (KvCall.writes isOpen mode (calls ++ [call]))) =
      (call.write? isOpen mode).elim id (fun w m => writeTo m (toOp mode w))
        (lastWrite (toOps mode (KvCall.writes isOpen mode calls))) := by
  rw [KvCall.writes, List.filterMap_append]
  cases hwrite : call.write? isOpen mode with
  | none => simp [hwrite, KvCall.writes]
  | some w =>
    rw [List.filterMap_cons_some hwrite, List.filterMap_nil, toOps, List.map_append,
      List.map_singleton, lastWrite_concat]
    rfl

/-- A call neither opens nor closes the storage. -/
theorem run_isOpen (host : KvHost S V) (calls : List (KvCall V)) :
    (host.run b calls).isOpen = host.isOpen := by
  induction calls using List.reverseRecOn with
  | nil => rfl
  | append_singleton calls call ih =>
    rw [KvHost.run_concat, invokeAction_host, ← ih]
    generalize host.run b calls = host'
    rcases call.effect? host'.isOpen with - | ⟨_ | _, _ | _ | _⟩ <;> try rfl
    simp only [KvHost.after, KvHost.delete]
    split <;> rfl

/-- The process memory takes the writes like a memory backend. -/
theorem run_memory (host : KvHost S V) (calls : List (KvCall V)) :
    (host.run b calls).memory = (memoryBackend V E).run host.memory
      (toOps .memory (KvCall.writes host.isOpen .memory calls)) := by
  induction calls using List.reverseRecOn with
  | nil => rfl
  | append_singleton calls call ih =>
    rw [KvHost.run_concat, invokeAction_host, run_isOpen, run_writes_concat, ← ih, KvCall.write?]
    rcases call.effect? host.isOpen with - | ⟨_ | _, _ | _ | _⟩ <;> try rfl
    simp only [KvHost.after, KvHost.delete]
    split <;> rfl

/-- A backend whose reads change nothing, and whose deletions change nothing where a read finds no
value, as long as no nothing is stored as a value. -/
structure DeletesFound (b : BaseBackend S V E) (Kept : S → Prop) : Prop where
  get_state : ∀ s k, (b.get s k).2 = s
  set : ∀ s k v, Kept s → Kept (b.set s k (some v)).2
  delete : ∀ s k, Kept s → Kept (b.delete s k).2
  delete_missing : ∀ s k, Kept s → (∀ v, (b.get s k).1 ≠ .ok (some v)) → (b.delete s k).2 = s

/-- The deletion that reads first leaves what the deletion leaves. -/
theorem DeletesFound.after_delete {Kept : S → Prop} (hb : DeletesFound b Kept) {host : KvHost S V}
    (h : Kept host.storage) (k : Key) :
    (host.delete b k .storage).2.storage = (b.delete host.storage k).2 := by
  have hstate := hb.get_state host.storage k
  have hmissing := hb.delete_missing host.storage k h
  rw [KvHost.delete]
  rcases hget : b.get host.storage k with ⟨e | (- | v), s⟩ <;> rw [hget] at hstate hmissing <;>
    cases hstate
  · exact (hmissing fun v => (by simp)).symm
  · exact (hmissing fun v => (by simp)).symm
  · rfl

/-- A backend that deletes what it finds takes the writes as operations on its keys. -/
theorem DeletesFound.run_storage {Kept : S → Prop} (hb : DeletesFound b Kept) {host : KvHost S V}
    (h : Kept host.storage) (calls : List (KvCall V)) :
    Kept (host.run b calls).storage ∧ (host.run b calls).storage = b.run host.storage
      (toOps .storage (KvCall.writes host.isOpen .storage calls)) := by
  induction calls using List.reverseRecOn with
  | nil => exact ⟨h, rfl⟩
  | append_singleton calls call ih =>
    obtain ⟨hkept, ih⟩ := ih
    rw [KvHost.run_concat, invokeAction_host, run_isOpen, run_writes_concat, ← ih, KvCall.write?]
    rcases call.effect? host.isOpen with - | ⟨_ | _, _ | _ | _⟩
    · exact ⟨hkept, rfl⟩
    · exact ⟨hkept, rfl⟩
    · exact ⟨hkept, rfl⟩
    · exact ⟨hkept, rfl⟩
    · rename_i name
      have hstate := hb.get_state (host.run b calls).storage (keyIn .storage name)
      refine ⟨?_, hstate⟩
      change Kept (b.get (host.run b calls).storage (keyIn .storage name)).2
      rwa [hstate]
    · exact ⟨hb.set _ _ _ hkept, rfl⟩
    · rename_i name
      refine ⟨?_, hb.after_delete hkept _⟩
      exact (hb.after_delete hkept (keyIn .storage name)).symm ▸ hb.delete _ _ hkept

/-- The memory backend deletes what it finds. -/
theorem memory_deletesFound :
    DeletesFound (memoryBackend V E) fun d => ∀ k, d.get? k ≠ some none where
  get_state _ _ := rfl
  set d k v h i := by
    by_cases hi : i = k
    · subst hi
      rw [memoryBackend, Dict.get?_set_self]
      simp
    · rw [memoryBackend, Dict.get?_set_ne _ _ hi]
      exact h i
  delete d k h i := by
    rw [memoryBackend, Dict.get?_erase]
    split
    · simp
    · exact h i
  delete_missing d k h hmissing := by
    refine Dict.erase_of_not_mem fun hmem => ?_
    obtain ⟨value, hvalue⟩ := (Dict.mem_keys_iff d k).mp hmem
    cases value with
    | none => exact h k hvalue
    | some v => exact hmissing v (by simp [memoryBackend, hvalue])

/-- A path that is unlinked without being a file leaves the tree, and a directory ends the
unlinking. -/
theorem unlinkAll_of_not_found {t : DataDir V} {key : Key} {paths : List RelPath} {path : RelPath}
    {refusal : Refusal} (hunlink : t.unlink path = .error refusal)
    (h : refusal = .notFound → (DataDir.unlinkAll key t paths).2 = t) :
    (DataDir.unlinkAll key t (path :: paths)).2 = t := by
  rw [DataDir.unlinkAll, hunlink]
  cases refusal with
  | notFound => exact h rfl
  | notADirectory => rfl
  | isADirectory => rfl

/-- Deleting a file leaves the other files. -/
theorem unlinkAll_get? {t : DataDir V} {key : Key} {paths : List RelPath} {p : RelPath}
    {value : Option V} (h : (DataDir.unlinkAll key t paths).2.files.get? p = some value) :
    t.files.get? p = some value := by
  induction paths generalizing t with
  | nil => exact h
  | cons path rest ih =>
    rw [DataDir.unlinkAll] at h
    split at h
    · rename_i removed hunlink
      have hkept := ih h
      rw [(DataDir.of_unlink_ok hunlink).1, Dict.get?_erase] at hkept
      split at hkept
      · cases hkept
      · exact hkept
    · exact ih h
    · exact h

/-- The filesystem backend deletes what it finds. -/
theorem filesystem_deletesFound (beyond : DataDir V → Key → Except StorageError (List Key)) :
    DeletesFound (filesystemBackend beyond) fun t => ∀ p, t.files.get? p ≠ some none where
  get_state _ _ := rfl
  set t k v h p := by
    by_cases haccepted : Accepted k
    · change (t.set k (some v)).2.files.get? p ≠ some none
      rw [DataDir.set_accepted t haccepted]
      by_cases hfree : t.Free (modernPath k)
      · obtain ⟨u, hu, hfiles, -⟩ := DataDir.atomicWrite_free hfree (some v)
        rw [hu, hfiles]
        by_cases hp : p = modernPath k
        · subst hp
          rw [Dict.get?_set_self]
          simp
        · rw [Dict.get?_set_ne _ _ hp]
          exact h p
      · obtain ⟨e, u, hu, hfiles, -⟩ :=
          DataDir.atomicWrite_blocked hfree (modernPath_ne_nil haccepted.1) (some v)
        rw [hu, hfiles]
        exact h p
    · obtain ⟨e, he⟩ := DataDir.set_rejected t haccepted (some v)
      change (t.set k (some v)).2.files.get? p ≠ some none
      rw [he]
      exact h p
  delete t k h p hvalue := by
    change (t.delete k).2.files.get? p = some none at hvalue
    rw [DataDir.delete] at hvalue
    split at hvalue
    · exact h p hvalue
    · exact h p (unlinkAll_get? hvalue)
  delete_missing t k h hmissing := by
    change (t.delete k).2 = t
    have hread : ∀ {path : RelPath}, path ∈ t.files.keys → ∃ v, t.read path = .ok (some v) := by
      intro path hmem
      obtain ⟨value, hvalue⟩ := (Dict.mem_keys_iff _ _).mp hmem
      cases value with
      | none => exact absurd hvalue (h path)
      | some v => exact ⟨v, by rw [FileTree.read, hvalue]⟩
    have hget : ∀ v, t.get k ≠ .ok (some v) := hmissing
    rw [DataDir.delete]
    split
    · rfl
    · rename_i paths hpaths
      obtain ⟨haccepted, hlegacy⟩ := accepted_of_candidatePaths hpaths
      rw [candidatePaths_ok haccepted hlegacy] at hpaths
      cases hpaths
      simp only [DataDir.get, candidatePaths_ok haccepted hlegacy] at hget
      have hmodern : modernPath k ∉ t.files.keys := fun hmem => by
        obtain ⟨v, hv⟩ := hread hmem
        exact hget v (by simp [FileTree.Exists, hmem, hv])
      refine unlinkAll_of_not_found (if_neg hmodern) fun hrefusal => ?_
      have hdir : modernPath k ∉ t.dirs := fun hmem => by
        rw [if_pos hmem] at hrefusal
        cases hrefusal
      have hflat : [k] ∉ t.files.keys := fun hmem => by
        obtain ⟨v, hv⟩ := hread hmem
        exact hget v (by simp [FileTree.Exists, hmem, hv, hmodern, hdir])
      exact unlinkAll_of_not_found (if_neg hflat) fun _ => rfl

end Runs

section Tiers

variable {S V E : Type*} {cold : BaseBackend S V E} {hotMaxKeys : ℕ} {Kept : S → Prop}
  {U : KvName → Prop} {pre : Key}

/-- A tiered get leaves the cold tier, and remembers what it finds there. -/
theorem tiered_get_spec (hb : DeletesFound cold Kept) (t : Tiered S V) (k : Key) :
    ((tieredBackend cold hotMaxKeys).get t k).2.cold = t.cold ∧
      ∀ i v, ((tieredBackend cold hotMaxKeys).get t k).2.hot.get? i = some v →
        t.hot.get? i = some v ∨
          (i = k ∧ ∃ value, v = some value ∧ (cold.get t.cold k).1 = .ok (some value)) := by
  have hstate := hb.get_state t.cold k
  cases hhot : t.hot.get? k with
  | some value =>
    simp only [tieredBackend, hhot]
    exact ⟨rfl, fun i v hv => .inl hv⟩
  | none =>
    rcases hget : cold.get t.cold k with ⟨e | (- | value), c⟩ <;> rw [hget] at hstate <;>
      cases hstate
    · simp only [tieredBackend, hhot, hget]
      exact ⟨trivial, fun i v hv => .inl hv⟩
    · simp only [tieredBackend, hhot, hget]
      exact ⟨trivial, fun i v hv => .inl hv⟩
    · simp only [tieredBackend, hhot, hget]
      refine ⟨by simp [Tiered.remember, Tiered.touch], fun i v hv => ?_⟩
      rcases Tiered.get?_remember hv with ⟨hi, hvalue⟩ | ⟨-, hv⟩
      · exact .inr ⟨hi, value, hvalue, rfl⟩
      · exact .inl hv

/-- A tiered set sets in the cold tier, and may remember the value. -/
theorem tiered_set_spec (t : Tiered S V) (k : Key) (value : Option V) :
    ((tieredBackend cold hotMaxKeys).set t k value).2.cold = (cold.set t.cold k value).2 ∧
      ∀ i v, ((tieredBackend cold hotMaxKeys).set t k value).2.hot.get? i = some v →
        t.hot.get? i = some v ∨ (i = k ∧ v = value) := by
  rcases hset : cold.set t.cold k value with ⟨e | ⟨⟨⟩⟩, c⟩
  · simp only [tieredBackend, hset]
    exact ⟨trivial, fun i v hv => .inl hv⟩
  · simp only [tieredBackend, hset]
    refine ⟨by simp [Tiered.remember, Tiered.touch], fun i v hv => ?_⟩
    rcases Tiered.get?_remember hv with hkey | ⟨-, hv⟩
    · exact .inr hkey
    · exact .inl hv

/-- A deletion that reads first deletes from both tiers, if the hot one holds no nothing. -/
theorem tiered_delete_spec (hb : DeletesFound cold Kept) {host : KvHost (Tiered S V) V}
    (hkept : Kept host.storage.cold) (k : Key) (hhot : host.storage.hot.get? k ≠ some none) :
    (host.delete (tieredBackend cold hotMaxKeys) k .storage).2.storage.cold =
        (cold.delete host.storage.cold k).2 ∧
      ∀ i v, (host.delete (tieredBackend cold hotMaxKeys) k .storage).2.storage.hot.get? i = some v →
        i ≠ k ∧ host.storage.hot.get? i = some v := by
  have hstate := hb.get_state host.storage.cold k
  have hmissing := hb.delete_missing host.storage.cold k hkept
  cases hvalue : host.storage.hot.get? k with
  | some value =>
    cases value with
    | none => exact absurd hvalue hhot
    | some value =>
      simp only [KvHost.delete, tieredBackend, hvalue]
      exact ⟨rfl, fun i v hv => Tiered.get?_forget hv⟩
  | none =>
    have hne : ∀ i v, host.storage.hot.get? i = some v → i ≠ k := fun i v hv heq => by
      rw [heq, hvalue] at hv
      cases hv
    rcases hget : cold.get host.storage.cold k with ⟨e | (- | value), c⟩ <;>
      rw [hget] at hstate hmissing <;> cases hstate
    · simp only [KvHost.delete, tieredBackend, hvalue, hget]
      exact ⟨(hmissing fun v => (by simp)).symm, fun i v hv => ⟨hne i v hv, hv⟩⟩
    · simp only [KvHost.delete, tieredBackend, hvalue, hget]
      exact ⟨(hmissing fun v => (by simp)).symm, fun i v hv => ⟨hne i v hv, hv⟩⟩
    · simp only [KvHost.delete, tieredBackend, hvalue, hget]
      refine ⟨by simp [Tiered.remember, Tiered.touch, Tiered.forget], fun i v hv => ?_⟩
      obtain ⟨hi, hv⟩ := Tiered.get?_forget hv
      refine ⟨hi, ?_⟩
      rcases Tiered.get?_remember hv with ⟨heq, -⟩ | ⟨-, hv⟩
      · exact absurd heq hi
      · exact hv

/-- What the hot tier holds next to the values of the stored keys: no nothing, only keys of names
in use, and of those with the prefix only stored ones. -/
def HotKnown (U : KvName → Prop) (pre : Key) (m : Key → Option (Option V))
    (hot : Dict Key (Option V)) : Prop :=
  ∀ k v, hot.get? k = some v →
    v ≠ none ∧ (∃ n, U n ∧ k = keyIn .storage n) ∧ (pre <+: k → (m k).isSome)

/-- The reads of a cold tier find, of the keys with the prefix, only stored ones. -/
def ReadsStored (cold : BaseBackend S V E) (start : S) (U : KvName → Prop) (pre : Key) : Prop :=
  ∀ writes : List (KvName × Option V), (∀ w ∈ writes, U w.1) → ∀ n, U n →
    pre <+: keyIn .storage n → ∀ value,
    (cold.get (cold.run start (toOps .storage writes)) (keyIn .storage n)).1 = .ok (some value) →
      (lastWrite (toOps .storage writes) (keyIn .storage n)).isSome

/-- A tiered backend takes the writes in its cold tier, and its hot tier knows the stored keys. -/
theorem tiered_run (hb : DeletesFound cold Kept) {start : S} (hstart : Kept start)
    (hread : ReadsStored cold start U pre) (isOpen : Bool) {calls : List (KvCall V)}
    (hcalls : ∀ call ∈ calls, call.Names U) (memory : Dict Key (Option V)) :
    let writes := KvCall.writes isOpen .storage calls
    let tiers := (KvHost.run (tieredBackend cold hotMaxKeys) ⟨memory, .start start, isOpen⟩
      calls).storage
    Kept tiers.cold ∧ tiers.cold = cold.run start (toOps .storage writes) ∧
      HotKnown U pre (lastWrite (toOps .storage writes)) tiers.hot := by
  induction calls using List.reverseRecOn with
  | nil => exact ⟨hstart, rfl, fun k v hv => (by cases hv)⟩
  | append_singleton calls call ih =>
    have hin : ∀ c ∈ calls, c.Names U := fun c hc => hcalls c (List.mem_append_left _ hc)
    have hnames : call.Names U := hcalls call (by simp)
    obtain ⟨hkept, hcold, hhot⟩ := ih hin
    dsimp only
    rw [KvHost.run_concat, invokeAction_host, run_isOpen, run_writes_concat,
      lastWrite_writes_concat, KvCall.write?]
    cases heffect : call.effect? isOpen with
    | none => exact ⟨hkept, hcold, hhot⟩
    | some effect =>
      obtain ⟨mode, e⟩ := effect
      have hname : U e.name := hnames _ (name_of_effect? heffect)
      cases mode with
      | memory =>
        have hstorage : ∀ b : BaseBackend (Tiered S V) V E, ∀ host : KvHost (Tiered S V) V,
            (host.after b (some (.memory, e))).storage = host.storage := fun b host => by
          cases e <;> rfl
        simp only [hstorage]
        exact ⟨hkept, hcold, hhot⟩
      | storage =>
        generalize KvHost.run (tieredBackend cold hotMaxKeys) ⟨memory, .start start, isOpen⟩
          calls = host at *
        cases e with
        | get n =>
          obtain ⟨hsame, hfound⟩ := @tiered_get_spec S V E cold hotMaxKeys Kept hb host.storage
            (keyIn .storage n)
          refine ⟨?_, hsame.trans hcold, fun k v hv => ?_⟩
          · exact hsame.symm ▸ hkept
          · rcases hfound k v hv with hold | ⟨rfl, value, rfl, hget⟩
            · exact hhot k v hold
            · rw [hcold] at hget
              exact ⟨by simp, ⟨n, hname, rfl⟩, fun hpre =>
                hread _ (names_of_writes hin) n hname hpre value hget⟩
        | put n value =>
          obtain ⟨hset, hfound⟩ := @tiered_set_spec S V E cold hotMaxKeys host.storage (keyIn .storage n) (some value)
          refine ⟨?_, hset.trans (by rw [hcold]; rfl), fun k v hv => ?_⟩
          · exact hset.symm ▸ hb.set _ _ _ hkept
          · by_cases hk : k = keyIn .storage n
            · subst hk
              have hstored : (writeTo (lastWrite (toOps .storage
                  (KvCall.writes isOpen .storage calls))) (toOp .storage (n, some value))
                  (keyIn .storage n)).isSome := congrArg Option.isSome (writeTo_self _ _)
              rcases hfound _ v hv with hold | ⟨-, rfl⟩
              · exact ⟨(hhot _ v hold).1, ⟨n, hname, rfl⟩, fun _ => hstored⟩
              · exact ⟨by simp, ⟨n, hname, rfl⟩, fun _ => hstored⟩
            · rcases hfound k v hv with hold | ⟨heq, -⟩
              · refine ⟨(hhot k v hold).1, (hhot k v hold).2.1, fun hpre => ?_⟩
                change (writeTo _ (toOp .storage (n, some value)) k).isSome
                rw [writeTo_of_ne _ _ hk]
                exact (hhot k v hold).2.2 hpre
              · exact absurd heq hk
        | delete n =>
          obtain ⟨hdelete, hfound⟩ := @tiered_delete_spec S V E cold hotMaxKeys Kept hb host hkept
            (keyIn .storage n) fun hnone => (hhot _ _ hnone).1 rfl
          refine ⟨?_, hdelete.trans (by rw [hcold]; rfl), fun k v hv => ?_⟩
          · exact hdelete.symm ▸ hb.delete _ _ hkept
          · obtain ⟨hk, hold⟩ := hfound k v hv
            refine ⟨(hhot k v hold).1, (hhot k v hold).2.1, fun hpre => ?_⟩
            change (writeTo _ (toOp .storage (n, none)) k).isSome
            rw [writeTo_of_ne _ _ hk]
            exact (hhot k v hold).2.2 hpre

end Tiers

end PalmEngine.KvProvider
