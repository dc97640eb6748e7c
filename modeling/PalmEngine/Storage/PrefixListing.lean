import PalmEngine.Storage.KeyValueMap
import PalmEngine.Storage.Tiered

/-!
# When the backends list the same keys

The memory backend lists the stored keys that start with a prefix as a string, and the tiered
backend does when its cold backend does. The filesystem backend walks the directory that the
segments of the prefix name. It agrees exactly when, for the keys in use, starting with the
prefix means lying below that directory and a key with the prefix can be told from its path.
-/

namespace PalmEngine.Storage

open PalmEngine.Lib

section Agreement

variable {S V E : Type*}

/-- After the writes the backend lists exactly the stored keys that start with the prefix. -/
def ListsExactly (b : BaseBackend S V E) (start : S) (ops : List (MapOp Key (Option V)))
    (pre : Key) : Prop :=
  ∃ keys, b.keysWithPrefix (b.run start ops) pre = .ok keys ∧ IsListing (lastWrite ops) pre keys

/-- After the writes all backends list exactly the stored keys that start with the prefix. -/
structure ListingsAgree (beyond : DataDir V → Key → Except StorageError (List Key))
    (hotMaxKeys : ℕ) (ops : List (MapOp Key (Option V))) (pre : Key) : Prop where
  memory : ListsExactly (memoryBackend V StorageError) .empty ops pre
  filesystem : ListsExactly (filesystemBackend beyond) .empty ops pre
  tieredMemory : ListsExactly (tieredBackend (memoryBackend V StorageError) hotMaxKeys)
    (.start .empty) ops pre
  tieredFilesystem : ListsExactly (tieredBackend (filesystemBackend beyond) hotMaxKeys)
    (.start .empty) ops pre

/-- The backends agree when the filesystem backend lists exactly. -/
theorem listingsAgree_iff (beyond : DataDir V → Key → Except StorageError (List Key))
    (hotMaxKeys : ℕ) (ops : List (MapOp Key (Option V))) (pre : Key) :
    ListingsAgree beyond hotMaxKeys ops pre ↔
      ListsExactly (filesystemBackend beyond) .empty ops pre := by
  refine ⟨ListingsAgree.filesystem, fun h => ?_⟩
  have hmemory : ListsExactly (memoryBackend V StorageError) .empty ops pre :=
    memory_isListing V StorageError ops pre
  obtain ⟨keys, hkeys, hlisting⟩ := h
  obtain ⟨mkeys, hmkeys, hmlisting⟩ := hmemory
  exact ⟨⟨mkeys, hmkeys, hmlisting⟩, ⟨keys, hkeys, hlisting⟩,
    tiered_isListing _ hotMaxKeys hmkeys hmlisting, tiered_isListing _ hotMaxKeys hkeys hlisting⟩

end Agreement

/-- For the keys `K` the directory tells which of them start with the prefix: those are accepted,
told from their paths and not blocked by the file of another key. -/
structure Listable (K : Key → Prop) (pre : Key) (dir : RelPath) : Prop where
  below : ∀ k, K k → Accepted k → (pre <+: k ↔ Above dir (modernPath k))
  accepted : ∀ k, K k → pre <+: k → Accepted k ∧ LegacyAccepted k
  named : ∀ k, K k → pre <+: k → DataDir.listedKey (modernPath k) = k
  unblocked : ∀ k k', K k → Accepted k → K k' → pre <+: k' →
    ¬ Above (modernPath k) (modernPath k')

/-- The data directory shows of the keys with the prefix what a map says, and only has files of
keys in use with the directories above them. -/
structure Shows {V : Type*} (K : Key → Prop) (pre : Key) (t : DataDir V)
    (m : Key → Option (Option V)) : Prop where
  known : ∀ k, (m k).isSome → K k
  files : ∀ path ∈ t.files.keys, ∃ k, K k ∧ Accepted k ∧ path = modernPath k
  dirs : ∀ path ∈ t.dirs, path ≠ [] → ∃ k, K k ∧ Accepted k ∧ Above path (modernPath k)
  content : ∀ k, K k → pre <+: k → t.files.get? (modernPath k) = m k

section Listable

variable {V : Type*} {K : Key → Prop} {pre : Key} {dir : RelPath} (hK : Listable K pre dir)

section

include hK

/-- Two keys in use have the same path only if neither starts with the prefix or they are one. -/
theorem Listable.eq_of_path {k k' : Key} (hk : K k) (hk' : K k') (haccepted : Accepted k')
    (hpre : pre <+: k) (h : modernPath k' = modernPath k) : k' = k := by
  have hbelow := (hK.below k hk (hK.accepted k hk hpre).1).mp hpre
  have hpre' := (hK.below k' hk' haccepted).mpr (h ▸ hbelow)
  rw [← hK.named k hk hpre, ← hK.named k' hk' hpre', h]

/-- Nothing stands in the way of the file of a key with the prefix. -/
theorem Shows.free {t : DataDir V} {m : Key → Option (Option V)} (h : Shows K pre t m) {k : Key}
    (hk : K k) (hpre : pre <+: k) : t.Free (modernPath k) := by
  have haccepted := (hK.accepted k hk hpre).1
  have hbelow := (hK.below k hk haccepted).mp hpre
  refine ⟨fun hdir => ?_, fun q hq habove => ?_⟩
  · obtain ⟨k', hk', haccepted', habove⟩ := h.dirs _ hdir (modernPath_ne_nil haccepted.1)
    exact hK.unblocked k k' hk haccepted hk'
      ((hK.below k' hk' haccepted').mpr (hbelow.trans habove)) habove
  · obtain ⟨k', hk', haccepted', rfl⟩ := h.files q hq
    exact hK.unblocked k' k hk' haccepted' hk hpre habove

end

/-- A key with a value after a write is in use. -/
theorem known_writeTo {m : Key → Option (Option V)} (h : ∀ k, (m k).isSome → K k)
    {op : MapOp Key (Option V)} (hop : K op.key) (k : Key) (hk : (writeTo m op k).isSome) : K k := by
  by_cases heq : k = op.key
  · exact heq ▸ hop
  · exact h k (by rwa [writeTo_of_ne m op heq] at hk)

/-- A write that raises changes nothing that is shown, if its key does not start with the
prefix. -/
theorem Shows.of_raised {t u : DataDir V} {m : Key → Option (Option V)} (h : Shows K pre t m)
    {op : MapOp Key (Option V)} (hop : K op.key) (hpre : ¬ pre <+: op.key)
    (hfiles : u.files = t.files) (hdirs : ∀ p ∈ u.dirs, p ∈ t.dirs) :
    Shows K pre u (writeTo m op) where
  known := known_writeTo h.known hop
  files := hfiles ▸ h.files
  dirs path hpath := h.dirs path (hdirs path hpath)
  content k hk hkpre := by
    rw [hfiles, writeTo_of_ne m op (fun heq => hpre (heq ▸ hkpre)), h.content k hk hkpre]

include hK

/-- Setting a key in use keeps what the data directory shows. -/
theorem Shows.set {t : DataDir V} {m : Key → Option (Option V)} (h : Shows K pre t m) {k : Key}
    (hk : K k) (value : Option V) : Shows K pre (t.set k value).2 (writeTo m (.set k value)) := by
  by_cases haccepted : Accepted k
  · rw [DataDir.set_accepted t haccepted]
    by_cases hfree : t.Free (modernPath k)
    · obtain ⟨u, hu, hfiles, hdirs⟩ := DataDir.atomicWrite_free hfree value
      rw [hu]
      refine ⟨known_writeTo h.known hk, fun path hpath => ?_, fun path hpath hne => ?_,
        fun k' hk' hpre => ?_⟩
      · rw [hfiles, Dict.mem_keys_set] at hpath
        rcases hpath with rfl | hpath
        · exact ⟨k, hk, haccepted, rfl⟩
        · exact h.files path hpath
      · rcases (hdirs path).mp hpath with hpath | habove
        · exact h.dirs path hpath hne
        · exact ⟨k, hk, haccepted, habove⟩
      · rw [hfiles]
        by_cases heq : k' = k
        · subst heq
          exact (Dict.get?_set_self _ _ _).trans (writeTo_self m (.set k' value)).symm
        · have hpath : modernPath k' ≠ modernPath k :=
            fun hpath => heq (hK.eq_of_path hk' hk haccepted hpre hpath.symm).symm
          rw [Dict.get?_set_ne _ _ hpath, writeTo_of_ne m (.set k value) heq]
          exact h.content k' hk' hpre
    · obtain ⟨e, u, hu, hfiles, hdirs⟩ :=
        DataDir.atomicWrite_blocked hfree (modernPath_ne_nil haccepted.1) value
      rw [hu]
      exact h.of_raised hk (fun hpre => hfree (h.free hK hk hpre)) hfiles fun p => (hdirs p).mp
  · obtain ⟨e, he⟩ := DataDir.set_rejected t haccepted value
    rw [he]
    exact h.of_raised hk (fun hpre => haccepted (hK.accepted k hk hpre).1) rfl fun _ hp => hp

/-- Deleting a key in use keeps what the data directory shows. -/
theorem Shows.delete {t : DataDir V} {m : Key → Option (Option V)} (h : Shows K pre t m) {k : Key}
    (hk : K k) : Shows K pre (t.delete k).2 (writeTo m (.delete k)) := by
  by_cases haccepted : Accepted k ∧ LegacyAccepted k
  · obtain ⟨hdirs, hgone, hkeep, hnone⟩ := DataDir.delete_spec t haccepted.1 haccepted.2
    refine ⟨known_writeTo h.known hk, fun path hpath => ?_,
      fun path hpath => h.dirs path (hdirs ▸ hpath), fun k' hk' hpre => ?_⟩
    · exact h.files path (DataDir.mem_files_of_shrunk hnone hpath)
    · by_cases heq : k' = k
      · subst heq
        exact hgone.trans (writeTo_self m (.delete k')).symm
      · have hpath : modernPath k' ≠ modernPath k :=
          fun hpath => heq (hK.eq_of_path hk' hk haccepted.1 hpre hpath.symm).symm
        have hflat : modernPath k' ≠ [k] :=
          fun hflat => hpath (hflat.trans (modernPath_of_flat hflat.symm).symm)
        rw [writeTo_of_ne m (.delete k) heq, hkeep _ hpath hflat, h.content k' hk' hpre]
  · rw [DataDir.delete_rejected t haccepted]
    exact h.of_raised hk (fun hpre => haccepted (hK.accepted k hk hpre)) rfl fun _ hp => hp

/-- What the data directory shows is listed. -/
theorem Shows.isListing {t : DataDir V} {m : Key → Option (Option V)} (h : Shows K pre t m)
    {beyond : DataDir V → Key → Except StorageError (List Key)}
    (hdir : DataDir.prefixDir pre = some dir) :
    ∃ keys, DataDir.keysWithPrefix beyond t pre = .ok keys ∧ IsListing m pre keys := by
  have hmem {path : RelPath} : path ∈ (t.filesBelow dir).filter (DataDir.IsJson ·) ↔
      ∃ k, path = modernPath k ∧ K k ∧ pre <+: k ∧ (m k).isSome := by
    rw [List.mem_filter, FileTree.filesBelow, List.mem_filter, decide_eq_true_iff,
      decide_eq_true_iff]
    constructor
    · rintro ⟨⟨hfile, habove⟩, -⟩
      obtain ⟨k, hk, haccepted, rfl⟩ := h.files path hfile
      have hpre := (hK.below k hk haccepted).mpr habove
      refine ⟨k, rfl, hk, hpre, ?_⟩
      rw [← h.content k hk hpre, Option.isSome_iff_exists]
      exact (Dict.mem_keys_iff _ _).mp hfile
    · rintro ⟨k, rfl, hk, hpre, hsome⟩
      have haccepted := (hK.accepted k hk hpre).1
      refine ⟨⟨?_, (hK.below k hk haccepted).mp hpre⟩, isJson_modernPath haccepted.1⟩
      rw [Dict.mem_keys_iff, ← Option.isSome_iff_exists, h.content k hk hpre]
      exact hsome
  refine ⟨_, DataDir.keysWithPrefix_eq beyond t hdir, isListing_sortedKeys ?_ fun k => ?_⟩
  · refine List.Nodup.map_on (fun p hp q hq heq => ?_) ((t.files.nodup.filter _).filter _)
    obtain ⟨k, rfl, hk, hpre, -⟩ := hmem.mp hp
    obtain ⟨k', rfl, hk', hpre', -⟩ := hmem.mp hq
    rw [hK.named k hk hpre, hK.named k' hk' hpre'] at heq
    rw [heq]
  · rw [List.mem_map]
    constructor
    · rintro ⟨path, hpath, rfl⟩
      obtain ⟨k, rfl, hk, hpre, hsome⟩ := hmem.mp hpath
      rw [hK.named k hk hpre]
      exact ⟨hsome, hpre⟩
    · rintro ⟨hsome, hpre⟩
      have hk := h.known k hsome
      exact ⟨modernPath k, hmem.mpr ⟨k, rfl, hk, hpre, hsome⟩, hK.named k hk hpre⟩

end Listable

section Exactness

variable {V : Type*} {beyond : DataDir V → Key → Except StorageError (List Key)}

/-- On keys whose prefix the directory tells, the data directory shows what the last writes left. -/
theorem Listable.shows_run {K : Key → Prop} {pre : Key} {dir : RelPath} (hK : Listable K pre dir)
    {ops : List (MapOp Key (Option V))} (hops : ∀ op ∈ ops, K op.key) :
    Shows K pre ((filesystemBackend beyond).run .empty ops) (lastWrite ops) := by
  have hempty : Shows K pre (.empty : DataDir V) fun _ => none :=
    ⟨fun _ h => (by cases h), fun _ h => (by cases h),
      fun _ h hne => absurd (List.mem_singleton.mp h) hne, fun _ _ _ => rfl⟩
  refine related_of_run (fun t m op h hop => ?_) hempty hops
  cases op with
  | set k v => exact h.set hK hop v
  | delete k => exact h.delete hK hop

/-- On keys whose prefix the directory tells, the filesystem backend lists exactly. -/
theorem Listable.listsExactly {K : Key → Prop} {pre : Key} {dir : RelPath}
    (hK : Listable K pre dir) (hdir : DataDir.prefixDir pre = some dir)
    {ops : List (MapOp Key (Option V))} (hops : ∀ op ∈ ops, K op.key) :
    ListsExactly (filesystemBackend beyond) .empty ops pre :=
  Shows.isListing hK (hK.shows_run hops) hdir

/-- A data directory with the file of one key is listed exactly only if the map has, of the keys
with the prefix, the one that is told from the path, and it lies below the directory. -/
theorem told_of_single {t : DataDir V} {m : Key → Option (Option V)} {pre : Key} {dir : RelPath}
    (hdir : DataDir.prefixDir pre = some dir) {k : Key} (h : segments k ≠ [])
    (hfiles : ∀ p, p ∈ t.files.keys ↔ p = modernPath k)
    (hlists : ∃ keys, DataDir.keysWithPrefix beyond t pre = .ok keys ∧ IsListing m pre keys)
    (k' : Key) :
    (m k').isSome ∧ pre <+: k' ↔ Above dir (modernPath k) ∧ k' = DataDir.listedKey (modernPath k) := by
  have hkeys : t.files.keys = [modernPath k] := by
    refine List.perm_singleton.mp ((List.perm_ext_iff_of_nodup t.files.nodup
      (List.nodup_singleton _)).mpr fun p => ?_)
    rw [List.mem_singleton]
    exact hfiles p
  obtain ⟨keys, hlist, hlisting⟩ := hlists
  rw [DataDir.keysWithPrefix_eq beyond t hdir, FileTree.filesBelow, hkeys] at hlist
  rw [← hlisting.mem_iff, ← Except.ok.inj hlist]
  by_cases habove : Above dir (modernPath k)
  · simp [habove, habove.1, habove.2, isJson_modernPath h, sortedKeys]
  · have hnot : ¬ (dir <+: modernPath k ∧ dir ≠ modernPath k) := habove
    simp [habove, hnot, sortedKeys]

/-- A backend that lists exactly after one key was set, after it was deleted again and after
another one was set has a prefix whose directory tells the keys in use. -/
theorem listable_of_exact {K : Key → Prop} {pre : Key} {dir : RelPath}
    (hdir : DataDir.prefixDir pre = some dir) (v : Option V)
    (hone : ∀ k, K k → ListsExactly (filesystemBackend beyond) .empty [.set k v] pre)
    (hgone : ∀ k, K k → ListsExactly (filesystemBackend beyond) .empty [.set k v, .delete k] pre)
    (htwo : ∀ k k', K k → K k' →
      ListsExactly (filesystemBackend beyond) .empty [.set k v, .set k' v] pre) :
    Listable K pre dir := by
  have hset {k : Key} (h : Accepted k) : ∃ u, DataDir.set .empty k v = (.ok (), u) ∧
      ∀ p, p ∈ u.files.keys ↔ p = modernPath k := by
    obtain ⟨u, hu, hfiles, -⟩ := DataDir.set_empty h v
    refine ⟨u, hu, fun p => ?_⟩
    rw [Dict.mem_keys_iff, hfiles]
    split <;> simp [*]
  have hsingle {k : Key} (hk : K k) (h : Accepted k) (k' : Key) :
      k' = k ∧ pre <+: k' ↔
        Above dir (modernPath k) ∧ k' = DataDir.listedKey (modernPath k) := by
    obtain ⟨u, hu, hfiles⟩ := hset h
    have hlists := hone k hk
    rw [ListsExactly, BaseBackend.run_set _ hu] at hlists
    rw [← told_of_single hdir h.1 hfiles hlists k']
    refine and_congr_left' ?_
    by_cases heq : k' = k
    · subst heq
      exact iff_of_true rfl (congrArg Option.isSome (writeTo_self (fun _ => none) (.set k' v)))
    · refine iff_of_false heq ?_
      change ¬ (writeTo (fun _ => none) (.set k v) k').isSome
      rw [writeTo_of_ne _ (.set k v) heq]
      simp
  have haccepted {k : Key} (hk : K k) (hpre : pre <+: k) : Accepted k := by
    by_contra hnot
    obtain ⟨e, he⟩ := DataDir.set_rejected (.empty : DataDir V) hnot v
    obtain ⟨keys, hkeys, hlisting⟩ := hone k hk
    rw [BaseBackend.run_set _ he] at hkeys
    have hmem := (hlisting.mem_iff k).mpr ⟨congrArg Option.isSome
      (writeTo_self (fun _ => none) (.set k v)), hpre⟩
    have hnil : keys = [] := by
      have hlist := (DataDir.keysWithPrefix_eq beyond (.empty : DataDir V) hdir).symm.trans hkeys
      exact (Except.ok.inj hlist).symm
    rw [hnil] at hmem
    cases hmem
  have hbelow {k : Key} (hk : K k) (h : Accepted k) : pre <+: k ↔ Above dir (modernPath k) := by
    refine ⟨fun hpre => ((hsingle hk h k).mp ⟨rfl, hpre⟩).1, fun habove => ?_⟩
    obtain ⟨heq, hpre⟩ := (hsingle hk h _).mpr ⟨habove, rfl⟩
    exact heq ▸ hpre
  have hnamed {k : Key} (hk : K k) (hpre : pre <+: k) : DataDir.listedKey (modernPath k) = k :=
    ((hsingle hk (haccepted hk hpre) k).mp ⟨rfl, hpre⟩).2.symm
  refine ⟨fun k hk h => hbelow hk h, fun k hk hpre => ⟨haccepted hk hpre, ?_⟩,
    fun k hk hpre => hnamed hk hpre, fun k k' hk h hk' hpre habove => ?_⟩
  · by_contra hnot
    have h := haccepted hk hpre
    obtain ⟨u, hu, hfiles⟩ := hset h
    have hlists := hgone k hk
    have hrun : (filesystemBackend beyond).run .empty [.set k v, .delete k] = u := by
      change (DataDir.delete (DataDir.set .empty k v).2 k).2 = u
      rw [hu]
      exact DataDir.delete_rejected u fun hboth => hnot hboth.2
    rw [ListsExactly, hrun] at hlists
    have htold := (told_of_single hdir h.1 hfiles hlists k).mpr
      ⟨(hbelow hk h).mp hpre, (hnamed hk hpre).symm⟩
    have hgone : lastWrite [.set k v, .delete k] k = none :=
      writeTo_self (lastWrite [.set k v]) (.delete k)
    rw [hgone] at htold
    exact absurd htold.1 (by simp)
  · obtain ⟨u, hu, hfiles⟩ := hset h
    have hblocked : ¬ u.Free (modernPath k') :=
      fun hfree => hfree.2 _ ((hfiles _).mpr rfl) habove
    have h' := haccepted hk' hpre
    obtain ⟨e, w, hw, hwfiles, -⟩ :=
      DataDir.atomicWrite_blocked hblocked (modernPath_ne_nil h'.1) v
    have hlists := htwo k k' hk hk'
    have hrun : (filesystemBackend beyond).run .empty [.set k v, .set k' v] = w := by
      change (DataDir.set (DataDir.set .empty k v).2 k' v).2 = w
      rw [hu, DataDir.set_accepted u h', hw]
    rw [ListsExactly, hrun] at hlists
    have hfiles' : ∀ p, p ∈ w.files.keys ↔ p = modernPath k := by rwa [hwfiles]
    have hsome : (lastWrite [.set k v, .set k' v] k').isSome :=
      congrArg Option.isSome (writeTo_self (lastWrite [.set k v]) (.set k' v))
    obtain ⟨hdirabove, heq⟩ := (told_of_single hdir h.1 hfiles' hlists k').mp ⟨hsome, hpre⟩
    rw [hnamed hk ((hbelow hk h).mpr hdirabove)] at heq
    exact habove.2 (congrArg modernPath heq.symm)

end Exactness

/-- For keys in use and a prefix: its directory tells which keys start with it, or, where its
path leads out of the data directory, the walk finds just these keys. -/
def PrefixTold {V : Type*} (beyond : DataDir V → Key → Except StorageError (List Key))
    (K : Key → Prop) (pre : Key) : Prop :=
  match DataDir.prefixDir pre with
  | some dir => Listable K pre dir
  | none => ∀ ops : List (MapOp Key (Option V)), (∀ op ∈ ops, K op.key) →
    ∃ keys, beyond ((filesystemBackend beyond).run .empty ops) pre = .ok keys ∧
      IsListing (lastWrite ops) pre keys

/-- After all writes of the keys in use the backends list the same keys, exactly those that are
stored and start with the prefix, just when the directory of the prefix tells them. -/
theorem listingsAgree_run_iff {V : Type*} [Inhabited V]
    (beyond : DataDir V → Key → Except StorageError (List Key)) (hotMaxKeys : ℕ)
    (K : Key → Prop) (pre : Key) :
    (∀ ops : List (MapOp Key (Option V)), (∀ op ∈ ops, K op.key) →
      ListingsAgree beyond hotMaxKeys ops pre) ↔ PrefixTold beyond K pre := by
  simp only [listingsAgree_iff]
  unfold PrefixTold
  cases hdir : DataDir.prefixDir pre with
  | none =>
    simp only [ListsExactly, filesystemBackend, DataDir.keysWithPrefix, hdir]
  | some dir =>
    refine ⟨fun hexact => ?_, fun hK ops hops => hK.listsExactly hdir hops⟩
    exact listable_of_exact hdir (some default) (fun k hk => hexact _ (by simpa using hk))
      (fun k hk => hexact _ (by simpa using hk)) fun k k' hk hk' => hexact _ (by simpa using ⟨hk, hk'⟩)

/-- For a prefix that ends inside a segment the memory backend lists the key and the filesystem
backend does not. -/
theorem listingsAgree_run_fails :
    ¬ ∀ (ops : List (MapOp Key (Option ℕ))) (pre : Key),
      (∀ op ∈ ops, Accepted op.key ∧ LegacyAccepted op.key) →
        ListingsAgree (fun _ _ => .ok []) 500 ops pre := by
  intro h
  have hagree := h [.set "palm:instances:a".toList (some 1)] "palm:inst".toList (by decide)
  obtain ⟨keys, hkeys, hlisting⟩ := hagree.filesystem
  have hmem := (hlisting.mem_iff "palm:instances:a".toList).mpr (by decide)
  have hnil : (.ok [] : Except StorageError (List Key)) = .ok keys := by
    rw [← hkeys]
    decide
  rw [← Except.ok.inj hnil] at hmem
  cases hmem

end PalmEngine.Storage
