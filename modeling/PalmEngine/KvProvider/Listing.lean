import PalmEngine.KvProvider.Effects

/-!
# When a listing shows the keys of its namespace

A listing takes the keys that start with the namespace, those of a longer namespace included, and
drops the colons at the start of a logical key. It is exact for the process memory and for every
storage backend just when no longer namespace and no key with a colon at its start is in use, and
the directory of the namespace tells its keys.
-/

namespace PalmEngine.KvProvider

open PalmEngine.Lib PalmEngine.Storage PalmEngine.Resource

section Logical

variable {V : Type*} {mode : KvBackendMode} {ns : Text} {U : KvName → Prop}
  {writes : List (KvName × Option V)}

/-- The names in use leave a namespace apart: none is in a longer namespace that starts with it,
and none in it has a key with a colon at its start. -/
def LeaveApart (U : KvName → Prop) (ns : Text) : Prop :=
  ∀ n, U n → ns <+: n.ns → n.ns = ns ∧ n.key.head? ≠ some ':'

/-- The prefix of a namespace ends in no colon. -/
theorem rdropWhile_prefixIn (hns : normalizeNamespace ns = .ok ns) :
    (prefixIn mode ns).rdropWhile (· = ':') = prefixIn mode ns := by
  rw [List.rdropWhile_eq_self_iff]
  intro hne
  have hlast : (prefixIn mode ns).getLast hne = ns.getLast (namespace_ne_nil hns) :=
    List.getLast_append_of_ne_nil _ (namespace_ne_nil hns)
  rw [hlast, decide_eq_true_iff]
  exact fun heq => colon_not_mem_namespace hns (heq ▸ List.getLast_mem _)

/-- What follows the colon after a prefix is the logical key, if it is not empty and begins with
neither a colon nor a slash. -/
theorem logicalKey?_append {base : Key} {key : Text} (hne : key ≠ [])
    (hcolon : key.head? ≠ some ':') (hslash : key.head? ≠ some '/') :
    logicalKey? base (base ++ ':' :: key) = some key := by
  obtain ⟨c, rest, rfl⟩ := List.exists_cons_of_ne_nil hne
  have hc : c ≠ ':' := fun h => hcolon (by rw [h]; rfl)
  have hs : c ≠ '/' := fun h => hslash (by rw [h]; rfl)
  simp [logicalKey?, hc, hs]

/-- The logical key of a name that is apart. -/
theorem logicalKey?_keyIn (n : KvName) (h : n.key.head? ≠ some ':') :
    logicalKey? (prefixIn mode n.ns) (keyIn mode n) = some n.key := by
  obtain ⟨-, hne, hslash⟩ := logicalKey_spec n.key_ok
  rw [keyIn, ← List.append_assoc]
  refine logicalKey?_append hne h fun hhead => hslash ?_
  exact List.mem_of_mem_head? hhead

/-- Keys with the prefix of a namespace are the keys of their logical keys. -/
theorem map_filterMap_logicalKey? {base : Key} {keys : List Key}
    (h : ∀ k ∈ keys, ∃ key, k = base ++ ':' :: key ∧ logicalKey? base k = some key) :
    (keys.filterMap (logicalKey? base)).map (fun key => base ++ ':' :: key) = keys := by
  induction keys with
  | nil => rfl
  | cons k rest ih =>
    obtain ⟨key, hk, hlogical⟩ := h k (by simp)
    rw [List.filterMap_cons_some hlogical, List.map_cons, ← hk,
      ih fun k' hk' => h k' (List.mem_cons_of_mem k hk')]

variable (hns : normalizeNamespace ns = .ok ns) (hU : ∀ w ∈ writes, U w.1)
  (hapart : LeaveApart U ns)

include hns hU hapart

/-- A key with the prefix that a store holds is the one of a name in the namespace. -/
theorem name_of_lastWrite {k : Key} (hk : (lastWrite (toOps mode writes) k).isSome)
    (hpre : prefixIn mode ns <+: k) :
    ∃ n, n.ns = ns ∧ k = keyIn mode n ∧ logicalKey? (prefixIn mode ns) k = some n.key := by
  obtain ⟨w, hw, rfl⟩ := known_of_lastWrite hk
  obtain ⟨heq, hhead⟩ := hapart w.1 (hU w hw)
    ((prefixIn_isPrefix (colon_not_mem_namespace hns)).mp hpre)
  refine ⟨w.1, heq, rfl, ?_⟩
  rw [← heq]
  exact logicalKey?_keyIn w.1 hhead

/-- A listing of the keys with the prefix shows the logical keys of the namespace. -/
theorem listing_of_isListing {keys : List Key}
    (h : IsListing (lastWrite (toOps mode writes)) (prefixIn mode ns) keys) :
    IsListing (fun key => written writes (ns, key)) []
      (logicalKeysFromPrefixed keys (prefixIn mode ns)) := by
  have hname : ∀ k ∈ keys, ∃ n : KvName, n.ns = ns ∧ k = keyIn mode n ∧
      logicalKey? (prefixIn mode ns) k = some n.key := fun k hk =>
    name_of_lastWrite hns hU hapart ((h.mem_iff k).mp hk).1 ((h.mem_iff k).mp hk).2
  rw [logicalKeysFromPrefixed, rdropWhile_prefixIn hns]
  refine isListing_sortedKeys ?_ fun key => ?_
  · refine List.Nodup.of_map (fun key => prefixIn mode ns ++ ':' :: key) ?_
    rw [map_filterMap_logicalKey?]
    · exact h.ascending.imp fun hlt => ne_of_lt hlt
    · intro k hk
      obtain ⟨n, hn, heq, hlogical⟩ := hname k hk
      exact ⟨n.key, by rw [heq, keyIn, ← List.append_assoc, hn, prefixIn], hlogical⟩
  · rw [List.mem_filterMap]
    constructor
    · rintro ⟨k, hk, hlogical⟩
      obtain ⟨n, hn, rfl, hlogical'⟩ := hname k hk
      obtain rfl := Option.some.inj (hlogical.symm.trans hlogical')
      have hsome := ((h.mem_iff _).mp hk).1
      rw [lastWrite_toOps, hn, Option.isSome_map] at hsome
      exact ⟨hsome, List.nil_prefix⟩
    · rintro ⟨hsome, -⟩
      obtain ⟨w, hw, hpair⟩ := known_of_written hsome
      obtain ⟨hwns, hwkey⟩ := Prod.mk.inj hpair
      have hpre : prefixIn mode ns <+: keyIn mode w.1 :=
        (prefixIn_isPrefix (colon_not_mem_namespace hns)).mpr (hwns ▸ List.prefix_rfl)
      refine ⟨keyIn mode w.1, (h.mem_iff _).mpr ⟨?_, hpre⟩, ?_⟩
      · rw [lastWrite_toOps, Option.isSome_map, ← hpair]
        exact hsome
      · have hhead := (hapart w.1 (hU w hw) (hwns ▸ List.prefix_rfl)).2
        rw [hwns, hwkey]
        exact logicalKey?_keyIn w.1 hhead

/-- Sorted keys below the prefix that show the logical keys of the namespace are the listing of
the keys with the prefix. -/
theorem isListing_of_listing {keys : List Key} (hsorted : keys.Pairwise (· ≤ ·))
    (hbelow : ∀ k ∈ keys, ∃ key, k = prefixIn mode ns ++ ':' :: key ∧
      logicalKey? (prefixIn mode ns) k = some key)
    (h : IsListing (fun key => written writes (ns, key)) []
      (logicalKeysFromPrefixed keys (prefixIn mode ns))) :
    IsListing (lastWrite (toOps mode writes)) (prefixIn mode ns) keys := by
  rw [logicalKeysFromPrefixed, rdropWhile_prefixIn hns] at h
  have hmem : ∀ key, key ∈ keys.filterMap (logicalKey? (prefixIn mode ns)) ↔
      (written writes (ns, key)).isSome := fun key => by
    rw [← List.mem_insertionSort (· ≤ ·)]
    exact (h.mem_iff key).trans (and_iff_left List.nil_prefix)
  have hnodup : keys.Nodup := by
    rw [← map_filterMap_logicalKey? hbelow]
    refine List.Nodup.map (fun key key' heq => ?_) ?_
    · exact (List.cons.inj (List.append_cancel_left heq)).2
    · exact (List.perm_insertionSort (· ≤ ·) _).nodup_iff.mp
        (h.ascending.imp fun hlt => ne_of_lt hlt)
  refine ⟨(hsorted.and hnodup).imp fun hle => lt_of_le_of_ne hle.1 hle.2, fun k => ⟨fun hk => ?_, ?_⟩⟩
  · obtain ⟨key, rfl, hlogical⟩ := hbelow k hk
    have hsome := (hmem key).mp (List.mem_filterMap.mpr ⟨_, hk, hlogical⟩)
    obtain ⟨w, -, hpair⟩ := known_of_written hsome
    have hkey : prefixIn mode ns ++ ':' :: key = keyIn mode w.1 := by
      rw [keyIn, ← (Prod.mk.inj hpair).1, ← (Prod.mk.inj hpair).2, prefixIn, List.append_assoc]
    refine ⟨?_, List.prefix_append _ _⟩
    rw [hkey, lastWrite_toOps, Option.isSome_map, ← hpair]
    exact hsome
  · rintro ⟨hsome, hpre⟩
    obtain ⟨n, hn, rfl, hlogical⟩ := name_of_lastWrite hns hU hapart hsome hpre
    rw [lastWrite_toOps, Option.isSome_map, hn] at hsome
    obtain ⟨k, hk, hlogical'⟩ := List.mem_filterMap.mp ((hmem n.key).mpr hsome)
    obtain ⟨key, hkey, hlogical''⟩ := hbelow k hk
    obtain rfl := Option.some.inj (hlogical'.symm.trans hlogical'')
    have heq : keyIn mode n = k := by
      rw [hkey, keyIn, hn, prefixIn, List.append_assoc]
    rwa [heq]

end Logical

section Directories

variable {V : Type*} {ns : Text} {U : KvName → Prop}

/-- The directory of all namespaces. -/
def kvDir : RelPath := ["palm".toList, "resources".toList, "kv".toList]

/-- The segments of two keys with a colon between them. -/
theorem segments_append (front back : Key) :
    segments (front ++ ':' :: back) = segments front ++ segments back := by
  rw [segments, List.splitOn_append_cons_self, List.filter_append]
  rfl

/-- A normalized namespace has no slash. -/
theorem slash_not_mem_namespace (h : normalizeNamespace ns = .ok ns) : '/' ∉ ns := by
  unfold normalizeNamespace at h
  dsimp only at h
  split at h
  · rw [← Except.ok.inj h]
    decide
  · split at h
    · cases h
    · rename_i hclean
      rw [not_or, not_or] at hclean
      rw [← Except.ok.inj h]
      exact hclean.2.1

/-- The segments of the prefix of a namespace. -/
theorem segments_prefixIn (hns : normalizeNamespace ns = .ok ns) :
    segments (prefixIn .storage ns) = kvDir ++ [ns] := by
  have hbase : segments kvStoragePrefix = kvDir := by decide
  rw [prefixIn, KvBackendMode.base, List.append_assoc, List.singleton_append, segments_append,
    hbase, segments_of_no_colon (namespace_ne_nil hns) (colon_not_mem_namespace hns)]

/-- The segments of the key of a name. -/
theorem segments_keyIn (n : KvName) :
    segments (keyIn .storage n) = kvDir ++ n.ns :: segments n.key := by
  rw [keyIn, ← List.append_assoc, segments_append]
  change segments (prefixIn .storage n.ns) ++ _ = _
  rw [segments_prefixIn n.ns_ok, List.append_assoc, List.singleton_append]

/-- The directory of a namespace whose name is not a special one. -/
theorem prefixDir_prefixIn (hns : normalizeNamespace ns = .ok ns) :
    DataDir.prefixDir (prefixIn .storage ns) =
      if ns = ['.', '.'] then none
      else some (kvDir ++ if ns = ['.'] then [] else [ns]) := by
  have hsplit : ns.splitOn '/' = [ns] := by
    rw [List.splitOn_eq_splitOnP]
    exact List.splitOnP_eq_singleton fun c hc => by
      simpa using fun heq : c = '/' => slash_not_mem_namespace hns (heq ▸ hc)
  have hhead : ns.head? ≠ some '/' := fun h =>
    slash_not_mem_namespace hns (List.mem_of_mem_head? h)
  have hparts : ((kvDir ++ [ns]).flatMap fun s =>
      (s.splitOn '/').filter fun n => n ≠ [] ∧ n ≠ ['.']) =
        kvDir ++ if ns = ['.'] then [] else [ns] := by
    have hdir : (kvDir.flatMap fun s => (s.splitOn '/').filter fun n => n ≠ [] ∧ n ≠ ['.']) =
        kvDir := by decide
    rw [List.flatMap_append, hdir, List.flatMap_singleton, hsplit]
    by_cases hdot : ns = ['.'] <;> simp [hdot, namespace_ne_nil hns]
  rw [DataDir.prefixDir, segments_prefixIn hns, hparts]
  have hheads : ¬∃ s ∈ kvDir ++ [ns], s.head? = some '/' := by
    rintro ⟨s, hs, hslash⟩
    rcases List.mem_append.mp hs with hs | hs
    · have hdir : ∀ s ∈ kvDir, s.head? ≠ some '/' := by decide
      exact hdir s hs hslash
    · rw [List.mem_singleton.mp hs] at hslash
      exact hhead hslash
  have hup : ['.', '.'] ∈ (kvDir ++ if ns = ['.'] then [] else [ns]) ↔ ns = ['.', '.'] := by
    have hdir : ['.', '.'] ∉ kvDir := by decide
    by_cases hdot : ns = ['.']
    · simp [hdot, hdir]
    · simp [hdot, hdir, eq_comm]
  by_cases htwo : ns = ['.', '.']
  · rw [if_pos (.inr (hup.mpr htwo)), if_pos htwo]
  · rw [if_neg (not_or.mpr ⟨hheads, mt hup.mp htwo⟩), if_neg htwo]

/-- The files of the data directory are those of accepted names in use. -/
theorem files_run {beyond : DataDir V → Key → Except StorageError (List Key)}
    {writes : List (KvName × Option V)} (hU : ∀ w ∈ writes, U w.1) :
    ∀ path ∈ ((filesystemBackend beyond).run .empty (toOps .storage writes)).files.keys,
      ∃ n, U n ∧ Accepted (keyIn .storage n) ∧ path = modernPath (keyIn .storage n) := by
  induction writes using List.reverseRecOn with
  | nil => exact fun path hpath => (by cases hpath)
  | append_singleton writes w ih =>
    have hold := ih fun w' hw' => hU w' (List.mem_append_left _ hw')
    rw [toOps, List.map_append, List.map_singleton, BaseBackend.run_concat, ← toOps]
    generalize (filesystemBackend beyond).run .empty (toOps .storage writes) = t at hold ⊢
    obtain ⟨n, value⟩ := w
    cases value with
    | some v =>
      change ∀ path ∈ (t.set (keyIn .storage n) (some v)).2.files.keys, _
      by_cases haccepted : Accepted (keyIn .storage n)
      · rw [DataDir.set_accepted t haccepted]
        by_cases hfree : t.Free (modernPath (keyIn .storage n))
        · obtain ⟨u, hu, hfiles, -⟩ := DataDir.atomicWrite_free hfree (some v)
          rw [hu, hfiles]
          intro path hpath
          rcases (Dict.mem_keys_set _ _ _ _).mp hpath with rfl | hpath
          · exact ⟨n, hU (n, some v) (by simp), haccepted, rfl⟩
          · exact hold path hpath
        · obtain ⟨e, u, hu, hfiles, -⟩ :=
            DataDir.atomicWrite_blocked hfree (modernPath_ne_nil haccepted.1) (some v)
          rw [hu, hfiles]
          exact hold
      · obtain ⟨e, he⟩ := DataDir.set_rejected t haccepted (some v)
        rw [he]
        exact hold
    | none =>
      change ∀ path ∈ (t.delete (keyIn .storage n)).2.files.keys, _
      intro path hpath
      refine hold path ?_
      obtain ⟨value, hvalue⟩ := (Dict.mem_keys_iff _ _).mp hpath
      rw [DataDir.delete] at hvalue
      split at hvalue
      · exact (Dict.mem_keys_iff _ _).mpr ⟨value, hvalue⟩
      · exact (Dict.mem_keys_iff _ _).mpr ⟨value, unlinkAll_get? hvalue⟩

/-- The first name of a joined path begins the text. -/
theorem head?_intercalate {name : Name} (h : name ≠ []) (rest : RelPath) :
    ([':'].intercalate (name :: rest)).head? = name.head? := by
  cases rest with
  | nil => simp
  | cons next rest =>
    rw [List.intercalate_cons_cons, List.append_assoc, List.head?_append_of_ne_nil _ h]

/-- What a walk makes of the path of a name: the names of its directories, and the stem of the last
name. -/
theorem listedKey_keyIn (n : KvName) :
    (segments n.key = [] ∧
      DataDir.listedKey (modernPath (keyIn .storage n)) =
        kvStoragePrefix ++ ':' :: stem n.ns) ∨
    ∃ dirs name, segments n.key = dirs ++ [name] ∧
      modernPath (keyIn .storage n) = kvDir ++ n.ns :: (dirs ++ [stem name ++ jsonSuffix]) ∧
      DataDir.listedKey (modernPath (keyIn .storage n)) =
        prefixIn .storage n.ns ++ ':' :: [':'].intercalate (dirs ++ [stem name]) := by
  have hjoin : ∀ rest : RelPath, rest ≠ [] → [':'].intercalate (kvDir ++ rest) =
      kvStoragePrefix ++ ':' :: [':'].intercalate rest := by
    intro rest hrest
    obtain ⟨first, others, rfl⟩ := List.exists_cons_of_ne_nil hrest
    have hbase : kvStoragePrefix = "palm".toList ++ [':'] ++ ("resources".toList ++ [':'] ++
        "kv".toList) := by decide
    rw [hbase, kvDir, List.cons_append, List.cons_append, List.cons_append, List.nil_append,
      List.intercalate_cons_cons, List.intercalate_cons_cons, List.intercalate_cons_cons]
    simp only [List.append_assoc, List.cons_append, List.nil_append]
  rw [modernPath, segments_keyIn]
  rcases List.eq_nil_or_concat' (segments n.key) with hnil | ⟨dirs, name, hsegments⟩
  · left
    refine ⟨hnil, ?_⟩
    rw [hnil, withSuffix_concat, DataDir.listedKey, withSuffix_concat,
      stem_append_jsonSuffix (stem_ne_nil (namespace_ne_nil n.ns_ok)), hjoin _ (by simp)]
    simp
  · right
    have hname : name ≠ [] := (segment_spec (show name ∈ segments n.key by simp [hsegments])).1
    have hpath : withSuffix jsonSuffix (kvDir ++ n.ns :: segments n.key) =
        kvDir ++ n.ns :: (dirs ++ [stem name ++ jsonSuffix]) := by
      rw [hsegments, ← List.cons_append, ← List.append_assoc, withSuffix_concat]
      simp
    refine ⟨dirs, name, hsegments, hpath, ?_⟩
    rw [hpath, DataDir.listedKey, ← List.cons_append, ← List.append_assoc, withSuffix_concat,
      stem_append_jsonSuffix (stem_ne_nil hname), List.append_assoc, hjoin _ (by simp),
      List.append_nil]
    obtain ⟨first, others, hrest⟩ := List.exists_cons_of_ne_nil (l := dirs ++ [stem name]) (by simp)
    rw [List.cons_append, hrest, List.intercalate_cons_cons]
    simp only [prefixIn, KvBackendMode.base, List.append_assoc, List.cons_append, List.nil_append]

end Directories

section Isolation

variable {S V E : Type*} {b : BaseBackend S V E} {start : S} {isOpen : Bool}
  {calls : List (KvCall V)} {ns : Text} {U : KvName → Prop}

/-- After the calls a listing of a namespace returns exactly the logical keys that were put in it
and not deleted since, for every way to name the namespace and the store. -/
def ListsNamespace (b : BaseBackend S V E) (start : S) (isOpen : Bool) (calls : List (KvCall V))
    (ns : Text) : Prop :=
  ∀ (params : KvInvokeParams V) (resourceId : Text) (mode : KvBackendMode), params.pre = [] →
    normalizeNamespace params.ns = .ok ns → resolveKvBackend params.backend isOpen = .ok mode →
    ∃ keys, (invokeAction b ⟨.list, params, resourceId⟩
        (KvHost.run b ⟨.empty, start, isOpen⟩ calls)).1 = .ok (.keys keys params.ns [] mode) ∧
      IsListing (fun key => written (KvCall.writes isOpen mode calls) (ns, key)) [] keys

/-- The keys that a store lists show the logical keys of a namespace. -/
def ListsIn (b : BaseBackend S V E) (start : S) (isOpen : Bool) (calls : List (KvCall V))
    (ns : Text) (mode : KvBackendMode) : Prop :=
  ∃ full, (KvHost.run b ⟨.empty, start, isOpen⟩ calls).listPrefix b (prefixIn mode ns) mode =
      .ok full ∧
    IsListing (fun key => written (KvCall.writes isOpen mode calls) (ns, key)) []
      (logicalKeysFromPrefixed full (prefixIn mode ns))

/-- The storage is only used while it is open. -/
theorem isOpen_of_resolve {backend : Text} (h : resolveKvBackend backend isOpen = .ok .storage) :
    isOpen = true := by
  cases isOpen with
  | true => rfl
  | false =>
    unfold resolveKvBackend at h
    dsimp only at h
    split at h
    · cases h
    · split at h
      · cases h
      · split at h <;> cases h

/-- A listing is right just when the stores list the right keys. -/
theorem listsNamespace_iff (hns : normalizeNamespace ns = .ok ns) :
    ListsNamespace b start isOpen calls ns ↔
      ListsIn b start isOpen calls ns .memory ∧
        (isOpen = true → ListsIn b start isOpen calls ns .storage) := by
  have hinvoke : ∀ (params : KvInvokeParams V) (resourceId : Text) (mode : KvBackendMode),
      params.pre = [] → normalizeNamespace params.ns = .ok ns →
      resolveKvBackend params.backend isOpen = .ok mode →
      (invokeAction b ⟨.list, params, resourceId⟩
        (KvHost.run b ⟨.empty, start, isOpen⟩ calls)).1 =
        (((KvHost.run b ⟨.empty, start, isOpen⟩ calls).listPrefix b (prefixIn mode ns)
          mode).mapError KvFailure.storage).map fun full =>
            .keys (logicalKeysFromPrefixed full (prefixIn mode ns)) params.ns [] mode := by
    intro params resourceId mode hpre hparams hmode
    have hbuilt : buildPrefix mode params.ns [] = .ok (prefixIn mode ns) := by
      rw [buildPrefix_nil, hparams]
      rfl
    simp only [invokeAction, run_isOpen, hmode, invokeList, hpre, hbuilt, KvHost.answer]
  have hin : ∀ (params : KvInvokeParams V) (resourceId : Text) (mode : KvBackendMode),
      params.pre = [] → normalizeNamespace params.ns = .ok ns →
      resolveKvBackend params.backend isOpen = .ok mode →
      ((∃ keys, (invokeAction b ⟨.list, params, resourceId⟩
          (KvHost.run b ⟨.empty, start, isOpen⟩ calls)).1 = .ok (.keys keys params.ns [] mode) ∧
        IsListing (fun key => written (KvCall.writes isOpen mode calls) (ns, key)) [] keys) ↔
        ListsIn b start isOpen calls ns mode) := by
    intro params resourceId mode hpre hparams hmode
    rw [hinvoke params resourceId mode hpre hparams hmode, ListsIn]
    cases (KvHost.run b ⟨.empty, start, isOpen⟩ calls).listPrefix b (prefixIn mode ns) mode with
    | error e => simp [Except.mapError, Except.map]
    | ok full => simp [Except.mapError, Except.map]
  constructor
  · intro h
    refine ⟨?_, fun hopen => ?_⟩
    · have hmode : resolveKvBackend "memory".toList isOpen = .ok .memory := by
        cases isOpen <;> decide
      have hlists := h { ns := ns, backend := "memory".toList } [] .memory rfl hns hmode
      exact (hin { ns := ns, backend := "memory".toList } [] .memory rfl hns hmode).mp hlists
    · have hmode : resolveKvBackend "storage".toList isOpen = .ok .storage := by
        rw [hopen]
        decide
      have hlists := h { ns := ns, backend := "storage".toList } [] .storage rfl hns hmode
      exact (hin { ns := ns, backend := "storage".toList } [] .storage rfl hns hmode).mp hlists
  · rintro ⟨hmemory, hstorage⟩ params resourceId mode hpre hparams hmode
    refine (hin params resourceId mode hpre hparams hmode).mpr ?_
    cases mode with
    | memory => exact hmemory
    | storage => exact hstorage (isOpen_of_resolve hmode)

/-- The process memory lists the keys of a namespace that is left apart. -/
theorem listsIn_memory (hns : normalizeNamespace ns = .ok ns) (hapart : LeaveApart U ns)
    (hcalls : ∀ call ∈ calls, call.Names U) : ListsIn b start isOpen calls ns .memory := by
  obtain ⟨full, hfull, hlisting⟩ := memory_isListing V E
    (toOps .memory (KvCall.writes isOpen .memory calls)) (prefixIn .memory ns)
  refine ⟨full, ?_, listing_of_isListing hns (names_of_writes hcalls) hapart hlisting⟩
  rw [← hfull, ← run_memory (b := b) ⟨.empty, start, isOpen⟩ calls]
  rfl

/-- No listed key leaves a logical key. -/
theorem logicalKeysFromPrefixed_eq_nil_iff (hns : normalizeNamespace ns = .ok ns)
    {mode : KvBackendMode} {full : List Key} :
    logicalKeysFromPrefixed full (prefixIn mode ns) = [] ↔
      ∀ k ∈ full, logicalKey? (prefixIn mode ns) k = none := by
  rw [logicalKeysFromPrefixed, rdropWhile_prefixIn hns, ← List.length_eq_zero_iff, sortedKeys,
    List.length_insertionSort, List.length_eq_zero_iff, List.filterMap_eq_nil_iff]

/-- A cold tier lists the stored keys with the prefix of a namespace; or no name in use is in the
namespace, and no key that it lists leaves a logical key. -/
def ColdLists (cold : BaseBackend S V E) (start : S) (U : KvName → Prop) (ns : Text) : Prop :=
  ∀ writes : List (KvName × Option V), (∀ w ∈ writes, U w.1) →
    ∃ full, cold.keysWithPrefix (cold.run start (toOps .storage writes)) (prefixIn .storage ns) =
        .ok full ∧
      (IsListing (lastWrite (toOps .storage writes)) (prefixIn .storage ns) full ∨
        (∀ n, U n → n.ns ≠ ns) ∧ logicalKeysFromPrefixed full (prefixIn .storage ns) = [])

/-- Without a name in the namespace nothing is to be listed. -/
theorem isListing_nil {writes : List (KvName × Option V)} (hU : ∀ w ∈ writes, U w.1)
    (hnone : ∀ n, U n → n.ns ≠ ns) :
    IsListing (fun key => written writes (ns, key)) [] ([] : List Key) := by
  refine ⟨List.Pairwise.nil, fun key => ⟨fun hmem => (by cases hmem), fun h => ?_⟩⟩
  obtain ⟨w, hw, hpair⟩ := known_of_written h.1
  exact absurd (Prod.mk.inj hpair).1.symm (hnone w.1 (hU w hw))

/-- What the keys that are listed show of the namespace. -/
theorem listing_of_coldLists (hns : normalizeNamespace ns = .ok ns) (hapart : LeaveApart U ns)
    {writes : List (KvName × Option V)} (hU : ∀ w ∈ writes, U w.1) {full : List Key}
    (h : IsListing (lastWrite (toOps .storage writes)) (prefixIn .storage ns) full ∨
      (∀ n, U n → n.ns ≠ ns) ∧ logicalKeysFromPrefixed full (prefixIn .storage ns) = []) :
    IsListing (fun key => written writes (ns, key)) []
      (logicalKeysFromPrefixed full (prefixIn .storage ns)) := by
  rcases h with hlisting | ⟨hnone, hnil⟩
  · exact listing_of_isListing hns hU hapart hlisting
  · rw [hnil]
    exact isListing_nil hU hnone

variable {Kept : S → Prop} {hotMaxKeys : ℕ}

/-- A storage with such a backend lists the keys of the namespace. -/
theorem listsIn_of_coldLists (hns : normalizeNamespace ns = .ok ns) (hapart : LeaveApart U ns)
    (hb : DeletesFound b Kept) (hkept : Kept start) (hlists : ColdLists b start U ns)
    (hcalls : ∀ call ∈ calls, call.Names U) : ListsIn b start isOpen calls ns .storage := by
  have hU := @names_of_writes _ isOpen .storage _ _ hcalls
  obtain ⟨full, hfull, hlisting⟩ := hlists _ hU
  refine ⟨full, ?_, listing_of_coldLists hns hapart hU hlisting⟩
  rw [← hfull]
  have hrun := (@DeletesFound.run_storage _ _ _ _ _ hb ⟨.empty, start, isOpen⟩ hkept calls).2
  exact congrArg (b.keysWithPrefix · (prefixIn .storage ns)) hrun

/-- A storage with a tiered backend over such a one lists the keys of the namespace. -/
theorem listsIn_tiered (hns : normalizeNamespace ns = .ok ns) (hapart : LeaveApart U ns)
    (hb : DeletesFound b Kept) (hkept : Kept start) (hlists : ColdLists b start U ns)
    (hread : ReadsStored b start U (prefixIn .storage ns))
    (hcalls : ∀ call ∈ calls, call.Names U) :
    ListsIn (tieredBackend b hotMaxKeys) (.start start) isOpen calls ns .storage := by
  have hU := @names_of_writes _ isOpen .storage _ _ hcalls
  obtain ⟨full, hfull, hlisting⟩ := hlists _ hU
  obtain ⟨-, hcold, hhot⟩ := @tiered_run _ _ _ _ hotMaxKeys _ _ _ hb _ hkept hread isOpen _ hcalls
    .empty
  refine ⟨_, tiered_keysWithPrefix b hotMaxKeys (by rw [hcold, hfull]),
    listing_of_coldLists hns hapart hU ?_⟩
  generalize (KvHost.run (tieredBackend b hotMaxKeys) ⟨.empty, .start start, isOpen⟩
    calls).storage.hot = hot at hhot ⊢
  rcases hlisting with hlisting | ⟨hnone, hnil⟩
  · refine .inl (isListing_sortedKeys (List.nodup_dedup _) fun k => ?_)
    rw [List.mem_dedup, List.mem_append, List.mem_filter, hlisting.mem_iff]
    refine ⟨fun h => h.elim (fun hmem => ?_) id, .inr⟩
    obtain ⟨v, hv⟩ := (Dict.mem_keys_iff _ _).mp hmem.1
    have hpre : prefixIn .storage ns <+: k := of_decide_eq_true hmem.2
    exact ⟨(hhot k v hv).2.2 hpre, hpre⟩
  · refine .inr ⟨hnone, (logicalKeysFromPrefixed_eq_nil_iff hns).mpr fun k hk => ?_⟩
    rw [sortedKeys, List.mem_insertionSort, List.mem_dedup, List.mem_append, List.mem_filter] at hk
    rcases hk with ⟨hmem, hpre⟩ | hk
    · obtain ⟨v, hv⟩ := (Dict.mem_keys_iff _ _).mp hmem
      obtain ⟨n, hn, rfl⟩ := (hhot k v hv).2.1
      have hin := (prefixIn_isPrefix (colon_not_mem_namespace hns)).mp (of_decide_eq_true hpre)
      exact absurd (hapart n hn hin).1 (hnone n hn)
    · exact (logicalKeysFromPrefixed_eq_nil_iff hns).mp hnil k hk

/-- The memory backend lists exactly. -/
theorem memory_coldLists : ColdLists (memoryBackend V E) .empty U ns := by
  intro writes _
  obtain ⟨full, hfull, hlisting⟩ := memory_isListing V E (toOps .storage writes)
    (prefixIn .storage ns)
  exact ⟨full, hfull, .inl hlisting⟩

/-- The memory backend reads only what is stored. -/
theorem memory_readsStored {pre : Key} : ReadsStored (memoryBackend V E) .empty U pre := by
  intro writes _ n _ _ value hget
  have hstored := congrFun (memory_get?_run V E (toOps .storage writes)) (keyIn .storage n)
  rw [← hstored]
  have hjoin := Except.ok.inj hget
  exact Option.isSome_iff_exists.mpr ⟨some value, Option.join_eq_some_iff.mp hjoin⟩

end Isolation

section Files

variable {V : Type*} {beyond : DataDir V → Key → Except StorageError (List Key)} {ns : Text}
  {U : KvName → Prop}

/-- The key of a name in use. -/
def KeyOf (U : KvName → Prop) (k : Key) : Prop := ∃ n, U n ∧ k = keyIn .storage n

/-- The filesystem backend tells the keys of a namespace: its directory does, or the namespace has
the name of a directory itself or of its parent, has no name in use, and the walk that leaves the
directory of all namespaces finds no key with the prefix. -/
def FilesTold (beyond : DataDir V → Key → Except StorageError (List Key)) (U : KvName → Prop)
    (ns : Text) : Prop :=
  if ns = ['.'] ∨ ns = ['.', '.'] then
    (∀ n, U n → n.ns ≠ ns) ∧ (ns = ['.', '.'] → ∀ writes : List (KvName × Option V),
      (∀ w ∈ writes, U w.1) → ∃ full,
        beyond ((filesystemBackend beyond).run .empty (toOps .storage writes))
          (prefixIn .storage ns) = .ok full ∧
        logicalKeysFromPrefixed full (prefixIn .storage ns) = [])
  else Listable (KeyOf U) (prefixIn .storage ns) (kvDir ++ [ns])

/-- The operations of writes to names in use are about their keys. -/
theorem keyOf_toOps {writes : List (KvName × Option V)} (hU : ∀ w ∈ writes, U w.1) :
    ∀ op ∈ toOps .storage writes, KeyOf U op.key := by
  intro op hop
  obtain ⟨w, hw, rfl⟩ := List.mem_map.mp hop
  exact ⟨w.1, hU w hw, key_toOp .storage w⟩

/-- A walk of the directory of all namespaces finds no key that starts with a dot. -/
theorem not_prefix_dot {n : KvName} (h : ¬['.'] <+: n.ns) :
    ¬prefixIn .storage ['.'] <+: DataDir.listedKey (modernPath (keyIn .storage n)) := by
  rcases listedKey_keyIn n with ⟨-, hlisted⟩ | ⟨dirs, name, -, -, hlisted⟩
  · rw [hlisted, prefixIn, KvBackendMode.base, List.append_assoc, List.prefix_append_right_inj,
      List.singleton_append, List.cons_prefix_cons]
    exact fun hpre => h (hpre.2.trans (stem_isPrefix n.ns))
  · rw [hlisted, prefixIn, prefixIn, List.append_assoc, List.prefix_append_right_inj]
    obtain ⟨c, rest, hc⟩ := List.exists_cons_of_ne_nil (namespace_ne_nil n.ns_ok)
    rw [hc] at h ⊢
    exact fun hpre => h (List.cons_prefix_cons.mpr
      ⟨(List.cons_prefix_cons.mp hpre).1, List.nil_prefix⟩)

/-- The filesystem backend lists the keys of a namespace that it tells. -/
theorem filesystem_coldLists (hns : normalizeNamespace ns = .ok ns) (hapart : LeaveApart U ns)
    (htold : FilesTold beyond U ns) : ColdLists (filesystemBackend beyond) .empty U ns := by
  intro writes hU
  unfold FilesTold at htold
  have hdir := prefixDir_prefixIn hns
  split at htold
  · rename_i hspecial
    obtain ⟨hnone, hbeyond⟩ := htold
    by_cases htwo : ns = ['.', '.']
    · obtain ⟨full, hfull, hnil⟩ := hbeyond htwo writes hU
      rw [if_pos htwo] at hdir
      refine ⟨full, ?_, .inr ⟨hnone, hnil⟩⟩
      simp only [filesystemBackend, DataDir.keysWithPrefix, hdir]
      exact hfull
    · have hone : ns = ['.'] := hspecial.resolve_right htwo
      rw [if_neg htwo, if_pos hone] at hdir
      refine ⟨_, DataDir.keysWithPrefix_eq beyond _ hdir, .inr ⟨hnone, ?_⟩⟩
      refine (logicalKeysFromPrefixed_eq_nil_iff hns).mpr fun k hk => ?_
      rw [sortedKeys, List.mem_insertionSort, List.mem_map] at hk
      obtain ⟨path, hpath, rfl⟩ := hk
      obtain ⟨n, hn, -, rfl⟩ := files_run hU path
        (List.mem_of_mem_filter (List.mem_of_mem_filter hpath))
      refine if_neg ?_
      rw [hone]
      refine not_prefix_dot fun hpre => hnone n hn ?_
      exact (hapart n hn (hone ▸ hpre)).1
  · rename_i hspecial
    rw [not_or] at hspecial
    rw [if_neg hspecial.2, if_neg hspecial.1] at hdir
    obtain ⟨full, hfull, hlisting⟩ := @Listable.listsExactly _ beyond _ _ _ htold hdir _ (keyOf_toOps hU)
    exact ⟨full, hfull, .inl hlisting⟩

/-- A key that reads a value has a file, at its path or at its flat one. -/
theorem file_of_get {t : DataDir V} {k : Key} {v : V} (h : t.get k = .ok (some v)) :
    t.files.get? (modernPath k) = some (some v) ∨ [k] ∈ t.files.keys := by
  have hread : ∀ {path : RelPath}, t.read path = .ok (some v) →
      t.files.get? path = some (some v) := fun {path} heq => by
    unfold FileTree.read at heq
    split at heq
    · rename_i content hcontent
      rw [hcontent, Except.ok.inj heq]
    · cases heq
  rw [DataDir.get] at h
  split at h
  · cases h
  · rename_i paths hpaths
    obtain ⟨haccepted, hlegacy⟩ := accepted_of_candidatePaths hpaths
    rw [candidatePaths_ok haccepted hlegacy] at hpaths
    cases hpaths
    split at h
    · cases h
    · rename_i path hfind
      have hvalue : t.files.get? path = some (some v) := by
        refine hread ?_
        split at h <;> simp_all
      rcases List.mem_pair.mp (List.mem_of_find?_eq_some hfind) with rfl | rfl
      · exact .inl hvalue
      · exact .inr ((Dict.mem_keys_iff _ _).mpr ⟨_, hvalue⟩)

/-- The filesystem backend reads, of the keys of a namespace that it tells, only what is stored. -/
theorem filesystem_readsStored (hns : normalizeNamespace ns = .ok ns) (hapart : LeaveApart U ns)
    (htold : FilesTold beyond U ns) :
    ReadsStored (filesystemBackend beyond) .empty U (prefixIn .storage ns) := by
  intro writes hU n hn hpre value hget
  unfold FilesTold at htold
  split at htold
  · have hin := (prefixIn_isPrefix (colon_not_mem_namespace hns)).mp hpre
    exact absurd (hapart n hn hin).1 (htold.1 n hn)
  · have hshows := @Listable.shows_run _ beyond _ _ _ htold _ (keyOf_toOps hU)
    rcases file_of_get hget with hfile | hflat
    · rw [← hshows.content _ ⟨n, hn, rfl⟩ hpre]
      exact Option.isSome_iff_exists.mpr ⟨_, hfile⟩
    · obtain ⟨k, ⟨n', -, rfl⟩, -, hpath⟩ := hshows.files _ hflat
      have hsegments := congrArg List.length hpath
      rcases listedKey_keyIn n' with ⟨hnil, -⟩ | ⟨dirs, name, -, hmodern, -⟩
      · rw [modernPath, segments_keyIn, hnil, withSuffix_concat] at hsegments
        simp [kvDir] at hsegments
      · rw [hmodern] at hsegments
        simp [kvDir] at hsegments

end Files

section Single

variable {S V E : Type*} {b : BaseBackend S V E} {start : S} {isOpen : Bool} {ns : Text}
  {U : KvName → Prop} {mode : KvBackendMode}

/-- A normalized name names itself. -/
theorem kvName_self (n : KvName) : kvName n.ns n.key = .ok n := by
  unfold kvName
  split
  · rename_i e he
    rw [n.ns_ok] at he
    cases he
  · rename_i ns' hns
    split
    · rename_i e he
      rw [n.key_ok] at he
      cases he
    · rename_i key' hkey
      have hns' := n.ns_ok.symm.trans hns
      have hkey' := n.key_ok.symm.trans hkey
      cases n
      cases hns'
      cases hkey'
      rfl

/-- The name of a store among the parameters. -/
def KvBackendMode.text : KvBackendMode → Text
  | .memory => "memory".toList
  | .storage => "storage".toList

/-- A call that makes a write. -/
def writeCall (mode : KvBackendMode) (w : KvName × Option V) : KvCall V where
  action := if w.2.isSome then .put else .delete
  params := { ns := w.1.ns, backend := mode.text, value := w.2 }
  resourceId := w.1.key

/-- The logical key of such a call. -/
theorem logicalKey_writeCall (w : KvName × Option V) : (writeCall mode w).logicalKey = w.1.key := by
  obtain ⟨hstrip, hne, -⟩ := logicalKey_spec w.1.key_ok
  rw [KvCall.logicalKey, writeCall, if_neg hne, hstrip]

/-- Such calls name what they write. -/
theorem names_writeCall {writes : List (KvName × Option V)} (hU : ∀ w ∈ writes, U w.1) :
    ∀ call ∈ writes.map (writeCall mode), call.Names U := by
  intro call hcall n hn
  obtain ⟨w, hw, rfl⟩ := List.mem_map.mp hcall
  rw [logicalKey_writeCall] at hn
  cases (kvName_self w.1).symm.trans hn
  exact hU w hw

/-- Such calls make these writes in an open storage and in the process memory. -/
theorem writes_writeCall (hopen : mode = .storage → isOpen = true)
    (writes : List (KvName × Option V)) :
    KvCall.writes isOpen mode (writes.map (writeCall mode)) = writes := by
  have hresolve : resolveKvBackend mode.text isOpen = .ok mode := by
    cases mode with
    | memory => cases isOpen <;> decide
    | storage =>
      rw [hopen rfl]
      decide
  rw [KvCall.writes, List.filterMap_map]
  refine (List.filterMap_congr fun w _ => ?_).trans List.filterMap_some
  have hname : kvName (writeCall mode w).params.ns (writeCall mode w).logicalKey = .ok w.1 := by
    rw [logicalKey_writeCall]
    exact kvName_self w.1
  have hmode : resolveKvBackend (writeCall mode w).params.backend isOpen = .ok mode := hresolve
  rw [Function.comp_apply, KvCall.write?, KvCall.effect?, hmode, hname]
  obtain ⟨n, _ | value⟩ := w <;> simp [writeCall, KvEffect.write?]

/-- What the only listed key leaves is all that is listed. -/
theorem logicalKeysFromPrefixed_singleton (hns : normalizeNamespace ns = .ok ns) (k : Key) :
    logicalKeysFromPrefixed [k] (prefixIn mode ns) = (logicalKey? (prefixIn mode ns) k).toList := by
  rw [logicalKeysFromPrefixed, rdropWhile_prefixIn hns, sortedKeys]
  cases h : logicalKey? (prefixIn mode ns) k <;> simp [h]

/-- What a key without slashes leaves has no colon at its start. -/
theorem head?_of_logicalKey? {base k : Key} {key : Text} (hslash : '/' ∉ k)
    (h : logicalKey? base k = some key) : key.head? ≠ some ':' := by
  rw [logicalKey?] at h
  split at h
  · have hfree : '/' ∉ (k.drop base.length).dropWhile (· = ':') := fun hmem =>
      hslash (List.mem_of_mem_drop ((List.dropWhile_sublist _).subset hmem))
    have hsame : ((k.drop base.length).dropWhile (· = ':')).dropWhile (· = '/') =
        (k.drop base.length).dropWhile (· = ':') := by
      cases hrest : (k.drop base.length).dropWhile (· = ':') with
      | nil => rfl
      | cons c rest =>
        have hc : c ≠ '/' := fun heq => hfree (by rw [hrest, heq]; exact List.mem_cons_self)
        simp [hc]
    dsimp only at h
    split at h
    · cases h
    · rw [hsame] at h
      rw [← Option.some.inj h]
      intro hhead
      have hnot := List.head?_dropWhile_not (p := (· = ':')) (l := k.drop base.length)
      rw [hhead] at hnot
      simp at hnot
  · cases h

/-- If the process memory lists the keys of a namespace after every single put, the names in use
leave it apart. -/
theorem leaveApart_of_lists [Inhabited V] (hns : normalizeNamespace ns = .ok ns)
    (h : ∀ writes : List (KvName × Option V), (∀ w ∈ writes, U w.1) →
      ListsIn b start isOpen (writes.map (writeCall .memory)) ns .memory) : LeaveApart U ns := by
  intro n hn hpre
  have hlists := h [(n, some default)] (by simpa using hn)
  rw [ListsIn, writes_writeCall (fun heq => (by cases heq))] at hlists
  obtain ⟨full, hfull, hlisting⟩ := hlists
  have hkey : prefixIn .memory ns <+: keyIn .memory n :=
    (prefixIn_isPrefix (colon_not_mem_namespace hns)).mpr hpre
  have hsingle : full = [keyIn .memory n] := by
    rw [KvHost.listPrefix, run_memory,
      @writes_writeCall _ _ .memory (fun heq => (by cases heq))] at hfull
    rw [← Except.ok.inj hfull]
    have hkeys : ((memoryBackend V E).run .empty (toOps .memory [(n, some default)])).keys =
        [keyIn .memory n] := rfl
    simp [hkeys, hkey, sortedKeys]
  rw [hsingle, logicalKeysFromPrefixed_singleton hns] at hlisting
  have hmem := hlisting.mem_iff
  simp only [Option.mem_toList, List.nil_prefix, and_true] at hmem
  by_cases heq : n.ns = ns
  · refine ⟨heq, fun hhead => ?_⟩
    have hstored : (written [(n, some default)] (ns, n.key)).isSome (α := V) := by
      simp [written, heq]
    have hslash : '/' ∉ keyIn .memory n := by
      have hns' := slash_not_mem_namespace n.ns_ok
      have hkey' := (logicalKey_spec n.key_ok).2.2
      simp [keyIn, KvBackendMode.base, hns', hkey']
    exact head?_of_logicalKey? hslash ((hmem n.key).mpr hstored) hhead
  · exfalso
    obtain ⟨rest, hrest⟩ := hpre
    obtain ⟨c, rest, rfl⟩ := List.exists_cons_of_ne_nil (l := rest) (by
      rintro rfl
      exact heq (by simpa using hrest.symm))
    have hcolon : c ≠ ':' := fun hc => colon_not_mem_namespace n.ns_ok (by simp [← hrest, hc])
    have hslash : c ≠ '/' := fun hc => slash_not_mem_namespace n.ns_ok (by simp [← hrest, hc])
    have hlogical : logicalKey? (prefixIn .memory ns) (keyIn .memory n) =
        some (c :: (rest ++ ':' :: n.key)) := by
      simp [logicalKey?, prefixIn, keyIn, KvBackendMode.base, ← hrest, hcolon, hslash]
    obtain ⟨w, hw, hpair⟩ := known_of_written ((hmem _).mp hlogical)
    rw [List.mem_singleton.mp hw] at hpair
    exact heq (Prod.mk.inj hpair).1.symm

end Single

section Told

variable {V : Type*} {beyond : DataDir V → Key → Except StorageError (List Key)} {ns : Text}
  {U : KvName → Prop}

/-- The keys that the filesystem backend lists for a namespace with a plain name lie below its
prefix. -/
theorem below_of_filesystem (hns : normalizeNamespace ns = .ok ns)
    (hplain : ¬(ns = ['.'] ∨ ns = ['.', '.'])) {writes : List (KvName × Option V)}
    (hU : ∀ w ∈ writes, U w.1) {full : List Key}
    (hfull : DataDir.keysWithPrefix beyond
      ((filesystemBackend beyond).run .empty (toOps .storage writes)) (prefixIn .storage ns) =
        .ok full) :
    full.Pairwise (· ≤ ·) ∧ ∀ k ∈ full, ∃ key, k = prefixIn .storage ns ++ ':' :: key ∧
      logicalKey? (prefixIn .storage ns) k = some key := by
  have hdir := prefixDir_prefixIn hns
  rw [not_or] at hplain
  rw [if_neg hplain.2, if_neg hplain.1] at hdir
  rw [DataDir.keysWithPrefix_eq beyond _ hdir] at hfull
  rw [← Except.ok.inj hfull]
  refine ⟨List.pairwise_insertionSort (· ≤ ·) _, fun k hk => ?_⟩
  rw [sortedKeys, List.mem_insertionSort, List.mem_map] at hk
  obtain ⟨path, hpath, rfl⟩ := hk
  obtain ⟨hfile, habove⟩ := List.mem_filter.mp (List.mem_of_mem_filter hpath)
  obtain ⟨n, -, haccepted, rfl⟩ := files_run hU path hfile
  obtain ⟨hbelow, hne⟩ := of_decide_eq_true habove
  rcases listedKey_keyIn n with ⟨hnil, -⟩ | ⟨dirs, name, hsegments, hmodern, hlisted⟩
  · -- the path of a name without segments of its own is as long as that of the directory
    refine absurd (hbelow.eq_of_length ?_) hne
    rw [modernPath, segments_keyIn, hnil, withSuffix_concat]
    simp
  · rw [hmodern, List.prefix_append_right_inj, List.cons_prefix_cons] at hbelow
    rw [hlisted, ← hbelow.1]
    obtain ⟨first, others, hrest⟩ := List.exists_cons_of_ne_nil (l := dirs ++ [stem name]) (by simp)
    have hfirst : first ≠ [] ∧ ':' ∉ first ∧ '/' ∉ first := by
      have hname : ∀ s ∈ segments n.key, s ≠ [] ∧ ':' ∉ s ∧ '/' ∉ s := fun s hs =>
        ⟨(segment_spec hs).1, (segment_spec hs).2,
          (haccepted.2.1 s (by rw [segments_keyIn]; simp [hs])).2.1⟩
      have hmem : first ∈ dirs ++ [stem name] := hrest ▸ List.mem_cons_self
      rcases List.mem_append.mp hmem with hin | hin
      · exact hname first (by rw [hsegments]; exact List.mem_append_left _ hin)
      · have hlast := hname name (by simp [hsegments])
        rw [List.mem_singleton.mp hin]
        exact ⟨stem_ne_nil hlast.1, fun h => hlast.2.1 ((stem_isPrefix name).subset h),
          fun h => hlast.2.2 ((stem_isPrefix name).subset h)⟩
    refine ⟨_, rfl, logicalKey?_append ?_ ?_ ?_⟩
    · rw [hrest]
      intro hnil
      have hhead := head?_intercalate hfirst.1 others
      rw [hnil] at hhead
      exact hfirst.1 (List.head?_eq_none_iff.mp hhead.symm)
    · rw [hrest, head?_intercalate hfirst.1]
      exact fun h => hfirst.2.1 (List.mem_of_mem_head? h)
    · rw [hrest, head?_intercalate hfirst.1]
      exact fun h => hfirst.2.2 (List.mem_of_mem_head? h)

/-- If a storage with the filesystem backend lists the keys of a namespace after all writes, the
backend tells them. -/
theorem filesTold_of_lists [Inhabited V] (hns : normalizeNamespace ns = .ok ns)
    (hapart : LeaveApart U ns)
    (h : ∀ writes : List (KvName × Option V), (∀ w ∈ writes, U w.1) →
      ListsIn (filesystemBackend beyond) .empty true (writes.map (writeCall .storage)) ns
        .storage) : FilesTold beyond U ns := by
  have hlists : ∀ writes : List (KvName × Option V), (∀ w ∈ writes, U w.1) →
      ∃ full, DataDir.keysWithPrefix beyond
          ((filesystemBackend beyond).run .empty (toOps .storage writes)) (prefixIn .storage ns) =
            .ok full ∧
        IsListing (fun key => written writes (ns, key)) []
          (logicalKeysFromPrefixed full (prefixIn .storage ns)) := by
    intro writes hU
    obtain ⟨full, hfull, hlisting⟩ := h writes hU
    have hrun := (@DeletesFound.run_storage _ _ _ _ _ (filesystem_deletesFound beyond)
      ⟨.empty, .empty, true⟩ (fun p => (by simp [FileTree.empty])) (writes.map
        (writeCall .storage))).2
    rw [writes_writeCall fun _ => rfl] at hrun hlisting
    rw [KvHost.listPrefix, hrun] at hfull
    exact ⟨full, hfull, hlisting⟩
  have hsame : ∀ n, U n → ¬Accepted (keyIn .storage n) → n.ns ≠ ns := by
    -- a rejected put leaves the empty directory, whose listing does not show it
    intro n hn hrejected heq
    obtain ⟨e, he⟩ := DataDir.set_rejected (.empty : DataDir V) hrejected (some default)
    obtain ⟨full, hfull, hlisting⟩ := hlists [(n, some default)] (by simpa using hn)
    obtain ⟨full', hfull', hlisting'⟩ := hlists [] (by simp)
    have hrun : (filesystemBackend beyond).run .empty
        (toOps .storage [(n, some (default : V))]) = .empty := BaseBackend.run_set _ he
    rw [hrun] at hfull
    obtain rfl := Except.ok.inj (hfull.symm.trans hfull')
    have hstored : (written [(n, some (default : V))] (ns, n.key)).isSome := by
      simp [written, heq]
    have hmem := (hlisting'.mem_iff _).mp ((hlisting.mem_iff n.key).mpr ⟨hstored, List.nil_prefix⟩)
    cases hmem.1
  unfold FilesTold
  split
  · rename_i hspecial
    have hnone : ∀ n, U n → n.ns ≠ ns := fun n hn heq => by
      refine hsame n hn (fun haccepted => ?_) heq
      have hsegment := (haccepted.2.1 n.ns (by rw [segments_keyIn]; simp)).1
      rw [heq] at hsegment
      exact hspecial.elim hsegment.1 hsegment.2
    refine ⟨hnone, fun htwo writes hU => ?_⟩
    obtain ⟨full, hfull, hlisting⟩ := hlists writes hU
    have hdir := prefixDir_prefixIn hns
    rw [if_pos htwo] at hdir
    simp only [DataDir.keysWithPrefix, hdir] at hfull
    exact ⟨full, hfull, hlisting.unique (isListing_nil hU hnone)⟩
  · rename_i hplain
    have hdir := prefixDir_prefixIn hns
    rw [not_or] at hplain
    rw [if_neg hplain.2, if_neg hplain.1] at hdir
    have hexact : ∀ writes : List (KvName × Option V), (∀ w ∈ writes, U w.1) →
        ListsExactly (filesystemBackend beyond) .empty (toOps .storage writes)
          (prefixIn .storage ns) := by
      intro writes hU
      obtain ⟨full, hfull, hlisting⟩ := hlists writes hU
      obtain ⟨hsorted, hbelow⟩ := below_of_filesystem hns (not_or.mpr hplain) hU hfull
      exact ⟨full, hfull, isListing_of_listing hns hU hapart hsorted hbelow hlisting⟩
    have hone : ∀ k, KeyOf U k → ListsExactly (filesystemBackend beyond) .empty
        [.set k (some (default : V))] (prefixIn .storage ns) := by
      rintro k ⟨n, hn, rfl⟩
      exact hexact [(n, some default)] (by simpa using hn)
    have hgone : ∀ k, KeyOf U k → ListsExactly (filesystemBackend beyond) .empty
        [.set k (some (default : V)), .delete k] (prefixIn .storage ns) := by
      rintro k ⟨n, hn, rfl⟩
      exact hexact [(n, some default), (n, none)] (by simpa using hn)
    have htwo : ∀ k k', KeyOf U k → KeyOf U k' → ListsExactly (filesystemBackend beyond) .empty
        [.set k (some (default : V)), .set k' (some default)] (prefixIn .storage ns) := by
      rintro k k' ⟨n, hn, rfl⟩ ⟨n', hn', rfl⟩
      exact hexact [(n, some default), (n', some default)] (by simpa using ⟨hn, hn'⟩)
    exact listable_of_exact hdir (some default) hone hgone htwo

end Told

/-- After the calls the listings of a namespace are exact with every storage backend, whether the
storage is open or not. -/
structure IsolatesNamespace {V : Type*} (beyond : DataDir V → Key → Except StorageError (List Key))
    (hotMaxKeys : ℕ) (calls : List (KvCall V)) (ns : Text) : Prop where
  memory : ∀ isOpen, ListsNamespace (memoryBackend V StorageError) .empty isOpen calls ns
  filesystem : ∀ isOpen, ListsNamespace (filesystemBackend beyond) .empty isOpen calls ns
  tieredMemory : ∀ isOpen, ListsNamespace (tieredBackend (memoryBackend V StorageError) hotMaxKeys)
    (.start .empty) isOpen calls ns
  tieredFilesystem : ∀ isOpen, ListsNamespace (tieredBackend (filesystemBackend beyond) hotMaxKeys)
    (.start .empty) isOpen calls ns

/-- After all calls that are about the names in use the listings of a namespace are exact just when
these names leave the namespace apart and the filesystem backend tells its keys. -/
theorem isolatesNamespace_run_iff {V : Type*} [Inhabited V]
    (beyond : DataDir V → Key → Except StorageError (List Key)) (hotMaxKeys : ℕ)
    (U : KvName → Prop) (ns : {ns : Text // normalizeNamespace ns = .ok ns}) :
    (∀ calls : List (KvCall V), (∀ call ∈ calls, call.Names U) →
      IsolatesNamespace beyond hotMaxKeys calls ns.1) ↔
        LeaveApart U ns.1 ∧ FilesTold beyond U ns.1 := by
  obtain ⟨ns, hns⟩ := ns
  dsimp only
  constructor
  · intro h
    have hapart : LeaveApart U ns :=
      leaveApart_of_lists hns fun (writes : List (KvName × Option V)) hU =>
        ((listsNamespace_iff hns).mp ((h _ (names_writeCall hU)).memory true)).1
    refine ⟨hapart, filesTold_of_lists hns hapart fun writes hU => ?_⟩
    exact ((listsNamespace_iff hns).mp ((h _ (names_writeCall hU)).filesystem true)).2 rfl
  · rintro ⟨hapart, htold⟩ calls hcalls
    have hfiles := filesystem_coldLists hns hapart htold
    have hread := filesystem_readsStored hns hapart htold
    refine ⟨fun isOpen => ?_, fun isOpen => ?_, fun isOpen => ?_, fun isOpen => ?_⟩ <;>
      refine (listsNamespace_iff hns).mpr ⟨listsIn_memory hns hapart hcalls, fun _ => ?_⟩
    · exact listsIn_of_coldLists hns hapart memory_deletesFound (by simp) memory_coldLists hcalls
    · exact listsIn_of_coldLists hns hapart (filesystem_deletesFound beyond)
        (by simp [FileTree.empty]) hfiles hcalls
    · exact listsIn_tiered hns hapart memory_deletesFound (by simp) memory_coldLists
        memory_readsStored hcalls
    · exact listsIn_tiered hns hapart (filesystem_deletesFound beyond)
        (by simp [FileTree.empty]) hfiles hread hcalls

/-- A value of the namespace `ab` is listed in the namespace `a`. -/
theorem isolatesNamespace_run_fails :
    ¬∀ (beyond : DataDir ℕ → Key → Except StorageError (List Key)) (hotMaxKeys : ℕ)
      (ns : {ns : Text // normalizeNamespace ns = .ok ns}) (calls : List (KvCall ℕ)),
      IsolatesNamespace beyond hotMaxKeys calls ns.1 := by
  intro h
  let put : KvCall ℕ := ⟨.put, ⟨"ab".toList, "memory".toList, none, some 1, [], []⟩, "k".toList⟩
  let params : KvInvokeParams ℕ := ⟨"a".toList, "memory".toList, none, none, [], []⟩
  obtain ⟨keys, hkeys, hlisting⟩ := (h (fun _ _ => .ok []) 0 ⟨"a".toList, by decide⟩ [put]).memory
    true params [] .memory rfl (by decide) (by decide)
  have hlisted : (invokeAction (memoryBackend ℕ StorageError) ⟨.list, params, []⟩
      (KvHost.run (memoryBackend ℕ StorageError) ⟨.empty, .empty, true⟩ [put])).1 =
        .ok (.keys ["b:k".toList] "a".toList [] .memory) := rfl
  rw [hlisted] at hkeys
  obtain rfl : ["b:k".toList] = keys := by
    cases hkeys
    rfl
  have hstored := ((hlisting.mem_iff "b:k".toList).mp (by simp)).1
  have hnone : written (KvCall.writes true .memory [put]) ("a".toList, "b:k".toList) = none := rfl
  rw [hnone] at hstored
  cases hstored

end PalmEngine.KvProvider
