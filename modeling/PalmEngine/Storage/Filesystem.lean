import PalmEngine.Storage.KeyPath

/-!
# The filesystem backend

A value is the content of the file of its key. Writing makes the directories above the file
and replaces it; reading and deleting try the nested path of the key and then its flat one.
Listing walks the directory that the segments of the prefix name and turns the paths of the
JSON files below it back into keys.

The content of a file stands for the JSON text of the value. A prefix whose segments hold
`..` or start with a separator leads out of the data directory: what the walk then finds is up
to the host.
-/

namespace PalmEngine.Storage

open PalmEngine.Lib

/-- The data directory: every file holds a value. -/
abbrev DataDir (V : Type*) := FileTree Name (Option V)

namespace DataDir

variable {V : Type*}

/-- Replace a file at once, making the directories above it. -/
def atomicWrite (t : DataDir V) (path : RelPath) (payload : Option V) :
    Outcome (DataDir V) StorageError Unit :=
  match t.makeDirs path.dropLast with
  | .error refusal => (.error (.cannotMake path.dropLast refusal), t)
  | .ok made =>
    match made.replaceFile path payload with
    | .error _ => (.error (.cannotWrite path), made)
    | .ok written => (.ok (), written)

/-- Write the file of a key. -/
def set (t : DataDir V) (key : Key) (value : Option V) : Outcome (DataDir V) StorageError Unit :=
  match resolveDataPath key with
  | .error e => (.error e, t)
  | .ok path => t.atomicWrite path value

/-- Read the first path of the key that exists. -/
def get (t : DataDir V) (key : Key) : Except StorageError (Option V) :=
  match candidatePaths key with
  | .error e => .error e
  | .ok paths =>
    match paths.find? fun path => t.Exists path with
    | none => .ok none
    | some path =>
      match t.read path with
      | .ok value => .ok value
      | .error .notFound => .ok none
      | .error _ => .error (.cannotRead key path)

/-- Unlink the paths in order, passing over those that do not exist. -/
def unlinkAll (key : Key) : DataDir V → List RelPath → Outcome (DataDir V) StorageError Unit
  | t, [] => (.ok (), t)
  | t, path :: rest =>
    match t.unlink path with
    | .ok removed => unlinkAll key removed rest
    | .error .notFound => unlinkAll key t rest
    | .error _ => (.error (.cannotDelete key path), t)

/-- Remove the files of a key. -/
def delete (t : DataDir V) (key : Key) : Outcome (DataDir V) StorageError Unit :=
  match candidatePaths key with
  | .error e => (.error e, t)
  | .ok paths => unlinkAll key t paths

/-- The names of a path below the data directory that the segments of a prefix make, unless it
is absolute or steps up. -/
def prefixDir (pre : Key) : Option RelPath :=
  let parts := (segments pre).flatMap fun s => (s.splitOn '/').filter fun n => n ≠ [] ∧ n ≠ ['.']
  if (∃ s ∈ segments pre, s.head? = some '/') ∨ ['.', '.'] ∈ parts then none else some parts

/-- The key that a listed path stands for. -/
def listedKey (path : RelPath) : Key := [':'].intercalate (withSuffix [] path)

/-- The last name of the path ends in the suffix of the files. -/
def IsJson (path : RelPath) : Prop := ∃ name ∈ path.getLast?, jsonSuffix <:+ name

instance (path : RelPath) : Decidable (IsJson path) :=
  match h : path.getLast? with
  | none => .isFalse (by simp [IsJson, h])
  | some name => decidable_of_iff (jsonSuffix <:+ name) (by simp [IsJson, h])

/-- The keys of the JSON files below the directory of a prefix. `beyond` tells what a walk finds
that leaves the data directory. -/
def keysWithPrefix (beyond : DataDir V → Key → Except StorageError (List Key)) (t : DataDir V)
    (pre : Key) : Except StorageError (List Key) :=
  match prefixDir pre with
  | none => beyond t pre
  | some dir =>
    if t.Exists dir then .ok (sortedKeys (((t.filesBelow dir).filter (IsJson ·)).map listedKey))
    else .ok []

end DataDir

/-- The first path is a directory above the second. -/
def Above (p q : RelPath) : Prop := p <+: q ∧ p ≠ q

instance (p q : RelPath) : Decidable (Above p q) := inferInstanceAs (Decidable (_ ∧ _))

/-- A directory above a directory above a path is above the path. -/
theorem Above.trans {p q r : RelPath} (h : Above p q) (h' : Above q r) : Above p r := by
  refine ⟨h.1.trans h'.1, fun heq => h.2 (h.1.eq_of_length_le ?_)⟩
  exact heq ▸ h'.1.length_le

/-- The directories above a path that is not the root are the prefixes of its parent. -/
theorem prefix_dropLast_iff {p q : RelPath} (hq : q ≠ []) : p <+: q.dropLast ↔ Above p q := by
  obtain ⟨parent, name, rfl⟩ := (List.eq_nil_or_concat' q).resolve_left hq
  rw [List.dropLast_concat]
  constructor
  · refine fun h => ⟨h.trans (List.prefix_append _ _), ?_⟩
    rintro rfl
    simpa using h.length_le
  · rintro ⟨h, hne⟩
    exact (List.prefix_concat_iff.mp h).resolve_left hne

namespace DataDir

variable {V : Type*}

/-- Nothing stands in the way of a file at this path. -/
def Free (t : DataDir V) (path : RelPath) : Prop :=
  path ∉ t.dirs ∧ ∀ q ∈ t.files.keys, ¬ Above q path

/-- Where nothing stands in its way the file is written, and only its directories are new. -/
theorem atomicWrite_free {t : DataDir V} {path : RelPath} (h : t.Free path) (value : Option V) :
    ∃ u, t.atomicWrite path value = (.ok (), u) ∧ u.files = t.files.set path value ∧
      ∀ p, p ∈ u.dirs ↔ p ∈ t.dirs ∨ Above p path := by
  have hne : path ≠ [] := fun hnil => h.1 (hnil ▸ t.root_mem)
  have hon : ¬ t.FileOn path.dropLast := by
    rintro ⟨q, hq, hfile⟩
    exact h.2 q hfile ((prefix_dropLast_iff hne).mp ((List.mem_inits _ _).mp hq))
  obtain ⟨made, hmade, hfiles, hdirs⟩ := t.makeDirs_spec hon
  have hfresh : path ∉ made.dirs := by
    rw [hdirs, prefix_dropLast_iff hne]
    exact fun hmem => hmem.elim h.1 fun habove => habove.2 rfl
  obtain ⟨u, hu, hufiles, hudirs⟩ := made.replaceFile_spec value hfresh
    ((hdirs _).mpr (.inr (List.prefix_refl _)))
  refine ⟨u, by simp only [atomicWrite, hmade, hu], by rw [hufiles, hfiles], fun p => ?_⟩
  rw [hudirs, hdirs, prefix_dropLast_iff hne]

/-- Where something does, the write raises and the tree shows nothing new. -/
theorem atomicWrite_blocked {t : DataDir V} {path : RelPath} (h : ¬ t.Free path) (hne : path ≠ [])
    (value : Option V) :
    ∃ e u, t.atomicWrite path value = (.error e, u) ∧ u.files = t.files ∧
      ∀ p, p ∈ u.dirs ↔ p ∈ t.dirs := by
  by_cases hon : t.FileOn path.dropLast
  · refine ⟨.cannotMake path.dropLast .notADirectory, t, ?_, rfl, fun _ => .rfl⟩
    simp only [atomicWrite, FileTree.makeDirs, dif_pos hon]
  · have hdir : path ∈ t.dirs := by
      by_contra hdir
      refine h ⟨hdir, fun q hq habove => hon ⟨q, ?_, hq⟩⟩
      exact (List.mem_inits _ _).mpr ((prefix_dropLast_iff hne).mpr habove)
    obtain ⟨made, hmade, hfiles, hdirs⟩ := t.makeDirs_spec hon
    have hmem : path ∈ made.dirs := (hdirs _).mpr (.inl hdir)
    refine ⟨.cannotWrite path, made, ?_, hfiles, fun p => ?_⟩
    · simp only [atomicWrite, hmade, FileTree.replaceFile, dif_pos hmem]
    · rw [hdirs]
      refine or_iff_left_of_imp fun hp => t.mem_dirs_of_prefix (hp.trans ?_) hdir
      exact List.dropLast_prefix path

/-- Setting an accepted key writes its file. -/
theorem set_accepted (t : DataDir V) {key : Key} (h : Accepted key) (value : Option V) :
    t.set key value = t.atomicWrite (modernPath key) value := by
  simp only [set, (resolveDataPath_ok_iff key _).mpr ⟨h, rfl⟩]

/-- Setting a key that is not accepted raises at once. -/
theorem set_rejected (t : DataDir V) {key : Key} (h : ¬ Accepted key) (value : Option V) :
    ∃ e, t.set key value = (.error e, t) := by
  cases hpath : resolveDataPath key with
  | error e => exact ⟨e, by simp only [set, hpath]⟩
  | ok path => exact absurd ((resolveDataPath_ok_iff key path).mp hpath).1 h

/-- A path that cannot be unlinked is no file. -/
theorem not_mem_of_unlink_error {t : DataDir V} {path : RelPath} {refusal : Refusal}
    (h : t.unlink path = .error refusal) : path ∉ t.files.keys := by
  intro hmem
  obtain ⟨u, hu, -⟩ := t.unlink_spec hmem
  rw [h] at hu
  cases hu

/-- A path that can be unlinked is a file, and only it goes. -/
theorem of_unlink_ok {t u : DataDir V} {path : RelPath} (h : t.unlink path = .ok u) :
    u.files = t.files.erase path ∧ u.dirs = t.dirs := by
  by_cases hmem : path ∈ t.files.keys
  · obtain ⟨u', hu', hfiles, hdirs⟩ := t.unlink_spec hmem
    obtain rfl : u = u' := Except.ok.inj (h.symm.trans hu')
    exact ⟨hfiles, hdirs⟩
  · rw [FileTree.unlink, if_neg hmem] at h
    cases h

/-- Unlinking paths leaves the directories, and every file at another path. -/
theorem unlinkAll_spec (key : Key) (t : DataDir V) (paths : List RelPath) :
    (unlinkAll key t paths).2.dirs = t.dirs ∧
      (∀ p ∉ paths, (unlinkAll key t paths).2.files.get? p = t.files.get? p) ∧
      ∀ p, t.files.get? p = none → (unlinkAll key t paths).2.files.get? p = none := by
  induction paths generalizing t with
  | nil => exact ⟨rfl, fun _ _ => rfl, fun _ h => h⟩
  | cons path rest ih =>
    unfold unlinkAll
    split
    · rename_i removed h
      obtain ⟨hfiles, hdirs⟩ := of_unlink_ok h
      obtain ⟨ihdirs, ihkeep, ihnone⟩ := ih removed
      have hget (p : RelPath) : removed.files.get? p = if p = path then none else t.files.get? p := by
        rw [hfiles, Dict.get?_erase]
      refine ⟨ihdirs.trans hdirs, fun p hp => ?_, fun p hp => ihnone p ?_⟩
      · obtain ⟨hne, hp⟩ := not_or.mp (List.mem_cons.not.mp hp)
        rw [ihkeep p hp, hget, if_neg hne]
      · rw [hget, hp, ite_self]
    · obtain ⟨ihdirs, ihkeep, ihnone⟩ := ih t
      exact ⟨ihdirs, fun p hp => ihkeep p (not_or.mp (List.mem_cons.not.mp hp)).2, ihnone⟩
    · exact ⟨rfl, fun _ _ => rfl, fun _ h => h⟩

/-- The first of the paths is no file afterwards. -/
theorem unlinkAll_head (key : Key) (t : DataDir V) (path : RelPath) (rest : List RelPath) :
    (unlinkAll key t (path :: rest)).2.files.get? path = none := by
  have hgone {refusal : Refusal} (h : t.unlink path = .error refusal) :
      t.files.get? path = none := by
    have hnot := not_mem_of_unlink_error h
    rw [Dict.mem_keys_iff] at hnot
    exact Option.eq_none_iff_forall_ne_some.mpr fun v hv => hnot ⟨v, hv⟩
  unfold unlinkAll
  split
  · rename_i removed h
    refine (unlinkAll_spec key removed rest).2.2 path ?_
    rw [(of_unlink_ok h).1, Dict.get?_erase, if_pos rfl]
  · rename_i h
    exact (unlinkAll_spec key t rest).2.2 path (hgone h)
  · rename_i h
    exact hgone h

/-- Deleting a key leaves the directories, ends with no file at the key's path, and touches no
file but those at its two paths. -/
theorem delete_spec (t : DataDir V) {key : Key} (h : Accepted key) (hlegacy : LegacyAccepted key) :
    (t.delete key).2.dirs = t.dirs ∧ (t.delete key).2.files.get? (modernPath key) = none ∧
      (∀ p, p ≠ modernPath key → p ≠ [key] → (t.delete key).2.files.get? p = t.files.get? p) ∧
      ∀ p, t.files.get? p = none → (t.delete key).2.files.get? p = none := by
  have hdelete : t.delete key = unlinkAll key t [modernPath key, [key]] := by
    simp only [delete, candidatePaths_ok h hlegacy]
  obtain ⟨hdirs, hkeep, hnone⟩ := unlinkAll_spec key t [modernPath key, [key]]
  rw [hdelete]
  exact ⟨hdirs, unlinkAll_head key t _ _, fun p hne hne' => hkeep p (by simp [hne, hne']), hnone⟩

/-- Where files only went, a file that is there was there. -/
theorem mem_files_of_shrunk {t u : DataDir V}
    (h : ∀ p, t.files.get? p = none → u.files.get? p = none) {path : RelPath}
    (hpath : path ∈ u.files.keys) : path ∈ t.files.keys := by
  obtain ⟨v, hv⟩ := (Dict.mem_keys_iff _ _).mp hpath
  rw [Dict.mem_keys_iff, ← Option.isSome_iff_exists, Option.isSome_iff_ne_none]
  intro hnone
  rw [h path hnone] at hv
  cases hv

/-- Deleting a key that is not accepted raises at once. -/
theorem delete_rejected (t : DataDir V) {key : Key} (h : ¬ (Accepted key ∧ LegacyAccepted key)) :
    (t.delete key).2 = t := by
  cases hpaths : candidatePaths key with
  | error e => simp only [delete, hpaths]
  | ok paths => exact absurd (accepted_of_candidatePaths hpaths) h

/-- A file below a directory is not there without the directory, so that a walk may start with a
look for it. -/
theorem keysWithPrefix_eq (beyond : DataDir V → Key → Except StorageError (List Key))
    (t : DataDir V) {pre : Key} {dir : RelPath} (h : prefixDir pre = some dir) :
    t.keysWithPrefix beyond pre =
      .ok (sortedKeys (((t.filesBelow dir).filter (IsJson ·)).map listedKey)) := by
  simp only [keysWithPrefix, h]
  split
  · rfl
  · rename_i hnot
    have hnone : t.filesBelow dir = [] := by
      refine List.eq_nil_iff_forall_not_mem.mpr fun path hpath => hnot (.inr ?_)
      obtain ⟨hfile, habove⟩ := List.mem_filter.mp hpath
      obtain ⟨hpre, hne⟩ := of_decide_eq_true habove
      exact t.mem_dirs_of_above hpre hne hfile
    rw [hnone]
    rfl

/-- A key whose file is there reads its content. -/
theorem get_of_file {t : DataDir V} {key : Key} (h : Accepted key) (hlegacy : LegacyAccepted key)
    {value : Option V} (hvalue : t.files.get? (modernPath key) = some value) :
    t.get key = .ok value := by
  have hexists : t.Exists (modernPath key) := .inl ((Dict.mem_keys_iff _ _).mpr ⟨value, hvalue⟩)
  simp [get, candidatePaths_ok h hlegacy, hexists, FileTree.read, hvalue]

/-- A key with neither of its paths in the tree reads nothing. -/
theorem get_of_absent {t : DataDir V} {key : Key} (h : Accepted key)
    (hlegacy : LegacyAccepted key) (hmodern : ¬ t.Exists (modernPath key))
    (hflat : ¬ t.Exists [key]) : t.get key = .ok none := by
  simp [get, candidatePaths_ok h hlegacy, hmodern, hflat]

/-- A key whose flat path is a directory cannot be read once its own file is not there. -/
theorem get_of_dir {t : DataDir V} {key : Key} (h : Accepted key) (hlegacy : LegacyAccepted key)
    (hnone : t.files.get? (modernPath key) = none) (hflat : [key] ∈ t.dirs) :
    ∃ path, t.get key = .error (.cannotRead key path) := by
  have hread {path : RelPath} (hdir : path ∈ t.dirs) (hfile : t.files.get? path = none) :
      t.read path = .error .isADirectory := by
    simp [FileTree.read, hfile, hdir]
  by_cases hmodern : modernPath key ∈ t.dirs
  · refine ⟨modernPath key, ?_⟩
    have hexists : t.Exists (modernPath key) := .inr hmodern
    simp [get, candidatePaths_ok h hlegacy, hexists, hread hmodern hnone]
  · refine ⟨[key], ?_⟩
    have hexists : t.Exists [key] := .inr hflat
    have hgone : ¬ t.Exists (modernPath key) := by
      rintro (hmem | hmem)
      · obtain ⟨v, hv⟩ := (Dict.mem_keys_iff _ _).mp hmem
        rw [hnone] at hv
        cases hv
      · exact hmodern hmem
    have hfile : t.files.get? [key] = none := by
      refine Option.eq_none_iff_forall_ne_some.mpr fun v hv => ?_
      exact t.disjoint [key] hflat ((Dict.mem_keys_iff _ _).mpr ⟨v, hv⟩)
    simp [get, candidatePaths_ok h hlegacy, hgone, hexists, hread hflat hfile]

end DataDir

/-- The path of a key is one that a walk keeps. -/
theorem isJson_modernPath {key : Key} (h : segments key ≠ []) : DataDir.IsJson (modernPath key) := by
  obtain ⟨dirs, name, -, -, hpath⟩ := modernPath_spec h
  rw [hpath, DataDir.IsJson, List.getLast?_concat]
  exact ⟨_, rfl, List.suffix_append _ _⟩

/-- The filesystem backend over a data directory. -/
def filesystemBackend {V : Type*} (beyond : DataDir V → Key → Except StorageError (List Key)) :
    BaseBackend (DataDir V) V StorageError where
  get t key := (t.get key, t)
  set := DataDir.set
  delete := DataDir.delete
  keysWithPrefix := DataDir.keysWithPrefix beyond

end PalmEngine.Storage
