import PalmEngine.Storage.Backend
import PalmEngine.Lib.FileTree

/-!
# Storage keys as file paths

The filesystem backend splits a key at its colons, checks the segments and makes them a path
below the data directory whose last name ends in `.json`. The suffix replaces what stands after
the last dot of that name. Before the nested layout a key was the name of a flat file, and
reads and deletions still look there.

The data directory holds no symbolic links, so that a path of checked names cannot leave it.
-/

namespace PalmEngine.Storage

open PalmEngine.Lib

/-- A file or directory name. -/
abbrev Name := List Char

/-- A path below the data directory. -/
abbrev RelPath := List Name

/-- What the filesystem backend raises, with what its messages quote. -/
inductive StorageError where
  /-- The key has no segment. -/
  | emptyKey
  /-- A segment is one of the two names of a directory itself and of its parent. -/
  | segmentNotAllowed (segment : Name)
  /-- A segment contains a path separator. -/
  | segmentHasSeparator (segment : Name)
  /-- The key contains two dots in a row or a path separator. -/
  | traversal (key : Key)
  /-- The path contains the null character. -/
  | embeddedNull
  /-- The file of the key cannot be read. -/
  | cannotRead (key : Key) (path : RelPath)
  /-- The file cannot be written. -/
  | cannotWrite (path : RelPath)
  /-- The file of the key cannot be deleted. -/
  | cannotDelete (key : Key) (path : RelPath)
  /-- The directory above the file cannot be made. -/
  | cannotMake (path : RelPath) (refusal : Refusal)
  deriving DecidableEq, Repr

/-- The nonempty parts of a key between its colons. -/
def segments (key : Key) : List Name := (key.splitOn ':').filter (· ≠ [])

/-- Reject path traversal and separator characters in a key segment. -/
def validateKeySegment (segment : Name) : Except StorageError Unit :=
  if segment = ['.'] ∨ segment = ['.', '.'] then .error (.segmentNotAllowed segment)
  else if '/' ∈ segment ∨ '\\' ∈ segment then .error (.segmentHasSeparator segment)
  else .ok ()

/-- A name without its suffix: what stands before the last dot, unless that dot is the first or
the last character. -/
def stem (name : Name) : Name :=
  match name.reverse.span (· ≠ '.') with
  | (_ :: _, _ :: c :: before) => (c :: before).reverse
  | _ => name

/-- Put a suffix in the place of the suffix of the last name. -/
def withSuffix (suffix : Name) : RelPath → RelPath
  | [] => []
  | [name] => [stem name ++ suffix]
  | name :: rest => name :: withSuffix suffix rest

/-- The suffix of the files. -/
def jsonSuffix : Name := ['.', 'j', 's', 'o', 'n']

/-- Check the segments in order. -/
def validateSegments : List Name → Except StorageError Unit
  | [] => .ok ()
  | segment :: rest =>
    match validateKeySegment segment with
    | .error e => .error e
    | .ok () => validateSegments rest

/-- Map colon-separated storage keys to nested JSON file paths. -/
def keyToRelpath (key : Key) : Except StorageError RelPath :=
  if segments key = [] then .error .emptyKey
  else
    match validateSegments (segments key) with
    | .error e => .error e
    | .ok () => .ok (withSuffix jsonSuffix (segments key))

/-- Resolve a path under the data directory, which fails on a null character. -/
def resolveUnderRoot (path : RelPath) : Except StorageError RelPath :=
  if ∃ name ∈ path, '\x00' ∈ name then .error .embeddedNull else .ok path

/-- The path of a key's file. -/
def resolveDataPath (key : Key) : Except StorageError RelPath :=
  match keyToRelpath key with
  | .error e => .error e
  | .ok path => resolveUnderRoot path

/-- The path of the flat file that a key had before. -/
def resolveLegacyPath (key : Key) : Except StorageError RelPath :=
  if ['.', '.'] <:+: key ∨ '/' ∈ key ∨ '\\' ∈ key then .error (.traversal key)
  else resolveUnderRoot [key]

/-- The paths a key is looked for at, in order. -/
def candidatePaths (key : Key) : Except StorageError (List RelPath) :=
  match resolveDataPath key with
  | .error e => .error e
  | .ok modern =>
    match resolveLegacyPath key with
    | .error e => .error e
    | .ok legacy => .ok [modern, legacy]

/-- The path of the file of a key, whether or not the key is accepted. -/
def modernPath (key : Key) : RelPath := withSuffix jsonSuffix (segments key)

/-- Setting the key is not rejected for the key itself. -/
def Accepted (key : Key) : Prop :=
  segments key ≠ [] ∧
    (∀ s ∈ segments key, (s ≠ ['.'] ∧ s ≠ ['.', '.']) ∧ '/' ∉ s ∧ '\\' ∉ s) ∧
    ∀ name ∈ modernPath key, '\x00' ∉ name

instance (key : Key) : Decidable (Accepted key) :=
  inferInstanceAs (Decidable (_ ∧ _ ∧ _))

/-- Reading and deleting the key is not rejected for its flat file. -/
def LegacyAccepted (key : Key) : Prop :=
  ¬ ['.', '.'] <:+: key ∧ '/' ∉ key ∧ '\\' ∉ key ∧ '\x00' ∉ key

instance (key : Key) : Decidable (LegacyAccepted key) :=
  inferInstanceAs (Decidable (_ ∧ _ ∧ _ ∧ _))

/-- The parts of a split text hold no separator. -/
private theorem not_mem_of_mem_splitOn {c : Char} {text part : List Char}
    (h : part ∈ text.splitOn c) : c ∉ part := by
  induction text generalizing part with
  | nil =>
    have : part = [] := by simpa using h
    simp [this]
  | cons x rest ih =>
    rw [List.splitOn_cons_eq_if_modifyHead] at h
    split at h
    · rcases List.mem_cons.mp h with rfl | h
      · exact List.not_mem_nil
      · exact ih h
    · rename_i hx
      obtain ⟨first, others, hsplit⟩ := List.exists_cons_of_ne_nil (List.splitOn_ne_nil c rest)
      rw [hsplit, List.modifyHead_cons] at h
      rcases List.mem_cons.mp h with rfl | h
      · have hfirst : c ∉ first := ih (by simp [hsplit])
        simp only [List.mem_cons, not_or]
        exact ⟨fun heq => hx (by simp [heq]), hfirst⟩
      · exact ih (by simp [hsplit, h])

/-- A segment is not empty and holds no colon. -/
theorem segment_spec {key : Key} {s : Name} (h : s ∈ segments key) : s ≠ [] ∧ ':' ∉ s := by
  obtain ⟨hmem, hne⟩ := List.mem_filter.mp h
  exact ⟨by simpa using hne, not_mem_of_mem_splitOn hmem⟩

/-- A key without a colon is its only segment. -/
theorem segments_of_no_colon {key : Key} (hne : key ≠ []) (h : ':' ∉ key) :
    segments key = [key] := by
  have hsplit : key.splitOn ':' = [key] := by
    rw [List.splitOn_eq_splitOnP]
    exact List.splitOnP_eq_singleton fun c hc => by
      simpa using fun heq : c = ':' => h (heq ▸ hc)
  simp [segments, hsplit, hne]

/-- The stem of a name begins the name. -/
theorem stem_isPrefix (name : Name) : stem name <+: name := by
  have hsplit := List.takeWhile_append_dropWhile (p := (· ≠ '.')) (l := name.reverse)
  unfold stem
  rw [List.span_eq_takeWhile_dropWhile]
  split
  · rename_i first rest dot c before h
    obtain ⟨htake, hdrop⟩ := Prod.mk.inj h
    rw [htake, hdrop] at hsplit
    rw [← name.reverse_reverse, ← hsplit]
    exact ⟨dot :: (first :: rest).reverse, by simp⟩
  · exact List.prefix_refl name

/-- A name that is not empty has a stem that is not empty. -/
theorem stem_ne_nil {name : Name} (h : name ≠ []) : stem name ≠ [] := by
  unfold stem
  split
  · simp
  · exact h

/-- The name of a file has the stem it was made of. -/
theorem stem_append_jsonSuffix {name : Name} (h : name ≠ []) :
    stem (name ++ jsonSuffix) = name := by
  obtain ⟨before, c, rfl⟩ := (List.eq_nil_or_concat name).resolve_left h
  simp [stem, jsonSuffix, List.span_eq_takeWhile_dropWhile]

/-- The suffix of a path goes to its last name. -/
theorem withSuffix_concat (suffix : Name) (path : RelPath) (name : Name) :
    withSuffix suffix (path ++ [name]) = path ++ [stem name ++ suffix] := by
  induction path with
  | nil => rfl
  | cons first rest ih =>
    obtain ⟨second, others, hrest⟩ := List.exists_cons_of_ne_nil (l := rest ++ [name]) (by simp)
    rw [List.cons_append, hrest, withSuffix, ← hrest, ih]
    · rfl
    · simp

/-- The path of a key with a segment: its segments, the last one as the name of a file. -/
theorem modernPath_spec {key : Key} (h : segments key ≠ []) : ∃ dirs name,
    segments key = dirs ++ [name] ∧ name ≠ [] ∧ modernPath key = dirs ++ [stem name ++ jsonSuffix] := by
  obtain ⟨dirs, name, hsegments⟩ := (List.eq_nil_or_concat' (segments key)).resolve_left h
  have hname := segment_spec (show name ∈ segments key by simp [hsegments])
  exact ⟨dirs, name, hsegments, hname.1, by rw [modernPath, hsegments, withSuffix_concat]⟩

/-- A key with a segment has a path that is not the data directory itself. -/
theorem modernPath_ne_nil {key : Key} (h : segments key ≠ []) : modernPath key ≠ [] := by
  obtain ⟨dirs, name, -, -, hpath⟩ := modernPath_spec h
  simp [hpath]

/-- A key whose flat path is the path of some key has that path itself. -/
theorem modernPath_of_flat {key key' : Key} (h : [key] = modernPath key') :
    modernPath key = [key] := by
  have hne : segments key' ≠ [] := fun hnil => by simp [modernPath, hnil, withSuffix] at h
  obtain ⟨dirs, name, hsegments, hname, hpath⟩ := modernPath_spec hne
  have hdirs : dirs = [] := by
    have hlen := congrArg List.length (h.trans hpath)
    simpa using hlen
  subst hdirs
  have hkey : key = stem name ++ jsonSuffix := by simpa using h.trans hpath
  have hcolon : ':' ∉ name :=
    (segment_spec (show name ∈ segments key' by simp [hsegments])).2
  have hnot : ':' ∉ key := by
    rw [hkey, List.mem_append]
    exact fun hmem => hmem.elim (fun h => hcolon ((stem_isPrefix name).subset h)) (by decide)
  have hkne : key ≠ [] := by simp [hkey, jsonSuffix]
  rw [modernPath, segments_of_no_colon hkne hnot, withSuffix, hkey,
    stem_append_jsonSuffix (stem_ne_nil hname)]

/-- A segment passes the check exactly when it is neither of the two special names and has no
separator. -/
theorem validateKeySegment_ok_iff (s : Name) :
    validateKeySegment s = .ok () ↔ (s ≠ ['.'] ∧ s ≠ ['.', '.']) ∧ '/' ∉ s ∧ '\\' ∉ s := by
  unfold validateKeySegment
  split
  · simp_all
    tauto
  · split
    · simp_all
      tauto
    · simp_all

/-- The segments pass exactly when each of them does. -/
theorem validateSegments_ok_iff (l : List Name) :
    validateSegments l = .ok () ↔ ∀ s ∈ l, validateKeySegment s = .ok () := by
  induction l with
  | nil => simp [validateSegments]
  | cons s rest ih =>
    unfold validateSegments
    cases h : validateKeySegment s with
    | error e => simp [h]
    | ok => simp [h, ih]

/-- A key has a path exactly when it is accepted, and then its modern path. -/
theorem resolveDataPath_ok_iff (key : Key) (path : RelPath) :
    resolveDataPath key = .ok path ↔ Accepted key ∧ path = modernPath key := by
  have hvalid := validateSegments_ok_iff (segments key)
  simp only [validateKeySegment_ok_iff] at hvalid
  unfold resolveDataPath keyToRelpath Accepted
  by_cases hempty : segments key = []
  · simp [hempty]
  · rw [if_neg hempty]
    cases h : validateSegments (segments key) with
    | error e =>
      have hbad := mt hvalid.mpr (by simp [h])
      exact iff_of_false (by simp) fun hok => hbad hok.1.2.1
    | ok =>
      have hgood := hvalid.mp h
      simp only [resolveUnderRoot, modernPath]
      split
      · rename_i hnull
        obtain ⟨name, hname, hc⟩ := hnull
        exact iff_of_false (by simp) fun hok => hok.1.2.2 name hname hc
      · rename_i hnull
        rw [Except.ok.injEq]
        exact ⟨fun heq => ⟨⟨hempty, hgood, fun n hn hc => hnull ⟨n, hn, hc⟩⟩, heq.symm⟩,
          fun hok => hok.2.symm⟩

/-- A key has a flat path exactly when its characters allow it. -/
theorem resolveLegacyPath_ok_iff (key : Key) (path : RelPath) :
    resolveLegacyPath key = .ok path ↔ LegacyAccepted key ∧ path = [key] := by
  unfold resolveLegacyPath resolveUnderRoot LegacyAccepted
  split
  · rename_i h
    exact iff_of_false (by simp) (by tauto)
  · rename_i h
    split
    · rename_i hnull
      exact iff_of_false (by simp) (by simpa using fun _ _ _ hc => absurd (by simpa using hnull) hc)
    · rename_i hnull
      rw [Except.ok.injEq]
      simp at hnull
      constructor
      · exact fun heq => ⟨by tauto, heq.symm⟩
      · exact fun hok => hok.2.symm

/-- An accepted key is looked for at its modern and at its flat path. -/
theorem candidatePaths_ok {key : Key} (h : Accepted key) (hlegacy : LegacyAccepted key) :
    candidatePaths key = .ok [modernPath key, [key]] := by
  simp only [candidatePaths, (resolveDataPath_ok_iff key _).mpr ⟨h, rfl⟩,
    (resolveLegacyPath_ok_iff key _).mpr ⟨hlegacy, rfl⟩]

/-- A key that has candidate paths is accepted both ways. -/
theorem accepted_of_candidatePaths {key : Key} {paths : List RelPath}
    (h : candidatePaths key = .ok paths) : Accepted key ∧ LegacyAccepted key := by
  unfold candidatePaths at h
  cases hdata : resolveDataPath key with
  | error e => simp [hdata] at h
  | ok modern =>
    cases hlegacy : resolveLegacyPath key with
    | error e => simp [hdata, hlegacy] at h
    | ok legacy =>
      exact ⟨((resolveDataPath_ok_iff key modern).mp hdata).1,
        ((resolveLegacyPath_ok_iff key legacy).mp hlegacy).1⟩

end PalmEngine.Storage
