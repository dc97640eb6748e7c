import PalmEngine.Storage.Filesystem

/-!
# When the filesystem backend is a key-value map

Two keys can share a file, the file of one can stand where another needs a directory, and the
flat path of one can be a directory of another. The backend is a key-value map exactly on sets
of keys where none of this happens and which every call accepts.
-/

namespace PalmEngine.Storage

open PalmEngine.Lib

/-- The keys do not get into each other's way: every call accepts them, no two have the same
path, and neither the path nor the flat path of one is a directory above the path of another. -/
structure Separate (K : Key → Prop) : Prop where
  accepted : ∀ k, K k → Accepted k
  legacyAccepted : ∀ k, K k → LegacyAccepted k
  distinct : ∀ k k', K k → K k' → modernPath k = modernPath k' → k = k'
  unblocked : ∀ k k', K k → K k' → ¬ Above (modernPath k) (modernPath k')
  flat : ∀ k k', K k → K k' → ¬ Above [k] (modernPath k')

/-- The data directory holds the values of a map on the keys, and nothing else but the
directories above their files. -/
structure Holds {V : Type*} (K : Key → Prop) (t : DataDir V) (m : Key → Option (Option V)) :
    Prop where
  files : ∀ path ∈ t.files.keys, ∃ k, K k ∧ path = modernPath k
  dirs : ∀ path ∈ t.dirs, path ≠ [] → ∃ k, K k ∧ Above path (modernPath k)
  content : ∀ k, K k → t.files.get? (modernPath k) = m k

section Separated

variable {V : Type*} {K : Key → Prop} (hK : Separate K)

include hK

/-- Nothing stands in the way of the file of one of the keys. -/
theorem Holds.free {t : DataDir V} {m : Key → Option (Option V)} (h : Holds K t m) {k : Key}
    (hk : K k) : t.Free (modernPath k) := by
  refine ⟨fun hdir => ?_, fun q hq habove => ?_⟩
  · obtain ⟨k', hk', habove⟩ := h.dirs _ hdir (modernPath_ne_nil (hK.accepted k hk).1)
    exact hK.unblocked k k' hk hk' habove
  · obtain ⟨k', hk', rfl⟩ := h.files q hq
    exact hK.unblocked k' k hk' hk habove

/-- The flat path of a key is in the tree only where it is the key's path. -/
theorem Holds.not_exists_flat {t : DataDir V} {m : Key → Option (Option V)} (h : Holds K t m)
    {k : Key} (hk : K k) (hgone : m k = none) : ¬ t.Exists [k] := by
  rintro (hfile | hdir)
  · obtain ⟨k', hk', heq⟩ := h.files _ hfile
    obtain ⟨v, hv⟩ := (Dict.mem_keys_iff _ _).mp hfile
    rw [← modernPath_of_flat heq, h.content k hk, hgone] at hv
    cases hv
  · obtain ⟨k', hk', habove⟩ := h.dirs _ hdir (by simp)
    exact hK.flat k k' hk hk' habove

/-- A read of one of the keys returns its value in the map. -/
theorem Holds.get_eq {t : DataDir V} {m : Key → Option (Option V)} (h : Holds K t m) {k : Key}
    (hk : K k) : t.get k = .ok (m k).join := by
  have hcontent := h.content k hk
  cases hm : m k with
  | some value =>
    rw [hm] at hcontent
    exact DataDir.get_of_file (hK.accepted k hk) (hK.legacyAccepted k hk) hcontent
  | none =>
    refine DataDir.get_of_absent (hK.accepted k hk) (hK.legacyAccepted k hk) ?_
      (h.not_exists_flat hK hk hm)
    rintro (hfile | hdir)
    · obtain ⟨v, hv⟩ := (Dict.mem_keys_iff _ _).mp hfile
      rw [hcontent, hm] at hv
      cases hv
    · exact (h.free hK hk).1 hdir

/-- A set of one of the keys succeeds and changes the map at it. -/
theorem Holds.set {t : DataDir V} {m : Key → Option (Option V)} (h : Holds K t m) {k : Key}
    (hk : K k) (value : Option V) :
    (t.set k value).1 = .ok () ∧ Holds K (t.set k value).2 (writeTo m (.set k value)) := by
  obtain ⟨u, hu, hfiles, hdirs⟩ := DataDir.atomicWrite_free (h.free hK hk) value
  rw [DataDir.set_accepted t (hK.accepted k hk), hu]
  refine ⟨rfl, fun path hpath => ?_, fun path hpath hne => ?_, fun k' hk' => ?_⟩
  · rw [hfiles, Dict.mem_keys_set] at hpath
    rcases hpath with rfl | hpath
    · exact ⟨k, hk, rfl⟩
    · exact h.files path hpath
  · rcases (hdirs path).mp hpath with hpath | habove
    · exact h.dirs path hpath hne
    · exact ⟨k, hk, habove⟩
  · by_cases heq : k' = k
    · subst heq
      exact (congrArg (Dict.get? · _) hfiles).trans
        ((Dict.get?_set_self _ _ _).trans (writeTo_self m (.set k' value)).symm)
    · have hpath : modernPath k' ≠ modernPath k := fun hpath => heq (hK.distinct k' k hk' hk hpath)
      rw [hfiles, Dict.get?_set_ne _ _ hpath, writeTo_of_ne m (.set k value) heq]
      exact h.content k' hk'

/-- A delete of one of the keys changes the map at it. -/
theorem Holds.delete {t : DataDir V} {m : Key → Option (Option V)} (h : Holds K t m) {k : Key}
    (hk : K k) : Holds K (t.delete k).2 (writeTo m (.delete k)) := by
  obtain ⟨hdirs, hgone, hkeep, hnone⟩ :=
    DataDir.delete_spec t (hK.accepted k hk) (hK.legacyAccepted k hk)
  refine ⟨fun path hpath => ?_, fun path hpath => h.dirs path (hdirs ▸ hpath), fun k' hk' => ?_⟩
  · exact h.files path (DataDir.mem_files_of_shrunk hnone hpath)
  · by_cases heq : k' = k
    · subst heq
      exact hgone.trans (writeTo_self m (.delete k')).symm
    · rw [writeTo_of_ne m (.delete k) heq, hkeep, h.content k' hk']
      · exact fun hpath => heq (hK.distinct k' k hk' hk hpath)
      · intro hflat
        refine heq (hK.distinct k' k hk' hk ?_)
        rw [hflat, modernPath_of_flat hflat.symm]

end Separated

section Map

variable {V : Type*} {beyond : DataDir V → Key → Except StorageError (List Key)}

/-- Before the first call the data directory holds the empty map. -/
theorem holds_empty (K : Key → Prop) : Holds K (.empty : DataDir V) fun _ => none where
  files := fun _ h => nomatch h
  dirs := fun _ h hne => absurd (List.mem_singleton.mp h) hne
  content := fun _ _ => rfl

/-- Keys that do not get into each other's way make the backend a map. -/
theorem Separate.isMap {K : Key → Prop} (hK : Separate K) :
    (filesystemBackend beyond).IsMap .empty K := by
  have hrun {ops : List (MapOp Key (Option V))} (hops : ∀ op ∈ ops, K op.key) :
      Holds K ((filesystemBackend beyond).run .empty ops) (lastWrite ops) := by
    refine related_of_run (fun t m op h hop => ?_) (holds_empty K) hops
    cases op with
    | set k v => exact (h.set hK hop v).2
    | delete k => exact h.delete hK hop
  refine .of_get (fun ops hops k hk => (hrun hops).get_eq hK hk) fun ops hops k v hk => ?_
  exact congrArg Except.isOk ((hrun hops).set hK hk v).1

/-- Setting an accepted key in the empty data directory makes its file and the directories above
it, and nothing else. -/
theorem DataDir.set_empty {key : Key} (h : Accepted key) (value : Option V) :
    ∃ u, DataDir.set .empty key value = (.ok (), u) ∧
      (∀ p, u.files.get? p = if p = modernPath key then some value else none) ∧
      ∀ p, p ∈ u.dirs ↔ p = [] ∨ Above p (modernPath key) := by
  have hfree : DataDir.Free (.empty : DataDir V) (modernPath key) :=
    ⟨fun hmem => modernPath_ne_nil h.1 (List.mem_singleton.mp hmem), fun _ hmem => nomatch hmem⟩
  obtain ⟨u, hu, hfiles, hdirs⟩ := DataDir.atomicWrite_free hfree value
  refine ⟨u, (DataDir.set_accepted _ h value).trans hu, fun p => ?_, fun p => ?_⟩
  · rw [hfiles]
    split
    · rename_i hp
      exact hp ▸ Dict.get?_set_self _ _ _
    · rename_i hp
      exact Dict.get?_set_ne _ _ hp
  · rw [hdirs]
    exact or_congr_left List.mem_singleton

/-- A backend that is a map has keys that do not get into each other's way. -/
theorem separate_of_isMap [Inhabited V] {K : Key → Prop}
    (h : (filesystemBackend beyond).IsMap .empty K) : Separate K := by
  have hget (ops : List (MapOp Key (Option V))) (hops : ∀ op ∈ ops, K op.key) {k : Key} (hk : K k) :
      DataDir.get ((filesystemBackend beyond).run .empty ops) k = .ok (lastWrite ops k).join :=
    h.get_eq ops hops k hk
  have haccepted {k : Key} (hk : K k) : Accepted k ∧ LegacyAccepted k := by
    have hread := hget [] (by simp) hk
    cases hpaths : candidatePaths k with
    | error e => simp [DataDir.get, hpaths] at hread
    | ok paths => exact accepted_of_candidatePaths hpaths
  refine ⟨fun k hk => (haccepted hk).1, fun k hk => (haccepted hk).2, fun k k' hk hk' heq => ?_,
    fun k k' hk hk' habove => ?_, fun k k' hk hk' habove => ?_⟩
  · by_contra hne
    obtain ⟨u, hu, hfiles, -⟩ := DataDir.set_empty (haccepted hk').1 (some (default : V))
    have hread := hget [.set k' (some default)] (by simpa using hk') hk
    have hlast : lastWrite [.set k' (some (default : V))] k = none :=
      writeTo_of_ne (fun _ => none) (.set k' (some default)) hne
    have hfile : u.files.get? (modernPath k) = some (some default) := by rw [hfiles, if_pos heq]
    rw [BaseBackend.run_set _ hu, hlast, DataDir.get_of_file (haccepted hk).1 (haccepted hk).2 hfile] at hread
    cases hread
  · obtain ⟨u, hu, hfiles, -⟩ := DataDir.set_empty (haccepted hk).1 (some (default : V))
    obtain ⟨w, hw, -⟩ := DataDir.set_empty (haccepted hk').1 (some (default : V))
    have hne : k' ≠ k := by
      rintro rfl
      exact habove.2 rfl
    have hframe := h.set_frame [] (.set k (some default)) (by simpa using hk) k' (some default) hk'
      hne
    have hblocked : ¬ u.Free (modernPath k') := by
      refine fun hfree => hfree.2 (modernPath k) ?_ habove
      exact (Dict.mem_keys_iff _ _).mpr ⟨some default, by rw [hfiles, if_pos rfl]⟩
    obtain ⟨e, v, hv, -⟩ := DataDir.atomicWrite_blocked hblocked
      (modernPath_ne_nil (haccepted hk').1.1) (some default)
    have herror : ((filesystemBackend beyond).set u k' (some default)).1 = .error e :=
      congrArg Prod.fst ((DataDir.set_accepted u (haccepted hk').1 _).trans hv)
    have hok : ((filesystemBackend beyond).set .empty k' (some default)).1 = .ok () :=
      congrArg Prod.fst hw
    rw [List.nil_append, BaseBackend.run_set _ hu, herror] at hframe
    exact absurd (hframe.trans (congrArg Except.isOk hok)) (by simp [Except.isOk, Except.toBool])
  · obtain ⟨u, hu, hfiles, hdirs⟩ := DataDir.set_empty (haccepted hk').1 (some (default : V))
    obtain ⟨hdirs', hgone, hkeep, hnone⟩ :=
      DataDir.delete_spec u (haccepted hk').1 (haccepted hk').2
    have hread := hget [.set k' (some default), .delete k'] (by simpa using hk') hk
    have hrun : (filesystemBackend beyond).run .empty [.set k' (some default), .delete k'] =
        (u.delete k').2 := by
      change (DataDir.delete (DataDir.set .empty k' (some default)).2 k').2 = _
      rw [hu]
    have hfile : (u.delete k').2.files.get? (modernPath k) = none := by
      by_cases heq : modernPath k = modernPath k'
      · rw [heq, hgone]
      · exact hnone _ (by rw [hfiles, if_neg heq])
    have hdir : [k] ∈ (u.delete k').2.dirs := by
      rw [hdirs', hdirs]
      exact .inr habove
    obtain ⟨path, herror⟩ := DataDir.get_of_dir (haccepted hk).1 (haccepted hk).2 hfile hdir
    rw [hrun, herror] at hread
    cases hread

end Map

/-- The filesystem backend is a key-value map on a set of keys exactly when they do not get into
each other's way. -/
theorem filesystem_isMap_iff {V : Type*} [Inhabited V]
    (beyond : DataDir V → Key → Except StorageError (List Key)) (K : Key → Prop) :
    (filesystemBackend beyond).IsMap .empty K ↔ Separate K :=
  ⟨separate_of_isMap, Separate.isMap⟩

/-- On all keys that the calls accept it is none: the suffix of a version is replaced, and two
versions share a file. -/
theorem filesystem_isMap_fails :
    ¬ (filesystemBackend (V := ℕ) fun _ _ => .ok []).IsMap .empty
      fun k => Accepted k ∧ LegacyAccepted k := by
  intro h
  have hget := h.get_eq [.set "palm:v1.0".toList (some 1), .set "palm:v1.1".toList (some 2)]
    (by decide) "palm:v1.0".toList (by decide)
  revert hget
  decide

end PalmEngine.Storage
