import PalmEngine.Lib.Dict

/-!
# Trees of directories and files

A tree below a root directory, as a file system without links shows it: a path is the list
of names that leads to it, every file and directory has its parent directory in the tree, and
no path is both. The operations are those of the system calls: make a directory with its
parents, put a file in the place of what a path holds, remove a file, read one. They say why
they refuse.
-/

namespace PalmEngine.Lib

/-- Why the tree refuses an operation. -/
inductive Refusal where
  | notFound
  | notADirectory
  | isADirectory
  deriving DecidableEq, Repr

/-- A tree with names from `N` and files that hold `A`. The root directory is the empty path. -/
structure FileTree (N A : Type*) where
  files : Dict (List N) A
  dirs : List (List N)
  root_mem : [] ∈ dirs
  parent_mem : ∀ path, path ∈ files.keys ∨ path ∈ dirs → path.dropLast ∈ dirs
  disjoint : ∀ path ∈ dirs, path ∉ files.keys

namespace FileTree

variable {N A : Type*}

/-- The tree that has only its root. -/
def empty : FileTree N A where
  files := .empty
  dirs := [[]]
  root_mem := List.mem_singleton_self _
  parent_mem := by simp [Dict.empty, Dict.keys]
  disjoint := by simp [Dict.empty, Dict.keys]

/-- Every directory above something in the tree is in the tree. -/
theorem mem_dirs_of_prefix (t : FileTree N A) {p q : List N} (h : q <+: p)
    (hp : p ∈ t.dirs) : q ∈ t.dirs := by
  induction p using List.reverseRecOn generalizing q with
  | nil => rwa [List.prefix_nil.mp h]
  | append_singleton p n ih =>
    rcases List.prefix_concat_iff.mp h with rfl | h
    · exact hp
    · exact ih h (by simpa using t.parent_mem _ (.inr hp))

/-- Every directory above a file is in the tree. -/
theorem mem_dirs_of_above (t : FileTree N A) {p q : List N} (h : q <+: p) (hne : q ≠ p)
    (hp : p ∈ t.files.keys) : q ∈ t.dirs := by
  refine t.mem_dirs_of_prefix ?_ (t.parent_mem p (.inl hp))
  induction p using List.reverseRecOn with
  | nil => exact absurd (List.prefix_nil.mp h) hne
  | append_singleton p n _ =>
    rcases List.prefix_concat_iff.mp h with heq | h
    · exact absurd heq hne
    · simpa using h

variable [DecidableEq N]

/-- Something in the tree has this path. -/
def Exists (t : FileTree N A) (path : List N) : Prop := path ∈ t.files.keys ∨ path ∈ t.dirs

instance (t : FileTree N A) (path : List N) : Decidable (t.Exists path) :=
  inferInstanceAs (Decidable (_ ∨ _))

/-- A file stands on the path, at its end or above it. -/
def FileOn (t : FileTree N A) (path : List N) : Prop := ∃ q ∈ path.inits, q ∈ t.files.keys

instance (t : FileTree N A) (path : List N) : Decidable (t.FileOn path) :=
  inferInstanceAs (Decidable (∃ q ∈ path.inits, q ∈ t.files.keys))

/-- What the path leads to, when it is no file and no directory. -/
def missing (t : FileTree N A) (path : List N) : Refusal :=
  if t.FileOn path then .notADirectory else .notFound

/-- Read a file. -/
def read (t : FileTree N A) (path : List N) : Except Refusal A :=
  match t.files.get? path with
  | some content => .ok content
  | none => .error (if path ∈ t.dirs then .isADirectory else t.missing path)

/-- Make a directory with its parents, those included that exist already. -/
def makeDirs (t : FileTree N A) (path : List N) : Except Refusal (FileTree N A) :=
  if h : t.FileOn path then .error .notADirectory
  else .ok {
    t with
    dirs := t.dirs ++ path.inits
    root_mem := List.mem_append_left _ t.root_mem
    parent_mem := fun p hp => by
      rw [List.mem_append] at hp ⊢
      rcases hp with hp | hp | hp
      · exact .inl (t.parent_mem p (.inl hp))
      · exact .inl (t.parent_mem p (.inr hp))
      · rw [List.mem_inits] at hp ⊢
        exact .inr ((List.dropLast_prefix p).trans hp)
    disjoint := fun p hp => by
      rcases List.mem_append.mp hp with hp | hp
      · exact t.disjoint p hp
      · exact fun hfile => h ⟨p, hp, hfile⟩ }

/-- Put a file in the place of what the path holds, which is no directory. -/
def replaceFile (t : FileTree N A) (path : List N) (content : A) :
    Except Refusal (FileTree N A) :=
  if hdir : path ∈ t.dirs then .error .isADirectory
  else if hparent : path.dropLast ∈ t.dirs then .ok {
    t with
    files := t.files.set path content
    parent_mem := fun p hp => by
      rcases hp with hp | hp
      · rcases (Dict.mem_keys_set _ _ _ _).mp hp with rfl | hp
        · exact hparent
        · exact t.parent_mem p (.inl hp)
      · exact t.parent_mem p (.inr hp)
    disjoint := fun p hp hfile => by
      rcases (Dict.mem_keys_set _ _ _ _).mp hfile with rfl | hfile
      · exact hdir hp
      · exact t.disjoint p hp hfile }
  else .error (t.missing path)

/-- Remove a file. -/
def unlink (t : FileTree N A) (path : List N) : Except Refusal (FileTree N A) :=
  if path ∈ t.files.keys then .ok {
    t with
    files := t.files.erase path
    parent_mem := fun p hp => t.parent_mem p (hp.imp_left fun h => (Dict.mem_keys_erase _ _ _).mp h |>.2)
    disjoint := fun p hp hfile => t.disjoint p hp ((Dict.mem_keys_erase _ _ _).mp hfile).2 }
  else .error (if path ∈ t.dirs then .isADirectory else t.missing path)

/-- A directory and its parents are made where no file stands on the path. -/
theorem makeDirs_spec (t : FileTree N A) {path : List N} (h : ¬ t.FileOn path) :
    ∃ u, t.makeDirs path = .ok u ∧ u.files = t.files ∧
      ∀ p, p ∈ u.dirs ↔ p ∈ t.dirs ∨ p <+: path := by
  refine ⟨_, dif_neg h, rfl, fun p => ?_⟩
  rw [List.mem_append, List.mem_inits]

/-- A file is put where a directory above waits for it and none has its path. -/
theorem replaceFile_spec (t : FileTree N A) {path : List N} (content : A) (hdir : path ∉ t.dirs)
    (hparent : path.dropLast ∈ t.dirs) :
    ∃ u, t.replaceFile path content = .ok u ∧ u.files = t.files.set path content ∧
      u.dirs = t.dirs :=
  ⟨_, (dif_neg hdir).trans (dif_pos hparent), rfl, rfl⟩

/-- A file is removed, and nothing else changes. -/
theorem unlink_spec (t : FileTree N A) {path : List N} (h : path ∈ t.files.keys) :
    ∃ u, t.unlink path = .ok u ∧ u.files = t.files.erase path ∧ u.dirs = t.dirs :=
  ⟨_, if_pos h, rfl, rfl⟩

/-- A path without a file and with no file above it can be removed only if it does not exist. -/
theorem unlink_refused (t : FileTree N A) {path : List N} (h : ¬ t.FileOn path) :
    t.unlink path = .error (if path ∈ t.dirs then .isADirectory else .notFound) := by
  have hfile : path ∉ t.files.keys := fun hp => h ⟨path, (List.mem_inits _ _).mpr (List.prefix_refl path), hp⟩
  rw [unlink, if_neg hfile, missing, if_neg h]

/-- The paths of the files strictly below a directory. -/
def filesBelow (t : FileTree N A) (dir : List N) : List (List N) :=
  t.files.keys.filter fun path => dir <+: path ∧ dir ≠ path

end FileTree

end PalmEngine.Lib
