import PalmEngine.Lib.Runs

/-!
# Processes that share a state

Any number of processes take turns. A turn of one process reads and writes the shared state at
once and changes the process; a process that has returned takes no more turns. A run names the
positions of the processes in the order of their turns, so the runs are the interleavings.
-/

namespace PalmEngine.Lib

variable {S P : Type*}

/-- A shared state and the processes that work on it. -/
structure Pool (S P : Type*) where
  shared : S
  procs : List P
  deriving DecidableEq

namespace Pool

/-- The process at a position takes its turn. -/
def step (move : S → P → Option (S × P)) (pool : Pool S P) (i : ℕ) : Option (Pool S P) :=
  (pool.procs[i]?).bind fun p =>
    (move pool.shared p).map fun next => ⟨next.1, pool.procs.set i next.2⟩

variable {move : S → P → Option (S × P)} {pool pool' : Pool S P} {i : ℕ}

/-- What a turn does: it moves the process at the position and leaves the others. -/
theorem step_cases (h : pool.step move i = some pool') :
    ∃ p s q, pool.procs[i]? = some p ∧ move pool.shared p = some (s, q) ∧
      pool' = ⟨s, pool.procs.set i q⟩ := by
  obtain ⟨p, hp, hnext⟩ := Option.bind_eq_some_iff.mp h
  obtain ⟨⟨s, q⟩, hmove, rfl⟩ := Option.map_eq_some_iff.mp hnext
  exact ⟨p, s, q, hp, hmove, rfl⟩

/-- A condition on the process that takes its turn, and on the pool before the turn. -/
def OnTurn (ok : Pool S P → P → Prop) (pool : Pool S P) (i : ℕ) (_ : Pool S P) : Prop :=
  ∀ p ∈ pool.procs[i]?, ok pool p

instance {ok : Pool S P → P → Prop} [∀ pool p, Decidable (ok pool p)] (pool : Pool S P) (i : ℕ)
    (next : Pool S P) : Decidable (OnTurn ok pool i next) :=
  match h : pool.procs[i]? with
  | none => .isTrue (by simp [OnTurn, h])
  | some p => decidable_of_iff (ok pool p) (by simp [OnTurn, h])

/-- After a turn every process is the one that moved or was there before. -/
theorem mem_set_cases {procs : List P} {q r : P} (h : r ∈ procs.set i q) : r = q ∨ r ∈ procs :=
  (List.mem_or_eq_of_mem_set h).symm

/-- The process that took its turn is there. -/
theorem mem_set_self {procs : List P} {p q : P} (h : procs[i]? = some p) : q ∈ procs.set i q := by
  obtain ⟨hi, -⟩ := List.getElem?_eq_some_iff.mp h
  exact List.mem_set hi q

/-- Every other process is still there. -/
theorem mem_set_of_ne {procs : List P} {p q r : P} (h : procs[i]? = some p) (hr : r ∈ procs)
    (hne : r ≠ p) : r ∈ procs.set i q := by
  obtain ⟨j, hj, rfl⟩ := List.mem_iff_getElem.mp hr
  have hij : i ≠ j := by
    rintro rfl
    exact hne (Option.some.inj ((List.getElem?_eq_getElem hj).symm.trans h))
  refine List.mem_iff_getElem.mpr ⟨j, by simpa using hj, ?_⟩
  rw [List.getElem_set_of_ne hij]

/-- A turn changes a count over the processes by what it changes at the one that moved. -/
theorem countP_set {procs : List P} {p q : P} (f : P → Bool) (h : procs[i]? = some p) :
    (procs.set i q).countP f + (if f p then 1 else 0) = procs.countP f + if f q then 1 else 0 := by
  obtain ⟨hi, rfl⟩ := List.getElem?_eq_some_iff.mp h
  have hcount := List.countP_set (p := f) (a := q) hi
  have hle : (if f procs[i] then 1 else 0) ≤ procs.countP f := by
    split
    · exact List.countP_pos_iff.mpr ⟨_, List.getElem_mem hi, ‹_›⟩
    · exact Nat.zero_le _
  omega

/-- A count of what the moving process keeps does not fall. -/
theorem countP_le_set_of_imp {procs : List P} {p q : P} {f : P → Bool} (h : procs[i]? = some p)
    (hpq : f p = true → f q = true) : procs.countP f ≤ (procs.set i q).countP f := by
  have hcount := countP_set (q := q) f h
  split at hcount
  · rw [if_pos (hpq ‹_›)] at hcount
    omega
  · omega

/-- A count that leaves out the process that moves does not fall. -/
theorem countP_le_set {procs : List P} {p q : P} {f : P → Bool} (h : procs[i]? = some p)
    (hp : f p = false) : procs.countP f ≤ (procs.set i q).countP f :=
  countP_le_set_of_imp h fun hfp => absurd (hfp.symm.trans hp) nofun

/-- A count that does not tell the process before and after its turn apart stays. -/
theorem countP_set_eq {procs : List P} {p q : P} {f : P → Bool} (h : procs[i]? = some p)
    (hpq : f q = f p) : (procs.set i q).countP f = procs.countP f := by
  have hcount := countP_set (q := q) f h
  rw [hpq] at hcount
  omega

/-- A count of the process that moved is positive. -/
theorem countP_set_pos {procs : List P} {p q : P} {f : P → Bool} (h : procs[i]? = some p)
    (hq : f q = true) : 0 < (procs.set i q).countP f :=
  List.countP_pos_iff.mpr ⟨q, mem_set_self h, hq⟩

/-- What some process has is there after a turn if the process that moves keeps it. -/
theorem exists_mem_set {procs : List P} {p q : P} {f : P → Prop} (h : procs[i]? = some p)
    (hpq : f p → f q) (hex : ∃ r ∈ procs, f r) : ∃ r ∈ procs.set i q, f r := by
  obtain ⟨r, hr, hf⟩ := hex
  by_cases hrp : r = p
  · subst hrp
    exact ⟨q, mem_set_self h, hpq hf⟩
  · exact ⟨r, mem_set_of_ne h hr hrp, hf⟩

/-- What some process has is there after a turn, unless the process that moves exchanges it. -/
theorem exists_mem_set_or {procs : List P} {p q : P} {f : P → Prop} {A : Prop}
    (h : procs[i]? = some p) (hpq : f p → A ∨ f q) (hex : ∃ r ∈ procs, f r) :
    A ∨ ∃ r ∈ procs.set i q, f r := by
  obtain ⟨r, hr, hf⟩ := hex
  by_cases hrp : r = p
  · subst hrp
    exact (hpq hf).imp_right fun hq => ⟨q, mem_set_self h, hq⟩
  · exact .inr ⟨r, mem_set_of_ne h hr hrp, hf⟩

/-- If at most one process counts and the moving one does, then no other one does. -/
theorem mem_set_or_not {procs : List P} {p q r : P} {f : P → Bool} (h : procs[i]? = some p)
    (hp : f p = true) (hcount : procs.countP f ≤ 1) (hr : r ∈ procs.set i q) :
    r = q ∨ (r ∈ procs ∧ f r = false) := by
  induction procs generalizing i with
  | nil => cases hr
  | cons a rest ih =>
    rw [List.countP_cons] at hcount
    cases i with
    | zero =>
      obtain rfl : a = p := by simpa using h
      rw [if_pos hp] at hcount
      have hnone : rest.countP f = 0 := by omega
      rcases List.mem_cons.mp hr with rfl | hr
      · exact .inl rfl
      · exact .inr ⟨List.mem_cons_of_mem _ hr, by simpa using List.countP_eq_zero.mp hnone r hr⟩
    | succ i =>
      have hrest : rest[i]? = some p := by simpa using h
      rcases List.mem_cons.mp hr with rfl | hr
      · refine .inr ⟨List.mem_cons_self, ?_⟩
        have hpos : 0 < rest.countP f :=
          List.countP_pos_iff.mpr ⟨p, List.mem_of_getElem? hrest, hp⟩
        by_contra hfr
        rw [if_pos (by simpa using hfr)] at hcount
        omega
      · have hle : rest.countP f ≤ 1 := le_trans (Nat.le_add_right _ _) hcount
        exact (ih hrest hle hr).imp_right fun hother => ⟨List.mem_cons_of_mem _ hother.1, hother.2⟩

/-- Two processes count twice. -/
theorem one_lt_countP {procs : List P} {p q : P} {f : P → Bool} (hp : p ∈ procs) (hq : q ∈ procs)
    (hne : p ≠ q) (hfp : f p = true) (hfq : f q = true) : 1 < procs.countP f := by
  rw [List.countP_eq_length_filter]
  have hp' : p ∈ procs.filter f := List.mem_filter.mpr ⟨hp, hfp⟩
  have hq' : q ∈ procs.filter f := List.mem_filter.mpr ⟨hq, hfq⟩
  match hlist : procs.filter f with
  | [] => simp [hlist] at hp'
  | [r] =>
    rw [hlist, List.mem_singleton] at hp' hq'
    exact absurd (hp'.trans hq'.symm) hne
  | _ :: _ :: _ => simp

end Pool

end PalmEngine.Lib
