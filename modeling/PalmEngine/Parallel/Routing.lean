import PalmEngine.Parallel.Pattern

/-!
# Where the input of a parallel pattern goes

A branch that waits puts its name under the key for it if no name is there, and a branch that
succeeds removes whatever name is there. So after a tick the key names a branch that waits exactly
if every branch that has succeeded is followed by one that waits, and, if none has succeeded, the
name from before is that of a branch that waits. An input goes to the branch that the key names, if
that branch takes input, and is dropped otherwise.
-/

namespace PalmEngine.Parallel

open PalmEngine.Lib PalmEngine.Context PalmEngine.BehaviorTree

/-- The last element with a property splits a list that has one. -/
theorem exists_last {α : Type*} {P : α → Prop} {list : List α} (h : ∃ a ∈ list, P a) :
    ∃ front a back, list = front ++ a :: back ∧ P a ∧ ∀ x ∈ back, ¬ P x := by
  induction list with
  | nil => simp at h
  | cons a rest ih =>
    by_cases hrest : ∃ x ∈ rest, P x
    · obtain ⟨front, x, back, rfl, hx, hback⟩ := ih hrest
      exact ⟨a :: front, x, back, rfl, hx, hback⟩
    · have ha : P a := by
        rcases (List.exists_mem_cons_iff P a rest).mp h with ha | hmem
        · exact ha
        · exact absurd hmem hrest
      exact ⟨[], a, rest, rfl, ha, fun x hx hP => hrest ⟨x, hx, hP⟩⟩

/-- After the last element with a property comes the end of what comes after any other. -/
theorem mem_after_last {α : Type*} {P : α → Prop} {front back front' back' : List α} {a a' x : α}
    (h : front ++ a :: back = front' ++ a' :: back') (ha' : P a') (hback : ∀ y ∈ back, ¬ P y)
    (hx : x ∈ back) : x ∈ back' := by
  rcases List.append_eq_append_iff.mp h with ⟨mid, -, hmid⟩ | ⟨mid, -, hmid⟩
  · cases mid with
    | nil =>
      obtain ⟨-, rfl⟩ := List.cons.inj hmid
      exact hx
    | cons y mid =>
      obtain ⟨-, rfl⟩ := List.cons.inj hmid
      exact absurd ha' (hback a' (by simp))
  · cases mid with
    | nil =>
      obtain ⟨-, rfl⟩ := List.cons.inj hmid
      exact hx
    | cons y mid =>
      obtain ⟨-, rfl⟩ := List.cons.inj hmid
      exact List.mem_append_right _ (List.mem_cons_of_mem _ hx)

namespace ParallelPattern

variable {n : ℕ} {σ : Type} (p : ParallelPattern n σ)

/-- What a branch returns in its turn, unless it is completed. -/
def outcome (turn : Fin n × World n σ) : Option (Fin n × PatternStatus) :=
  if (turn.2.runners turn.1).completed then none
  else some (turn.1, (p.tickRunner turn.1 turn.2).1)

/-- What the branches return that are ticked in a tick, in their order. -/
def outcomes (s : System n σ) : List (Fin n × PatternStatus) := (p.turns s).filterMap p.outcome

/-- The value of the key names a branch that waits. -/
def NamesWaiting (active : Option Value) (list : List (Fin n × PatternStatus)) : Prop :=
  ∃ i, active = some (.str (p.slug i)) ∧ (i, .waitingForInput) ∈ list

/-- A branch takes a value: its executable is called with it, and the others are left alone. -/
structure Delivers (i : Fin n) (v : Value) (w w' : World n σ) : Prop where
  taken : ∃ provide, (p.executables i).provideInput = some provide ∧
    (w'.runners i).executable =
      (provide (w.runners i).executable (p.ensureBranchState i w).1 v).2.held ∧
    (w'.runners i).branchState =
      some (provide (w.runners i).executable (p.ensureBranchState i w).1 v).2.state
  others : ∀ j ≠ i, w'.runners j = w.runners j ∧
    loadBranchSnapshot w'.parent (p.slug j) = loadBranchSnapshot w.parent (p.slug j)

/-- After a tick that waits the key names a branch that is not completed and has waited in this
tick, and a value goes to the branch that the key names. -/
def RoutesInput (s : System n σ) (call : Call) (t : System n σ) : Prop :=
  match call with
  | .tick => p.tick s = some (.waitingForInput, t) →
    ∃ i, t.world.parent.get ParallelKeys.activeBranch = some (.str (p.slug i)) ∧
      (t.world.runners i).completed = false ∧ (i, .waitingForInput) ∈ p.outcomes s
  | .provideInput v =>
    ∃ i, s.world.parent.get ParallelKeys.activeBranch = some (.str (p.slug i)) ∧
      p.Delivers i v s.world t.world

/-- A tick ends with a branch waiting and with none whose result is that of the pattern. -/
def Waits (s : System n σ) : Prop :=
  p.done s.world.parent = false ∧
    ¬ EndsEarly p.branchLeaf p.config.parallelPolicy (p.turns s) ∧
    ∃ i, (i, .waitingForInput) ∈ p.outcomes s

/-- In a tick that waits, every branch that succeeds is followed by one that waits, and if none
succeeds the key has no value or names a branch that waits; and a value is given only while the key
names a branch that takes input. -/
def KeepsActive (s : System n σ) (call : Call) : Prop :=
  match call with
  | .tick => p.Waits s →
    (∀ front j back, p.outcomes s = front ++ (j, .success) :: back →
      ∃ i, (i, .waitingForInput) ∈ back) ∧
    ((∀ o ∈ p.outcomes s, o.2 ≠ .success) → noneActive s.world.parent = true ∨
      p.NamesWaiting (s.world.parent.get ParallelKeys.activeBranch) (p.outcomes s))
  | .provideInput _ =>
    ∃ i, s.world.parent.get ParallelKeys.activeBranch = some (.str (p.slug i)) ∧
      (p.executables i).provideInput.isSome

/-- The value of the key after branches have returned. -/
def activeAfter : Option Value → List (Fin n × PatternStatus) → Option Value
  | active, [] => active
  | active, (i, status) :: rest =>
    activeAfter (if status = .waitingForInput then
        if active.all Value.isNull then some (.str (p.slug i)) else active
      else if status = .success then none else active) rest

section Active

variable {p : ParallelPattern n σ} {active : Option Value} {list : List (Fin n × PatternStatus)}

/-- The key after some branches and then others. -/
theorem activeAfter_append (active : Option Value) (front back : List (Fin n × PatternStatus)) :
    p.activeAfter active (front ++ back) = p.activeAfter (p.activeAfter active front) back := by
  induction front generalizing active with
  | nil => rfl
  | cons o front ih => exact ih _

/-- A name stays while no branch succeeds. -/
theorem activeAfter_of_named (hactive : active.all Value.isNull = false)
    (h : ∀ o ∈ list, o.2 ≠ .success) : p.activeAfter active list = active := by
  induction list with
  | nil => rfl
  | cons o rest ih =>
    have hrest := ih fun x hx => h x (List.mem_cons_of_mem _ hx)
    simpa [activeAfter, hactive, h o List.mem_cons_self] using hrest

/-- Nothing gives the key a value while no branch waits or succeeds. -/
theorem activeAfter_of_none_waits (h : ∀ o ∈ list, o.2 ≠ .success ∧ o.2 ≠ .waitingForInput) :
    p.activeAfter active list = active := by
  induction list with
  | nil => rfl
  | cons o rest ih =>
    have hrest := ih fun x hx => h x (List.mem_cons_of_mem _ hx)
    obtain ⟨hsuccess, hwaits⟩ := h o List.mem_cons_self
    simpa [activeAfter, hsuccess, hwaits] using hrest

/-- The first branch that waits gives the key its name, if no branch succeeds. -/
theorem activeAfter_of_waits (hactive : active.all Value.isNull = true)
    (h : ∀ o ∈ list, o.2 ≠ .success) (hwaits : ∃ i, (i, .waitingForInput) ∈ list) :
    p.NamesWaiting (p.activeAfter active list) list := by
  induction list with
  | nil => simp at hwaits
  | cons o rest ih =>
    have hrest : ∀ x ∈ rest, x.2 ≠ .success := fun x hx => h x (List.mem_cons_of_mem _ hx)
    by_cases ho : o.2 = .waitingForInput
    · refine ⟨o.1, ?_, by simp [← ho]⟩
      have hnamed : (some (Value.str (p.slug o.1))).all Value.isNull = false := rfl
      simpa [activeAfter, ho, hactive] using activeAfter_of_named hnamed hrest
    · have hwaits' : ∃ i, (i, .waitingForInput) ∈ rest := by
        obtain ⟨i, hi⟩ := hwaits
        rcases List.mem_cons.mp hi with rfl | hi
        · exact absurd rfl ho
        · exact ⟨i, hi⟩
      obtain ⟨i, hname, hi⟩ := ih hrest hwaits'
      refine ⟨i, ?_, List.mem_cons_of_mem _ hi⟩
      simpa [activeAfter, ho, h o List.mem_cons_self] using hname

/-- When the key names a branch that waits after branches have returned of which one waits. -/
theorem namesWaiting_activeAfter_iff (hwaits : ∃ i, (i, .waitingForInput) ∈ list) :
    p.NamesWaiting (p.activeAfter active list) list ↔
      (∀ front j back, list = front ++ (j, .success) :: back →
        ∃ i, (i, .waitingForInput) ∈ back) ∧
      ((∀ o ∈ list, o.2 ≠ .success) → active.all Value.isNull = true ∨
        p.NamesWaiting active list) := by
  by_cases hsuccess : ∃ o ∈ list, o.2 = .success
  · obtain ⟨front, ⟨j, status⟩, back, rfl, rfl, hback⟩ := exists_last hsuccess
    have hafter : p.activeAfter active (front ++ (j, .success) :: back) =
        p.activeAfter none back := by
      rw [activeAfter_append]
      simp [activeAfter]
    rw [hafter]
    by_cases hlast : ∃ i, (i, PatternStatus.waitingForInput) ∈ back
    · have hnames : p.NamesWaiting (p.activeAfter none back) back :=
        activeAfter_of_waits rfl hback hlast
      obtain ⟨i, hname, hi⟩ := hnames
      refine iff_of_true ⟨i, hname, by simp [hi]⟩ ⟨fun front' j' back' heq => ?_, fun hnone => ?_⟩
      · exact ⟨i, mem_after_last (P := fun o => o.2 = .success) heq rfl hback hi⟩
      · exact absurd rfl (hnone (j, .success) (by simp))
    · have hnone : p.activeAfter none back = none := by
        refine activeAfter_of_none_waits fun o ho => ⟨hback o ho, fun heq => hlast ⟨o.1, ?_⟩⟩
        rwa [← heq]
      refine iff_of_false ?_ fun h => hlast (h.1 front j back rfl)
      rw [hnone]
      rintro ⟨i, hname, -⟩
      cases hname
  · have hnone : ∀ o ∈ list, o.2 ≠ .success := fun o ho heq => hsuccess ⟨o, ho, heq⟩
    have hvacuous : ∀ front j back, list = front ++ (j, PatternStatus.success) :: back →
        ∃ i, (i, PatternStatus.waitingForInput) ∈ back := by
      rintro front j back rfl
      exact absurd rfl (hnone (j, .success) (by simp))
    cases hactive : active.all Value.isNull with
    | true =>
      have hnames : p.NamesWaiting (p.activeAfter active list) list :=
        activeAfter_of_waits hactive hnone hwaits
      exact iff_of_true hnames ⟨hvacuous, fun _ => .inl rfl⟩
    | false =>
      rw [activeAfter_of_named hactive hnone]
      refine ⟨fun h => ⟨hvacuous, fun _ => .inr h⟩, fun h => ?_⟩
      exact (h.2 hnone).resolve_left Bool.false_ne_true

end Active

section Ticks

variable {p : ParallelPattern n σ} {s t : System n σ}

/-- A branch that returns in its turn is not completed before it. -/
theorem outcome_eq_some_iff {turn : Fin n × World n σ} {i : Fin n} {status : PatternStatus} :
    p.outcome turn = some (i, status) ↔ turn.1 = i ∧
      (turn.2.runners turn.1).completed = false ∧ (p.tickRunner turn.1 turn.2).1 = status := by
  unfold outcome
  cases hcompleted : (turn.2.runners turn.1).completed with
  | true => simp
  | false => simp

/-- The leaf of a branch that is not completed ticks it. -/
theorem branchLeaf_eq {i : Fin n} {w : World n σ} (h : (w.runners i).completed = false) :
    p.branchLeaf i w = p.tickRunner i w := by
  simp [branchLeaf, h]

/-- The key after the turns of a tick. -/
theorem active_turns {w w' : World n σ} {list : List (Fin n × World n σ)}
    (h : Turns p.branchLeaf w list w') :
    w'.parent.get ParallelKeys.activeBranch =
      p.activeAfter (w.parent.get ParallelKeys.activeBranch) (list.filterMap p.outcome) := by
  induction h with
  | nil w => rfl
  | cons i w w' rest hrest ih =>
    rw [ih, List.filterMap_cons]
    cases hcompleted : (w.runners i).completed with
    | true => simp [outcome, branchLeaf, hcompleted]
    | false =>
      have hout : p.outcome (i, w) = some (i, (p.tickRunner i w).1) := by
        simp [outcome, hcompleted]
      rw [branchLeaf_eq hcompleted, hout, Branches.tickRunner_active hcompleted]
      rfl

/-- A branch that has waited in a tick is not completed after it. -/
theorem completed_turns {w w' : World n σ} {list : List (Fin n × World n σ)} {i : Fin n}
    (h : Turns p.branchLeaf w list w') (hnodup : (list.map Prod.fst).Nodup)
    (hwaits : (i, PatternStatus.waitingForInput) ∈ list.filterMap p.outcome) :
    (w'.runners i).completed = false := by
  obtain ⟨⟨j, u⟩, hmem, hturn⟩ := List.mem_filterMap.mp hwaits
  obtain ⟨rfl, hcompleted, hstatus⟩ := outcome_eq_some_iff.mp hturn
  have hframe (k : Fin n) (v : World n σ) (hk : k ≠ j) :
      ((p.branchLeaf k v).2.runners j).completed = (v.runners j).completed := by
    unfold branchLeaf
    split
    · rfl
    · exact ((Branches.tickRunner_keeps k v).1 j hk.symm).2
  have hlast := h.last (f := fun v : World n σ => (v.runners j).completed) hframe hnodup hmem
  rw [branchLeaf_eq hcompleted] at hlast
  exact hlast.trans (Branches.completed_of_yields hcompleted (by rw [hstatus]; rfl))

/-- The branches that have waited in the turns of a tick. -/
theorem exists_waits_iff {list : List (Fin n × World n σ)} :
    (∃ turn ∈ list, (p.branchLeaf turn.1 turn.2).1 = .waitingForInput) ↔
      ∃ i, (i, PatternStatus.waitingForInput) ∈ list.filterMap p.outcome := by
  simp only [List.mem_filterMap, outcome_eq_some_iff]
  constructor
  · rintro ⟨turn, hmem, hstatus⟩
    refine ⟨turn.1, turn, hmem, rfl, ?_⟩
    unfold branchLeaf at hstatus
    split at hstatus
    · cases hstatus
    · next hcompleted => exact ⟨by simpa using hcompleted, hstatus⟩
  · rintro ⟨i, turn, hmem, -, hcompleted, hstatus⟩
    exact ⟨turn, hmem, (congrArg Prod.fst (branchLeaf_eq hcompleted)).trans hstatus⟩

/-- A tick that waits leaves what its turns leave. -/
theorem afterTick_eq_waits {out : Ticked (Results n (Fin n → Unit)) (World n σ)}
    (h : out.status = .waitingForInput) :
    p.afterTick out = (.waitingForInput, ⟨out.held, out.state⟩) := by
  simp [afterTick, h]

/-- A tick waits if its turns do. -/
theorem status_of_afterTick {out : Ticked (Results n (Fin n → Unit)) (World n σ)}
    (h : (p.afterTick out).1 = .waitingForInput) : out.status = .waitingForInput := by
  unfold afterTick at h
  split at h
  · cases hmerged : p.mergeBranchResults out.state.parent <;> simp [hmerged] at h
  · exact h

/-- A tick routes the input to come exactly if it keeps the key at a branch that waits. -/
theorem routesInput_tick_iff (hstep : p.step s .tick = some t) :
    p.RoutesInput s .tick t ↔ p.KeepsActive s .tick := by
  cases hdone : p.done s.world.parent with
  | true =>
    refine iff_of_true (fun htick => ?_) fun hwaits => ?_
    · simp [tick, hdone] at htick
    · exact absurd hwaits.1 (by simp [hdone])
  | false =>
    obtain ⟨out, hout, hlooped⟩ := tick_eq hdone
    have hwaits : out.status = .waitingForInput ↔ p.Waits s := by
      rw [hlooped.waits, Waits, hdone, exists_waits_iff]
      simp [outcomes]
    by_cases hw : p.Waits s
    · have hafter := afterTick_eq_waits (p := p) (hwaits.mpr hw)
      rw [hafter] at hout
      have ht : t = ⟨out.held, out.state⟩ := by simpa [step, hout] using hstep.symm
      have hnames := p.active_turns hlooped.run
      have hiff := @namesWaiting_activeAfter_iff n σ p
        (s.world.parent.get ParallelKeys.activeBranch) (p.outcomes s) hw.2.2
      have hroutes : p.RoutesInput s .tick t ↔ p.NamesWaiting
          (out.state.parent.get ParallelKeys.activeBranch) (p.outcomes s) := by
        subst ht
        refine ⟨fun h => ?_, fun h _ => ?_⟩
        · obtain ⟨i, hname, -, hi⟩ := h hout
          exact ⟨i, hname, hi⟩
        · obtain ⟨i, hname, hi⟩ := h
          refine ⟨i, hname, completed_turns hlooped.run ?_ hi, hi⟩
          exact nodup_turns _ (List.nodup_finRange n) _
      rw [hroutes, hnames]
      refine hiff.trans ⟨fun h _ => h, fun h => h hw⟩
    · refine iff_of_true (fun htick => ?_) fun hw' => absurd hw' hw
      rw [hout, Option.some.injEq] at htick
      exact absurd (hwaits.mp (status_of_afterTick (congrArg Prod.fst htick))) hw

/-- A value is delivered exactly if the key names a branch that takes input. -/
theorem routesInput_provideInput_iff {v : Value} (hstep : p.step s (.provideInput v) = some t) :
    p.RoutesInput s (.provideInput v) t ↔ p.KeepsActive s (.provideInput v) := by
  constructor
  · rintro ⟨i, hname, hdelivers⟩
    obtain ⟨provide, hprovide, -⟩ := hdelivers.taken
    exact ⟨i, hname, by simp [hprovide]⟩
  · rintro ⟨i, hname, htakes⟩
    obtain ⟨provide, hprovide⟩ := Option.isSome_iff_exists.mp htakes
    refine ⟨i, hname, ?_⟩
    have hworld : t.world = (p.provideInput s.world v).2 := by
      obtain rfl := Option.some.inj hstep
      rfl
    let called := p.callRunner i s.world fun held state => provide held state v
    have htouches : p.Touches i s.world called.2.2 := Branches.touches_callRunner i s.world _
    have hprovided : (p.provideInput s.world v).2.runners = called.2.2.runners ∧
        (p.provideInput s.world v).2.parent =
          (called.2.2.parent.set ParallelKeys.activeBranch (.str (p.slug i))).delete
            ParallelKeys.activeBranch := by
      simp [provideInput, hname, Value.asStr, Branches.runner?_slug, Branches.provideInputRunner,
        hprovide, called]
    have hget (k : String) (hk : k ≠ ParallelKeys.activeBranch) :
        (p.provideInput s.world v).2.parent.get k = called.2.2.parent.get k := by
      rw [hprovided.2]
      refine (Dict.get?_erase _ _ _).trans ?_
      rw [if_neg hk]
      exact Dict.get?_set_ne _ _ hk
    rw [hworld]
    refine ⟨⟨provide, hprovide, ?_⟩, fun j hj => ⟨?_, ?_⟩⟩
    · rw [hprovided.1]
      exact Branches.callRunner_held i s.world _
    · rw [hprovided.1]
      exact htouches.runners j hj
    · refine (Branches.loadBranchSnapshot_congr ?_ _).trans (htouches.snapshots j hj)
      exact hget _ (by decide)

/-- In every run of ticks and inputs, from any state, the key names a branch that waits whenever a
tick waits and every value goes to the branch that the key names exactly if in every tick that waits
the branches that succeed are followed by one that waits, the key names a branch that waits if none
succeeds, and values are given only while the key names a branch that takes input. -/
theorem routesInput_iff (p : ParallelPattern n σ) (s : System n σ) (calls : List Call) :
    AllSteps p.step p.RoutesInput s calls ↔
      AllSteps p.step (fun s call _ => p.KeepsActive s call) s calls := by
  refine allSteps_congr (fun _ => True) (fun _ _ _ _ _ _ => trivial) (fun s call t _ hstep => ?_)
    trivial
  cases call with
  | tick => exact routesInput_tick_iff hstep
  | provideInput v => exact routesInput_provideInput_iff hstep

/-- The first of two branches waits and the second succeeds in the same tick: the tick waits and no
branch gets the value that is given next. -/
theorem routesInput_fails : ¬ AllSteps (twoScripted .all).step (twoScripted .all).RoutesInput
    (scriptedStart [.waitingForInput] []) [.tick, .provideInput (.str "Ada")] := by
  intro h
  have hreturns : ((twoScripted .all).tick (scriptedStart [.waitingForInput] [])).map
      (fun out => (out.1, (out.2.world.parent.get ParallelKeys.activeBranch).isNone)) =
        some (.waitingForInput, true) := by decide
  obtain ⟨⟨status, t⟩, htick, hout⟩ := Option.map_eq_some_iff.mp hreturns
  obtain ⟨rfl, hnone⟩ := Prod.mk.inj hout
  have hstep : (twoScripted .all).step (scriptedStart [.waitingForInput] []) .tick = some t := by
    simp [step, htick]
  obtain ⟨i, hname, -⟩ := (h t hstep).1 htick
  simp [hname] at hnone

end Ticks

end ParallelPattern

end PalmEngine.Parallel
