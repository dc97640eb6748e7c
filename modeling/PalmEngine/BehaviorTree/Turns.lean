import PalmEngine.BehaviorTree.Node

/-!
# The turns of a parallel node

A parallel node over leaves ticks its children one after another, each on the state that the one
before it has left. The children that have their turn in one tick, with the state before each, say
all about it: the state after the last turn, the results that it adds and the status that it
returns.
-/

namespace PalmEngine.BehaviorTree

variable {n : ℕ} {S : Type}

/-- A leaf ticks the state and holds nothing. -/
def leafTick (tickLeaf : Fin n → S → PatternStatus × S) (i : Fin n) (_ : Unit) (s : S) :
    Option (Ticked Unit S) :=
  some ⟨(tickLeaf i s).1, (), (tickLeaf i s).2⟩

/-- Whether the result of one child is that of the node. -/
def endsNode (policy : ParallelPolicy) (status : PatternStatus) : Prop :=
  policy = .successOnAny ∧ status = .success ∨ policy = .successOnAll ∧ status = .failure

instance (policy : ParallelPolicy) (status : PatternStatus) : Decidable (endsNode policy status) :=
  inferInstanceAs (Decidable (_ ∨ _))

/-- The children among the given ones that are ticked, each with the state before its turn. -/
def turns (tickLeaf : Fin n → S → PatternStatus × S) (policy : ParallelPolicy)
    (childResults : Fin n → Option PatternStatus) : List (Fin n) → S → List (Fin n × S)
  | [], _ => []
  | i :: rest, s =>
    if (childResults i).isSome then turns tickLeaf policy childResults rest s
    else (i, s) :: if endsNode policy (tickLeaf i s).1 then []
      else turns tickLeaf policy childResults rest (tickLeaf i s).2

/-- One turn after another, each from the state that the one before it has left. -/
inductive Turns (tickLeaf : Fin n → S → PatternStatus × S) : S → List (Fin n × S) → S → Prop
  | nil (s : S) : Turns tickLeaf s [] s
  | cons (i : Fin n) (s t : S) (rest : List (Fin n × S))
      (hrest : Turns tickLeaf (tickLeaf i s).2 rest t) : Turns tickLeaf s ((i, s) :: rest) t

variable {tickLeaf : Fin n → S → PatternStatus × S} {policy : ParallelPolicy}

/-- What every turn that meets a condition keeps holds after turns that all meet it. -/
theorem Turns.invariant (inv : S → Prop) (ok : Fin n → S → Prop) {s t : S}
    {list : List (Fin n × S)} (hturns : Turns tickLeaf s list t)
    (hstep : ∀ i u, inv u → ok i u → inv (tickLeaf i u).2) (hs : inv s)
    (hok : ∀ turn ∈ list, ok turn.1 turn.2) : inv t := by
  induction hturns with
  | nil s => exact hs
  | cons i s t rest hrest ih =>
    refine ih (hstep i s hs (hok (i, s) List.mem_cons_self)) ?_
    exact fun turn hturn => hok turn (List.mem_cons_of_mem _ hturn)

/-- It holds before every one of them. -/
theorem Turns.invariant_before (inv : S → Prop) (ok : Fin n → S → Prop) {s t : S}
    {list : List (Fin n × S)} (hturns : Turns tickLeaf s list t)
    (hstep : ∀ i u, inv u → ok i u → inv (tickLeaf i u).2) (hs : inv s)
    (hok : ∀ turn ∈ list, ok turn.1 turn.2) : ∀ turn ∈ list, inv turn.2 := by
  induction hturns with
  | nil s => simp
  | cons i s t rest hrest ih =>
    intro turn hturn
    rcases List.mem_cons.mp hturn with rfl | hturn
    · exact hs
    · refine ih (hstep i s hs (hok (i, s) List.mem_cons_self)) ?_ turn hturn
      exact fun turn hturn => hok turn (List.mem_cons_of_mem _ hturn)

/-- What the turns of the other children keep is as it was if a child has no turn. -/
theorem Turns.frame {α : Type} {f : S → α} {s t : S} {list : List (Fin n × S)} {i : Fin n}
    (hturns : Turns tickLeaf s list t) (hstep : ∀ j u, j ≠ i → f (tickLeaf j u).2 = f u)
    (hi : ∀ turn ∈ list, turn.1 ≠ i) : f t = f s := by
  refine hturns.invariant (fun u => f u = f s) (fun j _ => j ≠ i) ?_ rfl hi
  exact fun j u hu hj => (hstep j u hj).trans hu

/-- What only the turn of one child changes is after the turns as that turn has left it. -/
theorem Turns.last {α : Type} {f : S → α} {s t u : S} {list : List (Fin n × S)} {i : Fin n}
    (hturns : Turns tickLeaf s list t) (hstep : ∀ j u, j ≠ i → f (tickLeaf j u).2 = f u)
    (hnodup : (list.map Prod.fst).Nodup) (hi : (i, u) ∈ list) :
    f t = f (tickLeaf i u).2 := by
  induction hturns with
  | nil s => cases hi
  | cons j s t rest hrest ih =>
    rw [List.map_cons, List.nodup_cons] at hnodup
    rcases List.mem_cons.mp hi with heq | hi
    · cases heq
      refine hrest.frame hstep fun turn hturn heq => hnodup.1 ?_
      exact List.mem_map.mpr ⟨turn, hturn, heq⟩
    · exact ih hnodup.2 hi

/-- The last turn leaves the state after the turns. -/
theorem Turns.state_of_last {s t u : S} {front : List (Fin n × S)} {i : Fin n}
    (h : Turns tickLeaf s (front ++ [(i, u)]) t) : t = (tickLeaf i u).2 := by
  induction front generalizing s with
  | nil =>
    cases h with
    | cons _ _ _ _ hrest =>
      cases hrest
      rfl
  | cons turn front ih =>
    cases h with
    | cons _ _ _ _ hrest => exact ih hrest

/-- Only given children that have no result have a turn. -/
theorem mem_turns {childResults : Fin n → Option PatternStatus} {children : List (Fin n)} {s u : S}
    {i : Fin n} (h : (i, u) ∈ turns tickLeaf policy childResults children s) :
    i ∈ children ∧ childResults i = none := by
  induction children generalizing s with
  | nil => cases h
  | cons j rest ih =>
    unfold turns at h
    split at h
    · exact ⟨List.mem_cons_of_mem _ (ih h).1, (ih h).2⟩
    · next hnone =>
      rcases List.mem_cons.mp h with heq | h
      · cases heq
        exact ⟨List.mem_cons_self, by simpa using hnone⟩
      · split at h
        · cases h
        · exact ⟨List.mem_cons_of_mem _ (ih h).1, (ih h).2⟩

/-- No child has two turns. -/
theorem nodup_turns (childResults : Fin n → Option PatternStatus) {children : List (Fin n)}
    (hnodup : children.Nodup) (s : S) :
    ((turns tickLeaf policy childResults children s).map Prod.fst).Nodup := by
  induction children generalizing s with
  | nil => exact List.nodup_nil
  | cons j rest ih =>
    rw [List.nodup_cons] at hnodup
    unfold turns
    split
    · exact ih hnodup.2 s
    · rw [List.map_cons, List.nodup_cons]
      split
      · simp
      · refine ⟨fun hmem => ?_, ih hnodup.2 _⟩
        obtain ⟨turn, hturn, heq⟩ := List.mem_map.mp hmem
        obtain rfl : turn.1 = j := heq
        exact hnodup.1 (mem_turns hturn).1

/-- The turns depend on the results of the given children only. -/
theorem turns_congr {childResults childResults' : Fin n → Option PatternStatus}
    {children : List (Fin n)} (h : ∀ i ∈ children, childResults i = childResults' i) (s : S) :
    turns tickLeaf policy childResults children s =
      turns tickLeaf policy childResults' children s := by
  induction children generalizing s with
  | nil => rfl
  | cons j rest ih =>
    have hrest := ih fun i hi => h i (List.mem_cons_of_mem _ hi)
    simp only [turns, h j List.mem_cons_self, hrest]

/-- The last of the turns is one whose status is that of the node. -/
def EndsEarly (tickLeaf : Fin n → S → PatternStatus × S) (policy : ParallelPolicy)
    (list : List (Fin n × S)) : Prop :=
  ∃ front i u, list = front ++ [(i, u)] ∧ endsNode policy (tickLeaf i u).1

/-- A turn before the others does not change how they end. -/
theorem EndsEarly.cons {list : List (Fin n × S)} (h : EndsEarly tickLeaf policy list)
    (turn : Fin n × S) : EndsEarly tickLeaf policy (turn :: list) := by
  obtain ⟨front, i, u, rfl, hends⟩ := h
  exact ⟨turn :: front, i, u, rfl, hends⟩

/-- A turn before the others that does not end the node leaves it to them. -/
theorem endsEarly_cons {i : Fin n} {s : S} {list : List (Fin n × S)}
    (h : ¬ endsNode policy (tickLeaf i s).1) :
    EndsEarly tickLeaf policy ((i, s) :: list) ↔ EndsEarly tickLeaf policy list := by
  refine ⟨fun hearly => ?_, fun hearly => hearly.cons (i, s)⟩
  obtain ⟨front, j, u, heq, hends⟩ := hearly
  cases front with
  | nil =>
    cases heq
    exact absurd hends h
  | cons turn front =>
    obtain ⟨-, rfl⟩ := List.cons.inj heq
    exact ⟨front, j, u, rfl, hends⟩

/-- Every given child that has no result has a turn, unless the node ends before. -/
theorem exists_turn {childResults : Fin n → Option PatternStatus} {children : List (Fin n)} {s : S}
    {i : Fin n} (hi : i ∈ children) (hnone : childResults i = none)
    (hearly : ¬ EndsEarly tickLeaf policy (turns tickLeaf policy childResults children s)) :
    ∃ u, (i, u) ∈ turns tickLeaf policy childResults children s := by
  induction children generalizing s with
  | nil => cases hi
  | cons j rest ih =>
    unfold turns at hearly ⊢
    by_cases hsome : (childResults j).isSome = true
    · rw [if_pos hsome] at hearly ⊢
      rcases List.mem_cons.mp hi with rfl | hi
      · simp [hnone] at hsome
      · exact ih hi hearly
    · rw [if_neg hsome] at hearly ⊢
      by_cases hends : endsNode policy (tickLeaf j s).1
      · rw [if_pos hends] at hearly
        exact absurd ⟨[], j, s, rfl, hends⟩ hearly
      · rw [if_neg hends, endsEarly_cons hends] at hearly
        rw [if_neg hends]
        rcases List.mem_cons.mp hi with rfl | hi
        · exact ⟨s, List.mem_cons_self⟩
        · obtain ⟨u, hu⟩ := ih hi hearly
          exact ⟨u, List.mem_cons_of_mem _ hu⟩

/-- What a tick of the node is by its turns, where earlier children may have paused. -/
structure Looped (tickLeaf : Fin n → S → PatternStatus × S) (policy : ParallelPolicy)
    (list : List (Fin n × S)) (anyWaiting anyRunning : Bool) (p : Results n (Fin n → Unit)) (s : S)
    (out : Ticked (Results n (Fin n → Unit)) S) : Prop where
  run : Turns tickLeaf s list out.state
  waits : out.status = .waitingForInput ↔ ¬ EndsEarly tickLeaf policy list ∧
    (anyWaiting ∨ ∃ turn ∈ list, (tickLeaf turn.1 turn.2).1 = .waitingForInput)
  ends : isYieldingStatus out.status = false → EndsEarly tickLeaf policy list ∨
    anyWaiting = false ∧ anyRunning = false ∧
      ∀ turn ∈ list, isYieldingStatus (tickLeaf turn.1 turn.2).1 = false
  results : ∀ i, (out.held.childResults i).isSome → (p.childResults i).isSome ∨
    EndsEarly tickLeaf policy list ∨
      ∃ u, (i, u) ∈ list ∧ isYieldingStatus (tickLeaf i u).1 = false

/-- A verdict does not pause. -/
theorem parallelVerdict_not_yields (policy : ParallelPolicy)
    (childResults : Fin n → Option PatternStatus) :
    isYieldingStatus (parallelVerdict policy childResults) = false := by
  unfold parallelVerdict
  cases policy with
  | successOnAll => dsimp only; split_ifs <;> rfl
  | successOnAny => dsimp only; split_ifs <;> rfl

/-- A loop over the other children is one over all of them if the first has paused. -/
private theorem Looped.pause {list : List (Fin n × S)} {anyWaiting anyRunning w r : Bool}
    {p : Results n (Fin n → Unit)} {i : Fin n} {s : S} {out : Ticked (Results n (Fin n → Unit)) S}
    (h : Looped tickLeaf policy list w r p (tickLeaf i s).2 out)
    (hends : ¬ endsNode policy (tickLeaf i s).1)
    (hw : w = true ↔ anyWaiting ∨ (tickLeaf i s).1 = .waitingForInput)
    (hor : w = true ∨ r = true) :
    Looped tickLeaf policy ((i, s) :: list) anyWaiting anyRunning p s out where
  run := .cons i s out.state list h.run
  waits := by
    rw [h.waits, endsEarly_cons hends, hw, List.exists_mem_cons_iff, or_assoc]
  ends hout := by
    rcases h.ends hout with hearly | ⟨hwaits, hruns, -⟩
    · exact .inl (hearly.cons (i, s))
    · simp [hwaits, hruns] at hor
  results j hj := by
    rcases h.results j hj with hold | hearly | ⟨u, hu, hstatus⟩
    · exact .inl hold
    · exact .inr (.inl (hearly.cons (i, s)))
    · exact .inr (.inr ⟨u, List.mem_cons_of_mem _ hu, hstatus⟩)

/-- A loop over the other children is one over all of them if the first has ended, with the turns
of the others given. -/
private theorem Looped.afterEnd {list : List (Fin n × S)} {anyWaiting anyRunning : Bool}
    {p : Results n (Fin n → Unit)} {i : Fin n} {s : S} {out : Ticked (Results n (Fin n → Unit)) S}
    (hstatus : isYieldingStatus (tickLeaf i s).1 = false)
    (hends : ¬ endsNode policy (tickLeaf i s).1)
    (h : Looped tickLeaf policy list anyWaiting anyRunning
      ⟨Function.update p.childResults i (some (tickLeaf i s).1), p.children⟩ (tickLeaf i s).2 out) :
    Looped tickLeaf policy ((i, s) :: list) anyWaiting anyRunning p s out where
  run := .cons i s out.state list h.run
  waits := by
    have hnot : (tickLeaf i s).1 ≠ .waitingForInput := by
      intro heq
      rw [heq] at hstatus
      cases hstatus
    rw [h.waits, endsEarly_cons hends, List.exists_mem_cons_iff, or_iff_right hnot]
  ends hout := by
    refine (h.ends hout).imp (fun hearly => hearly.cons (i, s)) fun hall => ?_
    refine ⟨hall.1, hall.2.1, fun turn hturn => ?_⟩
    rcases List.mem_cons.mp hturn with rfl | hturn
    · exact hstatus
    · exact hall.2.2 turn hturn
  results j hj := by
    rcases h.results j hj with hold | hearly | ⟨u, hu, hended⟩
    · by_cases hji : j = i
      · exact .inr (.inr ⟨s, hji ▸ List.mem_cons_self, hji ▸ hstatus⟩)
      · exact .inl (by simpa [Function.update_of_ne hji] using hold)
    · exact .inr (.inl (hearly.cons (i, s)))
    · exact .inr (.inr ⟨u, List.mem_cons_of_mem _ hu, hended⟩)

/-- A loop over the other children is one over all of them if the first has ended. -/
private theorem Looped.ended {children : List (Fin n)} {anyWaiting anyRunning : Bool}
    {p : Results n (Fin n → Unit)} {i : Fin n} {s : S} {out : Ticked (Results n (Fin n → Unit)) S}
    (hi : i ∉ children) (hstatus : isYieldingStatus (tickLeaf i s).1 = false)
    (hends : ¬ endsNode policy (tickLeaf i s).1)
    (hlooped : Looped tickLeaf policy
      (turns tickLeaf policy (Function.update p.childResults i (some (tickLeaf i s).1)) children
        (tickLeaf i s).2) anyWaiting anyRunning
      ⟨Function.update p.childResults i (some (tickLeaf i s).1), p.children⟩ (tickLeaf i s).2 out) :
    Looped tickLeaf policy
      ((i, s) :: turns tickLeaf policy p.childResults children (tickLeaf i s).2)
      anyWaiting anyRunning p s out := by
  have hother (j : Fin n) (hj : j ∈ children) :
      Function.update p.childResults i (some (tickLeaf i s).1) j = p.childResults j :=
    Function.update_of_ne (ne_of_mem_of_not_mem hj hi) _ _
  rw [turns_congr hother] at hlooped
  exact hlooped.afterEnd hstatus hends

/-- A turn that ends the node is the last one. -/
private theorem Looped.early {anyWaiting anyRunning : Bool} {p : Results n (Fin n → Unit)}
    {i : Fin n} {s : S} {out : Ticked (Results n (Fin n → Unit)) S}
    (hends : endsNode policy (tickLeaf i s).1) (hstate : out.state = (tickLeaf i s).2)
    (hstatus : out.status ≠ .waitingForInput) :
    Looped tickLeaf policy [(i, s)] anyWaiting anyRunning p s out where
  run := hstate ▸ .cons i s _ [] (.nil _)
  waits := iff_of_false hstatus fun h => h.1 ⟨[], i, s, rfl, hends⟩
  ends _ := .inl ⟨[], i, s, rfl, hends⟩
  results _ _ := .inr (.inl ⟨[], i, s, rfl, hends⟩)

/-- A loop over no children returns by what has paused before. -/
private theorem Looped.nil (anyWaiting anyRunning : Bool) (p : Results n (Fin n → Unit)) (s : S) :
    Looped tickLeaf policy [] anyWaiting anyRunning p s
      ⟨if anyWaiting then .waitingForInput else if anyRunning then .running
        else parallelVerdict policy p.childResults, p, s⟩ where
  run := .nil s
  waits := by
    have hearly : ¬ EndsEarly tickLeaf policy [] := by
      intro ⟨front, i, u, heq, _⟩
      simp at heq
    have hverdict := parallelVerdict_not_yields policy p.childResults
    cases anyWaiting with
    | true => simp [hearly]
    | false =>
      cases anyRunning with
      | true => simp
      | false =>
        refine iff_of_false (fun heq => ?_) (by simp)
        change parallelVerdict policy p.childResults = _ at heq
        rw [heq] at hverdict
        cases hverdict
  ends hout := by
    cases anyWaiting with
    | true => cases hout
    | false =>
      cases anyRunning with
      | true => cases hout
      | false => exact .inr ⟨rfl, rfl, fun turn hturn => absurd hturn List.not_mem_nil⟩
  results _ hi := .inl hi

/-- The loop of a parallel node over leaves returns what its turns say. -/
theorem parallelLoop_turns {children : List (Fin n)} (hnodup : children.Nodup)
    (anyWaiting anyRunning : Bool) (p : Results n (Fin n → Unit)) (s : S) :
    ∃ out, parallelLoop (leafTick tickLeaf) policy children anyWaiting anyRunning p s = some out ∧
      Looped tickLeaf policy (turns tickLeaf policy p.childResults children s)
        anyWaiting anyRunning p s out := by
  induction children generalizing anyWaiting anyRunning p s with
  | nil => exact ⟨_, rfl, .nil anyWaiting anyRunning p s⟩
  | cons i rest ih =>
    rw [List.nodup_cons] at hnodup
    unfold parallelLoop turns
    by_cases hsome : (p.childResults i).isSome = true
    · simpa only [if_pos hsome] using ih hnodup.2 anyWaiting anyRunning p s
    have hchildren : Function.update p.children i () = p.children := rfl
    simp only [if_neg hsome, leafTick, Option.bind_some, hchildren]
    cases hstatus : (tickLeaf i s).1 with
    | waitingForInput =>
      obtain ⟨out, hout, hlooped⟩ := ih hnodup.2 true anyRunning p (tickLeaf i s).2
      refine ⟨out, by simpa using hout, ?_⟩
      rw [if_neg (by simp [endsNode])]
      exact hlooped.pause (by simp [hstatus, endsNode]) (by simp [hstatus]) (.inl rfl)
    | running =>
      obtain ⟨out, hout, hlooped⟩ := ih hnodup.2 anyWaiting true p (tickLeaf i s).2
      refine ⟨out, by simpa using hout, ?_⟩
      rw [if_neg (by simp [endsNode])]
      exact hlooped.pause (by simp [hstatus, endsNode]) (by simp [hstatus]) (.inr rfl)
    | success =>
      have hterminal : isYieldingStatus (tickLeaf i s).1 = false := by rw [hstatus]; rfl
      by_cases hends : endsNode policy (tickLeaf i s).1
      · rw [hstatus] at hends
        have hpolicy : policy = .successOnAny := by simpa [endsNode] using hends
        refine ⟨⟨.success, ⟨fun _ => some .success, p.children⟩, (tickLeaf i s).2⟩, ?_, ?_⟩
        · simp [hpolicy]
        · rw [if_pos hends]
          exact Looped.early (hstatus ▸ hends) rfl (by simp)
      · obtain ⟨out, hout, hlooped⟩ := ih hnodup.2 anyWaiting anyRunning
          ⟨Function.update p.childResults i (some (tickLeaf i s).1), p.children⟩ (tickLeaf i s).2
        rw [hstatus] at hends
        have hpolicy : policy ≠ .successOnAny := by simpa [endsNode] using hends
        refine ⟨out, by simpa [hpolicy, hstatus] using hout, ?_⟩
        rw [if_neg hends]
        exact hlooped.ended hnodup.1 hterminal (hstatus ▸ hends)
    | failure =>
      have hterminal : isYieldingStatus (tickLeaf i s).1 = false := by rw [hstatus]; rfl
      by_cases hends : endsNode policy (tickLeaf i s).1
      · rw [hstatus] at hends
        have hpolicy : policy = .successOnAll := by simpa [endsNode] using hends
        refine ⟨⟨.failure, ⟨Function.update p.childResults i (some .failure), p.children⟩,
          (tickLeaf i s).2⟩, ?_, ?_⟩
        · simp [hpolicy]
        · rw [if_pos hends]
          exact Looped.early (hstatus ▸ hends) rfl (by simp)
      · obtain ⟨out, hout, hlooped⟩ := ih hnodup.2 anyWaiting anyRunning
          ⟨Function.update p.childResults i (some (tickLeaf i s).1), p.children⟩ (tickLeaf i s).2
        rw [hstatus] at hends
        have hpolicy : policy ≠ .successOnAll := by simpa [endsNode] using hends
        refine ⟨out, by simpa [hpolicy, hstatus] using hout, ?_⟩
        rw [if_neg hends]
        exact hlooped.ended hnodup.1 hterminal (hstatus ▸ hends)

/-- A tick of a parallel node over leaves returns what its turns say. -/
theorem parallelTick_turns (hn : 0 < n) (p : Results n (Fin n → Unit)) (s : S) :
    ∃ out, parallelTick (leafTick tickLeaf) policy p s = some out ∧
      Looped tickLeaf policy (turns tickLeaf policy p.childResults (List.finRange n) s)
        false false p s out := by
  rw [parallelTick, if_neg hn.ne']
  exact parallelLoop_turns (List.nodup_finRange n) false false p s

end PalmEngine.BehaviorTree
