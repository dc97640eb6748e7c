import PalmEngine.Context.Positions
import PalmEngine.Lib.AllOrNothing
import PalmEngine.Transform.Engine

/-!
# What a transform leaves of a state

A call on a state computes its result before it writes anything: whatever fails, fails until then or
in the validation of the output. A written state differs from the one before only where the
destination and the trace lie.
-/

namespace PalmEngine.Transform

open PalmEngine.Lib PalmEngine.Context

variable {registry : TransformRegistry} {cls : StateClass} {call : StateCall}
  {s : BlackboardState}

/-- The keys of the state, or of its current scope, lie where they lay in a state with the same
scopes. -/
theorem positionOf_congr {s' : BlackboardState} (h : s'.scopeStack = s.scopeStack)
    (inScope : Bool) (k : String) : s'.positionOf inScope k = s.positionOf inScope k := by
  simp [BlackboardState.positionOf, BlackboardState.currentScope, h]

namespace StateClass

/-- The scopes of a state are stored, if they are to be used. -/
def CanWrite (cls : StateClass) (inScope : Bool) (s : BlackboardState) : Prop :=
  (inScope && s.currentScope.isSome) = true → cls.storesScopes = true

/-- A value stored in the current scope is there, or nothing is stored. -/
theorem setScoped_allOrNothing (cls : StateClass) (key : String) (v : Value)
    (s : BlackboardState) :
    AllOrNothing (cls.setScoped key v) s fun _ s' =>
      cls.storesScopes = true ∧ s.setScoped key v = .ok s' := by
  unfold setScoped
  cases hstores : cls.storesScopes with
  | false => exact .throw _
  | true =>
    refine .bind (.get ⟨rfl, ?_⟩)
    cases hset : s.setScoped key v with
    | error text => exact .throw _
    | ok s' => exact .set ⟨rfl, rfl⟩

/-- Writing a key changes only what lies there, or nothing if the value is refused. -/
theorem writeStateValue_allOrNothing (cls : StateClass) (key : String) (v : Value)
    (inScope validate : Bool) (s : BlackboardState) :
    AllOrNothing (cls.writeStateValue key v inScope validate) s fun _ s' =>
      s.DiffersOnlyAt s' [s.positionOf inScope key] ∧ cls.CanWrite inScope s := by
  unfold writeStateValue
  refine .bind (.get ⟨rfl, ?_⟩)
  by_cases hin : (inScope && s.currentScope.isSome) = true
  · have hposition : s.positionOf inScope key = scopesRootKey :: scopePath key s.scopeStack :=
      if_pos hin
    have hstored : AllOrNothing (cls.setScoped key v) s fun _ s' =>
        s.DiffersOnlyAt s' [s.positionOf inScope key] ∧ cls.CanWrite inScope s :=
      (setScoped_allOrNothing cls key v s).mono fun _ s' h =>
        ⟨hposition ▸ BlackboardState.setScoped_differsOnlyAt h.2, fun _ => h.1⟩
    rw [if_pos hin]
    cases validate with
    | false => exact hstored
    | true => exact .bind (.lift _ fun _ _ => ⟨rfl, hstored⟩)
  · have hposition : s.positionOf inScope key = [key] := if_neg hin
    have hwritten : s.DiffersOnlyAt (s.set key v) [s.positionOf inScope key] ∧
        cls.CanWrite inScope s :=
      ⟨hposition ▸ s.set_differsOnlyAt key v, fun h => absurd h hin⟩
    rw [if_neg hin]
    cases validate with
    | false => exact .set hwritten
    | true => exact .bind (.lift _ fun _ _ => ⟨rfl, .set hwritten⟩)

/-- A value is stored in the current scope of a state that stores its scopes. -/
theorem setScoped_returns (key : String) (v : Value) (hstores : cls.storesScopes = true)
    (hscope : s.currentScope.isSome = true) :
    ∃ s', outcome (cls.setScoped key v) s = (.ok ⟨⟩, s') := by
  have hstack : s.scopeStack ≠ [] := by
    intro hempty
    simp [BlackboardState.currentScope, hempty] at hscope
  obtain ⟨s', hset⟩ : ∃ s', s.setScoped key v = .ok s' := ⟨_, if_neg hstack⟩
  refine ⟨s', ?_⟩
  unfold setScoped
  rw [hstores]
  refine (outcome_bind_ok (outcome_get s)).trans ?_
  rw [hset]
  exact outcome_set s s'

/-- A value that is not validated is written. -/
theorem writeStateValue_returns (key : String) (v : Value) {inScope : Bool}
    (h : cls.CanWrite inScope s) :
    Returns (cls.writeStateValue key v inScope false) s fun _ s' =>
      s.DiffersOnlyAt s' [s.positionOf inScope key] := by
  obtain ⟨s', hout⟩ : ∃ s', outcome (cls.writeStateValue key v inScope false) s = (.ok ⟨⟩, s') := by
    unfold writeStateValue
    by_cases hin : (inScope && s.currentScope.isSome) = true
    · obtain ⟨s', hset⟩ := setScoped_returns key v (h hin) (Bool.and_eq_true_iff.mp hin).2
      refine ⟨s', (outcome_bind_ok (outcome_get s)).trans ?_⟩
      rw [if_pos hin]
      exact hset
    · refine ⟨s.set key v, (outcome_bind_ok (outcome_get s)).trans ?_⟩
      rw [if_neg hin]
      exact outcome_set s _
  exact ⟨⟨⟩, s', hout, ((writeStateValue_allOrNothing cls key v inScope false s).all _ _ hout).1⟩

end StateClass

namespace StateCall

/-- Reading the source changes nothing. -/
theorem readSource_allOrNothing (call : StateCall) (cls : StateClass) (s : BlackboardState) :
    AllOrNothing (call.readSource cls) s fun _ s' => s' = s := by
  unfold readSource
  refine .bind (.get ⟨rfl, .bind (.lift _ fun value _ => ⟨rfl, ?_⟩)⟩)
  split
  · split
    · exact .pure rfl
    · exact .throw _
  · split
    · exact .pure rfl
    · exact .throw _
  · exact .pure rfl

/-- Writing the result changes only what lies at the written keys, or nothing if the output is
refused. -/
theorem writeResult_allOrNothing (call : StateCall) (cls : StateClass) (output : Value)
    (context : TransformContext) (s : BlackboardState) :
    AllOrNothing (call.writeResult cls output context) s fun _ s' =>
      s.DiffersOnlyAt s' (call.writtenKeys.map (s.positionOf call.inScope)) := by
  unfold writeResult
  refine .bind_returns ((cls.writeStateValue_allOrNothing _ _ _ _ s).mono fun _ s' hwritten => ?_)
  unfold writtenKeys
  cases call.traceKey with
  | none => exact ⟨_, s', rfl, hwritten.1⟩
  | some traceKey =>
    have hstack := hwritten.1.scopeStack
    have hcan : cls.CanWrite call.inScope s' := by
      have h := hwritten.2
      unfold StateClass.CanWrite BlackboardState.currentScope at h ⊢
      rwa [hstack]
    obtain ⟨_, s'', hout, htrace⟩ := cls.writeStateValue_returns traceKey context.toTrace hcan
    rw [positionOf_congr hstack] at htrace
    exact ⟨_, s'', outcome_bind_ok hout, hwritten.1.trans htrace⟩

end StateCall

namespace TransformRegistry

/-- What a call on a state leaves of it. -/
def Leaves (call : StateCall) (s : BlackboardState) (result : Option TransformResult)
    (s' : BlackboardState) : Prop :=
  match result with
  | none => s' = s
  | some _ => s.DiffersOnlyAt s' (call.writtenKeys.map (s.positionOf call.inScope))

/-- Writing what was computed is the last thing that a call does. -/
theorem some_writeResult (output : Value) (context : TransformContext) :
    AllOrNothing (some <$> call.writeResult cls output context) s (Leaves call s) :=
  .map (call.writeResult_allOrNothing cls output context s)

/-- What is computed of the source comes before anything is written. -/
theorem bind_readSource {f : Option Value → TransformM (Option TransformResult)}
    (hnone : AllOrNothing (f none) s (Leaves call s))
    (hsome : ∀ raw, AllOrNothing (f (some raw)) s (Leaves call s)) :
    AllOrNothing (call.readSource cls >>= f) s (Leaves call s) :=
  .bind ((call.readSource_allOrNothing cls s).mono fun raw s' hsame =>
    ⟨hsame, by cases raw with
      | none => exact hnone
      | some raw => exact hsome raw⟩)

/-- A rule on a state changes all or nothing. -/
theorem applyToState_allOrNothing (registry : TransformRegistry) (cls : StateClass)
    (call : StateCall) (name : String) (options : Options) (s : BlackboardState) :
    AllOrNothing (registry.applyToState cls call name options) s (Leaves call s) :=
  bind_readSource (.pure rfl) fun _ =>
    .bind (.get ⟨rfl, .bind (.lift _ fun _ _ => ⟨rfl, some_writeResult _ _⟩)⟩)

/-- A chain on a state changes all or nothing. -/
theorem applyChainToState_allOrNothing (registry : TransformRegistry) (cls : StateClass)
    (call : StateCall) (names : List String) (optionsByRule : Dict String Options)
    (sharedOptions : Options) (s : BlackboardState) :
    AllOrNothing (registry.applyChainToState cls call names optionsByRule sharedOptions) s
      (Leaves call s) :=
  bind_readSource (.pure rfl) fun _ =>
    .bind (.get ⟨rfl, .bind (.lift _ fun _ _ => ⟨rfl, some_writeResult _ _⟩)⟩)

/-- A batch on a state changes all or nothing. -/
theorem applyBatchToState_allOrNothing (registry : TransformRegistry) (cls : StateClass)
    (call : StateCall) (name : String) (perItem : Option Bool) (options : Options)
    (s : BlackboardState) :
    AllOrNothing (registry.applyBatchToState cls call name perItem options) s (Leaves call s) := by
  refine bind_readSource (.pure rfl) fun raw => .bind (.lift _ fun rule _ => ⟨rfl, ?_⟩)
  by_cases heach : perItem.getD (rule.mode = .single) = true
  · rw [if_pos heach]
    cases raw with
    | list items =>
      exact .bind (.get ⟨rfl, .bind (.lift _ fun results _ =>
        ⟨rfl, .bind (.get ⟨rfl, some_writeResult _ _⟩)⟩)⟩)
    | null | bool _ | int _ | str _ | dict _ | other _ => exact .throw _
  · rw [if_neg heach]
    exact .bind (.get ⟨rfl, .bind (.lift _ fun _ _ => ⟨rfl, some_writeResult _ _⟩)⟩)

/-- A call on a state that fails, or skips a missing source, leaves it as it was; one that succeeds
changes only what lies at the destination and at the key of the trace. -/
theorem call_allOrNothing (registry : TransformRegistry) (cls : StateClass) (call : StateCall)
    (transform : StateTransform) (s : BlackboardState) :
    AllOrNothing (registry.call cls call transform) s (Leaves call s) := by
  cases transform with
  | single name options => exact applyToState_allOrNothing registry cls call name options s
  | chain names optionsByRule sharedOptions =>
    exact applyChainToState_allOrNothing registry cls call names optionsByRule sharedOptions s
  | batch name perItem options =>
    exact applyBatchToState_allOrNothing registry cls call name perItem options s

end TransformRegistry

end PalmEngine.Transform
