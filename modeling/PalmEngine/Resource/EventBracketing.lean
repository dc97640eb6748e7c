import PalmEngine.Context.PlainValues
import PalmEngine.Resource.Invoke

/-!
# The events around an invocation

An invocation that runs emits one opening and one closing event and returns, unless a key of the
caller's correlation or of the provider's metadata is not a name, is the name of a parameter of the
call it is passed to, or is given twice there.
-/

namespace PalmEngine.Resource

open PalmEngine.Lib

variable {K V : Type} [DecidableEq K] {ops : ScriptValues K V}

/-- The keys of a dictionary may name arguments. -/
def Named (ops : ScriptValues K V) (d : Dict K V) : Prop := ∀ k ∈ d.keys, IsName ops k

/-- None of the names is a key of the dictionary. -/
def Free (ops : ScriptValues K V) (names : List String) (d : Dict K V) : Prop :=
  ∀ name ∈ names, ops.key name ∉ d.keys

/-- Keyword arguments are accepted if every dictionary has names other than the parameters, and no
two dictionaries share a key. -/
theorem keywords_isSome_iff (parameters : List String) (groups : List (Dict K V)) :
    (keywords ops parameters groups).isSome = true ↔
      (∀ d ∈ groups, Named ops d ∧ Free ops parameters d) ∧
        groups.Pairwise fun d e => ∀ k ∈ d.keys, k ∉ e.keys := by
  have hnodup : (groups.flatMap Dict.keys).Nodup ↔
      groups.Pairwise fun d e => ∀ k ∈ d.keys, k ∉ e.keys := by
    rw [List.nodup_flatMap, and_iff_right fun d _ => d.nodup]
    exact List.Pairwise.iff fun d e => ⟨fun h k hd he => h hd he, fun h k hd he => h k hd he⟩
  have hnames : (∀ k ∈ groups.flatMap Dict.keys, IsName ops k ∧ k ∉ parameters.map ops.key) ↔
      ∀ d ∈ groups, Named ops d ∧ Free ops parameters d := by
    constructor
    · intro h d hd
      refine ⟨fun k hk => (h k (List.mem_flatMap.mpr ⟨d, hd, hk⟩)).1, fun name hname hk => ?_⟩
      exact (h _ (List.mem_flatMap.mpr ⟨d, hd, hk⟩)).2 (List.mem_map_of_mem hname)
    · intro h k hk
      obtain ⟨d, hd, hk⟩ := List.mem_flatMap.mp hk
      refine ⟨(h d hd).1 k hk, fun hparameter => ?_⟩
      obtain ⟨name, hname, rfl⟩ := List.mem_map.mp hparameter
      exact (h d hd).2 name hname hk
  rw [keywords, ← hnodup, ← hnames]
  split
  · next h => exact ⟨fun _ => ⟨h.2, h.1⟩, fun _ => rfl⟩
  · next h => exact ⟨fun hsome => (by cases hsome), fun hboth => absurd ⟨hboth.2, hboth.1⟩ h⟩

omit [DecidableEq K] in
theorem isName_key (name : String) : IsName ops (ops.key name) := by simp [IsName]

omit [DecidableEq K] in
/-- A dictionary whose keys are some names beside those of another one has names, if the other one
has. -/
theorem named_of_keys {merged d : Dict K V} {names : List String}
    (hkeys : ∀ k, k ∈ merged.keys ↔ k ∈ names.map ops.key ∨ k ∈ d.keys) :
    Named ops merged ↔ Named ops d := by
  refine ⟨fun h k hk => h k ((hkeys k).mpr (.inr hk)), fun h k hk => ?_⟩
  rcases (hkeys k).mp hk with hname | hd
  · obtain ⟨name, -, rfl⟩ := List.mem_map.mp hname
    exact isName_key name
  · exact h k hd

omit [DecidableEq K] in
/-- Names other than those of the dictionary are free in it, if they are in the other one. -/
theorem free_of_keys {merged d : Dict K V} {names parameters : List String}
    (hkeys : ∀ k, k ∈ merged.keys ↔ k ∈ names.map ops.key ∨ k ∈ d.keys)
    (hdisjoint : ∀ name ∈ parameters, name ∉ names) :
    Free ops parameters merged ↔ Free ops parameters d := by
  refine forall₂_congr fun name hname => not_congr ?_
  rw [hkeys, or_iff_right]
  intro hmem
  obtain ⟨other, hother, heq⟩ := List.mem_map.mp hmem
  exact hdisjoint name hname (ops.key_inj.mp heq ▸ hother)

section Parts

variable {p : Prepared K V} {result : ProviderResult K V} {correlation : Dict K V}

/-- The names of the fields of every event. -/
def eventNames : List String :=
  ["provider", "action", "resource_ref", "definition_id", "definition_name", "resource_id", "params",
    "mutating"]

/-- The names of the fields of the result that is returned. -/
def metadataNames : List String :=
  ["provider", "action", "resource_ref", "definition_id", "definition_name", "resource_id"]

/-- The names that a result may add to the closing event. -/
def addedNames : List String := ["invoke_depth", "parent_job_id", "mode", "invoke_chain"]

open ResourceEngine

theorem mem_keys_eventBase (k : K) : k ∈ (eventBase ops p correlation).keys ↔
    k ∈ eventNames.map ops.key ∨ k ∈ (noted ops correlation).keys := by
  have hnodup : eventNames.Nodup := by decide
  rw [eventBase, Dict.mem_keys_update]
  exact or_congr_left (ops.mem_keys_record (by exact hnodup) k)

theorem mem_keys_resultMetadata (k : K) : k ∈ (resultMetadata ops p result).keys ↔
    k ∈ metadataNames.map ops.key ∨ k ∈ result.metadata.keys := by
  have hnodup : metadataNames.Nodup := by decide
  rw [resultMetadata, Dict.mem_keys_update, or_comm]
  exact or_congr_left (ops.mem_keys_record (by exact hnodup) k)

theorem mem_keys_errorField (error : Option String) (k : K) :
    k ∈ (errorField ops error).keys ↔ k = ops.key "error" := by
  rw [errorField, ops.mem_keys_record (by simp)]
  simp

/-- What a result adds is under the four names. -/
theorem name_of_mem_keys_correlationPayload {k : K}
    (h : k ∈ (correlationPayload ops result).keys) : ∃ name ∈ addedNames, k = ops.key name := by
  obtain ⟨e, he, rfl⟩ := ops.mem_keys_recordSome h
  refine ⟨e.1, ?_, rfl⟩
  simp only [List.mem_cons, List.not_mem_nil, or_false] at he
  rcases he with rfl | rfl | rfl | rfl <;> simp [addedNames]

/-- The error is a name, and free of the two parameters. -/
theorem errorField_accepted (error : Option String) :
    Named ops (errorField ops error) ∧ Free ops ["self", "event_type"] (errorField ops error) := by
  refine ⟨fun k hk => ?_, fun name hname hk => ?_⟩
  · rw [mem_keys_errorField] at hk
    exact hk ▸ isName_key "error"
  · rw [mem_keys_errorField, ops.key_inj] at hk
    exact absurd (hk ▸ hname) (by decide)

/-- What a result adds has names, free of the two parameters. -/
theorem correlationPayload_accepted : Named ops (correlationPayload ops result) ∧
    Free ops ["self", "event_type"] (correlationPayload ops result) := by
  refine ⟨fun k hk => ?_, fun name hname hk => ?_⟩
  · obtain ⟨name, -, rfl⟩ := name_of_mem_keys_correlationPayload hk
    exact isName_key name
  · obtain ⟨added, hadded, heq⟩ := name_of_mem_keys_correlationPayload hk
    have hnot : ∀ name ∈ ["self", "event_type"], name ∉ addedNames := by decide
    exact hnot name hname (ops.key_inj.mp heq ▸ hadded)

/-- The correlation leaves the keys that a result adds to the closing event. -/
def SparesAdded (ops : ScriptValues K V) (result : ProviderResult K V) (correlation : Dict K V) :
    Prop :=
  ∀ k ∈ (correlationPayload ops result).keys, k ∉ (noted ops correlation).keys

/-- The base of the events shares no key with what a result adds, if the correlation does not. -/
theorem eventBase_disjoint_iff :
    (∀ k ∈ (eventBase ops p correlation).keys, k ∉ (correlationPayload ops result).keys) ↔
      SparesAdded ops result correlation := by
  refine ⟨fun h k hadded hnoted => h k ((mem_keys_eventBase k).mpr (.inr hnoted)) hadded,
    fun h k hbase hadded => ?_⟩
  rcases (mem_keys_eventBase k).mp hbase with hfield | hnoted
  · obtain ⟨name, hname, rfl⟩ := List.mem_map.mp hfield
    obtain ⟨added, hmem, heq⟩ := name_of_mem_keys_correlationPayload hadded
    have hnot : ∀ name ∈ eventNames, name ∉ addedNames := by decide
    exact hnot name hname (ops.key_inj.mp heq ▸ hmem)
  · exact h k hadded hnoted

/-- The base of the events has no error, if the correlation has none. -/
theorem errorField_disjoint_iff (error : Option String) :
    (∀ k ∈ (errorField ops error).keys, k ∉ (eventBase ops p correlation).keys) ↔
      Free ops ["error"] (noted ops correlation) := by
  rw [← free_of_keys (mem_keys_eventBase (p := p)) (by decide)]
  simp [mem_keys_errorField, Free]

/-- An error is not among what a result adds. -/
theorem errorField_correlationPayload (error : Option String) :
    ∀ k ∈ (errorField ops error).keys, k ∉ (correlationPayload ops result).keys := by
  intro k hk hadded
  obtain ⟨added, hmem, heq⟩ := name_of_mem_keys_correlationPayload hadded
  rw [mem_keys_errorField] at hk
  have hname : "error" = added := ops.key_inj.mp (hk.symm.trans heq)
  exact absurd (hname ▸ hmem) (by decide)

/-- The correlation of a caller has names other than those of the parameters. -/
def Accepted (ops : ScriptValues K V) (correlation : Dict K V) : Prop :=
  Named ops (noted ops correlation) ∧ Free ops ["self", "event_type"] (noted ops correlation)

/-- The base of the events is accepted if the correlation is. -/
theorem eventBase_accepted_iff : (Named ops (eventBase ops p correlation) ∧
    Free ops ["self", "event_type"] (eventBase ops p correlation)) ↔ Accepted ops correlation :=
  and_congr (named_of_keys mem_keys_eventBase) (free_of_keys mem_keys_eventBase (by decide))

/-- The keywords of the opening event. -/
theorem opening_keywords_iff :
    (keywords ops ["self", "event_type"] [eventBase ops p correlation]).isSome = true ↔
      Accepted ops correlation := by
  rw [keywords_isSome_iff, List.forall_mem_singleton, eventBase_accepted_iff]
  exact and_iff_left (List.pairwise_singleton _ _)

/-- The keywords of the closing event of a provider that raised. -/
theorem raised_keywords_iff (error : Option String) :
    (keywords ops ["self", "event_type"] [errorField ops error,
      eventBase ops p correlation]).isSome = true ↔
      Accepted ops correlation ∧ Free ops ["error"] (noted ops correlation) := by
  rw [keywords_isSome_iff, List.forall_mem_cons, List.forall_mem_singleton, eventBase_accepted_iff,
    and_iff_right (errorField_accepted error), List.pairwise_pair, errorField_disjoint_iff]

/-- The keywords of the closing event of a provider that succeeded. -/
theorem completed_keywords_iff :
    (keywords ops ["self", "event_type"] [eventBase ops p correlation,
      correlationPayload ops result]).isSome = true ↔
      Accepted ops correlation ∧ SparesAdded ops result correlation := by
  rw [keywords_isSome_iff, List.forall_mem_cons, List.forall_mem_singleton, eventBase_accepted_iff,
    and_iff_left correlationPayload_accepted, List.pairwise_pair, eventBase_disjoint_iff]

/-- The keywords of the closing event of a provider that failed. -/
theorem failed_keywords_iff (error : Option String) :
    (keywords ops ["self", "event_type"] [errorField ops error, eventBase ops p correlation,
      correlationPayload ops result]).isSome = true ↔
      Accepted ops correlation ∧ Free ops ["error"] (noted ops correlation) ∧
        SparesAdded ops result correlation := by
  rw [keywords_isSome_iff, List.forall_mem_cons, List.forall_mem_cons, List.forall_mem_singleton,
    eventBase_accepted_iff, and_iff_right (errorField_accepted error),
    and_iff_left correlationPayload_accepted, List.pairwise_cons, List.pairwise_pair,
    List.forall_mem_cons, List.forall_mem_singleton, errorField_disjoint_iff,
    and_iff_left (errorField_correlationPayload error), eventBase_disjoint_iff]

/-- The keywords of the result that is returned. -/
theorem result_keywords_iff {parameters : List String}
    (hparameters : ∀ name ∈ parameters, name ∉ metadataNames) :
    (keywords ops parameters [resultMetadata ops p result]).isSome = true ↔
      Named ops result.metadata ∧ Free ops parameters result.metadata := by
  rw [keywords_isSome_iff, List.forall_mem_singleton, named_of_keys mem_keys_resultMetadata,
    free_of_keys mem_keys_resultMetadata hparameters]
  exact and_iff_left (List.pairwise_singleton _ _)

end Parts

namespace ResourceEngine

variable {engine : ResourceEngine K V} {p : Prepared K V} {correlation : Dict K V}

/-- The publisher returns for the event with a payload collected from dictionaries. -/
def Publishes (engine : ResourceEngine K V) (type : String) (groups : List (Dict K V)) : Prop :=
  engine.publishes { type, payload := groups.foldl Dict.update .empty } = true

/-- Keyword arguments are the dictionaries, one over the other. -/
theorem keywords_eq_some {parameters : List String} {groups : List (Dict K V)}
    {arguments : Dict K V} (h : keywords ops parameters groups = some arguments) :
    arguments = groups.foldl Dict.update .empty := by
  unfold keywords at h
  dsimp only at h
  split at h
  · exact (Option.some.inj h).symm
  · cases h

/-- An event is emitted if its keywords are accepted and the publisher returns for it. -/
theorem emit_ok_iff {type : String} {groups : List (Dict K V)} :
    (∃ event, emit ops engine type groups = .ok event) ↔
      (keywords ops ["self", "event_type"] groups).isSome = true ∧ engine.Publishes type groups := by
  unfold emit Publishes
  cases hkeywords : keywords ops ["self", "event_type"] groups with
  | none => simp
  | some payload =>
    obtain rfl := keywords_eq_some hkeywords
    by_cases hpublish : engine.publishes
        { type := type, payload := groups.foldl Dict.update .empty } = true
    · simp [hpublish]
    · simp [hpublish]

/-- An emitted event has the type it was emitted with. -/
theorem type_of_emit {type : String} {groups : List (Dict K V)} {event : ResourceEvent K V}
    (h : emit ops engine type groups = .ok event) : event.type = type := by
  unfold emit at h
  split at h
  · cases h
  · split at h
    · exact (Except.ok.inj h) ▸ rfl
    · cases h

/-- An invocation brackets what the provider did: an opening event, then a closing one, and it
returns. One that is answered from the cache need not. -/
def Brackets (i : Invocation K V) : Prop :=
  (∀ result, i.answer ≠ .cached result) → ∃ opened closed result,
    i.events = [opened, closed] ∧ opened.type = "resource.invoked" ∧
      closed.type ∈ ["resource.completed", "resource.failed"] ∧ i.answer = .returned result

/-- The opening event is emitted. -/
def Opens (ops : ScriptValues K V) (engine : ResourceEngine K V) (p : Prepared K V)
    (correlation : Dict K V) : Prop :=
  Accepted ops correlation ∧ engine.Publishes "resource.invoked" [eventBase ops p correlation]

/-- The closing event is emitted and the result is made. -/
def Closes (ops : ScriptValues K V) (engine : ResourceEngine K V) (p : Prepared K V)
    (correlation : Dict K V) : ProviderOutcome K V → Prop
  | .raised text =>
    Free ops ["error"] (noted ops correlation) ∧
      engine.Publishes "resource.failed" [errorField ops (some text), eventBase ops p correlation]
  | .returned result =>
    Named ops result.metadata ∧ SparesAdded ops result correlation ∧
      if result.success then
        Free ops ["cls", "data"] result.metadata ∧ engine.Publishes "resource.completed"
          [eventBase ops p correlation, correlationPayload ops result]
      else
        Free ops ["cls", "error"] result.metadata ∧ Free ops ["error"] (noted ops correlation) ∧
          engine.Publishes "resource.failed" [errorField ops result.error,
            eventBase ops p correlation, correlationPayload ops result]

omit [DecidableEq K] in
/-- An invocation that raises does not bracket. -/
theorem not_brackets_raised {events : List (ResourceEvent K V)} {e : InvokeError} :
    ¬ Brackets (⟨events, .raised e⟩ : Invocation K V) := by
  intro h
  obtain ⟨-, -, result, -, -, -, hanswer⟩ := h fun result hcached => by cases hcached
  cases hanswer

omit [DecidableEq K] in
/-- One event does not bracket. -/
theorem not_brackets_of_length {events : List (ResourceEvent K V)} {result : ProviderResult K V}
    (h : events.length ≤ 1) : ¬ Brackets (⟨events, .returned result⟩ : Invocation K V) := by
  intro hbrackets
  obtain ⟨opened, closed, -, hevents, -⟩ := hbrackets fun _ hcached => by cases hcached
  simp [show events = [opened, closed] from hevents] at h

omit [DecidableEq K] in
/-- An opening and a closing event bracket an invocation that returns. -/
theorem brackets_returned {opened closed : ResourceEvent K V} {result : ProviderResult K V}
    (hopened : opened.type = "resource.invoked")
    (hclosed : closed.type ∈ ["resource.completed", "resource.failed"]) :
    Brackets (⟨[opened, closed], .returned result⟩ : Invocation K V) :=
  fun _ => ⟨opened, closed, result, rfl, hopened, hclosed, rfl⟩

section Closing

variable {opened : ResourceEvent K V} {result : ProviderResult K V}

/-- A closing event that is emitted closes. -/
theorem brackets_emitted {type : String} {groups : List (Dict K V)} {closed : ResourceEvent K V}
    (hopened : opened.type = "resource.invoked") (hemit : emit ops engine type groups = .ok closed)
    (htype : type ∈ ["resource.completed", "resource.failed"]) :
    Brackets (⟨[opened, closed], .returned result⟩ : Invocation K V) :=
  brackets_returned hopened (type_of_emit hemit ▸ htype)

/-- The provider raised. -/
theorem closeRaised_brackets_iff (hopened : opened.type = "resource.invoked")
    (haccepted : Accepted ops correlation) (text : String) :
    Brackets (closeRaised ops engine p (eventBase ops p correlation) opened text) ↔
      Closes ops engine p correlation (.raised text) := by
  have hemit : (∃ closed, emit ops engine "resource.failed"
      [errorField ops (some text), eventBase ops p correlation] = .ok closed) ↔
        Closes ops engine p correlation (.raised text) := by
    rw [emit_ok_iff, raised_keywords_iff, and_assoc, and_iff_right haccepted, Closes]
  rw [← hemit, closeRaised]
  cases hclosed : emit ops engine "resource.failed"
      [errorField ops (some text), eventBase ops p correlation] with
  | error e => simpa using not_brackets_raised
  | ok closed =>
    refine iff_of_true ?_ ⟨closed, rfl⟩
    exact brackets_emitted hopened hclosed (by simp)

/-- The provider succeeded. -/
theorem closeCompleted_brackets_iff (hopened : opened.type = "resource.invoked")
    (haccepted : Accepted ops correlation) :
    Brackets (closeCompleted ops engine p (eventBase ops p correlation) opened result) ↔
      (Named ops result.metadata ∧ Free ops ["cls", "data"] result.metadata) ∧
        SparesAdded ops result correlation ∧ engine.Publishes "resource.completed"
          [eventBase ops p correlation, correlationPayload ops result] := by
  have hemit : (∃ closed, emit ops engine "resource.completed"
      [eventBase ops p correlation, correlationPayload ops result] = .ok closed) ↔
        SparesAdded ops result correlation ∧ engine.Publishes "resource.completed"
          [eventBase ops p correlation, correlationPayload ops result] := by
    rw [emit_ok_iff, completed_keywords_iff, and_assoc, and_iff_right haccepted]
  have hresult : (keywords ops ["cls", "data"] [resultMetadata ops p result]).isSome = true ↔
      Named ops result.metadata ∧ Free ops ["cls", "data"] result.metadata :=
    result_keywords_iff (by decide)
  rw [← hemit, ← hresult, closeCompleted, ProviderResult.ok]
  cases keywords ops ["cls", "data"] [resultMetadata ops p result] with
  | none => simpa using not_brackets_raised
  | some metadata =>
    dsimp only [Option.map_some]
    cases hclosed : emit ops engine "resource.completed"
        [eventBase ops p correlation, correlationPayload ops result] with
    | error e => simpa using not_brackets_raised
    | ok closed =>
      refine iff_of_true ?_ ⟨rfl, closed, rfl⟩
      exact brackets_emitted hopened hclosed (by simp)

/-- The provider failed. -/
theorem closeFailed_brackets_iff (hopened : opened.type = "resource.invoked")
    (haccepted : Accepted ops correlation) :
    Brackets (closeFailed ops engine p (eventBase ops p correlation) opened result) ↔
      (Named ops result.metadata ∧ Free ops ["cls", "error"] result.metadata) ∧
        (Free ops ["error"] (noted ops correlation) ∧ SparesAdded ops result correlation) ∧
          engine.Publishes "resource.failed" [errorField ops result.error,
            eventBase ops p correlation, correlationPayload ops result] := by
  have hemit : (∃ closed, emit ops engine "resource.failed" [errorField ops result.error,
      eventBase ops p correlation, correlationPayload ops result] = .ok closed) ↔
        (Free ops ["error"] (noted ops correlation) ∧ SparesAdded ops result correlation) ∧
          engine.Publishes "resource.failed" [errorField ops result.error,
            eventBase ops p correlation, correlationPayload ops result] := by
    rw [emit_ok_iff, failed_keywords_iff, and_iff_right haccepted]
  have hresult : (keywords ops ["cls", "error"] [resultMetadata ops p result]).isSome = true ↔
      Named ops result.metadata ∧ Free ops ["cls", "error"] result.metadata :=
    result_keywords_iff (by decide)
  rw [← hemit, ← hresult, closeFailed]
  cases hclosed : emit ops engine "resource.failed" [errorField ops result.error,
      eventBase ops p correlation, correlationPayload ops result] with
  | error e =>
    refine iff_of_false not_brackets_raised ?_
    rintro ⟨-, _, hok⟩
    cases hok
  | ok closed =>
    dsimp only [ProviderResult.fail]
    cases keywords ops ["cls", "error"] [resultMetadata ops p result] with
    | none => simpa using not_brackets_raised
    | some metadata =>
      refine iff_of_true ?_ ⟨rfl, closed, rfl⟩
      exact brackets_emitted hopened hclosed (by simp)

end Closing

/-- An invocation that is ready brackets exactly if its events are emitted and its result made. -/
theorem invokePrepared_brackets_iff :
    Brackets (invokePrepared ops engine p correlation) ↔
      Opens ops engine p correlation ∧ Closes ops engine p correlation (engine.run p) := by
  have hemit : (∃ opened, emit ops engine "resource.invoked" [eventBase ops p correlation] =
      .ok opened) ↔ Opens ops engine p correlation := by
    rw [emit_ok_iff, opening_keywords_iff, Opens]
  rw [invokePrepared]
  cases hopened : emit ops engine "resource.invoked" [eventBase ops p correlation] with
  | error e =>
    rw [hopened] at hemit
    have hnot : ¬ Opens ops engine p correlation := fun h => by
      obtain ⟨_, hok⟩ := hemit.mpr h
      cases hok
    exact iff_of_false not_brackets_raised fun h => hnot h.1
  | ok opened =>
    have hopens : Opens ops engine p correlation := hemit.mp ⟨opened, hopened⟩
    have htype := type_of_emit hopened
    rw [and_iff_right hopens]
    cases engine.run p with
    | raised text => exact closeRaised_brackets_iff htype hopens.1 text
    | returned result =>
      dsimp only
      cases hsuccess : result.success with
      | true =>
        rw [if_pos rfl, closeCompleted_brackets_iff htype hopens.1, Closes, hsuccess, if_pos rfl]
        tauto
      | false =>
        rw [if_neg Bool.false_ne_true, closeFailed_brackets_iff htype hopens.1, Closes, hsuccess,
          if_neg Bool.false_ne_true]
        tauto

/-- A refusal emits one event at most. -/
theorem not_brackets_refuse (result : ProviderResult K V) (resourceRef : Option String) :
    ¬ Brackets (refuse ops engine result resourceRef) := by
  unfold refuse
  split
  · exact not_brackets_raised
  · exact not_brackets_of_length le_rfl

/-- A refusal does not bracket. -/
theorem prepare_refused {request : Request K V} {i : Invocation K V}
    (h : prepare ops engine request = .refused i) : ¬ Brackets i := by
  unfold prepare at h
  split at h
  · exact Preparation.refused.inj h ▸ not_brackets_of_length (Nat.zero_le _)
  · split at h
    · exact Preparation.refused.inj h ▸ not_brackets_refuse _ _
    · split at h
      · exact Preparation.refused.inj h ▸ not_brackets_refuse _ _
      · unfold lookUp at h
        split at h
        · exact Preparation.refused.inj h ▸ not_brackets_raised
        · split at h
          · exact Preparation.refused.inj h ▸ not_brackets_raised
          · cases h
          · cases h

/-- An invocation brackets exactly if it is answered from the cache, or it is ready, its events are
emitted and its result is made. -/
theorem invoke_brackets_iff (ops : ScriptValues K V) (engine : ResourceEngine K V)
    (request : Request K V) :
    Brackets (invoke ops engine request) ↔
      (∃ result, prepare ops engine request = .cached result) ∨
        ∃ p, prepare ops engine request = .ready p ∧ Opens ops engine p request.correlation ∧
          Closes ops engine p request.correlation (engine.run p) := by
  rw [invoke]
  cases hprepare : prepare ops engine request with
  | refused i =>
    refine iff_of_false (prepare_refused hprepare) ?_
    rintro (⟨_, hcached⟩ | ⟨_, hready, -⟩)
    · cases hcached
    · cases hready
  | cached result =>
    refine iff_of_true (fun hnot => absurd rfl (hnot result)) (.inl ⟨result, rfl⟩)
  | ready p =>
    have hiff := @invokePrepared_brackets_iff K V _ ops engine p request.correlation
    constructor
    · exact fun h => .inr ⟨p, rfl, hiff.mp h⟩
    · rintro (⟨_, hcached⟩ | ⟨q, hready, hboth⟩)
      · cases hcached
      · obtain rfl := Preparation.ready.inj hready
        exact hiff.mpr hboth

/-- An engine whose only provider raises. -/
def raisingEngine : ResourceEngine String Context.Value where
  initialized := true
  definitionResolver := none
  publisher := none
  cachedResult _ := .ok none
  run _ := .raised "connection refused"

/-- An invocation whose correlation has an error raises when its provider does. -/
theorem invoke_brackets_fails : ¬ ∀ (engine : ResourceEngine String Context.Value)
    (request : Request String Context.Value),
      Brackets (invoke Context.plainValues engine request) := by
  intro h
  refine not_brackets_raised (h raisingEngine {
    provider := some "rest"
    correlation := Context.entriesDict [("error", .str "previous attempt")]
    bindParams := .ok
    bindResourceId := fun resourceId _ => .ok resourceId })

end ResourceEngine

end PalmEngine.Resource
