import PalmEngine.Lib.Fallible
import PalmEngine.Persistence.StoredInstance

/-!
# The round trip of process instances

A stored instance comes back as it was, except for a step slug that is neither null nor counts as
true, which is lost, and a session that only its metadata names, which is found there. An instance
that was built from a job and followed it has its session in canonical form, so its steps alone
decide. Its ring holds the last snapshots that were appended.
-/

namespace PalmEngine.Persistence.Stored

open PalmEngine.Lib

variable {K V : Type} [DecidableEq K] {ops : ScriptValues K V}

/-- A step slug after it was stored: null unless it counts as true. -/
def storedSlug (ops : ScriptValues K V) (slug : V) : V := if ops.truthy slug then slug else ops.null

/-- A step slug that is null or counts as true. -/
def KeptSlug (ops : ScriptValues K V) (slug : V) : Prop := ops.truthy slug = true ∨ slug = ops.null

omit [DecidableEq K] in
theorem storedSlug_eq_iff (slug : V) : storedSlug ops slug = slug ↔ KeptSlug ops slug := by
  unfold storedSlug KeptSlug
  split
  · next h => exact ⟨fun _ => .inl h, fun _ => rfl⟩
  · next h => exact ⟨fun heq => .inr heq.symm, fun hor => (hor.resolve_left h).symm⟩

section Fields

variable {fields : List (String × V)} {name : String}

/-- A required text that was written. -/
theorem requiredText_record (hnodup : (fields.map Prod.fst).Nodup) {t : String}
    (h : (name, ops.text t) ∈ fields) : requiredText ops (ops.record fields) name = some t := by
  simp [requiredText, ops.get?_record hnodup h]

/-- A field that was written. -/
theorem field_record (hnodup : (fields.map Prod.fst).Nodup) {v : V} (h : (name, v) ∈ fields) :
    ops.field (ops.record fields) name = v := by
  simp [ScriptValues.field, ops.get?_record hnodup h]

/-- A step that was written, and not under its older name. -/
theorem stepSlug_record (hnodup : (fields.map Prod.fst).Nodup) {slug : V}
    (h : ("current_step_slug", slug) ∈ fields) (hnot : "wizard_step_slug" ∉ fields.map Prod.fst) :
    stepSlug ops (ops.record fields) = storedSlug ops slug := by
  have hnames : (fields.map (Prod.map id some)).map Prod.fst = fields.map (Prod.fst : _ × V → _) := by
    simp [Function.comp_def]
  rw [stepSlug, field_record hnodup h, ScriptValues.record,
    ops.field_recordSome_of_not_mem (hnames ▸ hnot)]
  rfl

end Fields

/-- A status entry comes back. -/
theorem statusEntry_fromDict_toDict (e : StatusHistoryEntry K V) :
    StatusHistoryEntry.fromDict ops (e.toDict ops) = some e := by
  have hnodup : ((e.written ops).map Prod.fst).Nodup := by
    change ["status", "recorded_at", "detail"].Nodup
    decide
  have hmem : ∀ i {f}, (e.written ops)[i]? = some f → f ∈ e.written ops :=
    fun _ _ => List.mem_of_getElem?
  rw [StatusHistoryEntry.fromDict, StatusHistoryEntry.toDict,
    requiredText_record hnodup (hmem 0 rfl), requiredText_record hnodup (hmem 1 rfl),
    field_record hnodup (hmem 2 rfl), ScriptValues.dictOrEmpty_dict]
  rfl

/-- A snapshot after it was stored. -/
def StateSnapshot.stored (ops : ScriptValues K V) (s : StateSnapshot K V) : StateSnapshot K V :=
  { s with currentStepSlug := storedSlug ops s.currentStepSlug }

/-- A snapshot comes back, with its step as it is stored. -/
theorem stateSnapshot_fromDict_toDict (s : StateSnapshot K V) :
    StateSnapshot.fromDict ops (s.toDict ops) = some (s.stored ops) := by
  have hnodup : ((s.written ops).map Prod.fst).Nodup := by
    change ["status", "recorded_at", "state_snapshot", "job_id", "current_step_slug",
      "runtime_position", "detail"].Nodup
    decide
  have hstep : "wizard_step_slug" ∉ (s.written ops).map Prod.fst := by
    change _ ∉ ["status", "recorded_at", "state_snapshot", "job_id", "current_step_slug",
      "runtime_position", "detail"]
    decide
  have hmem : ∀ i {f}, (s.written ops)[i]? = some f → f ∈ s.written ops :=
    fun _ _ => List.mem_of_getElem?
  rw [StateSnapshot.fromDict, StateSnapshot.toDict, requiredText_record hnodup (hmem 0 rfl),
    requiredText_record hnodup (hmem 1 rfl), field_record hnodup (hmem 2 rfl),
    requiredText_record hnodup (hmem 3 rfl), field_record hnodup (hmem 5 rfl),
    field_record hnodup (hmem 6 rfl), stepSlug_record hnodup (hmem 4 rfl) hstep]
  simp only [ScriptValues.dictOrEmpty_dict]
  rfl

omit [DecidableEq K] in
/-- A list of dictionaries comes back. -/
theorem dictsOf_list (l : List (Dict K V)) : dictsOf ops (ops.list (l.map ops.dict)) = some l := by
  cases l with
  | nil => simp [dictsOf]
  | cons d rest => simp [dictsOf, List.filterMap_map, Function.comp_def]

omit [DecidableEq K] in
/-- An optional integer comes back. -/
theorem optIntOf_optInt (n : Option ℤ) : optIntOf ops (optInt ops n) = some n := by
  cases n <;> simp [optIntOf, optInt]

namespace ProcessInstance

/-- An instance after it was stored. -/
def stored (ops : ScriptValues K V) (p : ProcessInstance K V) : ProcessInstance K V :=
  { p with
    sessionId := storedSession ops (ops.optText p.sessionId) p.metadata
    stateSnapshots := p.stateSnapshots.map (StateSnapshot.stored ops)
    currentStepSlug := storedSlug ops p.currentStepSlug }

/-- The names of the written fields. -/
theorem names_written (p : ProcessInstance K V) : (p.written ops).map Prod.fst =
    ["version", "kind", "instance_id", "job_id", "status", "state_snapshot", "flow_definition",
      "pattern", "flow_id", "flow_revision", "flow_name", "process_id", "process_name",
      "session_id", "metadata", "version_number", "status_history", "state_snapshots", "created_at",
      "updated_at", "current_step_slug", "runtime_position", "state_meta"] := rfl

/-- An instance comes back as it is stored. -/
theorem fromDict_toDict (p : ProcessInstance K V) (now : String) :
    fromDict ops now (p.toDict ops) = some (p.stored ops) := by
  have hnodup : ((p.written ops).map Prod.fst).Nodup := names_written p ▸ by decide
  have hstep : "wizard_step_slug" ∉ (p.written ops).map Prod.fst := names_written p ▸ by decide
  have hmem : ∀ i {f}, (p.written ops)[i]? = some f → f ∈ p.written ops :=
    fun _ _ => List.mem_of_getElem?
  have hhistory : dictsOf ops (ops.field (p.toDict ops) "status_history") =
      some (p.statusHistory.map (StatusHistoryEntry.toDict ops)) := by
    rw [toDict, field_record hnodup (hmem 16 rfl)]
    simpa only [List.map_map, Function.comp_def] using
      dictsOf_list (p.statusHistory.map (StatusHistoryEntry.toDict ops))
  have hsnapshots : dictsOf ops (ops.field (p.toDict ops) "state_snapshots") =
      some (p.stateSnapshots.map (StateSnapshot.toDict ops)) := by
    rw [toDict, field_record hnodup (hmem 17 rfl)]
    simpa only [List.map_map, Function.comp_def] using
      dictsOf_list (p.stateSnapshots.map (StateSnapshot.toDict ops))
  have hentries : (p.statusHistory.map (StatusHistoryEntry.toDict ops)).mapM
      (StatusHistoryEntry.fromDict ops) = some p.statusHistory := by
    simpa using option_mapM_map (h := id) fun e (_ : e ∈ p.statusHistory) =>
      @statusEntry_fromDict_toDict K V _ ops e
  have hrings : (p.stateSnapshots.map (StateSnapshot.toDict ops)).mapM (StateSnapshot.fromDict ops) =
      some (p.stateSnapshots.map (StateSnapshot.stored ops)) :=
    option_mapM_map fun s _ => stateSnapshot_fromDict_toDict s
  have hversion : versionOf ops (p.toDict ops) = some p.version := by
    simp [versionOf, toDict, ops.get?_record hnodup (hmem 15 rfl)]
  rw [fromDict, hhistory, hsnapshots, hversion]
  simp only [Option.bind_eq_bind, Option.bind_some, hentries, hrings]
  rw [toDict, field_record hnodup (hmem 14 rfl), requiredText_record hnodup (hmem 2 rfl),
    requiredText_record hnodup (hmem 3 rfl), requiredText_record hnodup (hmem 4 rfl),
    field_record hnodup (hmem 5 rfl), field_record hnodup (hmem 6 rfl),
    field_record hnodup (hmem 9 rfl), optIntOf_optInt, field_record hnodup (hmem 21 rfl),
    field_record hnodup (hmem 22 rfl), textOr, requiredText_record hnodup (hmem 7 rfl),
    field_record hnodup (hmem 8 rfl), field_record hnodup (hmem 10 rfl),
    field_record hnodup (hmem 11 rfl), field_record hnodup (hmem 12 rfl),
    field_record hnodup (hmem 13 rfl), textOr, requiredText_record hnodup (hmem 18 rfl),
    textOr, requiredText_record hnodup (hmem 19 rfl), stepSlug_record hnodup (hmem 20 rfl) hstep]
  simp only [ScriptValues.dictOrEmpty_dict]
  rfl

/-- The session is the one that is read back. -/
def SessionKept (ops : ScriptValues K V) (p : ProcessInstance K V) : Prop :=
  storedSession ops (ops.optText p.sessionId) p.metadata = p.sessionId

/-- The steps of the instance and of its snapshots are null or count as true. -/
def StepsKept (ops : ScriptValues K V) (p : ProcessInstance K V) : Prop :=
  KeptSlug ops p.currentStepSlug ∧ ∀ s ∈ p.stateSnapshots, KeptSlug ops s.currentStepSlug

/-- An instance comes back exactly if its session and its steps are kept. -/
theorem fromDict_toDict_eq_iff (p : ProcessInstance K V) (now : String) :
    fromDict ops now (p.toDict ops) = some p ↔ p.SessionKept ops ∧ p.StepsKept ops := by
  rw [fromDict_toDict, Option.some_inj]
  constructor
  · intro h
    refine ⟨congrArg ProcessInstance.sessionId h, ?_, fun s hs => ?_⟩
    · exact (storedSlug_eq_iff _).mp (congrArg ProcessInstance.currentStepSlug h)
    · have hring : p.stateSnapshots.map (StateSnapshot.stored ops) = p.stateSnapshots.map id :=
        (congrArg ProcessInstance.stateSnapshots h).trans (List.map_id _).symm
      have hself := List.map_inj_left.mp hring s hs
      exact (storedSlug_eq_iff _).mp (congrArg StateSnapshot.currentStepSlug hself)
  · rintro ⟨hsession, hslug, hsnapshots⟩
    have hring : p.stateSnapshots.map (StateSnapshot.stored ops) = p.stateSnapshots := by
      refine (List.map_congr_left fun s hs => ?_).trans (List.map_id _)
      rw [StateSnapshot.stored, (storedSlug_eq_iff _).mpr (hsnapshots s hs)]
      rfl
    rw [stored, hsession, hring, (storedSlug_eq_iff _).mpr hslug]

end ProcessInstance

section Runs

/-- A change of an instance: a later state of its job, a status, or a snapshot. -/
inductive InstanceCall (K V : Type) where
  | update (job : Job K V) (now : String)
  | appendStatus (status : String) (detail : List (String × V)) (now : String)
  | appendStateSnapshot (snapshot : StateSnapshot K V) (now : String)

/-- The snapshot that a call appends. -/
def InstanceCall.snapshot? : InstanceCall K V → Option (StateSnapshot K V)
  | .appendStateSnapshot snapshot _ => some snapshot
  | .update _ _ | .appendStatus _ _ _ => none

namespace ProcessInstance

/-- Execute a call, with the limit of the ring. -/
def call (ops : ScriptValues K V) (maxSnapshots : ℤ) (p : ProcessInstance K V) :
    InstanceCall K V → ProcessInstance K V
  | .update job now => p.updateFromJob ops job now
  | .appendStatus status detail now => p.appendStatus ops now status detail
  | .appendStateSnapshot snapshot now => p.appendStateSnapshot snapshot maxSnapshots now

/-- The instance that calls in any order lead to. -/
def reached (ops : ScriptValues K V) (maxSnapshots : ℤ) (p : ProcessInstance K V)
    (calls : List (InstanceCall K V)) : ProcessInstance K V :=
  calls.foldl (call ops maxSnapshots) p

end ProcessInstance

omit [DecidableEq K] in
/-- A session that was made of a value is read back from its text. -/
theorem sessionOf_text_of_eq {v : V} {sid : String} (h : sessionOf ops v = some sid) :
    sessionOf ops (ops.text sid) = some sid := by
  obtain ⟨hstripped, hne⟩ := Option.filter_eq_some_iff.mp h
  obtain ⟨t, -, rfl⟩ := Option.map_eq_some_iff.mp hstripped
  simp only [sessionOf, ScriptValues.strIfPresent_text, Option.map_some, strip_strip]
  exact Option.filter_eq_some_iff.mpr ⟨rfl, hne⟩

/-- A session that the metadata name, or else an earlier one that is kept, is kept. -/
theorem sessionKept_or {metadata old : Dict K V} {session : Option String}
    (h : storedSession ops (ops.optText session) old = session) :
    storedSession ops (ops.optText ((sessionIdFromJobMetadata ops metadata).or session)) metadata =
      (sessionIdFromJobMetadata ops metadata).or session := by
  cases hmeta : sessionIdFromJobMetadata ops metadata with
  | some sid =>
    simpa [storedSession, ScriptValues.optText] using sessionOf_text_of_eq hmeta
  | none =>
    cases session with
    | none => simpa [storedSession, ScriptValues.optText] using hmeta
    | some sid => simpa [storedSession, ScriptValues.optText] using h

/-- Metadata have their session under its key. -/
theorem withSession_eq (metadata : Dict K V) :
    withSession ops metadata (sessionIdFromJobMetadata ops metadata) = metadata := by
  cases h : sessionIdFromJobMetadata ops metadata with
  | none => rfl
  | some sid =>
    cases hget : metadata.get? (ops.key "session_id") with
    | none => simp [sessionIdFromJobMetadata, sessionOf, ScriptValues.field, hget] at h
    | some v => simp [withSession, Dict.setDefault, hget]

namespace ProcessInstance

variable {p : ProcessInstance K V} {maxSnapshots : ℤ}

/-- A record keeps its session from the beginning. -/
theorem sessionKept_buildInstanceFromJob (job : Job K V) (flow : Flow K V) (args : NewInstance) :
    (buildInstanceFromJob ops job flow args).SessionKept ops := by
  rw [SessionKept, buildInstanceFromJob]
  dsimp only
  rw [withSession_eq]
  have hnone : storedSession ops (ops.optText none) (.empty : Dict K V) = none := by
    simp [storedSession, ScriptValues.optText, sessionIdFromJobMetadata, sessionOf,
      ScriptValues.field]
  have hkept := @sessionKept_or K V _ ops job.metadata .empty none hnone
  rwa [Option.or_none] at hkept

/-- A record keeps its session while it follows its job. -/
theorem SessionKept.updateFromJob (h : p.SessionKept ops) (job : Job K V) (now : String) :
    (p.updateFromJob ops job now).SessionKept ops := by
  have hkept := @sessionKept_or K V _ ops
    (preserveMigrationMetadata ops p.metadata job.metadata) p.metadata p.sessionId h
  unfold ProcessInstance.updateFromJob
  dsimp only
  rw [withSession_eq]
  split <;> exact hkept

/-- A record keeps its session. -/
theorem SessionKept.call (h : p.SessionKept ops) (c : InstanceCall K V) :
    (p.call ops maxSnapshots c).SessionKept ops := by
  cases c with
  | update job now => exact h.updateFromJob job now
  | appendStatus status detail now => exact h
  | appendStateSnapshot snapshot now => exact h

/-- A call appends its snapshot to the ring, if it has one, and keeps the last ones. -/
theorem stateSnapshots_call (ops : ScriptValues K V)
    (hlength : p.stateSnapshots.length ≤ (max 1 maxSnapshots).toNat)
    (c : InstanceCall K V) :
    (p.call ops maxSnapshots c).stateSnapshots =
      (p.stateSnapshots ++ c.snapshot?.toList).rtake (max 1 maxSnapshots).toNat := by
  have hall : p.stateSnapshots.rtake (max 1 maxSnapshots).toNat = p.stateSnapshots := by
    rw [List.rtake, Nat.sub_eq_zero_of_le hlength, List.drop_zero]
  cases c with
  | update job now =>
    have hsame : (p.updateFromJob ops job now).stateSnapshots = p.stateSnapshots := by
      unfold ProcessInstance.updateFromJob
      dsimp only
      split <;> rfl
    simpa [InstanceCall.snapshot?, hall, call] using hsame
  | appendStatus status detail now => simp [InstanceCall.snapshot?, hall, call, appendStatus]
  | appendStateSnapshot snapshot now =>
    simp only [call, appendStateSnapshot, InstanceCall.snapshot?, Option.toList_some]
    split
    · rfl
    · next h => rw [List.rtake, Nat.sub_eq_zero_of_le (not_lt.mp h), List.drop_zero]

end ProcessInstance

/-- The last members of a list are those of its own last members and what follows. -/
theorem rtake_rtake_append {α : Type} (l l' : List α) (n : ℕ) :
    (l.rtake n ++ l').rtake n = (l ++ l').rtake n := by
  unfold List.rtake
  rw [← List.drop_append_of_le_length (Nat.sub_le l.length n), List.drop_drop]
  congr 1
  simp only [List.length_drop, List.length_append]
  omega

namespace ProcessInstance

/-- The ring of a record holds its last snapshots, in the order of the calls. -/
theorem stateSnapshots_reached {p : ProcessInstance K V} {maxSnapshots : ℤ}
    (hlength : p.stateSnapshots.length ≤ (max 1 maxSnapshots).toNat)
    (calls : List (InstanceCall K V)) : (p.reached ops maxSnapshots calls).stateSnapshots =
      (p.stateSnapshots ++ calls.filterMap InstanceCall.snapshot?).rtake
        (max 1 maxSnapshots).toNat := by
  induction calls generalizing p with
  | nil =>
    rw [List.filterMap_nil, List.append_nil, List.rtake, Nat.sub_eq_zero_of_le hlength]
    rfl
  | cons c rest ih =>
    have hcall := stateSnapshots_call ops hlength c
    have hnext : (p.call ops maxSnapshots c).stateSnapshots.length ≤ (max 1 maxSnapshots).toNat := by
      rw [hcall, List.rtake, List.length_drop]
      omega
    have hrest := ih hnext
    rw [hcall, rtake_rtake_append, List.append_assoc] at hrest
    rw [List.filterMap_cons]
    cases hsnapshot : c.snapshot? with
    | none => simpa [reached, hsnapshot] using hrest
    | some snapshot => simpa [reached, hsnapshot] using hrest

/-- A record keeps its session over all calls. -/
theorem SessionKept.reached {p : ProcessInstance K V} (h : p.SessionKept ops) (maxSnapshots : ℤ)
    (calls : List (InstanceCall K V)) : (p.reached ops maxSnapshots calls).SessionKept ops := by
  induction calls generalizing p with
  | nil => exact h
  | cons c rest ih => exact ih (h.call c)

/-- An instance that was built from a job and changed in any way comes back exactly if its steps
are kept, and its ring holds the last snapshots appended, one at least. -/
theorem reached_roundTrip (ops : ScriptValues K V) (job : Job K V) (flow : Flow K V)
    (args : NewInstance) (maxSnapshots : ℤ) (calls : List (InstanceCall K V)) (now : String) :
    let p := (buildInstanceFromJob ops job flow args).reached ops maxSnapshots calls
    (fromDict ops now (p.toDict ops) = some p ↔ p.StepsKept ops) ∧
      p.stateSnapshots =
        (calls.filterMap InstanceCall.snapshot?).rtake (max 1 maxSnapshots).toNat := by
  intro p
  have hsession : p.SessionKept ops :=
    (sessionKept_buildInstanceFromJob job flow args).reached maxSnapshots calls
  refine ⟨(fromDict_toDict_eq_iff p now).trans (and_iff_right hsession), ?_⟩
  exact (stateSnapshots_reached (Nat.zero_le _) calls).trans (by rw [buildInstanceFromJob]; rfl)

/-- A record of a job whose state holds the empty text as its step comes back without a step. -/
theorem reached_roundTrip_fails :
    ¬ ∀ (job : Job String Context.Value) (flow : Flow String Context.Value) (args : NewInstance)
        (maxSnapshots : ℤ) (calls : List (InstanceCall String Context.Value)) (now : String),
      let p := (buildInstanceFromJob Context.plainValues job flow args).reached Context.plainValues
        maxSnapshots calls
      fromDict Context.plainValues now (p.toDict Context.plainValues) = some p ∧
        p.stateSnapshots =
          (calls.filterMap InstanceCall.snapshot?).rtake maxSnapshots.toNat := by
  intro h
  have hroundTrip := (h
    { id := "job-1"
      status := "RUNNING"
      metadata := .empty
      stateSnapshot := Context.entriesDict [("__wizard__.current_step", .str "")]
      stateMeta := .empty
      fields := fun _ => some (.str "", .empty) }
    { name := "onboard", pattern := "wizard", definitionId := "onboard", revision := none,
      document := .empty }
    { now := "2026-01-01T00:00:00+00:00" } 10 [] "").1
  rw [fromDict_toDict] at hroundTrip
  have hslug : Context.Value.null = .str "" :=
    congrArg currentStepSlug (Option.some.inj hroundTrip)
  cases hslug

end ProcessInstance

end Runs

end PalmEngine.Persistence.Stored
