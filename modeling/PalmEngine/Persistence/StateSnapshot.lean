import PalmEngine.Context.State

/-!
# Snapshots of blackboard states

A snapshot is the data of a state with one more entry, which holds the documents of its schemas and
its scope stack. Restoring takes the entry out and builds the schemas and the stack from it. How a
name in a stack that is not a text is shown is left open; a snapshot holds none.
-/

namespace PalmEngine.Persistence

open PalmEngine.Lib PalmEngine.Context

/-- The key of the entry. -/
def snapshotMetaKey : String := "__palm:meta"

/-- The documents of the schemas of the scopes that have one. -/
def scopeSchemaDocuments (schemas : Dict String StateSchema) : List (String × Value) :=
  schemas.entries.filterMap fun e => e.2.definition.map fun document => (e.1, .dict document)

/-- The entry for the schemas, the scope stack and the schemas of the scopes. -/
def snapshotMeta (s : BlackboardState) : Dict String Value :=
  let entry := Dict.empty.setSome "schema" ((s.schema.bind StateSchema.definition).map .dict)
  let entry := entry.setSome "scope_stack"
    (if s.scopeStack = [] then none else some (.list (s.scopeStack.map .str)))
  let entry := entry.setSome "current_scope" (s.currentScope.map .str)
  let entry := entry.setSome "scope_depth"
    (if s.scopeStack.length = 0 then none else some (.int s.scopeStack.length))
  let entry := entry.setSome "scope_schemas"
    (if scopeSchemaDocuments s.scopeSchemas = [] then none
      else some (.dict (scopeSchemaDocuments s.scopeSchemas)))
  entry.setSome "effective_schema"
    ((s.effectiveSchema.bind StateSchema.definition).map .dict)

/-- The snapshot of a state. -/
def snapshotState (s : BlackboardState) : Dict String Value :=
  if (snapshotMeta s).entries = [] then s.data
  else s.data.set snapshotMetaKey (.dict (snapshotMeta s).entries)

/-- The schema of a document, nothing for another value. -/
def schemaOf : Value → Option StateSchema
  | .dict document => some (.dict document)
  | _ => none

/-- The schemas of the documents among the entries. -/
def scopeSchemasOf (entries : List (String × Value)) : Dict String StateSchema :=
  entries.foldl (fun schemas e => schemas.setSome e.1 (schemaOf e.2)) .empty

/-- The schema of the state and those of its scopes. -/
def schemasFromMeta : Option Value → Option StateSchema × Dict String StateSchema
  | some (.dict entry) =>
    ((valueOf? "schema" entry).bind schemaOf,
      match valueOf? "scope_schemas" entry with
      | some (.dict schemas) => scopeSchemasOf schemas
      | _ => .empty)
  | _ => (none, .empty)

/-- The scope stack to restore, if any. -/
def scopeStackFromMeta (shown : Value → String) : Option Value → Option (List String)
  | some (.dict entry) =>
    match valueOf? "scope_stack" entry with
    | some (.list (name :: names)) => some ((name :: names).map (textOf shown))
    | _ =>
      match valueOf? "current_scope" entry with
      | none | some .null => none
      | some scope => some [textOf shown scope]
  | _ => none

/-- The state of a snapshot. -/
def stateFromSnapshot (shown : Value → String) (data : Dict String Value) : BlackboardState :=
  let entry := data.get? snapshotMetaKey
  let schemas := schemasFromMeta entry
  let s : BlackboardState := { data := data.erase snapshotMetaKey, schema := schemas.1 }
  let s := if schemas.2.entries = [] then s else s.restoreScopeSchemas schemas.2
  (scopeStackFromMeta shown entry).elim s s.restoreScopeStack

variable {s : BlackboardState}

/-- The documents of a state are found in its entry. -/
theorem get?_snapshotMeta :
    (snapshotMeta s).get? "schema" = (s.schema.bind StateSchema.definition).map .dict ∧
    (snapshotMeta s).get? "scope_stack" =
      (if s.scopeStack = [] then none else some (.list (s.scopeStack.map .str))) ∧
    (snapshotMeta s).get? "current_scope" = s.currentScope.map .str ∧
    (snapshotMeta s).get? "scope_schemas" =
      (if scopeSchemaDocuments s.scopeSchemas = [] then none
        else some (.dict (scopeSchemaDocuments s.scopeSchemas))) := by
  refine ⟨?_, ?_, ?_, ?_⟩ <;>
    simp (disch := decide) only [snapshotMeta, Dict.get?_setSome_ne, Dict.get?_setSome_self,
      Dict.get?_empty, Option.or_none]

/-- The dictionary of an entry that a snapshot holds, if it holds one. -/
theorem get?_snapshotState (h : snapshotMetaKey ∉ s.data.keys) :
    (snapshotState s).get? snapshotMetaKey =
      (if (snapshotMeta s).entries = [] then none else some (.dict (snapshotMeta s).entries)) ∧
    (snapshotState s).erase snapshotMetaKey = s.data := by
  unfold snapshotState
  split
  · refine ⟨?_, Dict.erase_of_not_mem h⟩
    by_contra hne
    obtain ⟨v, hv⟩ := Option.ne_none_iff_exists'.mp hne
    exact h ((Dict.mem_keys_iff _ _).mpr ⟨v, hv⟩)
  · exact ⟨Dict.get?_set_self _ _ _, Dict.erase_set_of_not_mem h _⟩

/-- The entries of schemas that are new, added one after another. -/
private theorem entries_foldl_setSome (entries : List (String × StateSchema))
    (schemas : Dict String StateSchema) (hnew : ∀ e ∈ entries, e.1 ∉ schemas.keys)
    (hnodup : (entries.map Prod.fst).Nodup) :
    ((entries.filterMap fun e => e.2.definition.map fun document =>
        (e.1, Value.dict document)).foldl
      (fun schemas e => schemas.setSome e.1 (schemaOf e.2)) schemas).entries =
      schemas.entries ++ entries.filterMap fun e => e.2.definition.map fun document =>
        (e.1, StateSchema.dict document) := by
  induction entries generalizing schemas with
  | nil => simp
  | cons e rest ih =>
    rw [List.map_cons, List.nodup_cons] at hnodup
    have hrest : ∀ e' ∈ rest, e'.1 ∉ schemas.keys :=
      fun e' he' => hnew e' (List.mem_cons_of_mem _ he')
    cases hdefinition : e.2.definition with
    | none => simpa [hdefinition] using ih schemas hrest hnodup.2
    | some document =>
      have hset : (schemas.set e.1 (.dict document)).entries =
          schemas.entries ++ [(e.1, .dict document)] :=
        Dict.entries_set_of_not_mem (hnew e List.mem_cons_self) _
      have hnew' : ∀ e' ∈ rest, e'.1 ∉ (schemas.set e.1 (.dict document)).keys := by
        intro e' he' hmem
        rcases (Dict.mem_keys_set _ _ _ _).mp hmem with heq | hmem
        · exact hnodup.1 (heq ▸ List.mem_map_of_mem he')
        · exact hrest e' he' hmem
      have hfold := ih (schemas.set e.1 (.dict document)) hnew' hnodup.2
      rw [hset] at hfold
      simpa [hdefinition, schemaOf, Dict.setSome] using hfold

/-- The schemas built from the documents of the schemas of the scopes. -/
theorem entries_scopeSchemasOf (schemas : Dict String StateSchema) :
    (scopeSchemasOf (scopeSchemaDocuments schemas)).entries =
      schemas.entries.filterMap fun e => e.2.definition.map fun document =>
        (e.1, StateSchema.dict document) := by
  have hfold := entries_foldl_setSome schemas.entries .empty
    (fun _ _ h => absurd h List.not_mem_nil) schemas.nodup
  simpa [scopeSchemasOf, scopeSchemaDocuments, Dict.empty] using hfold

/-- The value of a key of the entry of a snapshot, whether there is such an entry or not. -/
theorem schemasFromMeta_snapshotState (h : snapshotMetaKey ∉ s.data.keys) :
    (schemasFromMeta ((snapshotState s).get? snapshotMetaKey)).1 =
        (s.schema.bind StateSchema.definition).map .dict ∧
      (schemasFromMeta ((snapshotState s).get? snapshotMetaKey)).2.entries =
        s.scopeSchemas.entries.filterMap fun e => e.2.definition.map fun document =>
          (e.1, StateSchema.dict document) := by
  obtain ⟨hschema, -, -, hschemas⟩ := get?_snapshotMeta (s := s)
  have hdocuments : scopeSchemaDocuments s.scopeSchemas = [] →
      (s.scopeSchemas.entries.filterMap fun e => e.2.definition.map fun document =>
        (e.1, StateSchema.dict document)) = [] := by
    intro hnil
    rw [← entries_scopeSchemasOf, hnil]
    rfl
  rw [(get?_snapshotState h).1]
  split
  · rename_i hnil
    have hnone (k : String) : (snapshotMeta s).get? k = none := by rw [Dict.get?, hnil]; rfl
    rw [hnone] at hschema hschemas
    refine ⟨?_, ?_⟩
    · have hnone' := Option.map_eq_none_iff.mp hschema.symm
      rw [hnone']
      rfl
    · by_cases hdocs : scopeSchemaDocuments s.scopeSchemas = []
      · rw [hdocuments hdocs]
        rfl
      · rw [if_neg hdocs] at hschemas
        cases hschemas
  · refine ⟨?_, ?_⟩
    · change ((snapshotMeta s).get? "schema").bind schemaOf = _
      rw [hschema]
      cases s.schema.bind StateSchema.definition <;> rfl
    · change (match (snapshotMeta s).get? "scope_schemas" with
        | some (.dict schemas) => scopeSchemasOf schemas
        | _ => Dict.empty).entries = _
      rw [hschemas]
      by_cases hdocs : scopeSchemaDocuments s.scopeSchemas = []
      · rw [if_pos hdocs, hdocuments hdocs]
        rfl
      · rw [if_neg hdocs]
        exact entries_scopeSchemasOf s.scopeSchemas

/-- The scope stack that a snapshot restores: that of the state, unless it is empty. -/
theorem scopeStackFromMeta_snapshotState (shown : Value → String)
    (h : snapshotMetaKey ∉ s.data.keys) :
    scopeStackFromMeta shown ((snapshotState s).get? snapshotMetaKey) =
      if s.scopeStack = [] then none else some s.scopeStack := by
  obtain ⟨-, hstack, hscope, -⟩ := get?_snapshotMeta (s := s)
  rw [(get?_snapshotState h).1]
  split
  · rename_i hnil
    have hnone (k : String) : (snapshotMeta s).get? k = none := by rw [Dict.get?, hnil]; rfl
    rw [hnone] at hstack
    by_cases hempty : s.scopeStack = []
    · rw [if_pos hempty]
      rfl
    · rw [if_neg hempty] at hstack
      cases hstack
  · have hentry (k : String) : valueOf? k (snapshotMeta s).entries = (snapshotMeta s).get? k := rfl
    simp only [scopeStackFromMeta, hentry, hstack, hscope]
    cases hempty : s.scopeStack with
    | nil => simp [BlackboardState.currentScope, hempty]
    | cons name names =>
      have htext (names : List String) : (names.map Value.str).map (textOf shown) = names := by
        rw [List.map_map]
        exact List.map_id'' (fun _ => rfl) names
      simpa [textOf] using htext names

/-- A document is restored as it is. -/
theorem document_of_isDocument {schema : StateSchema} (h : schema.IsDocument) :
    schema.definition.map StateSchema.dict = some schema := by
  obtain ⟨document, rfl⟩ := h
  rfl

/-- Restoring the snapshot of a state gives its data and its scope stack, and for each of its
schemas the document of that schema, if it has one. If all its schemas are documents, it gives the
schemas, and the state. -/
theorem stateFromSnapshot_snapshotState (shown : Value → String) {s : BlackboardState}
    (h : snapshotMetaKey ∉ s.data.keys) :
    (stateFromSnapshot shown (snapshotState s)).data = s.data ∧
    (stateFromSnapshot shown (snapshotState s)).scopeStack = s.scopeStack ∧
    (stateFromSnapshot shown (snapshotState s)).schema =
      (s.schema.bind StateSchema.definition).map .dict ∧
    (stateFromSnapshot shown (snapshotState s)).scopeSchemas.entries =
      (s.scopeSchemas.entries.filterMap fun e => e.2.definition.map fun document =>
        (e.1, StateSchema.dict document)) ∧
    ((∀ schema ∈ s.schema, schema.IsDocument) →
      (∀ e ∈ s.scopeSchemas.entries, e.2.IsDocument) →
      (stateFromSnapshot shown (snapshotState s)).schema = s.schema ∧
      (stateFromSnapshot shown (snapshotState s)).scopeSchemas = s.scopeSchemas ∧
      (stateFromSnapshot shown (snapshotState s)).effectiveSchema = s.effectiveSchema ∧
      stateFromSnapshot shown (snapshotState s) = s) := by
  have hdata := (get?_snapshotState h).2
  obtain ⟨hschema, hschemas⟩ := schemasFromMeta_snapshotState h
  have hstack := scopeStackFromMeta_snapshotState shown h
  have hstate : stateFromSnapshot shown (snapshotState s) =
      { data := s.data
        schema := (s.schema.bind StateSchema.definition).map .dict
        scopeStack := s.scopeStack
        scopeSchemas := (schemasFromMeta ((snapshotState s).get? snapshotMetaKey)).2 } := by
    simp only [stateFromSnapshot, hdata, hschema, hstack]
    by_cases hnil : (schemasFromMeta ((snapshotState s).get? snapshotMetaKey)).2.entries = []
    · have hempty : (schemasFromMeta ((snapshotState s).get? snapshotMetaKey)).2 = Dict.empty :=
        Dict.eq_of_entries hnil
      rw [if_pos hnil, hempty]
      by_cases hroot : s.scopeStack = [] <;> simp [hroot, BlackboardState.restoreScopeStack]
    · rw [if_neg hnil]
      by_cases hroot : s.scopeStack = [] <;>
        simp [hroot, BlackboardState.restoreScopeStack, BlackboardState.restoreScopeSchemas]
  replace hdata := congrArg BlackboardState.data hstate
  replace hstack := congrArg BlackboardState.scopeStack hstate
  replace hschema := congrArg BlackboardState.schema hstate
  have hscopes := congrArg BlackboardState.scopeSchemas hstate
  refine ⟨hdata, hstack, hschema, hscopes ▸ hschemas, fun hdocument hdocuments => ?_⟩
  have hschema' : (stateFromSnapshot shown (snapshotState s)).schema = s.schema := by
    rw [hschema]
    cases hs : s.schema with
    | none => rfl
    | some schema => exact document_of_isDocument (hdocument schema hs)
  have hscopes' : (stateFromSnapshot shown (snapshotState s)).scopeSchemas = s.scopeSchemas := by
    refine Dict.eq_of_entries ?_
    rw [hscopes, hschemas]
    refine (List.filterMap_congr fun e he => ?_).trans List.filterMap_some
    obtain ⟨document, hdocument⟩ := hdocuments e he
    rw [hdocument]
    exact congrArg some (Prod.ext rfl hdocument.symm)
  have hsame : stateFromSnapshot shown (snapshotState s) = s := by
    cases hr : stateFromSnapshot shown (snapshotState s)
    rw [hr] at hdata hstack hschema' hscopes'
    cases s
    cases hdata
    cases hstack
    cases hschema'
    cases hscopes'
    rfl
  exact ⟨hschema', hscopes', congrArg BlackboardState.effectiveSchema hsame, hsame⟩

/-- A state in two scopes of the same name, with a schema for it and one for the root. -/
def nestedState : BlackboardState where
  data := Dict.empty.set "answer" (.int 42)
  schema := some (.dict [("type", .str "object")])
  scopeStack := ["step", "step"]
  scopeSchemas := Dict.empty.set "step" (.dict [])

/-- The snapshot of that state restores it. -/
theorem stateFromSnapshot_snapshotState_nestedState :
    stateFromSnapshot (fun _ => "") (snapshotState nestedState) = nestedState := by
  have hmeta : snapshotMetaKey ∉ nestedState.data.keys := by decide
  refine ((stateFromSnapshot_snapshotState (fun _ => "") hmeta).2.2.2.2 ?_ ?_).2.2.2
  · rintro schema hschema
    exact ⟨_, (Option.some.inj hschema).symm⟩
  · intro e he
    obtain rfl := List.mem_singleton.mp he
    exact ⟨[], rfl⟩

/-- A schema without a document is not restored. -/
theorem stateFromSnapshot_snapshotState_fails : ¬ ∀ (shown : Value → String) (s : BlackboardState),
    snapshotMetaKey ∉ s.data.keys →
      (stateFromSnapshot shown (snapshotState s)).schema = s.schema := by
  intro h
  have hschema := h (fun _ => "") { schema := some (.other 0 none) } (by decide)
  exact absurd hschema (by rintro ⟨⟩)

end PalmEngine.Persistence
