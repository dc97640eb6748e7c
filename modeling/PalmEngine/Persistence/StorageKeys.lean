import PalmEngine.Persistence.DeletionComplete

/-!
# The storage keys of definitions

The documents that the repository writes are the revisions of a flow, its latest pointer and its
list of revision numbers, the definitions of the other kinds, and for each kind the list of its
ids. Their keys are put together from the key prefix, the kind, an id and what follows it. No
kind contains a colon, and what follows the id of a flow ends in a word or a number, so that a
key can be read in one way only, whatever the id contains.
-/

namespace PalmEngine.Persistence

open PalmEngine.Lib

/-- The kinds of definitions that are stored without revisions. -/
inductive RecordKind where
  | process
  | stateSchema
  | resource
  deriving DecidableEq

/-- The name of a kind in the keys. -/
def RecordKind.text : RecordKind → String
  | .process => "process"
  | .stateSchema => "state_schema"
  | .resource => "resource"

/-- A document that the repository can write. -/
inductive StoredDocument where
  | revision (flowId : String) (n : ℕ)
  | latest (flowId : String)
  | revisions (flowId : String)
  | flowIndex
  | definition (kind : RecordKind) (definitionId : String)
  | index (kind : RecordKind)
  deriving DecidableEq

namespace StoredDocument

/-- The kind and the id of the definition that a document is about; a list of ids is about no
single one. -/
def owner : StoredDocument → Option (String × String)
  | .revision flowId _ | .latest flowId | .revisions flowId => some ("flow", flowId)
  | .definition kind definitionId => some (kind.text, definitionId)
  | .flowIndex | .index _ => none

/-- The first part of the key of a document. -/
def kind : StoredDocument → String
  | .revision _ _ | .latest _ | .revisions _ => "flow"
  | .definition kind _ => kind.text
  | .flowIndex | .index _ => "index"

/-- The second part of the key of a document. -/
def rest : StoredDocument → String
  | .revision flowId n => flowId ++ ":rev:" ++ toString n
  | .latest flowId => flowId ++ ":latest"
  | .revisions flowId => flowId ++ ":revs"
  | .definition _ definitionId => definitionId
  | .flowIndex => "flow"
  | .index kind => kind.text

end StoredDocument

/-- The list of ids in which a definition is entered. -/
def Definition.index : Definition → StoredDocument
  | .flow _ => .flowIndex
  | .process _ => .index .process
  | .schema _ => .index .stateSchema
  | .resource _ => .index .resource

namespace Repository

/-- The storage key of a document. -/
def documentKey (r : Repository) : StoredDocument → String
  | .revision flowId n => r.flowRevisionKey flowId n
  | .latest flowId => r.flowLatestKey flowId
  | .revisions flowId => r.flowRevisionsIndexKey flowId
  | .flowIndex => r.indexKey "flow"
  | .definition kind definitionId => r.key kind.text definitionId
  | .index kind => r.indexKey kind.text

/-- The key of a document is that of its two parts. -/
theorem documentKey_eq_key (r : Repository) (d : StoredDocument) :
    r.documentKey d = r.key d.kind d.rest := by
  cases d with
  | revision flowId n => exact flowRevisionKey_eq_key r flowId n
  | latest flowId => exact flowLatestKey_eq_key r flowId
  | revisions flowId => exact flowRevisionsIndexKey_eq_key r flowId
  | flowIndex => exact indexKey_eq_key r "flow"
  | definition kind definitionId => rfl
  | index kind => exact indexKey_eq_key r kind.text

/-- No kind contains a colon. -/
theorem colon_notMem_kind (d : StoredDocument) : ':' ∉ d.kind.toList := by
  have hflow : ':' ∉ "flow".toList := by decide
  have hindex : ':' ∉ "index".toList := by decide
  have hrecord (kind : RecordKind) : ':' ∉ kind.text.toList := by cases kind <;> decide
  cases d with
  | revision | latest | revisions => exact hflow
  | definition kind definitionId => exact hrecord kind
  | flowIndex | index => exact hindex

/-- Kinds are told apart by their names. -/
theorem recordKind_text_inj {kind kind' : RecordKind} (h : kind.text = kind'.text) :
    kind = kind' := by
  cases kind <;> cases kind' <;> first
    | rfl
    | exact absurd h (by decide)

/-- The name of a kind is neither that of the flows nor that of the lists of ids. -/
theorem recordKind_text_ne (kind : RecordKind) : kind.text ≠ "flow" ∧ kind.text ≠ "index" := by
  cases kind <;> decide

/-- Documents of flows with the same key are the same. -/
theorem flowDocument_inj {r : Repository} {d d' : StoredDocument} (hd : d.kind = "flow")
    (hd' : d'.kind = "flow") (h : r.documentKey d = r.documentKey d') : d = d' := by
  have hindex : "index" ≠ "flow" := by decide
  cases d with
  | definition kind definitionId => exact absurd hd (recordKind_text_ne kind).1
  | flowIndex | index => exact absurd hd hindex
  | revision flowId n =>
    cases d' with
    | definition kind definitionId => exact absurd hd' (recordKind_text_ne kind).1
    | flowIndex | index => exact absurd hd' hindex
    | revision flowId' n' =>
      obtain ⟨rfl, rfl⟩ := flowRevisionKey_inj.mp h
      rfl
    | latest flowId' => exact absurd h (flowRevisionKey_ne r flowId flowId' n).1
    | revisions flowId' => exact absurd h (flowRevisionKey_ne r flowId flowId' n).2.1
  | latest flowId =>
    cases d' with
    | definition kind definitionId => exact absurd hd' (recordKind_text_ne kind).1
    | flowIndex | index => exact absurd hd' hindex
    | revision flowId' n => exact absurd h.symm (flowRevisionKey_ne r flowId' flowId n).1
    | latest flowId' => rw [flowLatestKey_inj.mp h]
    | revisions flowId' => exact absurd h (flowLatestKey_ne r flowId flowId').1
  | revisions flowId =>
    cases d' with
    | definition kind definitionId => exact absurd hd' (recordKind_text_ne kind).1
    | flowIndex | index => exact absurd hd' hindex
    | revision flowId' n => exact absurd h.symm (flowRevisionKey_ne r flowId' flowId n).2.1
    | latest flowId' => exact absurd h.symm (flowLatestKey_ne r flowId' flowId).1
    | revisions flowId' => rw [flowRevisionsIndexKey_inj.mp h]

/-- Documents of other kinds, and lists of ids, are known by the two parts of their keys. -/
theorem recordDocument_inj {d d' : StoredDocument} (hd : d.kind ≠ "flow")
    (hkind : d.kind = d'.kind) (hrest : d.rest = d'.rest) : d = d' := by
  cases d with
  | revision | latest | revisions => exact absurd rfl hd
  | definition kind definitionId =>
    cases d' with
    | revision | latest | revisions => exact absurd hkind (recordKind_text_ne kind).1
    | flowIndex | index => exact absurd hkind (recordKind_text_ne kind).2
    | definition kind' definitionId' => exact congr (congrArg _ (recordKind_text_inj hkind)) hrest
  | flowIndex =>
    cases d' with
    | revision | latest | revisions => exact absurd hkind.symm hd.symm
    | definition kind' definitionId' => exact absurd hkind.symm (recordKind_text_ne kind').2
    | flowIndex => rfl
    | index kind' => exact absurd hrest.symm (recordKind_text_ne kind').1
  | index kind =>
    cases d' with
    | revision | latest | revisions => exact absurd hkind.symm hd.symm
    | definition kind' definitionId' => exact absurd hkind.symm (recordKind_text_ne kind').2
    | flowIndex => exact absurd hrest (recordKind_text_ne kind).1
    | index kind' => exact congrArg _ (recordKind_text_inj hrest)

/-- The key of a document is that of no other one. -/
theorem documentKey_inj {r : Repository} {d d' : StoredDocument} :
    r.documentKey d = r.documentKey d' ↔ d = d' := by
  refine ⟨fun h => ?_, fun h => h ▸ rfl⟩
  have hparts := h
  rw [documentKey_eq_key, documentKey_eq_key,
    key_inj (colon_notMem_kind d) (colon_notMem_kind d')] at hparts
  by_cases hflow : d.kind = "flow"
  · exact flowDocument_inj hflow (hparts.1 ▸ hflow) h
  · exact recordDocument_inj hflow hparts.1 hparts.2

/-- What a call leaves of the storage: it writes some of the documents, and it may erase. -/
structure Writes (r : Repository) (documents : StoredDocument → Prop) (erases : Prop)
    (u : Repository) : Prop where
  keyPrefix_eq : u.keyPrefix = r.keyPrefix
  fetch_eq : ∀ k, u.fetch k = r.fetch k ∨ (erases ∧ u.fetch k = none) ∨
    ∃ d, documents d ∧ k = r.documentKey d

/-- The keys of the documents are the same under the same prefix. -/
theorem documentKey_congr {r u : Repository} (h : u.keyPrefix = r.keyPrefix) :
    u.documentKey = r.documentKey := by
  funext d
  rw [documentKey_eq_key, documentKey_eq_key, (keys_congr h).1]

variable {documents documents' : StoredDocument → Prop} {erases erases' : Prop}

theorem Writes.trans {r u v : Repository} (h : r.Writes documents erases u)
    (h' : u.Writes documents erases v) : r.Writes documents erases v where
  keyPrefix_eq := h'.keyPrefix_eq.trans h.keyPrefix_eq
  fetch_eq k := by
    rcases h'.fetch_eq k with hk | hk | ⟨d, hd, hk⟩
    · rcases h.fetch_eq k with hk' | ⟨herases, hk'⟩ | hk'
      · exact .inl (hk.trans hk')
      · exact .inr (.inl ⟨herases, hk.trans hk'⟩)
      · exact .inr (.inr hk')
    · exact .inr (.inl hk)
    · exact .inr (.inr ⟨d, hd, documentKey_congr h.keyPrefix_eq ▸ hk⟩)

theorem Writes.mono {r u : Repository} (h : r.Writes documents erases u)
    (hdocuments : ∀ d, documents d → documents' d) (herases : erases → erases') :
    r.Writes documents' erases' u where
  keyPrefix_eq := h.keyPrefix_eq
  fetch_eq k := (h.fetch_eq k).imp_right fun hk =>
    hk.imp (fun h => ⟨herases h.1, h.2⟩) fun ⟨d, hd, hkey⟩ => ⟨d, hdocuments d hd, hkey⟩

/-- A call that leaves the storage alone. -/
theorem Writes.of_storage {r u : Repository} (hstorage : u.storage = r.storage)
    (hbase : u.keyPrefix = r.keyPrefix) : r.Writes documents erases u :=
  ⟨hbase, fun k => .inl (by rw [fetch, fetch, hstorage])⟩

/-- A call that writes under the keys of documents. -/
theorem Writes.of_writesAt {r u : Repository} {keys : String → Prop} (h : r.WritesAt keys u)
    (hkeys : ∀ k, keys k → ∃ d, documents d ∧ k = r.documentKey d) :
    r.Writes documents erases u where
  keyPrefix_eq := h.keyPrefix_eq
  fetch_eq k := by
    by_cases hk : keys k
    · exact .inr (.inr (hkeys k hk))
    · exact .inl (h.fetch_eq k hk)

/-- Erasing writes no document. -/
theorem remove_writes (r : Repository) (k : String) : r.Writes documents True (r.remove k) :=
  ⟨rfl, fun i => by
    rw [fetch_remove]
    by_cases hi : i = k <;> simp [hi]⟩

/-- Storing a document. -/
theorem store_writes (r : Repository) {d : StoredDocument} (hd : documents d) {k : String}
    (hk : k = r.documentKey d) (value : StoredValue) :
    r.Writes documents erases (r.store k value) :=
  .of_writesAt (store_writesAt r k value) fun _ hi => ⟨d, hd, hi.trans hk⟩

/-- Persisting a revision writes documents of its flow, and the list of the flows. -/
theorem persistRevision_writes (r : Repository) (flowId : String) (n : ℕ)
    (published : FlowDefinition) :
    r.Writes (fun d => d.owner = some ("flow", flowId) ∨ d = .flowIndex) erases
      (r.persistRevision flowId n published) := by
  have hrecord : r.Writes (fun d => d.owner = some ("flow", flowId) ∨ d = .flowIndex) erases
      (r.store (r.flowRevisionKey flowId n) (.record published.toStorageRecord)) :=
    store_writes r (d := .revision flowId n) (.inl rfl) rfl _
  have hpointer := hrecord.trans (store_writes _ (d := .latest flowId) (.inl rfl) rfl (.number n))
  have hlist := hpointer.trans (.of_writesAt (appendRevisionIndex_writesAt _ flowId n)
    fun k hk => ⟨.revisions flowId, .inl rfl, hk⟩)
  exact hlist.trans (.of_writesAt (updateIndex_writesAt _ "flow" flowId)
    fun k hk => ⟨.flowIndex, .inr rfl, hk⟩)

/-- A publication writes documents of its flow, and the list of the flows. -/
theorem publish_writes (r : Repository) (flow : FlowDefinition) (persist : Bool) :
    r.Writes (fun d => d.owner = some ("flow", flow.definitionId) ∨ d = .flowIndex) erases
      (r.publishFlowRevisionWith flow persist).2 := by
  have hcached (f : FlowDefinition) : r.Writes
      (fun d => d.owner = some ("flow", flow.definitionId) ∨ d = .flowIndex) erases
      ((r.cacheFlowRevision f).indexFlowLatest f) :=
    .of_storage (cacheFlowRevision_frame r f).2.2.1 (cacheFlowRevision_frame r f).2.2.2.1
  simp only [publishFlowRevisionWith]
  split
  · split
    · exact (hcached _).trans (persistRevision_writes _ _ _ _)
    · exact hcached _
  · exact hcached _

/-- Deleting a revision document may write the list of its flow. -/
theorem deleteFlowRevisionRecord_writes (r : Repository) (flowId : String) (n : ℕ) :
    r.Writes (fun _ => True) True (r.deleteFlowRevisionRecord flowId n) := by
  have hremoved : r.Writes (fun _ => True) True (r.remove (r.flowRevisionKey flowId n)) :=
    remove_writes r _
  simp only [deleteFlowRevisionRecord]
  split
  · exact hremoved.trans (store_writes _ (d := .revisions flowId) trivial rfl _)
  · exact hremoved

/-- Deleting the document of a definition may write the list of its kind. -/
theorem deleteRecord_writes (r : Repository) {kind : String} (definitionId : String)
    {d : StoredDocument} (hd : ∀ u : Repository, u.documentKey d = u.indexKey kind) :
    r.Writes (fun _ => True) True (r.deleteRecord kind definitionId) :=
  (remove_writes r (r.key kind definitionId)).trans
    (.of_writesAt (removeFromIndex_writesAt _ kind definitionId)
      fun k hk => ⟨d, trivial, hk.trans (hd _).symm⟩)

end Repository

namespace DefinitionKind

open Repository

variable {D : Type} (K : DefinitionKind D) {documents : StoredDocument → Prop} {erases : Prop}

/-- What is in memory of a kind is not stored. -/
theorem withIndex_writes (r : Repository) (x : DefinitionIndex D) :
    r.Writes documents erases (K.withIndex r x) :=
  .of_storage (K.withIndex_eq r x).1 (K.withIndex_eq r x).2.1

/-- Saving a definition writes its document, and the list of its kind. -/
theorem save_writes (r : Repository) (d : D) {kind : RecordKind} (hkind : K.kind = kind.text) :
    r.Writes (fun s => s = .definition kind (K.definitionId d) ∨ s = .index kind) erases
      (K.save r d).2 := by
  have hinserted : r.Writes (fun s => s = .definition kind (K.definitionId d) ∨ s = .index kind)
      erases (K.insert r d) := K.withIndex_writes r _
  simp only [save]
  split
  · rw [hkind]
    exact (hinserted.trans (store_writes _ (.inl rfl) rfl _)).trans
      (.of_writesAt (updateIndex_writesAt _ kind.text (K.definitionId d))
        fun k hk => ⟨.index kind, .inr rfl, hk⟩)
  · exact hinserted

/-- A lookup stores nothing. -/
theorem get_writes (r : Repository) (ref : String) (byId : Bool) :
    r.Writes documents erases (K.get r ref byId).2 := by
  cases h : K.get r ref byId with
  | mk found u =>
    cases found with
    | error e => exact K.get_error h ▸ .of_storage rfl rfl
    | ok d =>
      cases K.get_finds h with
      | inMemory _ => exact .of_storage rfl rfl
      | loaded i _ _ => exact K.withIndex_writes r _

/-- Deleting a definition may write the list of its kind. -/
theorem delete_writes [DecidableEq D] (r : Repository) (ref : String) (byId : Bool)
    {kind : RecordKind} (hkind : K.kind = kind.text) :
    r.Writes (fun _ => True) True (K.delete r ref byId).2 := by
  have hget : r.Writes (fun _ => True) True (K.get r ref byId).2 := K.get_writes r ref byId
  unfold delete
  cases h : K.get r ref byId with
  | mk found u =>
    rw [h] at hget
    cases found with
    | error e => exact hget
    | ok d =>
      exact (hget.trans (K.withIndex_writes u _)).trans
        (deleteRecord_writes _ (K.definitionId d) (d := .index kind) fun u => by rw [hkind]; rfl)

/-- A call about a kind that registers or saves a definition writes its document and the list of its
kind; every other one may erase. -/
theorem call_writes [DecidableEq D] (r : Repository) (op : KindOp D) {kind : RecordKind}
    (hkind : K.kind = kind.text) :
    r.Writes (fun _ => True) True (K.call r op) ∧ ∀ d, op.published = some d →
      r.Writes (fun s => s = .definition kind (K.definitionId d) ∨ s = .index kind) False
        (K.call r op) := by
  cases op with
  | register d => exact ⟨K.withIndex_writes r _, fun d' _ => K.withIndex_writes r _⟩
  | save d =>
    refine ⟨(K.save_writes r d hkind).mono (fun _ _ => trivial) (id : True → True), ?_⟩
    intro d' hd
    cases hd
    exact K.save_writes r d hkind
  | get ref byId => exact ⟨K.get_writes r ref byId, fun d hd => by cases hd⟩
  | delete ref byId => exact ⟨K.delete_writes r ref byId hkind, fun d hd => by cases hd⟩

end DefinitionKind

namespace Repository

/-- Deleting revision documents may write the list of their flow. -/
theorem deleteRevisions_writes (flowId : String) (ns : List ℕ) (r : Repository) :
    r.Writes (fun _ => True) True (ns.foldl (·.deleteFlowRevisionRecord flowId ·) r) := by
  induction ns generalizing r with
  | nil => exact .of_storage rfl rfl
  | cons n ns ih => exact (deleteFlowRevisionRecord_writes r flowId n).trans (ih _)

/-- A lookup of a flow stores nothing. -/
theorem getFlow_writes (r : Repository) (ref : String) (byId : Bool) (revision : Option ℕ)
    {documents : StoredDocument → Prop} {erases : Prop} :
    r.Writes documents erases (r.getFlow ref byId revision).2 := by
  have hloads : r.FlowLoads (r.getFlow ref byId revision).2 := by
    unfold getFlow
    split
    · exact (getFlowById_loads r ref revision).1
    · exact (getFlowByName_loads r ref revision).1
  exact .of_storage hloads.frame.1 hloads.frame.2.1

/-- Deleting a flow may write the list of its revisions and that of the flows. -/
theorem deleteFlow_writes (r : Repository) (ref : String) (byId : Bool) :
    r.Writes (fun _ => True) True (r.deleteFlow ref byId).2 := by
  have hget : r.Writes (fun _ => True) True (r.getFlow ref byId none).2 :=
    r.getFlow_writes ref byId none
  unfold deleteFlow
  split
  · rename_i e u h
    rwa [h] at hget
  · rename_i flow u h
    rw [h] at hget
    have hunindexed : u.Writes (fun _ => True) True (u.unindexFlow flow) := .of_storage rfl rfl
    have herased := (hget.trans hunindexed).trans (deleteRevisions_writes flow.definitionId
      ((u.unindexFlow flow).revisionNumbers flow.definitionId) (u.unindexFlow flow))
    set w := ((u.unindexFlow flow).revisionNumbers flow.definitionId).foldl
      (·.deleteFlowRevisionRecord flow.definitionId ·) (u.unindexFlow flow)
    have hdropped : w.Writes (fun _ => True) True { w with
        flowRevisions := w.flowRevisions.erase flow.definitionId
        flowLatestRevision := w.flowLatestRevision.erase flow.definitionId } :=
      .of_storage rfl rfl
    have hrecord := (herased.trans hdropped).trans
      (deleteRecord_writes _ flow.definitionId (d := .flowIndex) fun _ => rfl)
    exact hrecord.trans ((remove_writes _ _).trans (remove_writes _ _))

/-- The documents that a definition is kept in, and the list in which it is entered. -/
def KeptIn (definition : Definition) (d : StoredDocument) : Prop :=
  d.owner = some definition.identity ∨ d = definition.index

/-- A call about the flows writes the documents of the flow that it publishes. -/
theorem step_writes {r u : Repository} (op : RepositoryOp) (h : r.step op = some u)
    {erases : Prop} :
    r.Writes (fun d => ∃ flow ∈ op.flow?, KeptIn (.flow flow) d) erases u := by
  have hpublish (flow : FlowDefinition) (persist : Bool) :
      r.Writes (fun d => ∃ f ∈ some flow, KeptIn (.flow f) d) erases
        (r.publishFlowRevisionWith flow persist).2 :=
    (publish_writes r flow persist).mono (fun d hd => ⟨flow, rfl, hd⟩) id
  cases op with
  | registerFlow flow => cases h; exact hpublish flow false
  | saveFlow flow => cases h; exact hpublish flow true
  | publishFlowRevision flow => cases h; exact hpublish flow _
  | getLatestRevision i =>
    cases h
    exact .of_storage (getLatestRevision_loads r i).frame.1 (getLatestRevision_loads r i).frame.2.1
  | getFlowById i revision => cases h; exact r.getFlow_writes i true revision
  | getFlowByName name revision => cases h; exact r.getFlow_writes name false revision
  | listFlowRevisions i =>
    cases h
    exact .of_storage (listFlowRevisions_loads r i).frame.1 (listFlowRevisions_loads r i).frame.2.1
  | recreate =>
    cases h
    exact .of_storage rfl rfl

/-- Every call writes documents only, and a call that registers or saves a definition only those
that it is kept in. -/
theorem call_writes {r u : Repository} {op : DefinitionOp} (h : r.call op = some u) :
    r.Writes (fun _ => True) True u ∧ ∀ definition, op.published = some definition →
      r.Writes (KeptIn definition) False u := by
  have hkind {D : Type} [DecidableEq D] (K : DefinitionKind D) (kindOp : KindOp D)
      (kind : RecordKind) (hkind : K.kind = kind.text) (wrap : D → Definition)
      (hidentity : ∀ d, (wrap d).identity = (kind.text, K.definitionId d))
      (hindex : ∀ d, (wrap d).index = .index kind) :
      r.Writes (fun _ => True) True (K.call r kindOp) ∧ ∀ definition,
        kindOp.published.map wrap = some definition →
          r.Writes (KeptIn definition) False (K.call r kindOp) := by
    refine ⟨(K.call_writes r kindOp hkind).1, fun definition hdefinition => ?_⟩
    obtain ⟨d, hd, rfl⟩ := Option.map_eq_some_iff.mp hdefinition
    refine ((K.call_writes r kindOp hkind).2 d hd).mono (fun s hs => ?_) id
    refine hs.imp (fun h => ?_) fun h => h.trans (hindex d).symm
    rw [h, hidentity]
    rfl
  cases op with
  | flow op =>
    refine ⟨(step_writes op h).mono (fun _ _ => trivial) id,
      fun definition hdefinition => ?_⟩
    obtain ⟨flow, hflow, rfl⟩ := Option.map_eq_some_iff.mp hdefinition
    refine (step_writes op h).mono (fun d hd => ?_) id
    obtain ⟨f, hf, hkept⟩ := hd
    cases hflow.symm.trans hf
    exact hkept
  | deleteFlow ref byId =>
    cases h
    exact ⟨deleteFlow_writes r ref byId, fun definition hdefinition => by cases hdefinition⟩
  | process op =>
    rw [r.call_kind.1 op] at h
    cases h
    exact hkind processKind op .process rfl .process (fun _ => rfl) fun _ => rfl
  | schema op =>
    rw [r.call_kind.2.1 op] at h
    cases h
    exact hkind schemaKind op .stateSchema rfl .schema (fun _ => rfl) fun _ => rfl
  | resource op =>
    rw [r.call_kind.2.2 op] at h
    cases h
    exact hkind resourceKind op .resource rfl .resource (fun _ => rfl) fun _ => rfl

/-- The keys of different documents differ; whatever a call stores is one of the documents; and
registering or saving a definition leaves every document that is about another one as it was. -/
theorem documentKeys_apart (r : Repository) :
    (∀ d d' : StoredDocument, d ≠ d' → r.documentKey d ≠ r.documentKey d') ∧
      ∀ op u, r.call op = some u →
        (∀ k value, u.fetch k = some value → r.fetch k ≠ some value →
          ∃ d, k = r.documentKey d) ∧
        ∀ definition, op.published = some definition →
          ∀ d : StoredDocument, d.owner ≠ some definition.identity → d ≠ definition.index →
            u.fetch (u.documentKey d) = r.fetch (r.documentKey d) := by
  refine ⟨fun d d' hne h => hne (documentKey_inj.mp h), fun op u hcall => ⟨?_, ?_⟩⟩
  · intro k value hvalue hnew
    rcases (call_writes hcall).1.fetch_eq k with h | ⟨-, h⟩ | ⟨d, -, h⟩
    · exact absurd (h ▸ hvalue) hnew
    · exact absurd (h ▸ hvalue) (by simp)
    · exact ⟨d, h⟩
  · intro definition hdefinition d howner hindex
    have hwrites := (call_writes hcall).2 definition hdefinition
    rw [documentKey_congr hwrites.keyPrefix_eq]
    rcases hwrites.fetch_eq (r.documentKey d) with h | ⟨h, -⟩ | ⟨d', hkept, hkey⟩
    · exact h
    · exact h.elim
    · cases documentKey_inj.mp hkey
      exact (hkept.elim howner hindex).elim

end Repository

end PalmEngine.Persistence
