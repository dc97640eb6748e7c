import PalmEngine.Lib.Runs
import PalmEngine.Session.AttachCalls
import PalmEngine.Session.Exclusive

/-!
# The session ownership hook

Whenever a job is submitted or changes its status, a hook attaches the instance of the job to the
session that its metadata names, and opens the session under that id if it is not there. An explicit
call may have detached the instance or deleted the session before. The hook cannot know: it respects
this as long as it is not run on a detached instance with a session that is not closed, or on a
deleted session.
-/

namespace PalmEngine.Session

open PalmEngine.Lib PalmEngine.Events

/-- The session and the instance that the metadata of a job names. -/
structure JobSubject where
  sessionId : Option String
  instanceId : Option String

/-- The two names, if neither is blank. -/
def JobSubject.named (job : JobSubject) : Option (String × String) :=
  match (job.sessionId.map strip).filter (· ≠ ""), (job.instanceId.map strip).filter (· ≠ "") with
  | some sid, some iid => some (sid, iid)
  | _, _ => none

namespace SessionStore

/-- What the hook does with the names: open the session if it is not there, and attach. An error of
either call is ignored. -/
def hookAttach (s : SessionStore) (sid iid : String) : SessionStore :=
  let opened := match s.get sid with
    | none => s.after (s.openSession (some sid) (Dict.empty.set "via" (.text "job_path")) "")
    | some _ => s
  opened.after (opened.attachInstance sid iid)

/-- Attach the instance of a job that was submitted or has changed its status. -/
def maybeAttach (s : SessionStore) (job : JobSubject) : SessionStore :=
  match job.named with
  | none => s
  | some (sid, iid) => s.hookAttach sid iid

end SessionStore

namespace SessionOp

/-- The instances that a call detaches: the one that it names, or those of a deleted session. -/
def detaches (s : SessionStore) : SessionOp → List String
  | detachInstance sid i => (s.listed sid).filter (· = strip i)
  | delete sid => s.listed sid
  | _ => []

/-- The session that a call deletes. -/
def deletes (s : SessionStore) : SessionOp → Option String
  | delete sid => if (s.get sid).isSome then some sid else none
  | _ => none

/-- The instance that a call attaches. -/
def attaches (s : SessionStore) : SessionOp → Option String
  | attachInstance sid i =>
    match s.attachInstance sid i with
    | .error _ => none
    | .ok _ => some (strip i)
  | _ => none

/-- The session that a call opens or finds open. -/
def opens (s : SessionStore) : SessionOp → Option String
  | openSession sid metadata fresh =>
    match s.openSession sid metadata fresh with
    | .error _ => none
    | .ok p => some p.2.sessionId
  | bind sid create metadata surface fresh =>
    match s.bind sid create metadata surface fresh with
    | .error _ => none
    | .ok p => some p.2.sessionId
  | _ => none

end SessionOp

/-- What happens: an explicit call, or a job that was submitted or has changed its status. -/
inductive OwnershipOp where
  | call (op : SessionOp)
  | jobChanged (job : JobSubject)

/-- The store, the instances that were detached explicitly and not attached explicitly since, and the
sessions that were deleted and not opened explicitly since. -/
structure OwnershipRun where
  store : SessionStore
  detached : List String
  deleted : List String

namespace OwnershipRun

/-- No session yet. -/
def start : OwnershipRun := ⟨.empty, [], []⟩

/-- One operation. -/
def step (run : OwnershipRun) : OwnershipOp → Option OwnershipRun
  | .call op => some {
      store := op.step run.store
      detached := (op.detaches run.store ++ run.detached).filter
        fun i => op.attaches run.store ≠ some i
      deleted := ((op.deletes run.store).toList ++ run.deleted).filter
        fun sid => op.opens run.store ≠ some sid }
  | .jobChanged job => some { run with store := run.store.maybeAttach job }

/-- A detached instance is not listed by any session and has the focus of none, and a deleted session
is not there. -/
structure Respects (run : OwnershipRun) : Prop where
  detached : ∀ i ∈ run.detached, ∀ sid r, run.store.entries.get? sid = some r →
    i ∉ r.instanceIds ∧ r.activeInstanceId ≠ some i
  deleted : ∀ sid ∈ run.deleted, run.store.entries.get? sid = none

/-- A job that was submitted or has changed its status names no deleted session, and if its instance
was detached then the session that it names is closed. -/
def Allowed (run : OwnershipRun) : OwnershipOp → OwnershipRun → Prop
  | .call _, _ => True
  | .jobChanged job, _ => ∀ sid iid, job.named = some (sid, iid) →
      sid ∉ run.deleted ∧ (iid ∈ run.detached → run.store.IsClosed sid)

end OwnershipRun

namespace SessionStore

variable {s s' : SessionStore} {sid : String} {r : SessionRecord} {added created : Option String}

/-- A call lists no instance anew but one, and creates no session but one. -/
structure Adds (added created : Option String) (s s' : SessionStore) : Prop where
  listed : ∀ sid i, i ∈ s'.listed sid → i ∈ s.listed sid ∨ added = some i
  entries : ∀ sid, s.entries.get? sid = none → s'.entries.get? sid ≠ none → created = some sid

/-- A call that changes nothing. -/
theorem adds_self (added created : Option String) (s : SessionStore) : Adds added created s s :=
  ⟨fun _ _ => .inl, fun _ hnone hsome => absurd hnone hsome⟩

/-- The list of a session after a record is written. -/
theorem listed_put (s : SessionStore) (r : SessionRecord) (sid : String) :
    (s.put r).listed sid = if sid = r.sessionId then r.instanceIds else s.listed sid := by
  rw [← listed_setEntry]
  unfold listed
  rw [entries_put, entries_setEntry]

/-- Writing a changed record. -/
theorem adds_putSome (hget : s.entries.get? sid = some r) {changed : Option SessionRecord}
    (hchanged : ∀ r' ∈ changed, SessionRecord.Revises added r r') :
    Adds added created s (s.putSome r changed).1 := by
  cases changed with
  | none => exact adds_self _ _ s
  | some r' =>
    have hrevises := hchanged r' rfl
    have hid : r'.sessionId = sid := hrevises.id_eq.trans (s.id_eq sid r hget)
    refine ⟨fun sid' i hi => ?_, fun sid' hnone hsome => ?_⟩
    · change i ∈ (s.put r').listed sid' at hi
      rw [listed_put, hid] at hi
      split at hi
      · next heq =>
        rcases hrevises.mem i hi with hold | hnew
        · exact .inl (mem_listed_iff.mpr ⟨r, heq ▸ hget, hold⟩)
        · exact .inr hnew
      · exact .inl hi
    · change (s.put r').entries.get? sid' ≠ none at hsome
      have hne : sid' ≠ sid := by
        rintro rfl
        cases hnone.symm.trans hget
      rw [entries_put, hid, Dict.get?_set_ne _ _ hne] at hsome
      exact absurd hnone hsome

/-- Writing the record of a session that was not there. -/
theorem adds_putNew (hids : r.instanceIds = []) :
    Adds added (some r.sessionId) s (s.put r) := by
  refine ⟨fun sid i hi => ?_, fun sid hnone hsome => ?_⟩
  · rw [listed_put] at hi
    split at hi
    · rw [hids] at hi
      cases hi
    · exact .inl hi
  · by_contra hne
    have hsid : sid ≠ r.sessionId := fun heq => hne (congrArg some heq.symm)
    rw [entries_put, Dict.get?_set_ne _ _ hsid] at hsome
    exact hsome hnone

/-- Opening a session creates the one that it returns. -/
theorem Owned.adds_openSession (h : s.Owned) {sessionId : Option String} {metadata : Payload}
    {fresh : String} (hopen : s.openSession sessionId metadata fresh = .ok (s', r)) :
    Adds none (some r.sessionId) s s' := by
  unfold SessionStore.openSession at hopen
  simp only [h.get_eq] at hopen
  split at hopen
  · split at hopen
    · cases hopen
    · cases hopen
      exact adds_self _ _ s
  · cases hopen
    exact adds_putNew rfl

/-- Attaching an instance lists that one. -/
theorem Owned.adds_attachInstance (h : s.Owned) {instanceId : String}
    (hattach : s.attachInstance sid instanceId = .ok (s', r)) :
    Adds (some (strip instanceId)) none s s' := by
  unfold SessionStore.attachInstance at hattach
  simp only at hattach
  split at hattach
  · cases hattach
  · next hne =>
    split at hattach
    · cases hattach
    · next stored hrequire =>
      have hget := h.get?_of_requireOpen hrequire
      split at hattach
      · cases hattach
      · obtain rfl := congrArg Prod.fst (Except.ok.inj hattach)
        exact adds_putSome hget fun r' hr' =>
          (h.clean _ _ hget).attach (strip_strip instanceId) hne hr'

/-- Opening a session as part of a binding. -/
theorem Owned.adds_bind (h : s.Owned) {sessionId : Option String} {create : Bool}
    {metadata : Payload} {surface : Option String} {fresh : String} {b : SessionBind}
    (hbind : s.bind sessionId create metadata surface fresh = .ok (s', b)) :
    Adds none (some b.sessionId) s s' := by
  have hcreated : ∀ (sid : Option String) (told : Payload) (surf : Option String),
      ((s.openSession sid told fresh).map fun p =>
        (p.1, SessionBind.fromRecord p.2 true surf)) = .ok (s', b) →
        Adds none (some b.sessionId) s s' := by
    intro sid told surf hmap
    cases hopen : s.openSession sid told fresh with
    | error error =>
      rw [hopen] at hmap
      cases hmap
    | ok p =>
      rw [hopen] at hmap
      cases hmap
      exact h.adds_openSession hopen
  unfold SessionStore.bind at hbind
  simp only [h.get_eq] at hbind
  split at hbind
  · split at hbind
    · exact hcreated none _ _ hbind
    · cases hbind
  · split at hbind
    · split at hbind
      · exact hcreated _ _ _ hbind
      · cases hbind
    · next existing hget =>
      split at hbind
      · cases hbind
      · obtain rfl := congrArg Prod.fst (Except.ok.inj hbind)
        exact adds_putSome hget fun r' hr' => (h.clean _ _ hget).mergeMetadata hr'

/-- A call that changes the record of a session. -/
theorem Owned.adds_map_require (h : s.Owned) {change : SessionRecord → Option SessionRecord}
    (hchange : ∀ r r', r.Clean → change r = some r' → SessionRecord.Revises none r r') :
    Adds none none s (s.after ((s.require sid).map fun r => s.putSome r (change r))) := by
  cases hrequire : s.require sid with
  | error error => exact adds_self _ _ s
  | ok r =>
    have hget := h.get?_of_require hrequire
    exact adds_putSome hget fun r' hr' => hchange r r' (h.clean _ _ hget) hr'

/-- The sessions after a deletion. -/
theorem Owned.entries_delete (h : s.Owned) (sid : String) :
    (s.delete sid).entries = s.entries.erase sid := by
  unfold SessionStore.delete
  rw [h.get_eq]
  cases hget : s.entries.get? sid with
  | none =>
    have hmem : sid ∉ s.entries.keys := fun hmem => by
      obtain ⟨r, hr⟩ := (s.entries.mem_keys_iff sid).mp hmem
      cases hget.symm.trans hr
    exact (Dict.erase_of_not_mem hmem).symm
  | some r => simp [entries_foldl_clearInstanceOwner]

/-- Deleting a session lists nothing anew. -/
theorem Owned.adds_delete (h : s.Owned) (sid : String) : Adds added created s (s.delete sid) := by
  have hentries := h.entries_delete sid
  refine ⟨fun sid' i hi => .inl ?_, fun sid' hnone hsome => absurd ?_ hsome⟩
  · obtain ⟨r, hr, hmem⟩ := mem_listed_iff.mp hi
    rw [hentries, Dict.get?_erase] at hr
    split at hr
    · cases hr
    · exact mem_listed_iff.mpr ⟨r, hr, hmem⟩
  · rw [hentries, Dict.get?_erase, hnone, ite_self]

end SessionStore

namespace SessionOp

variable {s : SessionStore}

/-- What a call lists and creates. -/
theorem step_adds (h : s.Owned) (op : SessionOp) :
    SessionStore.Adds (op.attaches s) (op.opens s) s (op.step s) := by
  cases op with
  | openSession sid metadata fresh =>
    simp only [attaches, opens, step]
    cases hopen : s.openSession sid metadata fresh with
    | error error => exact SessionStore.adds_self _ _ s
    | ok p => exact h.adds_openSession hopen
  | bind sid create metadata surface fresh =>
    simp only [attaches, opens, step]
    cases hbind : s.bind sid create metadata surface fresh with
    | error error => exact SessionStore.adds_self _ _ s
    | ok p => exact h.adds_bind hbind
  | attachInstance sid i =>
    simp only [attaches, opens, step]
    cases hattach : s.attachInstance sid i with
    | error error => exact SessionStore.adds_self _ _ s
    | ok p => exact h.adds_attachInstance hattach
  | detachInstance sid i =>
    simp only [attaches, opens, step, SessionStore.detachInstance]
    split
    · exact SessionStore.adds_self _ _ s
    · exact h.adds_map_require fun _ _ hclean hdetach => hclean.detach hdetach
  | setActiveInstance sid i =>
    simp only [attaches, opens, step, SessionStore.setActiveInstance]
    split
    · exact SessionStore.adds_self _ _ s
    · split
      · exact SessionStore.adds_self _ _ s
      · next r hrequire =>
        have hget := h.get?_of_requireOpen hrequire
        split
        · exact SessionStore.adds_self _ _ s
        · next hmem =>
          exact SessionStore.adds_putSome hget fun r' hr' =>
            (h.clean _ _ hget).focus (not_not.mp hmem) hr'
  | clearActiveInstance sid =>
    simp only [attaches, opens, step, SessionStore.clearActiveInstance]
    cases hrequire : s.requireOpen sid with
    | error error => exact SessionStore.adds_self _ _ s
    | ok r =>
      have hget := h.get?_of_requireOpen hrequire
      exact SessionStore.adds_putSome hget fun r' hr' => (h.clean _ _ hget).unfocus hr'
  | close sid => exact h.adds_map_require fun _ _ hclean hclose => hclean.close hclose
  | delete sid => exact h.adds_delete sid

/-- A call leaves what it detaches without a session. -/
theorem not_mem_listed_of_detaches (h : s.Owned) {op : SessionOp} {i : String}
    (hi : i ∈ op.detaches s) (sid : String) : i ∉ (op.step s).listed sid := by
  cases op with
  | detachInstance named instanceId =>
    obtain ⟨hmem, hstrip⟩ := List.mem_filter.mp hi
    obtain rfl : i = strip instanceId := by simpa using hstrip
    obtain ⟨r, hget, hr⟩ := SessionStore.mem_listed_iff.mp hmem
    obtain ⟨-, hne⟩ := (h.clean named r hget).stripped _ hr
    have hrequire : s.require named = .ok r := by
      simp only [SessionStore.require, h.get_eq, hget]
    obtain ⟨r', hdetach, hid, hgone⟩ : ∃ r', r.detach (strip instanceId) = some r' ∧
        r'.sessionId = named ∧ strip instanceId ∉ r'.instanceIds := by
      unfold SessionRecord.detach
      rw [if_neg (not_not.mpr hr)]
      exact ⟨_, rfl, s.id_eq named r hget, by simp⟩
    have hstep : (detachInstance named instanceId).step s = s.put r' := by
      simp only [step, SessionStore.detachInstance, if_neg hne, hrequire, Except.map,
        SessionStore.putSome, hdetach, SessionStore.after]
    rw [hstep, SessionStore.listed_put, hid]
    split
    · exact hgone
    · next hsid =>
      intro hlisted
      obtain ⟨other, hother, hmem⟩ := SessionStore.mem_listed_iff.mp hlisted
      exact hsid (h.exclusive.unique _ sid other named r hother hget hmem hr)
  | delete named =>
    intro hlisted
    obtain ⟨r, hget, hr⟩ := SessionStore.mem_listed_iff.mp hi
    obtain ⟨r', hget', hr'⟩ := SessionStore.mem_listed_iff.mp hlisted
    have hstep : (s.delete named).entries.get? sid = some r' := hget'
    rw [h.entries_delete, Dict.get?_erase] at hstep
    split at hstep
    · cases hstep
    · next hne => exact hne (h.exclusive.unique i sid r' named r hstep hget hr' hr)
  | openSession _ _ _ | bind _ _ _ _ _ | attachInstance _ _ | setActiveInstance _ _
  | clearActiveInstance _ | close _ => cases hi

/-- A session that a call deletes is not there. -/
theorem get?_of_deletes (h : s.Owned) {op : SessionOp} {sid : String}
    (hdeletes : op.deletes s = some sid) : (op.step s).entries.get? sid = none := by
  cases op with
  | delete named =>
    simp only [deletes] at hdeletes
    split at hdeletes
    · cases hdeletes
      change (s.delete sid).entries.get? sid = none
      rw [h.entries_delete, Dict.get?_erase, if_pos rfl]
    · cases hdeletes
  | openSession _ _ _ | bind _ _ _ _ _ | attachInstance _ _ | detachInstance _ _
  | setActiveInstance _ _ | clearActiveInstance _ | close _ => cases hdeletes

end SessionOp

namespace SessionStore

variable {s : SessionStore} {sid iid : String}

/-- The store after the hook has opened the session. -/
theorem Owned.openSession_hook (h : s.Owned) (hsid : strip sid = sid) (hne : sid ≠ "")
    (hget : s.entries.get? sid = none) (metadata : Payload) :
    s.openSession (some sid) metadata "" =
      .ok (s.put ⟨sid, .opened, [], none, metadata⟩, ⟨sid, .opened, [], none, metadata⟩) := by
  simp only [SessionStore.openSession, Option.getD_some, hsid, if_neg hne, h.get_eq, hget]

/-- A session that is not closed takes an instance that no session lists. -/
theorem Owned.attachInstance_free (h : s.Owned) {r : SessionRecord}
    (hget : s.entries.get? sid = some r) (hopen : r.status ≠ .closed) (hiid : strip iid = iid)
    (hne : iid ≠ "") (hfree : ∀ sid, iid ∉ s.listed sid) :
    iid ∈ (s.after (s.attachInstance sid iid)).listed sid := by
  have howner : s.byInstance.get? iid = none := by
    cases howner : s.byInstance.get? iid with
    | none => rfl
    | some owner =>
      obtain ⟨r', hget', hmem⟩ := (h.owner_iff iid owner).mp howner
      exact absurd (mem_listed_iff.mpr ⟨r', hget', hmem⟩) (hfree owner)
  have hnot : iid ∉ r.instanceIds := fun hmem => hfree sid (mem_listed_iff.mpr ⟨r, hget, hmem⟩)
  obtain ⟨r', hattach, hid, hmem⟩ : ∃ r', r.attach iid = some r' ∧ r'.sessionId = sid ∧
      iid ∈ r'.instanceIds := by
    unfold SessionRecord.attach
    rw [if_neg hnot]
    exact ⟨_, rfl, s.id_eq sid r hget, by simp⟩
  have hstep : s.after (s.attachInstance sid iid) = s.put r' := by
    simp [SessionStore.attachInstance, hiid, hne, requireOpen, require, h.get_eq, hget, hopen,
      sessionIdForInstance, howner, SessionStore.putSome, hattach, after]
  rw [hstep, listed_put, if_pos hid.symm]
  exact hmem

/-- A closed session takes no instance. -/
theorem Owned.attachInstance_closed (h : s.Owned) (hclosed : s.IsClosed sid) (iid : String) :
    s.after (s.attachInstance sid iid) = s := by
  obtain ⟨r, hget, hstatus⟩ := hclosed
  simp only [SessionStore.attachInstance, requireOpen, require, h.get_eq, hget, hstatus, if_true]
  split <;> rfl

/-- Attaching leaves the session there. -/
theorem entries_attachInstance {r : SessionRecord} (hget : s.entries.get? sid = some r)
    (iid : String) : (s.after (s.attachInstance sid iid)).entries.get? sid ≠ none := by
  have hput : ∀ (stored : SessionRecord) (changed : Option SessionRecord),
      (s.putSome stored changed).1.entries.get? sid ≠ none := by
    intro stored changed
    cases changed with
    | none => simp [SessionStore.putSome, hget]
    | some r' =>
      change (s.put r').entries.get? sid ≠ none
      rw [entries_put]
      by_cases heq : sid = r'.sessionId
      · rw [heq, Dict.get?_set_self]
        exact Option.some_ne_none _
      · rw [Dict.get?_set_ne _ _ heq, hget]
        exact Option.some_ne_none _
  have hsame : s.entries.get? sid ≠ none := by simp [hget]
  unfold SessionStore.attachInstance
  simp only
  split
  · exact hsame
  · split
    · exact hsame
    · split
      · exact hsame
      · exact hput _ _

/-- What the hook does: it keeps owners exact, lists no instance anew but its own, creates no session
but its own, which is there afterwards, and attaches an instance that no session lists unless the
session is closed. -/
structure HookAttached (sid iid : String) (s s' : SessionStore) : Prop where
  owned : s'.Owned
  adds : Adds (some iid) (some sid) s s'
  entries : s'.entries.get? sid ≠ none
  attached : ¬ s.IsClosed sid → (∀ sid, iid ∉ s.listed sid) → iid ∈ s'.listed sid

/-- The hook on two names. -/
theorem Owned.hookAttach (h : s.Owned) (hsid : strip sid = sid) (hsne : sid ≠ "")
    (hiid : strip iid = iid) (hine : iid ≠ "") : HookAttached sid iid s (s.hookAttach sid iid) := by
  -- From a store with the session, attaching lists at most the instance.
  have hattach : ∀ {s : SessionStore} (h : s.Owned) {r : SessionRecord},
      s.entries.get? sid = some r →
        HookAttached sid iid s (s.after (s.attachInstance sid iid)) := by
    intro s h r hget
    have hadds : Adds (some iid) none s (s.after (s.attachInstance sid iid)) := by
      cases hresult : s.attachInstance sid iid with
      | error error => exact adds_self _ _ s
      | ok p => exact hiid ▸ h.adds_attachInstance hresult
    refine ⟨(h.attachInstance sid iid).owned, ⟨hadds.listed, fun sid' hnone hsome => ?_⟩, ?_, ?_⟩
    · cases hadds.entries sid' hnone hsome
    · exact entries_attachInstance hget iid
    · intro hopen hfree
      exact h.attachInstance_free hget (fun hclosed => hopen ⟨r, hget, hclosed⟩) hiid hine hfree
  cases hget : s.entries.get? sid with
  | some r =>
    have hstep : s.hookAttach sid iid = s.after (s.attachInstance sid iid) := by
      unfold SessionStore.hookAttach
      rw [h.get_eq, hget]
    rw [hstep]
    exact hattach h hget
  | none =>
    let metadata : Payload := Dict.empty.set "via" (.text "job_path")
    let record : SessionRecord := ⟨sid, .opened, [], none, metadata⟩
    have hopen := h.openSession_hook hsid hsne hget metadata
    have hstep : s.hookAttach sid iid = (s.put record).after ((s.put record).attachInstance sid iid) := by
      unfold SessionStore.hookAttach
      rw [h.get_eq, hget]
      simp only [hopen, after, record, metadata]
    have hthere : (s.put record).entries.get? sid = some record := by
      rw [entries_put]
      exact Dict.get?_set_self _ _ _
    have hadds : Adds none (some sid) s (s.put record) := h.adds_openSession hopen
    have hrest := hattach (h.putNew hget rfl rfl).owned hthere
    rw [hstep]
    refine ⟨hrest.owned, ⟨fun sid' i hi => ?_, fun sid' hnone hsome => ?_⟩, hrest.entries,
      fun _ hfree => hrest.attached ?_ fun sid' hlisted => ?_⟩
    · rcases hrest.adds.listed sid' i hi with hold | hadded
      · exact .inl ((hadds.listed sid' i hold).resolve_right fun hadded => by cases hadded)
      · exact .inr hadded
    · by_cases hopened : (s.put record).entries.get? sid' = none
      · exact hrest.adds.entries sid' hopened hsome
      · exact hadds.entries sid' hnone hopened
    · rintro ⟨r, hr, hclosed⟩
      obtain rfl : record = r := Option.some.inj (hthere.symm.trans hr)
      cases hclosed
    · exact hfree sid' ((hadds.listed sid' iid hlisted).resolve_right fun hadded => by cases hadded)

end SessionStore

namespace OwnershipRun

variable {run run' : OwnershipRun}

/-- Instances that no session lists, and sessions that are not there. -/
theorem respects_iff (h : run.store.Owned) : run.Respects ↔
    (∀ i ∈ run.detached, ∀ sid, i ∉ run.store.listed sid) ∧
      ∀ sid ∈ run.deleted, run.store.entries.get? sid = none := by
  constructor
  · intro hrespects
    refine ⟨fun i hi sid hlisted => ?_, hrespects.deleted⟩
    obtain ⟨r, hget, hmem⟩ := SessionStore.mem_listed_iff.mp hlisted
    exact (hrespects.detached i hi sid r hget).1 hmem
  · rintro ⟨hdetached, hdeleted⟩
    refine ⟨fun i hi sid r hget => ?_, hdeleted⟩
    have hnot : i ∉ r.instanceIds := fun hmem =>
      hdetached i hi sid (SessionStore.mem_listed_iff.mpr ⟨r, hget, hmem⟩)
    exact ⟨hnot, fun hactive => hnot ((h.clean sid r hget).active_mem i hactive)⟩

/-- An explicit call respects what was detached and deleted. -/
theorem respects_call (h : run.store.Owned) (hrespects : run.Respects) (op : SessionOp)
    (hstep : run.step (.call op) = some run') : run'.Respects := by
  cases hstep
  have hadds := op.step_adds h
  obtain ⟨hdetached, hdeleted⟩ := (respects_iff h).mp hrespects
  refine (respects_iff (op.step_keeps h).1).mpr ⟨fun i hi sid hlisted => ?_, fun sid hsid => ?_⟩
  · obtain ⟨hi, hkept⟩ := List.mem_filter.mp hi
    rcases List.mem_append.mp hi with hnew | hold
    · exact SessionOp.not_mem_listed_of_detaches h hnew sid hlisted
    · rcases hadds.listed sid i hlisted with hlisted | hadded
      · exact hdetached i hold sid hlisted
      · simp [hadded] at hkept
  · obtain ⟨hsid, hkept⟩ := List.mem_filter.mp hsid
    rcases List.mem_append.mp hsid with hnew | hold
    · exact SessionOp.get?_of_deletes h (Option.mem_toList.mp hnew)
    · by_contra hsome
      have hcreated := hadds.entries sid (hdeleted sid hold) hsome
      simp [hcreated] at hkept

/-- The names of a job are trimmed. -/
theorem JobSubject.named_spec {job : JobSubject} {sid iid : String}
    (h : job.named = some (sid, iid)) :
    (strip sid = sid ∧ sid ≠ "") ∧ strip iid = iid ∧ iid ≠ "" := by
  unfold JobSubject.named at h
  split at h
  · next named instanceId hnamed hinstance =>
    cases h
    obtain ⟨hs, hsne⟩ := Option.filter_eq_some_iff.mp hnamed
    obtain ⟨hi, hine⟩ := Option.filter_eq_some_iff.mp hinstance
    obtain ⟨text, -, rfl⟩ := Option.map_eq_some_iff.mp hs
    obtain ⟨text', -, rfl⟩ := Option.map_eq_some_iff.mp hi
    exact ⟨⟨strip_strip text, by simpa using hsne⟩, strip_strip text', by simpa using hine⟩
  · cases h

/-- A change of a job respects what was detached and deleted exactly when it is allowed. -/
theorem respects_jobChanged (h : run.store.Owned) (hrespects : run.Respects) {job : JobSubject}
    (hstep : run.step (.jobChanged job) = some run') :
    run'.Respects ↔ run.Allowed (.jobChanged job) run' := by
  cases hstep
  cases hnamed : job.named with
  | none =>
    have hstore : run.store.maybeAttach job = run.store := by
      unfold SessionStore.maybeAttach
      rw [hnamed]
    rw [hstore]
    refine ⟨fun _ sid iid hsome => ?_, fun _ => hrespects⟩
    cases hnamed.symm.trans hsome
  | some names =>
    obtain ⟨sid, iid⟩ := names
    obtain ⟨⟨hsid, hsne⟩, hiid, hine⟩ := JobSubject.named_spec hnamed
    have hstore : run.store.maybeAttach job = run.store.hookAttach sid iid := by
      unfold SessionStore.maybeAttach
      rw [hnamed]
    have hhook := h.hookAttach hsid hsne hiid hine
    obtain ⟨hdetached, hdeleted⟩ := (respects_iff h).mp hrespects
    rw [hstore]
    constructor
    · intro hafter named instanceId hsome
      cases hnamed.symm.trans hsome
      refine ⟨fun hmem => hhook.entries (hafter.deleted sid hmem), fun hmem => ?_⟩
      by_contra hopen
      have hlisted := hhook.attached hopen (hdetached iid hmem)
      exact ((respects_iff hhook.owned).mp hafter).1 iid hmem sid hlisted
    · intro hallowed
      obtain ⟨hkept, hclosed⟩ := hallowed sid iid hnamed
      by_cases hmem : iid ∈ run.detached
      · have hsame : run.store.hookAttach sid iid = run.store := by
          obtain ⟨r, hget, hstatus⟩ := hclosed hmem
          unfold SessionStore.hookAttach
          rw [h.get_eq, hget]
          exact h.attachInstance_closed ⟨r, hget, hstatus⟩ iid
        rw [hsame]
        exact hrespects
      · refine (respects_iff hhook.owned).mpr ⟨fun i hi sid' hlisted => ?_, fun sid' hdel => ?_⟩
        · rcases hhook.adds.listed sid' i hlisted with hold | hadded
          · exact hdetached i hi sid' hold
          · exact hmem (Option.some.inj hadded ▸ hi)
        · by_contra hsome
          have hcreated := hhook.adds.entries sid' (hdeleted sid' hdel) hsome
          exact hkept (Option.some.inj hcreated ▸ hdel)

/-- The owners are exact after every operation. -/
theorem owned_step (h : run.store.Owned) {op : OwnershipOp} (hstep : run.step op = some run') :
    run'.store.Owned := by
  cases op with
  | call op =>
    cases hstep
    exact (op.step_keeps h).1
  | jobChanged job =>
    cases hstep
    change (run.store.maybeAttach job).Owned
    unfold SessionStore.maybeAttach
    cases hnamed : job.named with
    | none => exact h
    | some names =>
      obtain ⟨⟨hsid, hsne⟩, hiid, hine⟩ := JobSubject.named_spec hnamed
      exact (h.hookAttach hsid hsne hiid hine).owned

/-- In every run of explicit calls and of jobs that are submitted or change their status, no detached
instance is attached or gets the focus and no deleted session is there again, after any operation,
exactly when no job names a deleted session and every job whose instance was detached names a session
that is closed. -/
theorem respects_run_iff (ops : List OwnershipOp) :
    AllSteps step (fun _ _ next => next.Respects) start ops ↔ AllSteps step Allowed start ops := by
  have hinv : start.store.Owned ∧ start.Respects :=
    ⟨SessionStore.empty_owned, ⟨fun _ hi => (by cases hi), fun _ hsid => (by cases hsid)⟩⟩
  refine allSteps_congr (fun run => run.store.Owned ∧ run.Respects)
    (fun run op next h hstep hok => ⟨owned_step h.1 hstep, hok⟩)
    (fun run op next h hstep => ?_) hinv
  cases op with
  | call op => exact ⟨fun _ => trivial, fun _ => respects_call h.1 h.2 op hstep⟩
  | jobChanged job => exact respects_jobChanged h.1 h.2 hstep

/-- An instance is attached and detached, and then its job changes its status. -/
theorem respects_run_fails : ¬ AllSteps step (fun _ _ next => next.Respects) start
    [.call (.openSession (some "s") .empty ""), .call (.attachInstance "s" "i"),
      .call (.detachInstance "s" "i"), .jobChanged ⟨some "s", some "i"⟩] := by
  intro h
  obtain ⟨-, h⟩ := h _ rfl
  obtain ⟨-, h⟩ := h _ rfl
  obtain ⟨-, h⟩ := h _ rfl
  obtain ⟨hrespects, -⟩ := h _ rfl
  obtain ⟨hnot, -⟩ := hrespects.detached "i" (by decide +kernel) "s" _ rfl
  exact hnot (by decide +kernel)

end OwnershipRun

end PalmEngine.Session
