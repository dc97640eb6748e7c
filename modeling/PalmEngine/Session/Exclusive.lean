import PalmEngine.Session.Plane

/-!
# Exclusive ownership of instances

Every call of the plane either leaves the store, or deletes a record, or writes a record that
lists only instances of its own session and perhaps one that nobody owns. So the reverse index
always names the one session that lists an instance, and a closed session stays closed until it
is deleted.
-/

namespace PalmEngine.Session

open PalmEngine.Lib PalmEngine.Events

/-- A change of a record that adds at most one instance: it keeps the record clean, its id, and
that it is closed. -/
structure SessionRecord.Revises (added : Option String) (r r' : SessionRecord) : Prop where
  clean : r'.Clean
  id_eq : r'.sessionId = r.sessionId
  closed : r.status = .closed → r'.status = .closed
  mem : ∀ i ∈ r'.instanceIds, i ∈ r.instanceIds ∨ added = some i

namespace SessionRecord.Clean

variable {r r' : SessionRecord} {i : String}

/-- A focus on an attached instance keeps a record clean. -/
theorem refocus (h : r.Clean) {active : Option String} (hactive : ∀ a ∈ active, a ∈ r.instanceIds) :
    Revises none r { r with activeInstanceId := active } :=
  ⟨⟨h.stripped, h.nodup, hactive⟩, rfl, id, fun _ hj => .inl hj⟩

/-- Attaching an instance to a record. -/
theorem attach (h : r.Clean) (hstrip : strip i = i) (hne : i ≠ "")
    (hattach : r.attach i = some r') : Revises (some i) r r' := by
  have hfocus (hi : i ∈ r.instanceIds) :
      Revises (some i) r { r with activeInstanceId := some i } :=
    have hrefocus : Revises none r { r with activeInstanceId := some i } :=
      h.refocus fun a ha => Option.some.inj ha ▸ hi
    ⟨hrefocus.clean, rfl, id, fun _ hj => .inl hj⟩
  unfold SessionRecord.attach at hattach
  split at hattach
  · rename_i hi
    split at hattach
    · cases hattach
      exact hfocus hi
    · split at hattach <;> cases hattach
      exact hfocus hi
  · rename_i hi
    cases hattach
    refine ⟨⟨fun j hj => ?_, ?_, ?_⟩, rfl, fun hclosed => ?_, fun j hj => ?_⟩
    · rcases List.mem_append.mp hj with hj | hj
      · exact h.stripped j hj
      · obtain rfl := List.mem_singleton.mp hj
        exact ⟨hstrip, hne⟩
    · exact h.nodup.append (List.nodup_singleton i) (by simpa using hi)
    · rintro _ ⟨rfl⟩
      simp
    · simp [hclosed]
    · rcases List.mem_append.mp hj with hj | hj
      · exact .inl hj
      · exact .inr (congrArg some (List.mem_singleton.mp hj).symm)

/-- Detaching an instance from a record. -/
theorem detach (h : r.Clean) (hdetach : r.detach i = some r') : Revises none r r' := by
  unfold SessionRecord.detach at hdetach
  split at hdetach
  · cases hdetach
  · cases hdetach
    refine ⟨⟨fun j hj => h.stripped j (List.mem_filter.mp hj).1, h.nodup.filter _, fun a ha => ?_⟩,
      rfl, id, fun j hj => .inl (List.mem_filter.mp hj).1⟩
    simp only at ha
    split at ha
    · cases ha
    · split at ha
      · exact List.mem_of_getLast? ha
      · rename_i hkept
        cases ha
        exact not_not.mp fun hnot => hkept (.inr hnot)

/-- Focusing a record on an attached instance. -/
theorem focus (h : r.Clean) (hi : i ∈ r.instanceIds) (hfocus : r.focus i = some r') :
    Revises none r r' := by
  unfold SessionRecord.focus at hfocus
  split at hfocus <;> cases hfocus
  exact h.refocus fun a ha => Option.some.inj ha ▸ hi

/-- Taking the focus off a record. -/
theorem unfocus (h : r.Clean) (hunfocus : r.unfocus = some r') : Revises none r r' := by
  unfold SessionRecord.unfocus at hunfocus
  split at hunfocus <;> cases hunfocus
  exact h.refocus fun a ha => (nomatch ha)

/-- Merging metadata into a record. -/
theorem mergeMetadata (h : r.Clean) {metadata : Payload}
    (hmerge : r.mergeMetadata metadata = some r') : Revises none r r' := by
  unfold SessionRecord.mergeMetadata at hmerge
  simp only at hmerge
  split at hmerge <;> cases hmerge
  exact ⟨⟨h.stripped, h.nodup, h.active_mem⟩, rfl, id, fun _ hj => .inl hj⟩

/-- Closing a record. -/
theorem close (h : r.Clean) (hclose : r.close = some r') : Revises none r r' := by
  unfold SessionRecord.close at hclose
  split at hclose <;> cases hclose
  exact ⟨⟨h.stripped, h.nodup, h.active_mem⟩, rfl, fun _ => rfl, fun _ hj => .inl hj⟩

end SessionRecord.Clean

namespace SessionStore

/-- The session is there and closed. -/
def IsClosed (s : SessionStore) (sid : String) : Prop :=
  ∃ r, s.entries.get? sid = some r ∧ r.status = .closed

/-- Owners are exact, and what was closed is closed. -/
structure Keeps (s s' : SessionStore) : Prop where
  owned : s'.Owned
  closed : ∀ sid, s.IsClosed sid → s'.IsClosed sid

variable {s : SessionStore} {r : SessionRecord} {sid : String}

/-- The records after writing one. -/
theorem entries_put (s : SessionStore) (r : SessionRecord) :
    (s.put r).entries = s.entries.set r.sessionId r := by
  simp [put, entries_foldl_setInstanceOwner, entries_foldl_clearInstanceOwner]

/-- Writing a changed record, to which at most an instance without another owner was added. -/
theorem Owned.putSome (h : s.Owned) (hget : s.entries.get? sid = some r) {added : Option String}
    (hadded : ∀ i ∈ added, ∀ owner, s.byInstance.get? i = some owner → owner = sid)
    {changed : Option SessionRecord} (hchanged : ∀ r' ∈ changed, SessionRecord.Revises added r r') :
    s.Keeps (s.putSome r changed).1 := by
  cases changed with
  | none => exact ⟨h, fun _ hclosed => hclosed⟩
  | some r' =>
    have hrevises := hchanged r' rfl
    have hid : r'.sessionId = sid := hrevises.id_eq.trans (s.id_eq sid r hget)
    refine ⟨h.put hrevises.clean fun i hi owner howner => ?_, fun sid' hclosed => ?_⟩
    · rw [hid]
      rcases hrevises.mem i hi with hold | hnew
      · exact Option.some.inj (howner.symm.trans (h.owner_of_mem hget hold))
      · exact hadded i hnew owner howner
    · obtain ⟨r₀, hget₀, hstatus⟩ := hclosed
      change (s.put r').IsClosed sid'
      unfold IsClosed
      rw [entries_put, hid]
      by_cases hsid : sid' = sid
      · subst hsid
        obtain rfl : r = r₀ := Option.some.inj (hget.symm.trans hget₀)
        exact ⟨r', Dict.get?_set_self _ _ _, hrevises.closed hstatus⟩
      · exact ⟨r₀, by rw [Dict.get?_set_ne _ _ hsid]; exact hget₀, hstatus⟩

/-- Writing the record of a session that was not there. -/
theorem Owned.putNew (h : s.Owned) (hget : s.entries.get? r.sessionId = none)
    (hids : r.instanceIds = []) (hactive : r.activeInstanceId = none) : s.Keeps (s.put r) := by
  have hclean : r.Clean := ⟨by simp [hids], by simp [hids], by simp [hactive]⟩
  refine ⟨h.put hclean (by simp [hids]), fun sid hclosed => ?_⟩
  obtain ⟨r₀, hget₀, hstatus⟩ := hclosed
  have hsid : sid ≠ r.sessionId := by
    rintro rfl
    cases hget.symm.trans hget₀
  exact ⟨r₀, by rw [entries_put, Dict.get?_set_ne _ _ hsid]; exact hget₀, hstatus⟩

/-- A required record is stored. -/
theorem Owned.get?_of_require (h : s.Owned) (hrequire : s.require sid = .ok r) :
    s.entries.get? sid = some r := by
  unfold require at hrequire
  rw [h.get_eq] at hrequire
  split at hrequire <;> cases hrequire
  assumption

/-- A record required to be open is stored. -/
theorem Owned.get?_of_requireOpen (h : s.Owned) (hrequire : s.requireOpen sid = .ok r) :
    s.entries.get? sid = some r := by
  unfold requireOpen at hrequire
  split at hrequire
  · cases hrequire
  · rename_i hstored
    split at hrequire <;> cases hrequire
    exact h.get?_of_require hstored

/-- A call that changes nothing keeps what holds. -/
theorem Owned.keeps_self (h : s.Owned) : s.Keeps s := ⟨h, fun _ hclosed => hclosed⟩

/-- Opening a session. -/
theorem Owned.openSession (h : s.Owned) (sessionId : Option String) (metadata : Payload)
    (fresh : String) : s.Keeps (s.after (s.openSession sessionId metadata fresh)) := by
  unfold SessionStore.openSession
  simp only [h.get_eq]
  split
  · split <;> exact h.keeps_self
  · exact h.putNew ‹_› rfl rfl

/-- Binding a session to a surface. -/
theorem Owned.bind (h : s.Owned) (sessionId : Option String) (create : Bool) (metadata : Payload)
    (surface : Option String) (fresh : String) :
    s.Keeps (s.after (s.bind sessionId create metadata surface fresh)) := by
  have hcreated (sid : Option String) (told : Payload) (surf : Option String) :
      s.Keeps (s.after ((s.openSession sid told fresh).map fun p =>
        (p.1, SessionBind.fromRecord p.2 true surf))) := by
    have hopen := h.openSession sid told fresh
    cases hstep : s.openSession sid told fresh with
    | error error => exact h.keeps_self
    | ok p =>
      rw [hstep] at hopen
      exact hopen
  unfold SessionStore.bind
  simp only [h.get_eq]
  split
  · split
    · exact hcreated none _ _
    · exact h.keeps_self
  · split
    · split
      · exact hcreated (some _) _ _
      · exact h.keeps_self
    · rename_i existing hget
      split
      · exact h.keeps_self
      · exact h.putSome hget (by simp) fun r' hr' => (h.clean _ _ hget).mergeMetadata hr'

/-- Attaching an instance to a session. -/
theorem Owned.attachInstance (h : s.Owned) (sid instanceId : String) :
    s.Keeps (s.after (s.attachInstance sid instanceId)) := by
  unfold SessionStore.attachInstance
  simp only
  split
  · exact h.keeps_self
  · rename_i hne
    split
    · exact h.keeps_self
    · rename_i r hrequire
      have hget := h.get?_of_requireOpen hrequire
      split
      · exact h.keeps_self
      · rename_i hfilter
        refine h.putSome hget (fun i hi owner howner => ?_) fun r' hr' =>
          (h.clean _ _ hget).attach (strip_strip instanceId) hne hr'
        obtain rfl : strip instanceId = i := Option.some.inj hi
        simp only [sessionIdForInstance, strip_strip, if_neg hne, howner] at hfilter
        have hsame : owner = r.sessionId := by simpa using hfilter
        exact hsame.trans (s.id_eq sid r hget)

/-- A call that changes the record of a session. -/
theorem Owned.map_require (h : s.Owned) (sid : String)
    {change : SessionRecord → Option SessionRecord}
    (hchange : ∀ r r', r.Clean → change r = some r' → SessionRecord.Revises none r r') :
    s.Keeps (s.after ((s.require sid).map fun r => s.putSome r (change r))) := by
  cases hrequire : s.require sid with
  | error error => exact h.keeps_self
  | ok r =>
    have hget := h.get?_of_require hrequire
    exact h.putSome hget (by simp) fun r' hr' => hchange r r' (h.clean _ _ hget) hr'

/-- Detaching an instance from a session. -/
theorem Owned.detachInstance (h : s.Owned) (sid instanceId : String) :
    s.Keeps (s.after (s.detachInstance sid instanceId)) := by
  unfold SessionStore.detachInstance
  simp only
  split
  · exact h.keeps_self
  · exact h.map_require sid fun r r' hclean hdetach => hclean.detach hdetach

/-- Focusing a session on an instance. -/
theorem Owned.setActiveInstance (h : s.Owned) (sid instanceId : String) :
    s.Keeps (s.after (s.setActiveInstance sid instanceId)) := by
  unfold SessionStore.setActiveInstance
  simp only
  split
  · exact h.keeps_self
  · split
    · exact h.keeps_self
    · rename_i r hrequire
      have hget := h.get?_of_requireOpen hrequire
      split
      · exact h.keeps_self
      · rename_i hmem
        exact h.putSome hget (by simp) fun r' hr' =>
          (h.clean _ _ hget).focus (not_not.mp hmem) hr'

/-- Taking the focus off the instances of a session. -/
theorem Owned.clearActiveInstance (h : s.Owned) (sid : String) :
    s.Keeps (s.after (s.clearActiveInstance sid)) := by
  unfold SessionStore.clearActiveInstance
  cases hrequire : s.requireOpen sid with
  | error error => exact h.keeps_self
  | ok r =>
    have hget := h.get?_of_requireOpen hrequire
    exact h.putSome hget (by simp) fun r' hr' => (h.clean _ _ hget).unfocus hr'

/-- Closing a session. -/
theorem Owned.close (h : s.Owned) (sid : String) : s.Keeps (s.after (s.close sid)) :=
  h.map_require sid fun _ _ hclean hclose => hclean.close hclose

/-- Deleting a session leaves the others as they are. -/
theorem isClosed_delete {sid sid' : String} (hclosed : s.IsClosed sid')
    (hne : sid' ≠ sid) : (s.delete sid).IsClosed sid' := by
  obtain ⟨r', hget', hstatus⟩ := hclosed
  refine ⟨r', ?_, hstatus⟩
  unfold SessionStore.delete
  split
  · exact hget'
  · simpa [entries_foldl_clearInstanceOwner, Dict.get?_erase, hne] using hget'

end SessionStore

/-- A call keeps owners exact, and what was closed is closed unless the call deletes it. -/
theorem SessionOp.step_keeps {s : SessionStore} (h : s.Owned) (op : SessionOp) :
    (op.step s).Owned ∧
      ∀ sid, s.IsClosed sid → op ≠ .delete sid → (op.step s).IsClosed sid := by
  have hkeeps {s' : SessionStore} (hk : s.Keeps s') :
      s'.Owned ∧ ∀ sid, s.IsClosed sid → op ≠ .delete sid → s'.IsClosed sid :=
    ⟨hk.owned, fun sid hclosed _ => hk.closed sid hclosed⟩
  cases op with
  | openSession sid metadata fresh => exact hkeeps (h.openSession sid metadata fresh)
  | bind sid create metadata surface fresh =>
    exact hkeeps (h.bind sid create metadata surface fresh)
  | attachInstance sid i => exact hkeeps (h.attachInstance sid i)
  | detachInstance sid i => exact hkeeps (h.detachInstance sid i)
  | setActiveInstance sid i => exact hkeeps (h.setActiveInstance sid i)
  | clearActiveInstance sid => exact hkeeps (h.clearActiveInstance sid)
  | close sid => exact hkeeps (h.close sid)
  | delete sid =>
    refine ⟨h.delete sid, fun sid' hclosed hne => SessionStore.isClosed_delete hclosed ?_⟩
    rintro rfl
    exact hne rfl

/-- What holds of a store: an instance is listed by at most one session, and by the one that the
reverse index names; no list repeats an instance; and a focus is on an instance of the list. -/
structure SessionStore.Exclusive (s : SessionStore) : Prop where
  unique : ∀ i sid r sid' r', s.entries.get? sid = some r → s.entries.get? sid' = some r' →
    i ∈ r.instanceIds → i ∈ r'.instanceIds → sid = sid'
  owner_iff : ∀ i sid, s.byInstance.get? i = some sid ↔
    ∃ r, s.entries.get? sid = some r ∧ i ∈ r.instanceIds
  nodup : ∀ sid r, s.entries.get? sid = some r → r.instanceIds.Nodup
  active_mem : ∀ sid r, s.entries.get? sid = some r → ∀ i ∈ r.activeInstanceId, i ∈ r.instanceIds

/-- Exact owners make ownership exclusive. -/
theorem SessionStore.Owned.exclusive {s : SessionStore} (h : s.Owned) : s.Exclusive where
  unique _ _ _ _ _ hget hget' hi hi' :=
    Option.some.inj ((h.owner_of_mem hget hi).symm.trans (h.owner_of_mem hget' hi'))
  owner_iff := h.owner_iff
  nodup sid r hget := (h.clean sid r hget).nodup
  active_mem sid r hget := (h.clean sid r hget).active_mem

/-- Owners are exact after any calls. -/
theorem SessionOp.owned_foldl {s : SessionStore} (h : s.Owned) (ops : List SessionOp) :
    (ops.foldl SessionOp.step s).Owned := by
  induction ops generalizing s with
  | nil => exact h
  | cons op ops ih => exact ih (op.step_keeps h).1

/-- A closed session is closed after any calls that do not delete it. -/
theorem SessionOp.isClosed_foldl {s : SessionStore} (h : s.Owned) {sid : String}
    (hclosed : s.IsClosed sid) {ops : List SessionOp} (hops : ∀ op ∈ ops, op ≠ .delete sid) :
    (ops.foldl SessionOp.step s).IsClosed sid := by
  induction ops generalizing s with
  | nil => exact hclosed
  | cons op ops ih =>
    have hstep := op.step_keeps h
    exact ih hstep.1 (hstep.2 sid hclosed (hops op List.mem_cons_self)) fun op' hop' =>
      hops op' (List.mem_cons_of_mem _ hop')

/-- After any calls from an empty store ownership is exclusive, and whatever calls come then, a
session that is closed stays closed as long as none of them deletes it. -/
theorem exclusive_run (ops : List SessionOp) :
    (ops.foldl SessionOp.step .empty).Exclusive ∧
      ∀ sid, (ops.foldl SessionOp.step .empty).IsClosed sid →
        ∀ later : List SessionOp, (∀ op ∈ later, op ≠ .delete sid) →
          ((ops ++ later).foldl SessionOp.step .empty).IsClosed sid := by
  have howned := SessionOp.owned_foldl SessionStore.empty_owned ops
  refine ⟨howned.exclusive, fun sid hclosed later hlater => ?_⟩
  rw [List.foldl_append]
  exact SessionOp.isClosed_foldl howned hclosed hlater

end PalmEngine.Session
