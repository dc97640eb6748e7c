import PalmEngine.Websocket.EventStream

/-!
# Catching up on a stream

A subscribe request reads the journal once, up to its limit, and attaches its handlers later. An
event that is published in between is in neither, and neither is one beyond the limit or one that
the filter passes by its context only. In every other run nothing is missed.
-/

namespace PalmEngine.Websocket

open PalmEngine.Lib PalmEngine.Events PalmEngine.Session

/-- What a read finds is stored. -/
theorem mem_readLoop {j : EventJournal} {eventTypes : Option (List String)}
    {remaining pos room : ℕ} {entry : JournalEntry}
    (h : entry ∈ j.readLoop eventTypes remaining pos room) :
    ∃ offset, j.entries.get? offset = some entry := by
  induction remaining generalizing pos room with
  | zero => cases h
  | succ remaining ih =>
    cases room with
    | zero => cases h
    | succ room =>
      simp only [EventJournal.readLoop] at h
      split at h
      · exact ih h
      · next found hfound =>
        split at h
        · rcases List.mem_cons.mp h with rfl | h
          · exact ⟨_, hfound⟩
          · exact ih h
        · exact ih h

/-- What a request reads is stored. -/
theorem SubscribeRequest.mem_catchUp {req : SubscribeRequest} {j : EventJournal}
    {entry : JournalEntry} (h : entry ∈ req.catchUp j) :
    ∃ offset, j.entries.get? offset = some entry := by
  unfold SubscribeRequest.catchUp at h
  split at h
  · exact mem_readLoop h
  · cases h

namespace EventsConnection

variable {c : EventsConnection} {sessions : Option SessionStore}

/-- The messages of a connection, on the wire and queued. -/
def messages (c : EventsConnection) : List StreamItem := c.wire ++ c.outbound

/-- Two connections have one filter, and what the first has queued the second has. -/
structure Keeps (c c' : EventsConnection) : Prop where
  types_eq : c'.types = c.types
  sessionId_eq : c'.sessionId = c.sessionId
  messages_subset : c.messages ⊆ c'.messages

/-- A connection keeps what it has. -/
theorem Keeps.refl (c : EventsConnection) : c.Keeps c := ⟨rfl, rfl, fun _ => id⟩

/-- One filter passes the same events. -/
theorem Keeps.accepts_eq {c' : EventsConnection} (h : c.Keeps c') (eventType : String)
    (payload : Payload) (context : Option EventContext) :
    c'.accepts sessions eventType payload context = c.accepts sessions eventType payload context := by
  unfold accepts
  rw [h.types_eq, h.sessionId_eq]

/-- Queuing a message keeps the others. -/
theorem keeps_put (c : EventsConnection) (item : StreamItem) : c.Keeps (c.put item) :=
  ⟨rfl, rfl, fun other hother => by
    rw [messages, put, ← List.append_assoc]
    exact List.mem_append_left _ hother⟩

/-- The message is queued. -/
theorem mem_put (c : EventsConnection) (item : StreamItem) : item ∈ (c.put item).messages :=
  List.mem_append_right _ (List.mem_append_right _ (List.mem_singleton_self _))

/-- The handler keeps the messages. -/
theorem keeps_onLive (event : Event) : c.Keeps (c.onLive sessions event) := by
  unfold onLive
  split
  · exact keeps_put c _
  · exact .refl c

/-- Queuing an entry keeps the messages. -/
theorem keeps_replay (entry : JournalEntry) : c.Keeps (c.replay sessions entry) := by
  unfold replay
  split
  · exact keeps_put c _
  · exact .refl c

/-- The writer keeps the messages. -/
theorem keeps_write {c' : EventsConnection} (h : c.write = some c') : c.Keeps c' := by
  unfold write at h
  split at h
  · cases h
  · next item rest hout =>
    cases h
    refine ⟨rfl, rfl, fun other hother => ?_⟩
    simpa [messages, hout] using hother

/-- The handler queues an event that passes the filter. -/
theorem onLive_delivers {p : Publication} (h : c.accepts sessions p.event.eventType p.event.payload
      p.event.context = true) :
    ∃ item ∈ (c.onLive sessions p.event).messages, item.Carries p := by
  rw [onLive, if_pos h]
  exact ⟨_, mem_put c _, rfl, rfl, .inl rfl⟩

/-- An entry whose payload passes the filter is queued. -/
theorem replay_delivers {p : Publication} {offset : ℕ} (h : c.accepts sessions p.event.eventType
      p.event.payload none = true) :
    ∃ item ∈ (c.replay sessions (p.request.entry offset)).messages, item.Carries p := by
  have hpasses : c.accepts sessions (p.request.entry offset).eventType
      (p.request.entry offset).payload none = true := h
  rw [replay, if_pos hpasses]
  exact ⟨_, mem_put c _, rfl, rfl, .inr rfl⟩

/-- An event that passes the filter has a type to attach a handler for. -/
theorem mem_watch {eventType : String} {payload : Payload} {context : Option EventContext}
    (h : c.accepts sessions eventType payload context = true) :
    eventType ∈ SubscribeProc.watch c := by
  have hallowed : eventType ∈ publicEventTypes ∧ c.types.all (fun types => eventType ∈ types) = true := by
    simp only [accepts, Bool.and_eq_true, decide_eq_true_eq] at h
    exact h.1
  rw [SubscribeProc.watch, List.mem_insertionSort, List.mem_dedup]
  cases htypes : c.types with
  | none => exact hallowed.1
  | some types => simpa [htypes] using hallowed.2

end EventsConnection

/-- The request is unattached only once it has read the journal. -/
theorem SubscribeProc.readTo_of_unattached {proc : SubscribeProc} {head : ℕ}
    (h : proc.unattached = some head) : proc.readTo = some head := by
  cases proc <;> cases h <;> rfl

namespace EventStream

variable {req : SubscribeRequest} {fresh : String} {s s' : EventStream}

/-- What has become of a publication since the journal was read: its event is delivered, or is among
the entries to be queued, or came later and still has a handler to call. -/
def Served (req : SubscribeRequest) (s : EventStream) (head : ℕ) (proc : PublishProc) : Prop :=
  ∀ p offset, proc.stored = some (p, offset) → s.Wanted req p offset →
    s.Delivered p ∨
    (p.request.entry offset ∈ s.subscribe.pending ∧
      s.host.conn.accepts s.host.sessions p.event.eventType p.event.payload none = true) ∨
    (head < offset ∧ proc.awaits)

/-- The types of the filter have handlers, or are about to get them. -/
def Attached (s : EventStream) : Prop :=
  match s.subscribe with
  | .attaching _ left => ∀ eventType ∈ SubscribeProc.watch s.host.conn,
      eventType ∈ s.host.conn.subs ∨ eventType ∈ left
  | .subscribed _ => ∀ eventType ∈ SubscribeProc.watch s.host.conn, eventType ∈ s.host.conn.subs
  | _ => True

/-- The invariant: publications are stored at their offsets, and since the journal was read none of
them has been missed. -/
structure Sound (req : SubscribeRequest) (s : EventStream) : Prop where
  offset_eq : ∀ offset entry, s.host.journal.entries.get? offset = some entry →
    entry.offset = offset
  stored : ∀ proc ∈ s.publishes, ∀ p offset, proc.stored = some (p, offset) →
    offset ≤ s.host.journal.seq ∧
      s.host.journal.entries.get? offset = some (p.request.entry offset)
  head_le : ∀ head ∈ s.subscribe.readTo, head ≤ s.host.journal.seq
  served : ∀ head ∈ s.subscribe.readTo, ∀ proc ∈ s.publishes, s.Served req head proc
  attached : s.Attached

/-- One state follows another with the same filter and at least the same messages. -/
structure Follows (s s' : EventStream) : Prop where
  sessions_eq : s'.host.sessions = s.host.sessions
  keeps : s.host.conn.Keeps s'.host.conn

/-- The same filter wants the same events. -/
theorem Follows.wanted_iff (h : s.Follows s') (p : Publication) (offset : ℕ) :
    s'.Wanted req p offset ↔ s.Wanted req p offset := by
  unfold Wanted StreamHost.passes
  rw [h.sessions_eq, h.keeps.accepts_eq]

/-- What is delivered stays so. -/
theorem Follows.delivered (h : s.Follows s') {p : Publication} (hp : s.Delivered p) :
    s'.Delivered p := by
  obtain ⟨item, hitem, hcarries⟩ := hp
  exact ⟨item, h.keeps.messages_subset hitem, hcarries⟩

/-- A publication stays served as long as the entries to be queued are delivered or stay. -/
theorem Served.follows {head : ℕ} {proc : PublishProc} (hserved : s.Served req head proc)
    (h : s.Follows s')
    (hpending : ∀ p offset, p.request.entry offset ∈ s.subscribe.pending →
      s.host.conn.accepts s.host.sessions p.event.eventType p.event.payload none = true →
        s'.Delivered p ∨ p.request.entry offset ∈ s'.subscribe.pending) :
    s'.Served req head proc := by
  intro p offset hstored hwanted
  rcases hserved p offset hstored ((h.wanted_iff p offset).mp hwanted) with
    hdelivered | ⟨hmem, haccepts⟩ | hawaits
  · exact .inl (h.delivered hdelivered)
  · have haccepts' : s'.host.conn.accepts s'.host.sessions p.event.eventType p.event.payload none =
        true := by
      rw [h.sessions_eq, h.keeps.accepts_eq]
      exact haccepts
    exact (hpending p offset hmem haccepts).imp_right fun hmem' => .inl ⟨hmem', haccepts'⟩
  · exact .inr (.inr hawaits)

/-- A turn of a publication keeps the messages and the filter. -/
theorem keeps_publish {h h' : StreamHost} {proc proc' : PublishProc}
    (hmove : PublishProc.move h proc = some (h', proc')) :
    h'.sessions = h.sessions ∧ h.conn.Keeps h'.conn ∧ h'.conn.subs = h.conn.subs ∧
      h.journal.seq ≤ h'.journal.seq := by
  cases proc with
  | start p =>
    simp only [PublishProc.move] at hmove
    split at hmove
    · cases hmove
      exact ⟨rfl, .refl _, rfl, Nat.le_succ _⟩
    · cases hmove
      exact ⟨rfl, .refl _, rfl, le_rfl⟩
  | appended p offset =>
    cases hmove
    exact ⟨rfl, .refl _, rfl, le_rfl⟩
  | dispatching p offset left =>
    cases left with
    | zero =>
      cases hmove
      exact ⟨rfl, .refl _, rfl, le_rfl⟩
    | succ left =>
      cases hmove
      refine ⟨rfl, EventsConnection.keeps_onLive p.event, ?_, le_rfl⟩
      simp only [EventsConnection.onLive]
      split <;> rfl
  | finished p offset => cases hmove

/-- What a turn of a publication stores: its own entry at the next offset, or nothing. -/
theorem stored_publish {h h' : StreamHost} {proc proc' : PublishProc}
    (hmove : PublishProc.move h proc = some (h', proc')) :
    (h'.journal = h.journal ∧ proc'.stored = proc.stored) ∨
    ∃ p, proc = .start p ∧ proc' = .appended p (some (h.journal.seq + 1)) ∧
      h'.journal = h.journal.append p.request := by
  cases proc with
  | start p =>
    simp only [PublishProc.move] at hmove
    split at hmove
    · cases hmove
      exact .inr ⟨p, rfl, rfl, rfl⟩
    · cases hmove
      exact .inl ⟨rfl, rfl⟩
  | appended p offset =>
    cases hmove
    exact .inl ⟨rfl, rfl⟩
  | dispatching p offset left => cases left <;> cases hmove <;> exact .inl ⟨rfl, rfl⟩
  | finished p offset => cases hmove

/-- A turn of a publication keeps what is stored. -/
theorem Sound.stored_publish (h : s.Sound req) {i : ℕ} {host : StreamHost}
    {proc proc' : PublishProc} (hproc : s.publishes[i]? = some proc)
    (hmove : PublishProc.move s.host proc = some (host, proc')) :
    (∀ offset entry, host.journal.entries.get? offset = some entry → entry.offset = offset) ∧
    ∀ r ∈ s.publishes.set i proc', ∀ p offset, r.stored = some (p, offset) →
      offset ≤ host.journal.seq ∧
        host.journal.entries.get? offset = some (p.request.entry offset) := by
  rcases EventStream.stored_publish hmove with ⟨hjournal, hstored⟩ | ⟨p, rfl, rfl, hjournal⟩
  · rw [hjournal]
    refine ⟨h.offset_eq, fun r hr => ?_⟩
    rcases Pool.mem_set_cases hr with rfl | hr
    · rw [hstored]
      exact h.stored proc (List.mem_of_getElem? hproc)
    · exact h.stored r hr
  · have hset : host.journal.entries =
        s.host.journal.entries.set (s.host.journal.seq + 1)
          (p.request.entry (s.host.journal.seq + 1)) := by rw [hjournal]; rfl
    have hseq : host.journal.seq = s.host.journal.seq + 1 := by rw [hjournal]; rfl
    rw [hset, hseq]
    constructor
    · intro offset entry hentry
      by_cases heq : offset = s.host.journal.seq + 1
      · subst heq
        rw [Dict.get?_set_self] at hentry
        exact Option.some.inj hentry ▸ rfl
      · rw [Dict.get?_set_ne _ _ heq] at hentry
        exact h.offset_eq offset entry hentry
    · intro r hr q offset hstored
      rcases Pool.mem_set_cases hr with rfl | hr
      · cases hstored
        exact ⟨le_rfl, Dict.get?_set_self _ _ _⟩
      · obtain ⟨hle, hentry⟩ := h.stored r hr q offset hstored
        refine ⟨by omega, ?_⟩
        rw [Dict.get?_set_ne _ _ (by omega)]
        exact hentry

/-- Once the journal is read, the types of the filter have handlers or the request is unattached. -/
theorem Attached.mem_subs (h : s.Attached) {head : ℕ} (hhead : s.subscribe.readTo = some head)
    (hunattached : s.subscribe.unattached = none) {eventType : String} {payload : Payload}
    {context : Option EventContext}
    (haccepts : s.host.conn.accepts s.host.sessions eventType payload context = true) :
    eventType ∈ s.host.conn.subs := by
  unfold Attached at h
  cases hsubscribe : s.subscribe with
  | subscribed head =>
    rw [hsubscribe] at h
    exact h eventType (EventsConnection.mem_watch haccepts)
  | start | typesSet | sessionSet | refused =>
    rw [hsubscribe] at hhead
    cases hhead
  | replaying _ _ | detaching _ | attaching _ _ =>
    rw [hsubscribe] at hunattached
    cases hunattached

/-- A publication that takes its turn stays served. -/
theorem Sound.served_publish (h : s.Sound req) {i : ℕ} {host : StreamHost}
    {proc proc' : PublishProc} (hproc : s.publishes[i]? = some proc)
    (hmove : PublishProc.move s.host proc = some (host, proc'))
    (hok : s.FindsHandler req proc) {head : ℕ} (hhead : head ∈ s.subscribe.readTo) :
    Served req ⟨host, s.publishes.set i proc', s.subscribe⟩ head proc' := by
  obtain ⟨hsessions, hkeeps, -, -⟩ := keeps_publish hmove
  have hfollows : s.Follows ⟨host, s.publishes.set i proc', s.subscribe⟩ := ⟨hsessions, hkeeps⟩
  have hbefore : Served req ⟨host, s.publishes.set i proc', s.subscribe⟩ head proc :=
    (h.served head hhead proc (List.mem_of_getElem? hproc)).follows hfollows
      fun _ _ hpending _ => .inr hpending
  intro p offset hstored hwanted
  cases proc with
  | start q =>
    simp only [PublishProc.move] at hmove
    have hle := h.head_le head hhead
    split at hmove
    · cases hmove
      cases hstored
      exact .inr (.inr ⟨by omega, rfl⟩)
    · cases hmove
      cases hstored
  | appended q stored =>
    cases hmove
    rcases hbefore p offset hstored hwanted with hdelivered | hpending | ⟨hlt, -⟩
    · exact .inl hdelivered
    · exact .inr (.inl hpending)
    · cases stored with
      | none => cases hstored
      | some stored =>
        cases hstored
        have hwanted' : s.Wanted req p offset := (hfollows.wanted_iff p offset).mp hwanted
        have hmem : p.event.eventType ∈ s.host.conn.subs := by
          cases hunattached : s.subscribe.unattached with
          | none => exact h.attached.mem_subs hhead hunattached hwanted'.2
          | some first =>
            have hfirst := SubscribeProc.readTo_of_unattached hunattached
            obtain rfl : head = first := Option.some.inj (hhead.symm.trans hfirst)
            exact hok head hunattached hlt hwanted'
        exact .inr (.inr ⟨hlt, decide_eq_true (List.count_pos_iff.mpr hmem)⟩)
  | dispatching q stored left =>
    cases left with
    | zero =>
      cases hmove
      rcases hbefore p offset hstored hwanted with hdelivered | hpending | ⟨-, hawaits⟩
      · exact .inl hdelivered
      · exact .inr (.inl hpending)
      · cases hawaits
    | succ left =>
      cases hmove
      obtain ⟨_, -, heq⟩ := Option.map_eq_some_iff.mp hstored
      cases heq
      exact .inl (EventsConnection.onLive_delivers ((hfollows.wanted_iff p offset).mp hwanted).2)
  | finished q stored => cases hmove

/-- A turn of a publication that meets the condition keeps the invariant. -/
theorem Sound.publish (h : s.Sound req) {i : ℕ} {next : Pool StreamHost PublishProc}
    (hstep : s.publishPool.step PublishProc.move i = some next)
    (hok : ∀ proc ∈ s.publishes[i]?, s.FindsHandler req proc) :
    Sound req ⟨next.shared, next.procs, s.subscribe⟩ := by
  obtain ⟨proc, host, proc', hproc, hmove, rfl⟩ := Pool.step_cases hstep
  have hmove : PublishProc.move s.host proc = some (host, proc') := hmove
  obtain ⟨hsessions, hkeeps, hsubs, hseq⟩ := keeps_publish hmove
  have hfollows : s.Follows ⟨host, s.publishes.set i proc', s.subscribe⟩ := ⟨hsessions, hkeeps⟩
  obtain ⟨hoffset, hstored⟩ := h.stored_publish hproc hmove
  refine ⟨hoffset, hstored, fun head hhead => (h.head_le head hhead).trans hseq, ?_, ?_⟩
  · intro head hhead r hr
    rcases Pool.mem_set_cases hr with rfl | hr
    · exact h.served_publish hproc hmove (hok proc hproc) hhead
    · exact (h.served head hhead r hr).follows hfollows fun _ _ hpending _ => .inr hpending
  · have hwatch : SubscribeProc.watch host.conn = SubscribeProc.watch s.host.conn := by
      unfold SubscribeProc.watch
      rw [hkeeps.types_eq]
    have hattached := h.attached
    unfold Attached at hattached ⊢
    rw [hwatch, hsubs]
    exact hattached

/-- A turn of the request after its reading keeps the invariant, if it delivers the entries that are
no longer to be queued and keeps the types that handlers are attached for. -/
theorem Sound.subscribe_after (h : s.Sound req) {conn : EventsConnection} {proc : SubscribeProc}
    (hkeeps : s.host.conn.Keeps conn) (hread : proc.readTo = s.subscribe.readTo)
    (hpending : ∀ p offset, p.request.entry offset ∈ s.subscribe.pending →
      s.host.conn.accepts s.host.sessions p.event.eventType p.event.payload none = true →
        (∃ item ∈ conn.messages, item.Carries p) ∨ p.request.entry offset ∈ proc.pending)
    (hattached : Attached ⟨{ s.host with conn := conn }, s.publishes, proc⟩) :
    Sound req ⟨{ s.host with conn := conn }, s.publishes, proc⟩ := by
  have hfollows : s.Follows ⟨{ s.host with conn := conn }, s.publishes, proc⟩ := ⟨rfl, hkeeps⟩
  refine ⟨h.offset_eq, h.stored, fun head hhead => h.head_le head (hread ▸ hhead),
    fun head hhead r hr => ?_, hattached⟩
  exact (h.served head (hread ▸ hhead) r hr).follows hfollows hpending

/-- The request reads the journal, and finds what is wanted. -/
theorem Sound.read (h : s.Sound req) (hok : s.ReadsWanted req) :
    Sound req ⟨s.host, s.publishes,
      .replaying s.host.journal.seq (req.catchUp s.host.journal)⟩ := by
  refine ⟨h.offset_eq, h.stored, fun head hhead => ?_, fun head _ proc hproc => ?_, trivial⟩
  · cases hhead
    exact le_rfl
  · intro p offset hstored hwanted
    obtain ⟨hoffset, haccepts⟩ := hok proc hproc (p, offset) hstored hwanted
    obtain ⟨entry, hentry, heq⟩ := List.mem_map.mp hoffset
    obtain ⟨found, hfound⟩ := SubscribeRequest.mem_catchUp hentry
    have hat : found = offset := (h.offset_eq found entry hfound).symm.trans heq
    obtain ⟨-, hget⟩ := h.stored proc hproc p offset hstored
    obtain rfl : entry = p.request.entry offset := by
      rw [hat, hget] at hfound
      exact (Option.some.inj hfound).symm
    exact .inr (.inl ⟨hentry, haccepts⟩)

/-- A turn of the request that meets the condition keeps the invariant. -/
theorem Sound.subscribe (h : s.Sound req) {host : StreamHost} {proc : SubscribeProc}
    (hmove : s.subscribe.move req fresh s.host = some (host, proc))
    (hok : s.subscribe.reads → s.ReadsWanted req) : Sound req ⟨host, s.publishes, proc⟩ := by
  -- Before the reading nothing is owed.
  have hbefore : proc.readTo = none → host.journal = s.host.journal →
      Sound req ⟨host, s.publishes, proc⟩ := by
    intro hread hjournal
    refine ⟨hjournal ▸ h.offset_eq, hjournal ▸ h.stored, fun head hhead => ?_,
      fun head hhead => ?_, ?_⟩
    · cases hread.symm.trans hhead
    · cases hread.symm.trans hhead
    · cases proc <;> trivial
  have hattached := h.attached
  cases hsubscribe : s.subscribe with
  | start =>
    rw [hsubscribe] at hmove
    simp only [SubscribeProc.move] at hmove
    split at hmove <;> cases hmove <;> exact hbefore rfl rfl
  | typesSet =>
    rw [hsubscribe] at hmove
    simp only [SubscribeProc.move] at hmove
    split at hmove <;> cases hmove <;> exact hbefore rfl rfl
  | sessionSet =>
    rw [hsubscribe] at hmove hok
    cases hmove
    exact h.read (hok rfl)
  | replaying head left =>
    rw [hsubscribe] at hmove
    cases left with
    | nil =>
      cases hmove
      refine h.subscribe_after (.refl _) (congrArg SubscribeProc.readTo hsubscribe).symm (fun p offset hmem => ?_) trivial
      rw [hsubscribe] at hmem
      cases hmem
    | cons entry left =>
      cases hmove
      refine h.subscribe_after (EventsConnection.keeps_replay entry) (congrArg SubscribeProc.readTo hsubscribe).symm
        (fun p offset hmem haccepts => ?_) trivial
      rw [hsubscribe] at hmem
      rcases List.mem_cons.mp hmem with rfl | hmem
      · exact .inl (EventsConnection.replay_delivers haccepts)
      · exact .inr hmem
  | detaching head =>
    rw [hsubscribe] at hmove
    simp only [SubscribeProc.move] at hmove
    split at hmove
    · cases hmove
      refine h.subscribe_after (.refl _) (congrArg SubscribeProc.readTo hsubscribe).symm (fun p offset hmem => ?_)
        fun eventType hmem => .inr hmem
      rw [hsubscribe] at hmem
      cases hmem
    · cases hmove
      refine h.subscribe_after ⟨rfl, rfl, fun _ => id⟩ (congrArg SubscribeProc.readTo hsubscribe).symm
        (fun p offset hmem => ?_) trivial
      rw [hsubscribe] at hmem
      cases hmem
  | attaching head left =>
    rw [hsubscribe] at hmove
    unfold Attached at hattached
    rw [hsubscribe] at hattached
    cases left with
    | nil =>
      cases hmove
      refine h.subscribe_after (.refl _) (congrArg SubscribeProc.readTo hsubscribe).symm (fun p offset hmem => ?_)
        fun eventType hmem => (hattached eventType hmem).resolve_right List.not_mem_nil
      rw [hsubscribe] at hmem
      cases hmem
    | cons first left =>
      cases hmove
      refine h.subscribe_after ⟨rfl, rfl, fun _ => id⟩ (congrArg SubscribeProc.readTo hsubscribe).symm
        (fun p offset hmem => ?_) fun eventType hmem => ?_
      · rw [hsubscribe] at hmem
        cases hmem
      · rcases hattached eventType hmem with hsubs | hleft
        · exact .inl (List.mem_append_left _ hsubs)
        · rcases List.mem_cons.mp hleft with rfl | hleft
          · exact .inl (List.mem_append_right _ (List.mem_singleton_self _))
          · exact .inr hleft
  | subscribed head =>
    rw [hsubscribe] at hmove
    cases hmove
  | refused =>
    rw [hsubscribe] at hmove
    cases hmove

/-- A turn that meets the condition keeps the invariant. -/
theorem Sound.step {turn : StreamTurn} (h : s.Sound req) (hstep : s.step req fresh turn = some s')
    (hok : s.Covered req turn s') : s'.Sound req := by
  cases turn with
  | publish i =>
    obtain ⟨next, hnext, rfl⟩ := Option.map_eq_some_iff.mp hstep
    exact h.publish hnext hok
  | subscribe =>
    obtain ⟨⟨host, proc⟩, hmove, rfl⟩ := Option.map_eq_some_iff.mp hstep
    exact h.subscribe hmove hok
  | write =>
    obtain ⟨conn, hwrite, rfl⟩ := Option.map_eq_some_iff.mp hstep
    have hkeeps := EventsConnection.keeps_write hwrite
    refine h.subscribe_after hkeeps rfl (fun _ _ hmem _ => .inr hmem) ?_
    have hattached := h.attached
    unfold EventsConnection.write at hwrite
    split at hwrite <;> cases hwrite
    exact hattached

/-- At the start nothing is owed. -/
theorem Starts.sound (h : s.Starts) : s.Sound req where
  offset_eq := h.offset_eq
  stored proc hproc p offset hstored := by
    rcases h.publishes proc hproc with ⟨q, rfl⟩ | ⟨q, o, rfl, ho⟩
    · cases hstored
    · obtain ⟨found, rfl, heq⟩ := Option.map_eq_some_iff.mp hstored
      cases heq
      exact ho offset rfl
  head_le head hhead := by
    rw [h.subscribe_eq] at hhead
    cases hhead
  served head hhead := by
    rw [h.subscribe_eq] at hhead
    cases hhead
  attached := by
    unfold Attached
    rw [h.subscribe_eq]
    trivial

/-- A connection subscribes while any number of publications take turns with the request, from any
journal and any earlier subscription. If the request reads every entry that is wanted (within its
limit, and told by its payload), and no wanted event that came after the reading looks up its
handlers before they are attached, then every wanted event whose publication has ended is queued for
the connection or on the wire. -/
theorem catchesUp_run {turns : List StreamTurn} (hstart : s.Starts)
    (hok : AllSteps (step req fresh) (Covered req) s turns)
    (hrun : runSteps (step req fresh) s turns = some s') {head : ℕ}
    (hdone : s'.subscribe = .subscribed head) : s'.CatchesUp req := by
  have hsound : s'.Sound req :=
    invariant_of_allSteps (fun _ _ _ h hstep hok => Sound.step h hstep hok) hstart.sound hok hrun
  intro p offset hproc hwanted
  have hhead : head ∈ s'.subscribe.readTo := by
    rw [hdone]
    rfl
  rcases hsound.served head hhead _ hproc p offset rfl hwanted with
    hdelivered | ⟨hpending, -⟩ | ⟨-, hawaits⟩
  · exact hdelivered
  · rw [hdone] at hpending
    cases hpending
  · cases hawaits

/-- A connection without a filter and with an empty journal, and one publication. -/
def oneCompletion : EventStream where
  host := ⟨.empty, none, ⟨none, none, [], [], []⟩⟩
  publishes := [.start ⟨.bare "job.completed" "a", "", ""⟩]
  subscribe := .start

/-- A request for completions from the beginning. -/
def completionsRequest : SubscribeRequest := ⟨some ["job.completed"], none, .int 0, .null⟩

/-- Nothing has begun. -/
theorem oneCompletion_starts : oneCompletion.Starts where
  subscribe_eq := rfl
  offset_eq offset entry hentry := by cases hentry
  publishes proc hproc := .inl ⟨_, List.mem_singleton.mp hproc⟩

/-- The event is published before the journal is read, and the writer sends it. -/
theorem catchesUp_run_before : ∃ s', runSteps (step completionsRequest "") oneCompletion
    [.publish 0, .publish 0, .publish 0, .subscribe, .subscribe, .subscribe, .subscribe, .write,
      .subscribe, .subscribe, .subscribe, .subscribe] = some s' ∧ s'.CatchesUp completionsRequest := by
  have hrun : runSteps (step completionsRequest "") oneCompletion
    [.publish 0, .publish 0, .publish 0, .subscribe, .subscribe, .subscribe, .subscribe, .write,
      .subscribe, .subscribe, .subscribe, .subscribe] = some _ := rfl
  refine ⟨_, hrun, catchesUp_run oneCompletion_starts ?_ hrun rfl⟩
  decide +kernel

/-- The event is published between the reading of the journal and the attaching of the handler. -/
theorem catchesUp_run_fails : ∃ s' head, runSteps (step completionsRequest "") oneCompletion
    [.subscribe, .subscribe, .subscribe, .publish 0, .publish 0, .publish 0, .subscribe, .subscribe,
      .subscribe, .subscribe] = some s' ∧ s'.subscribe = .subscribed head ∧
    ¬ s'.CatchesUp completionsRequest := by
  refine ⟨_, _, rfl, rfl, fun h => ?_⟩
  obtain ⟨item, hitem, -⟩ := h _ 1 List.mem_cons_self (by decide +kernel)
  cases hitem

end EventStream

end PalmEngine.Websocket
