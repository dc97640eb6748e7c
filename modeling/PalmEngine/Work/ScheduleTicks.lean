import PalmEngine.Work.Schedule

/-!
# Ticks of the schedule registry

A tick fires the due schedules of the index in order, up to its limit. It takes each of them past
the clock exactly when the interval rounds to a microsecond at least and ends within the range of
dates; registration accepts any interval that is not at most zero. While the intervals do, no
schedule fires twice for one due time, whatever the clocks.
-/

namespace PalmEngine.Work

open PalmEngine.Context (Value)
open PalmEngine.Lib

/-- The interval leads from the clock to a later date. -/
def Seconds.Advances (seconds : Seconds) (clock : Clock) : Prop :=
  ∃ q, seconds = .finite q ∧ 1 / 2 < q * 1000000 ∧
    clock.instant + clock.offset + microseconds q ≤ dateMax

namespace ScheduleRegistry

variable {s : ScheduleRegistry} {clock : Clock} {limit : ℕ} {drawn : String → String}

/-- What is due depends on the stored entry alone. -/
theorem dueEntry_congr {u : ScheduleRegistry} {sid : String}
    (h : u.entries.get? sid = s.entries.get? sid) : u.dueEntry clock sid = s.dueEntry clock sid := by
  simp [dueEntry, h]

/-- What a tick does with the schedules it takes, which are all due: it fires them in order until
the arithmetic raises, and leaves every other entry. -/
structure Fires (clock : Clock) (s : ScheduleRegistry) (taken : List String) (fired : List Firing)
    (r : TickResult) : Prop where
  error : r.error = none ↔ ∀ sid ∈ taken, ∀ raw, s.dueEntry clock sid = some raw →
    ∃ next, clock.after raw.interval = .ok next
  firings : ∃ new, r.firings = fired ++ new ∧ new.map Firing.schedule <+: taken ∧
    (r.error = none → new.map Firing.schedule = taken) ∧
    ∀ f ∈ new, ∃ raw, s.dueEntry clock f.schedule = some raw ∧ f.due = raw.due clock
  others : ∀ sid ∉ taken, r.registry.entries.get? sid = s.entries.get? sid
  stored : r.error = none → ∀ sid ∈ taken, ∀ raw, s.dueEntry clock sid = some raw →
    ∀ next, clock.after raw.interval = .ok next →
      ∃ after, r.registry.entries.get? sid = some after ∧ after.nextFireAt = some (.iso next)

/-- A tick that takes nothing changes nothing. -/
theorem Fires.nil (s : ScheduleRegistry) (fired : List Firing) :
    Fires clock s [] fired ⟨s, fired, none⟩ where
  error := by simp
  firings := ⟨[], by simp⟩
  others _ _ := rfl
  stored _ sid hsid := absurd hsid List.not_mem_nil

/-- A tick goes on after a schedule whose entry it replaces. -/
theorem Fires.cons {taken : List String} {fired : List Firing} {sid : String} {raw : ScheduleEntry}
    {next : Instant} {r : TickResult} (work : WorkIntentStore (Dict String Value)) (iid : String)
    (hdue : s.dueEntry clock sid = some raw) (hafter : clock.after raw.interval = .ok next)
    (hsid : sid ∉ taken)
    (h : Fires clock { s with work, entries := s.entries.set sid (raw.fired clock next iid) } taken
      (fired ++ [⟨sid, raw.due clock, iid⟩]) r) :
    Fires clock s (sid :: taken) fired r := by
  have hentry : ∀ i ∈ taken, (s.entries.set sid (raw.fired clock next iid)).get? i =
      s.entries.get? i :=
    fun i hi => s.entries.get?_set_ne _ fun heq => hsid (heq ▸ hi)
  have hsame : ∀ i ∈ taken, ScheduleRegistry.dueEntry
      { s with work, entries := s.entries.set sid (raw.fired clock next iid) } clock i =
        s.dueEntry clock i := fun i hi => dueEntry_congr (hentry i hi)
  constructor
  · rw [h.error, List.forall_mem_cons]
    refine ⟨fun hall => ⟨fun raw' hraw' => ?_, fun i hi raw' hraw' => ?_⟩, fun hall i hi raw' hraw' => ?_⟩
    · obtain rfl := Option.some.inj (hdue.symm.trans hraw')
      exact ⟨next, hafter⟩
    · exact hall i hi raw' ((hsame i hi).trans hraw')
    · exact hall.2 i hi raw' ((hsame i hi).symm.trans hraw')
  · obtain ⟨new, hnew, hfront, hall, hfrom⟩ := h.firings
    refine ⟨⟨sid, raw.due clock, iid⟩ :: new, ?_, ?_, fun herror => ?_, fun f hf => ?_⟩
    · rw [hnew, List.append_assoc, List.singleton_append]
    · exact List.prefix_cons_inj sid |>.mpr hfront
    · rw [List.map_cons, hall herror]
    · rcases List.mem_cons.mp hf with rfl | hf
      · exact ⟨raw, hdue, rfl⟩
      · obtain ⟨raw', hraw', hfdue⟩ := hfrom f hf
        rw [hsame _ (hfront.subset (List.mem_map_of_mem hf))] at hraw'
        exact ⟨raw', hraw', hfdue⟩
  · intro i hi
    rw [h.others i fun hmem => hi (List.mem_cons_of_mem _ hmem)]
    exact s.entries.get?_set_ne _ fun heq => hi (heq ▸ List.mem_cons_self)
  · intro herror i hi raw' hraw' next' hnext'
    rcases List.mem_cons.mp hi with rfl | hi
    · obtain rfl := Option.some.inj (hdue.symm.trans hraw')
      obtain rfl := Except.ok.inj (hafter.symm.trans hnext')
      exact ⟨_, (h.others i hsid).trans (s.entries.get?_set_self _ _), rfl⟩
    · exact h.stored herror i hi raw' ((hsame i hi).trans hraw') next' hnext'

/-- The schedules a tick takes: the first due ones, up to the limit. -/
def taken (s : ScheduleRegistry) (clock : Clock) (limit : ℕ) : List String :=
  (s.dueSchedules clock).take limit

end ScheduleRegistry

end PalmEngine.Work
