import PalmEngine.Context.State
import PalmEngine.Lib.Dict
import PalmEngine.Lib.DistinctList
import PalmEngine.Lib.Strip
import PalmEngine.Work.Store

/-!
# The schedule registry

Interval schedules whose next fire times are stored. A tick goes over the index, enqueues a work
intent for every enabled schedule that is due, and stores the next fire time: the clock plus the
interval, which the arithmetic of dates rounds to microseconds and refuses outside its range.
-/

namespace PalmEngine.Work

open PalmEngine.Context (Value)
open PalmEngine.Lib

/-- A number rounded to the nearest integer, to the even one of two that are as near. -/
def roundHalfEven (x : ℚ) : ℤ :=
  if x - ⌊x⌋ < 1 / 2 then ⌊x⌋
  else if 1 / 2 < x - ⌊x⌋ then ⌊x⌋ + 1
  else if ⌊x⌋ % 2 = 0 then ⌊x⌋ else ⌊x⌋ + 1

/-- A float number of seconds. -/
inductive Seconds where
  | finite (q : ℚ)
  | infinite
  | negativeInfinite
  | nan
  deriving DecidableEq

/-- The number of microseconds of a finite interval. -/
def microseconds (q : ℚ) : ℤ := roundHalfEven (q * 1000000)

/-- The first and the last local time of a date, in microseconds from 1970. -/
def dateMin : ℤ := -62135596800000000
def dateMax : ℤ := 253402300799999999

/-- The time a tick is given: its instant and the offset of the local time from it. -/
structure Clock where
  instant : Instant
  offset : ℤ
  low : dateMin ≤ instant + offset
  high : instant + offset ≤ dateMax

/-- The errors of adding an interval to a date. -/
inductive DateError where
  | overflow
  | notANumber
  deriving DecidableEq, Repr

/-- The instant an interval after the clock. -/
def Clock.after (clock : Clock) : Seconds → Except DateError Instant
  | .finite q =>
    if dateMin ≤ clock.instant + clock.offset + microseconds q ∧
        clock.instant + clock.offset + microseconds q ≤ dateMax then
      .ok (clock.instant + microseconds q)
    else .error .overflow
  | .infinite | .negativeInfinite => .error .overflow
  | .nan => .error .notANumber

/-- A stored schedule. -/
structure ScheduleEntry where
  id : String
  flowId : String
  intervalSeconds : Option Seconds
  enabled : Option Bool
  payload : Dict String Value
  coalesceKey : String
  nextFireAt : Option Timestamp
  lastFireAt : Option Timestamp := none
  lastIntentId : Option String := none

namespace ScheduleEntry

/-- The interval of a tick: a minute where none is stored. -/
def interval (raw : ScheduleEntry) : Seconds :=
  match raw.intervalSeconds with
  | none => .finite 60
  | some (.finite q) => if q = 0 then .finite 60 else .finite q
  | some seconds => seconds

/-- The due time: the stored one, and the clock where it is missing or does not parse. -/
def due (raw : ScheduleEntry) (clock : Clock) : Instant :=
  match raw.nextFireAt with
  | some (.iso t) => t
  | some (.unreadable _) | none => clock.instant

/-- The intent a schedule enqueues, with the id drawn for it. -/
def intent (raw : ScheduleEntry) (sid iid : String) : WorkIntent (Dict String Value) where
  kind := "run_flow"
  target := raw.flowId
  id := iid
  payload := raw.payload.setDefault "trigger" (.str "schedule")
  coalesceKey := some (if raw.coalesceKey = "" then "schedule:" ++ sid else raw.coalesceKey)

/-- The entry stored after a firing. -/
def fired (raw : ScheduleEntry) (clock : Clock) (next : Instant) (iid : String) : ScheduleEntry :=
  { raw with
    nextFireAt := some (.iso next)
    lastFireAt := some (.iso clock.instant)
    lastIntentId := some iid }

end ScheduleEntry

/-- A stored timestamp that is not the empty text. -/
def presentTimestamp (t : Option Timestamp) : Option Timestamp :=
  t.filter (· ≠ .unreadable "")

/-- The stored schedules by id, the index, and the work store. -/
structure ScheduleRegistry where
  entries : Dict String ScheduleEntry
  index : DistinctList String
  work : WorkIntentStore (Dict String Value)

/-- The registry over an empty storage. -/
def ScheduleRegistry.empty : ScheduleRegistry := ⟨.empty, .empty, .empty⟩

/-- The arguments of a registration, and the time at which it is made. -/
structure Registration where
  scheduleId : String
  flowId : String
  intervalSeconds : Seconds
  enabled : Bool := true
  payload : Dict String Value := .empty
  coalesceKey : String := ""
  preserveNextFire : Bool := true
  now : Instant

namespace ScheduleRegistry

/-- The entry a registration stores over the one that is there. -/
def registered (r : Registration) (existing : Option ScheduleEntry) : ScheduleEntry where
  id := strip r.scheduleId
  flowId := r.flowId
  intervalSeconds := some r.intervalSeconds
  enabled := some r.enabled
  payload := r.payload
  coalesceKey :=
    if r.coalesceKey = "" then "schedule:" ++ strip r.scheduleId else r.coalesceKey
  nextFireAt :=
    match existing.bind fun raw => presentTimestamp raw.nextFireAt with
    | some t => if r.preserveNextFire then some t else some (.iso r.now)
    | none => some (.iso r.now)
  lastFireAt := existing.bind fun raw => presentTimestamp raw.lastFireAt

/-- Remove a schedule; whether it was there. -/
def remove (s : ScheduleRegistry) (scheduleId : String) : Bool × ScheduleRegistry :=
  ((s.entries.get? (strip scheduleId)).isSome,
    { s with
      entries := s.entries.erase (strip scheduleId)
      index := s.index.remove (strip scheduleId) })

/-- The entries of the index that are stored, in its order. -/
def listEntries (s : ScheduleRegistry) : List ScheduleEntry :=
  s.index.items.filterMap s.entries.get?

/-- The entry that a tick fires: an enabled one whose due time has come. -/
def dueEntry (s : ScheduleRegistry) (clock : Clock) (sid : String) : Option ScheduleEntry :=
  (s.entries.get? sid).filter fun raw =>
    raw.enabled.getD true && decide (raw.due clock ≤ clock.instant)

end ScheduleRegistry

/-- A firing: the schedule, the time it was due, and the id of the intent. -/
structure Firing where
  schedule : String
  due : Instant
  intentId : String
  deriving DecidableEq, Repr

/-- What a tick leaves: the registry, the firings in order, and the error it raised. -/
structure TickResult where
  registry : ScheduleRegistry
  firings : List Firing
  error : Option DateError

/-- What a tick returns: the ids of the intents, unless it raised. -/
def TickResult.returned (r : TickResult) : Except DateError (List String) :=
  match r.error with
  | none => .ok (r.firings.map Firing.intentId)
  | some e => .error e

namespace ScheduleRegistry

/-- The loop of a tick over the ids that were in the index when it began, with the id drawn for the
intent of each. -/
def tickLoop (clock : Clock) (limit : ℕ) (drawn : String → String) :
    ScheduleRegistry → List String → List Firing → TickResult
  | s, [], fired => ⟨s, fired, none⟩
  | s, sid :: rest, fired =>
    if limit ≤ fired.length then ⟨s, fired, none⟩
    else match s.dueEntry clock sid with
      | none => tickLoop clock limit drawn s rest fired
      | some raw =>
        let work := s.work.enqueue (raw.intent sid (drawn sid))
        let fired := fired ++ [⟨sid, raw.due clock, drawn sid⟩]
        match clock.after raw.interval with
        -- The intent is in the queue when the arithmetic raises.
        | .error e => ⟨{ s with work }, fired, some e⟩
        | .ok next =>
          let entries := s.entries.set sid (raw.fired clock next (drawn sid))
          tickLoop clock limit drawn { s with work, entries } rest fired

/-- Fire the due schedules in index order, up to the limit. -/
def tick (s : ScheduleRegistry) (clock : Clock) (limit : ℕ) (drawn : String → String) :
    TickResult :=
  tickLoop clock limit drawn s s.index.items []

/-- The schedules that are due and enabled, in index order. -/
def dueSchedules (s : ScheduleRegistry) (clock : Clock) : List String :=
  s.index.items.filter fun sid => (s.dueEntry clock sid).isSome

end ScheduleRegistry

end PalmEngine.Work
