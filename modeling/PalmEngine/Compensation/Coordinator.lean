import PalmEngine.Lib.Dict
import PalmEngine.Lib.DistinctList

/-!
# The compensation coordinator

A commit that fails is compensated: the handler of its commit hook runs, and the handlers of the
resources recorded on it. The coordinator takes the recorded references as they are listed, or
else the distinct keys of the recorded invocations. What a handler does at each turn, and whether
the events of the turn are published without raising, is up to the environment.
-/

namespace PalmEngine.Compensation

open PalmEngine.Lib

/-- The outcome of a compensation handler. -/
structure CompensationResult (D : Type) where
  ok : Bool
  data : Option D := none
  error : Option String := none

/-- The outcome of a handler that failed. -/
def CompensationResult.failure {D : Type} (message : String) : CompensationResult D :=
  { ok := false, error := some message }

/-- What a handler does: it returns a result, or raises. -/
inductive HandlerOutcome (D : Type) where
  | returned (result : CompensationResult D)
  | raised (text : String)

/-- The result of running a handler: what it raises is a failure. -/
def HandlerOutcome.result {D : Type} : HandlerOutcome D → CompensationResult D
  | .returned result => result
  | .raised text => .failure text

/-- The registered handlers, by commit hook and by resource. -/
structure CompensationRegistry (H : Type) where
  byHook : Dict String H := .empty
  byResource : Dict String H := .empty

namespace CompensationRegistry

variable {H : Type}

/-- There is a handler for the commit hook. -/
def hasCommitHook (reg : CompensationRegistry H) (hook : String) : Bool :=
  (reg.byHook.get? hook).isSome

/-- There is a handler for the resource. -/
def hasResource (reg : CompensationRegistry H) (ref : String) : Bool :=
  (reg.byResource.get? ref).isSome

/-- Register a handler for a resource. -/
def registerForResource (reg : CompensationRegistry H) (ref : String) (handler : H) :
    Option (CompensationRegistry H) :=
  if ref = "" then none else some { reg with byResource := reg.byResource.set ref handler }

end CompensationRegistry

/-- A recorded invocation of a resource. -/
structure Invocation where
  compensationKey : Option String := none
  resourceRef : Option String := none
  deriving DecidableEq, Repr

/-- A text that is there and not empty. -/
def nonEmpty (t : Option String) : Option String := t.filter (· ≠ "")

/-- The key of an invocation: the explicit one, or else its resource. -/
def Invocation.key (i : Invocation) : Option String :=
  (nonEmpty i.compensationKey).or (nonEmpty i.resourceRef)

/-- The payload of a commit that failed, as the coordinator reads it; an entry of the invocations
that is not a dictionary is none. -/
structure CommitFailed where
  hook : Option String := none
  resourceRefs : Option (List String) := none
  resourceInvocations : Option (List (Option Invocation)) := none

namespace CommitFailed

/-- The distinct keys of invocations, in order. -/
def distinctKeys (invocations : List (Option Invocation)) : DistinctList String :=
  invocations.foldl (fun keys entry =>
    match entry.bind Invocation.key with
    | none => keys
    | some key => keys.add key) .empty

/-- The references of a payload: the listed ones as they are, or else the distinct keys of the
invocations. -/
def resourceRefsFromPayload (p : CommitFailed) : List String :=
  match p.resourceRefs, p.resourceInvocations with
  | some refs, _ => refs.filter (· ≠ "")
  | none, some invocations => (distinctKeys invocations).items
  | none, none => []

end CommitFailed

/-- The events that the coordinator publishes. -/
inductive CompensationEvent (D : Type) where
  | skipped (key : String)
  | executed (key : String) (data : Option D)
  | compensated (ref : String) (data : Option D)
  | failed (key : String) (error : Option String)

/-- What the environment does at one turn: the outcome of the handler, if one runs, and whether the
events are published without raising. -/
structure Turn (D : Type) where
  outcome : HandlerOutcome D
  published : Bool

/-- What a compensation has done: the resources whose handlers ran, the results, the events, and
whether it was cut short by publishing. -/
structure CompensationRun (D : Type) where
  ran : List String := []
  results : List (CompensationResult D) := []
  events : List (CompensationEvent D) := []
  raised : Bool := false

namespace CompensationRun

variable {H D : Type}

/-- The events of the outcome of a resource handler. -/
def resourceOutcome (ref : String) (result : CompensationResult D) : List (CompensationEvent D) :=
  if result.ok then [.executed ref result.data, .compensated ref result.data]
  else [.failed ref result.error]

/-- Run the handler of the commit hook, if there is a hook. -/
def runHook (reg : CompensationRegistry H) (hook : Option String) (turn : Turn D) :
    CompensationRun D :=
  match nonEmpty hook with
  | none => {}
  | some name =>
    if reg.hasCommitHook name then
      let result := turn.outcome.result
      { results := [result]
        events := if result.ok then [.executed name result.data] else [.failed name result.error]
        raised := !turn.published }
    else { events := [.skipped name], raised := !turn.published }

/-- The turn of one resource: its handler runs, if there is one. -/
def meet (c : CompensationRun D) (reg : CompensationRegistry H) (ref : String) (turn : Turn D) :
    CompensationRun D :=
  if reg.hasResource ref then
    let result := turn.outcome.result
    { c with
      ran := c.ran ++ [ref]
      results := c.results ++ [result]
      events := c.events ++ resourceOutcome ref result
      raised := !turn.published }
  else { c with events := c.events ++ [.skipped ref], raised := !turn.published }

/-- The loop over the references. -/
def loop (reg : CompensationRegistry H) : CompensationRun D → List String → (ℕ → Turn D) →
    CompensationRun D
  | c, [], _ => c
  | c, ref :: rest, turns =>
    let next := c.meet reg ref (turns 0)
    if next.raised then next else loop reg next rest fun k => turns (k + 1)

/-- Compensate a commit that failed. The first turn is that of the commit hook. -/
def onCommitFailed (reg : CompensationRegistry H) (p : CommitFailed) (turns : ℕ → Turn D) :
    CompensationRun D :=
  let c := runHook reg p.hook (turns 0)
  if c.raised then c else loop reg c p.resourceRefsFromPayload fun k => turns (k + 1)

end CompensationRun

section Once

variable {H D : Type} {reg : CompensationRegistry H}

namespace CommitFailed

/-- The references recorded on a commit, with repetitions. -/
def recorded (p : CommitFailed) : List String :=
  match p.resourceRefs, p.resourceInvocations with
  | some refs, _ => refs.filter (· ≠ "")
  | none, some invocations => invocations.filterMap fun entry => entry.bind Invocation.key
  | none, none => []

/-- The distinct keys are the keys. -/
theorem mem_distinctKeys (invocations : List (Option Invocation)) (ref : String) :
    ref ∈ distinctKeys invocations ↔
      ref ∈ invocations.filterMap fun entry => entry.bind Invocation.key := by
  have hfold : ∀ keys : DistinctList String,
      ref ∈ invocations.foldl (fun keys entry =>
        match entry.bind Invocation.key with
        | none => keys
        | some key => keys.add key) keys ↔
      ref ∈ keys ∨ ref ∈ invocations.filterMap fun entry => entry.bind Invocation.key := by
    induction invocations with
    | nil => simp
    | cons entry rest ih =>
      intro keys
      rw [List.foldl_cons, ih, List.filterMap_cons]
      cases entry.bind Invocation.key with
      | none => rfl
      | some key => simp [or_assoc, or_left_comm]
  simpa [distinctKeys] using hfold .empty

/-- The coordinator takes what is recorded. -/
theorem mem_resourceRefsFromPayload (p : CommitFailed) (ref : String) :
    ref ∈ p.resourceRefsFromPayload ↔ ref ∈ p.recorded := by
  unfold resourceRefsFromPayload recorded
  split
  · rfl
  · exact mem_distinctKeys _ ref
  · rfl

end CommitFailed

/-- No publication raises. -/
def Published (turns : ℕ → Turn D) : Prop := ∀ k, (turns k).published = true

namespace CompensationRun

/-- A loop whose publications do not raise runs the handler of every reference that has one, as
often as it is listed. -/
theorem ran_loop (refs : List String) {c : CompensationRun D} {turns : ℕ → Turn D}
    (h : Published turns) : (loop reg c refs turns).ran = c.ran ++ refs.filter reg.hasResource := by
  induction refs generalizing c turns with
  | nil => simp [loop]
  | cons ref rest ih =>
    have hnext : (c.meet reg ref (turns 0)).raised = false := by
      unfold meet
      split <;> simp [h 0]
    rw [loop, hnext, if_neg Bool.false_ne_true, ih fun k => h (k + 1)]
    by_cases hhas : reg.hasResource ref = true
    · simp [meet, hhas]
    · simp [meet, hhas]

/-- A compensation whose publications do not raise runs the handlers of the references it takes. -/
theorem ran_onCommitFailed (p : CommitFailed) {turns : ℕ → Turn D} (h : Published turns) :
    (onCommitFailed reg p turns).ran = p.resourceRefsFromPayload.filter reg.hasResource := by
  have hhook : (runHook reg p.hook (turns 0)).raised = false ∧
      (runHook reg p.hook (turns 0)).ran = [] := by
    unfold runHook
    split
    · exact ⟨rfl, rfl⟩
    · split <;> exact ⟨by simp [h 0], rfl⟩
  rw [onCommitFailed, hhook.1, if_neg Bool.false_ne_true, ran_loop _ fun k => h (k + 1), hhook.2,
    List.nil_append]

/-- Each recorded resource that has a handler is compensated, and none twice. -/
def Once (reg : CompensationRegistry H) (p : CommitFailed) (c : CompensationRun D) : Prop :=
  c.ran.Nodup ∧ ∀ ref ∈ p.recorded, reg.hasResource ref = true → ref ∈ c.ran

/-- Whatever the handlers do, a commit is compensated once exactly if no reference with a handler
is listed twice. -/
theorem once_onCommitFailed_iff (reg : CompensationRegistry H) (p : CommitFailed)
    (turns : ℕ → Turn D) (h : Published turns) :
    Once reg p (onCommitFailed reg p turns) ↔
      ∀ refs, p.resourceRefs = some refs →
        (refs.filter fun ref => reg.hasResource ref && ref ≠ "").Nodup := by
  have hevery : ∀ ref ∈ p.recorded, reg.hasResource ref = true →
      ref ∈ p.resourceRefsFromPayload.filter reg.hasResource := fun ref hmem hhas =>
    List.mem_filter.mpr ⟨(p.mem_resourceRefsFromPayload ref).mpr hmem, hhas⟩
  rw [Once, ran_onCommitFailed p h, and_iff_left hevery]
  unfold CommitFailed.resourceRefsFromPayload
  split
  · next refs _ heq =>
    rw [heq, List.filter_filter]
    simp
  · next invocations hnone _ =>
    rw [hnone]
    refine ⟨fun _ refs hrefs => ?_, fun _ => (CommitFailed.distinctKeys invocations).nodup.filter _⟩
    cases hrefs
  · next hnone _ =>
    rw [hnone]
    refine ⟨fun _ refs hrefs => ?_, fun _ => List.nodup_nil⟩
    cases hrefs

/-- A registry with one resource. -/
def oneResource : CompensationRegistry Unit := { byResource := ⟨[("inventory", ())], by decide⟩ }

/-- The handler of the hook and those of the resources fail, and everything is published. -/
def failingTurns : ℕ → Turn Unit := fun _ => ⟨.raised "undo failed", true⟩

theorem once_onCommitFailed_iff_distinct :
    Once oneResource { hook := some "persist", resourceRefs := some ["orders", "inventory"] }
      (onCommitFailed oneResource
        { hook := some "persist", resourceRefs := some ["orders", "inventory"] } failingTurns) :=
  (once_onCommitFailed_iff _ _ _ fun _ => rfl).mpr fun refs hrefs =>
    Option.some.inj hrefs ▸ by decide

/-- A reference that is listed twice is compensated twice. -/
theorem once_onCommitFailed_fails :
    ¬ ∀ (reg : CompensationRegistry Unit) (p : CommitFailed) (turns : ℕ → Turn Unit),
      Published turns → Once reg p (onCommitFailed reg p turns) := by
  intro h
  have hran := (h oneResource { resourceRefs := some ["inventory", "inventory"] } failingTurns
    fun _ => rfl).1
  exact absurd hran (by decide)

end CompensationRun

end Once

end PalmEngine.Compensation
