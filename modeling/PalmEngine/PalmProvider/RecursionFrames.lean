import PalmEngine.PalmProvider.Invoke

/-!
# Nested frames of the recursion guard

The body of a frame may look at the context variables, enter frames of its own and end normally or
by an exception, and a frame that could not be entered is an exception for what is around it. What
follows a frame depends on how the frame ended, so an exception may be caught there or passed on.

The frame sets both context variables when it is entered and resets them by their tokens when its
body has ended, however it has ended.
-/

namespace PalmEngine.PalmProvider

/-- The depth that is allowed when no limits are given. -/
def defaultMaxDepth : ℤ := 8

/-- An exception: the guard's own, or one of the body. -/
inductive FrameError where
  | guard (error : RecursionGuardError)
  | raised (text : String)
  deriving DecidableEq, Repr

/-- What a thread does: it ends, looks at the context variables, or runs a nested frame. The body
is given the depth and the chain of its frame. -/
inductive GuardedBody where
  | finish (outcome : Except FrameError Unit)
  | look (rest : ℕ → List String → GuardedBody)
  | frame (key : String) (limits : Option ℤ) (body : ℕ → List String → GuardedBody)
    (rest : Except FrameError Unit → GuardedBody)

/-- What is to be restored when a frame is left. -/
structure FrameTokens where
  depthToken : ℕ
  chainToken : List String
  deriving DecidableEq, Repr

/-- The tokens of a frame that is entered in a context. -/
def RecursionContext.tokens (ctx : RecursionContext) : FrameTokens := ⟨ctx.depth, ctx.chain⟩

/-- Reset both context variables. -/
def RecursionContext.reset (ctx : RecursionContext) (tokens : FrameTokens) : RecursionContext :=
  let ctx := { ctx with depth := tokens.depthToken }
  { ctx with chain := tokens.chainToken }

/-- What happens on a thread: it looks at the context variables inside of a frame with a limit, or
of none; it is refused a frame; it leaves a frame. -/
inductive FrameEvent where
  | looked (limit : Option ℤ) (ctx : RecursionContext)
  | refused (key : String) (maxDepth : ℤ) (before after : RecursionContext)
  | left (key : String) (maxDepth : ℤ) (before inside after : RecursionContext)
  deriving DecidableEq, Repr

/-- How a thread has ended, its context variables, and what happened on it. -/
structure GuardedRun where
  outcome : Except FrameError Unit
  context : RecursionContext
  events : List FrameEvent

/-- Run a body in a context, inside of a frame with a limit or of none. -/
def GuardedBody.run (limit : Option ℤ) (ctx : RecursionContext) : GuardedBody → GuardedRun
  | .finish outcome => ⟨outcome, ctx, []⟩
  | .look rest =>
    let after := (rest ctx.depth ctx.chain).run limit ctx
    { after with events := .looked limit ctx :: after.events }
  | .frame key limits body rest =>
    let maxDepth := limits.getD defaultMaxDepth
    match recursionFrame ctx key maxDepth with
    | .error error =>
      let after := (rest (.error (.guard error))).run limit ctx
      { after with events := .refused key maxDepth ctx ctx :: after.events }
    | .ok inside =>
      let nested := (body inside.depth inside.chain).run (some maxDepth) inside
      let restored := nested.context.reset ctx.tokens
      let after := (rest nested.outcome).run limit restored
      { after with
        events := nested.events ++ .left key maxDepth ctx inside restored :: after.events }

/-- The chain has as many keys as the depth says, and none of them twice. -/
structure RecursionContext.Coherent (ctx : RecursionContext) : Prop where
  depth_eq : ctx.depth = ctx.chain.length
  nodup : ctx.chain.Nodup

/-- The depth is at most the limit of the innermost frame. -/
def RecursionContext.WithinLimit (ctx : RecursionContext) (limit : Option ℤ) : Prop :=
  ∀ maxDepth ∈ limit, (ctx.depth : ℤ) ≤ maxDepth

/-- What the guard promises of an event: whoever looks inside of a frame sees a depth within its
limit and a chain without repeats, a refused frame changes nothing, and a frame that is left has
recorded such a depth and such a chain, its key at the end, and restores what was before it. -/
def FrameEvent.Guarded : FrameEvent → Prop
  | .looked limit ctx => ctx.Coherent ∧ ctx.WithinLimit limit
  | .refused key maxDepth before after =>
    after = before ∧ (key ∈ before.chain ∨ maxDepth < (before.depth + 1 : ℤ))
  | .left key maxDepth before inside after =>
    after = before ∧ inside = ⟨before.depth + 1, before.chain ++ [key]⟩ ∧ inside.Coherent ∧
      inside.WithinLimit (some maxDepth)

section Frames

variable {ctx inside : RecursionContext} {key : String} {maxDepth : ℤ}

/-- Resetting both context variables leaves nothing of what they were. -/
@[simp] theorem RecursionContext.reset_tokens (ctx before : RecursionContext) :
    ctx.reset before.tokens = before := rfl

/-- A thread begins at depth zero. -/
theorem RecursionContext.coherent_root : RecursionContext.Coherent {} := ⟨rfl, List.nodup_nil⟩

/-- A frame that can be entered is one deeper, within its limit, and its key is new. -/
theorem recursionFrame_eq_ok_iff : recursionFrame ctx key maxDepth = .ok inside ↔
    key ∉ ctx.chain ∧ (ctx.depth + 1 : ℤ) ≤ maxDepth ∧
      inside = ⟨ctx.depth + 1, ctx.chain ++ [key]⟩ := by
  unfold recursionFrame
  split
  · next hactive => simp [hactive]
  · next hnew =>
    split
    · next hdeep => simp [hnew, not_le.mpr hdeep]
    · next hwithin => simp [hnew, not_lt.mp hwithin, eq_comm]

/-- A frame is refused when its key is active or it would be too deep. -/
theorem refused_of_recursionFrame {error : RecursionGuardError}
    (h : recursionFrame ctx key maxDepth = .error error) :
    key ∈ ctx.chain ∨ maxDepth < (ctx.depth + 1 : ℤ) := by
  unfold recursionFrame at h
  split at h
  · next hactive => exact Or.inl hactive
  · split at h
    · next hdeep => exact Or.inr hdeep
    · cases h

/-- Inside of a frame the context variables are as they should be, if they were before it. -/
theorem RecursionContext.Coherent.recursionFrame (hctx : ctx.Coherent)
    (h : recursionFrame ctx key maxDepth = .ok inside) :
    inside.Coherent ∧ inside.WithinLimit (some maxDepth) := by
  obtain ⟨hnew, hwithin, rfl⟩ := recursionFrame_eq_ok_iff.mp h
  have hnodup : (ctx.chain ++ [key]).Nodup :=
    List.nodup_append_comm.mp (List.nodup_cons.mpr ⟨hnew, hctx.nodup⟩)
  have hdepth : ctx.depth + 1 = (ctx.chain ++ [key]).length := by
    rw [List.length_append, List.length_singleton, hctx.depth_eq]
  refine ⟨⟨hdepth, hnodup⟩, ?_⟩
  rintro limit ⟨rfl⟩
  exact_mod_cast hwithin

end Frames

namespace GuardedBody

/-- When a body has ended, the context variables are what they were when it began. -/
theorem run_context (body : GuardedBody) (limit : Option ℤ) (ctx : RecursionContext) :
    (body.run limit ctx).context = ctx := by
  induction body generalizing limit ctx with
  | finish outcome => rfl
  | look rest ih => exact ih ctx.depth ctx.chain limit ctx
  | frame key limits body rest _ ihRest =>
    simp only [run]
    split
    · exact ihRest _ limit ctx
    · exact ihRest _ limit _

/-- All that happens while a body runs is as the guard promises. -/
theorem run_guarded (body : GuardedBody) {limit : Option ℤ} {ctx : RecursionContext}
    (hctx : ctx.Coherent) (hlimit : ctx.WithinLimit limit) :
    ∀ event ∈ (body.run limit ctx).events, event.Guarded := by
  induction body generalizing limit ctx with
  | finish outcome => simp [run]
  | look rest ih =>
    rintro event (_ | ⟨_, hevent⟩)
    · exact ⟨hctx, hlimit⟩
    · exact ih ctx.depth ctx.chain hctx hlimit event hevent
  | frame key limits body rest ihBody ihRest =>
    simp only [run]
    split
    · next error hrefused =>
      rintro event (_ | ⟨_, hevent⟩)
      · exact ⟨rfl, refused_of_recursionFrame hrefused⟩
      · exact ihRest _ hctx hlimit event hevent
    · next inside hentered =>
      obtain ⟨hinside, hwithin⟩ := hctx.recursionFrame hentered
      intro event hevent
      rcases List.mem_append.mp hevent with hnested | hafter
      · exact ihBody _ _ hinside hwithin event hnested
      · rcases List.mem_cons.mp hafter with rfl | hafter
        · obtain ⟨-, -, heq⟩ := recursionFrame_eq_ok_iff.mp hentered
          exact ⟨rfl, heq, hinside, hwithin⟩
        · exact ihRest _ hctx hlimit event hafter

/-- Whatever a thread does in nested frames, and wherever a body raises: no recorded depth exceeds
the limit of its frame, no chain has a key twice, and a frame that is refused or left, in either
way, leaves the depth and the chain as they were before it. -/
theorem recursionFrame_nests (body : GuardedBody) :
    (body.run none {}).context = {} ∧ ∀ event ∈ (body.run none {}).events, event.Guarded := by
  have hroot : RecursionContext.WithinLimit {} none := by simp [RecursionContext.WithinLimit]
  exact ⟨run_context body none {}, run_guarded body RecursionContext.coherent_root hroot⟩

end GuardedBody

end PalmEngine.PalmProvider
