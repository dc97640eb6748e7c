import Mathlib

/-!
# Work intents

A deferred work request with its exclusive claim. Instants are integers on the UTC time
line, and a timestamp text that does not parse is kept apart from one that does. The
payload is generic: the store never looks into it.
-/

namespace PalmEngine.Work

/-- An instant on the UTC time line, in microseconds. -/
abbrev Instant := ℤ

/-- A timestamp text: the instant it denotes, or a text that does not parse. -/
inductive Timestamp where
  | iso (t : Instant)
  | unreadable (text : String)
  deriving DecidableEq, Repr

/-- The four states of an intent. -/
inductive IntentStatus where
  | pending
  | claimed
  | done
  | failed
  deriving DecidableEq, Repr

/-- An intent is live while some claimer may still run it. -/
def IntentStatus.isLive : IntentStatus → Bool
  | pending | claimed => true
  | done | failed => false

/-- A work request: enqueue now, execute when able. -/
structure WorkIntent (P : Type) where
  kind : String
  target : String
  id : String
  payload : P
  coalesceKey : Option String := none
  notBefore : Option Timestamp := none
  createdAt : String := ""
  attempt : ℤ := 0
  depth : ℤ := 0
  status : IntentStatus := .pending
  lastError : Option String := none
  claimedBy : Option String := none
  leaseUntil : Option Timestamp := none
  deriving DecidableEq, Repr

variable {P : Type}

/-- The values `from_dict` draws for an entry stored with an empty id or creation time. -/
structure Defaults where
  id : String
  createdAt : String

/-- An intent rebuilt from its stored entry, with defaults in place of empty texts. -/
def WorkIntent.fromDict (defaults : Defaults) (entry : WorkIntent P) : WorkIntent P :=
  { entry with
    id := if entry.id = "" then defaults.id else entry.id
    kind := if entry.kind = "" then "run_flow" else entry.kind
    createdAt := if entry.createdAt = "" then defaults.createdAt else entry.createdAt }

/-- Whether an optional timestamp allows a step now: one that is missing, empty or unreadable
does. -/
def Timestamp.reached (now : Instant) : Option Timestamp → Bool
  | some (.iso t) => t ≤ now
  | some (.unreadable _) | none => true

/-- The intent may be claimed at this instant. -/
def WorkIntent.isDue (intent : WorkIntent P) (now : Instant) : Bool :=
  Timestamp.reached now intent.notBefore

/-- The intent is claimed and its lease is past, or missing. -/
def WorkIntent.leaseExpired (intent : WorkIntent P) (now : Instant) : Bool :=
  intent.status = .claimed && Timestamp.reached now intent.leaseUntil

/-- A coalesce key that is neither missing nor empty. -/
def WorkIntent.truthyKey (intent : WorkIntent P) : Option String :=
  intent.coalesceKey.filter (· ≠ "")

/-- An intent names a claimer while it is claimed, and neither a claimer nor a lease otherwise. -/
structure WorkIntent.Stamped (intent : WorkIntent P) : Prop where
  claimed : intent.status = .claimed → intent.claimedBy ≠ none
  unclaimed : intent.status ≠ .claimed → intent.claimedBy = none ∧ intent.leaseUntil = none

/-- Two intents ask for the same work: they differ at most in their status, claim and attempts. -/
structure WorkIntent.SameRequest (intent other : WorkIntent P) : Prop where
  payload : other.payload = intent.payload
  depth : other.depth = intent.depth
  coalesceKey : other.coalesceKey = intent.coalesceKey

theorem WorkIntent.SameRequest.refl (intent : WorkIntent P) : intent.SameRequest intent :=
  ⟨rfl, rfl, rfl⟩

theorem WorkIntent.SameRequest.trans {a b c : WorkIntent P} (h : a.SameRequest b)
    (h' : b.SameRequest c) : a.SameRequest c :=
  ⟨h'.payload.trans h.payload, h'.depth.trans h.depth, h'.coalesceKey.trans h.coalesceKey⟩

@[simp] theorem WorkIntent.fromDict_status (defaults : Defaults) (entry : WorkIntent P) :
    (entry.fromDict defaults).status = entry.status := rfl

@[simp] theorem WorkIntent.fromDict_coalesceKey (defaults : Defaults) (entry : WorkIntent P) :
    (entry.fromDict defaults).coalesceKey = entry.coalesceKey := rfl

end PalmEngine.Work
