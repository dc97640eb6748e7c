import Mathlib
import PalmEngine.Lib.Dict

/-!
# A cache with expiry

The caches of the resource engine keep a value under a key until a fixed time after it was
set, and at most a fixed number of entries. A full cache makes room by dropping the entry that
expires first. It does so before it looks whether the key that is set is present already, so
overwriting an entry of a full cache may drop another one which is still alive.
-/

namespace PalmEngine.Resource

open PalmEngine.Lib

variable {V : Type*}

/-- A cache: every entry holds when it expires and a value, `none` standing for `None`. -/
structure TtlCache (V : Type*) where
  maxEntries : ℕ
  ttlSeconds : ℚ
  entries : Dict String (ℚ × Option V)
  maxEntries_pos : 1 ≤ maxEntries
  ttlSeconds_nonneg : 0 ≤ ttlSeconds

/-- A call on a cache, with the time the clock shows. -/
inductive CacheCall (V : Type*) where
  | get (now : ℚ) (key : String)
  | set (now : ℚ) (key : String) (value : Option V)

/-- The time at which a call is made. -/
def CacheCall.now : CacheCall V → ℚ
  | .get now _ => now
  | .set now _ _ => now

namespace TtlCache

/-- A new cache: at least one entry, and no negative lifetime. -/
def init (maxEntries : ℤ) (ttlSeconds : ℚ) : TtlCache V where
  maxEntries := (max 1 maxEntries).toNat
  ttlSeconds := max 0 ttlSeconds
  entries := .empty
  maxEntries_pos := by omega
  ttlSeconds_nonneg := le_max_left _ _

/-- The number of entries. -/
def size (c : TtlCache V) : ℕ := c.entries.entries.length

/-- The value under a key; an entry found to have expired is removed. -/
def get (c : TtlCache V) (now : ℚ) (key : String) : Option V × TtlCache V :=
  match c.entries.get? key with
  | none => (none, c)
  | some (expiresAt, value) =>
    if expiresAt < now then (none, { c with entries := c.entries.erase key }) else (value, c)

/-- The entry that expires first, the earliest inserted one among equals. -/
def oldest? (c : TtlCache V) : Option (String × ℚ × Option V) :=
  c.entries.entries.argmin (·.2.1)

/-- Remove the entry that expires first. -/
def evictOldest (c : TtlCache V) : TtlCache V :=
  match c.oldest? with
  | none => c
  | some oldest => { c with entries := c.entries.erase oldest.1 }

/-- Make room in a cache that is full. -/
def makeRoom (c : TtlCache V) : TtlCache V :=
  if c.maxEntries ≤ c.size then c.evictOldest else c

/-- Keep a value under a key until its lifetime ends. -/
def set (c : TtlCache V) (now : ℚ) (key : String) (value : Option V) : TtlCache V :=
  { c.makeRoom with entries := c.makeRoom.entries.set key (now + c.ttlSeconds, value) }

/-- The cache after a call. -/
def apply (c : TtlCache V) : CacheCall V → TtlCache V
  | .get now key => (c.get now key).2
  | .set now key value => c.set now key value

/-- The cache after a sequence of calls. -/
def after (c : TtlCache V) (calls : List (CacheCall V)) : TtlCache V := calls.foldl apply c

end TtlCache

/-- When a key was last set in a sequence of calls, and to what. -/
def lastSet (calls : List (CacheCall V)) (key : String) : Option (ℚ × Option V) :=
  calls.foldl (fun found call => match call with
    | .get _ _ => found
    | .set now written value => if written = key then some (now, value) else found) none

namespace TtlCache

/-- An entry is there and has not expired. -/
def Live (c : TtlCache V) (now : ℚ) (key : String) : Prop :=
  ∃ entry, c.entries.get? key = some entry ∧ now ≤ entry.1

/-- What a call answers and leaves is right, after the calls made so far: the size keeps to
the maximum, a value that is found was set last and has not expired, and setting a key that is
present leaves the live entries of the others. -/
def CallSound (maxEntries : ℤ) (ttlSeconds : ℚ) (calls : List (CacheCall V))
    (call : CacheCall V) : Prop :=
  let c := (init maxEntries ttlSeconds).after calls
  (c.apply call).size ≤ (max 1 maxEntries).toNat ∧
    match call with
    | .get now key => ∀ value, (c.get now key).1 = some value →
        ∃ written, lastSet calls key = some (written, some value) ∧
          now ≤ written + max 0 ttlSeconds
    | .set now key value => key ∈ c.entries.keys →
        ∀ other, other ≠ key → c.Live now other →
          (c.set now key value).entries.get? other = c.entries.get? other

/-- A call that sets a present key finds room, or the entry that expires first is that of the
key itself or has expired. -/
def SparesLive (c : TtlCache V) : CacheCall V → Prop
  | .get _ _ => True
  | .set now key _ => key ∈ c.entries.keys → c.maxEntries ≤ c.size →
      ∀ oldest, c.oldest? = some oldest → oldest.1 = key ∨ oldest.2.1 < now

@[simp] theorem get_maxEntries (c : TtlCache V) (now : ℚ) (key : String) :
    (c.get now key).2.maxEntries = c.maxEntries := by
  unfold get
  split
  · rfl
  · split <;> rfl

@[simp] theorem get_ttlSeconds (c : TtlCache V) (now : ℚ) (key : String) :
    (c.get now key).2.ttlSeconds = c.ttlSeconds := by
  unfold get
  split
  · rfl
  · split <;> rfl

@[simp] theorem evictOldest_maxEntries (c : TtlCache V) :
    c.evictOldest.maxEntries = c.maxEntries := by
  unfold evictOldest
  split <;> rfl

@[simp] theorem evictOldest_ttlSeconds (c : TtlCache V) :
    c.evictOldest.ttlSeconds = c.ttlSeconds := by
  unfold evictOldest
  split <;> rfl

@[simp] theorem makeRoom_maxEntries (c : TtlCache V) : c.makeRoom.maxEntries = c.maxEntries := by
  unfold makeRoom
  split <;> simp

@[simp] theorem makeRoom_ttlSeconds (c : TtlCache V) : c.makeRoom.ttlSeconds = c.ttlSeconds := by
  unfold makeRoom
  split <;> simp

/-- No call changes the bound on the size. -/
@[simp] theorem apply_maxEntries (c : TtlCache V) (call : CacheCall V) :
    (c.apply call).maxEntries = c.maxEntries := by
  cases call <;> simp [apply, set]

/-- No call changes the lifetime of entries. -/
@[simp] theorem apply_ttlSeconds (c : TtlCache V) (call : CacheCall V) :
    (c.apply call).ttlSeconds = c.ttlSeconds := by
  cases call <;> simp [apply, set]

/-- The entry that expires first is one of the entries. -/
theorem mem_of_oldest? {c : TtlCache V} {oldest : String × ℚ × Option V}
    (h : c.oldest? = some oldest) : oldest ∈ c.entries.entries := List.argmin_mem h

/-- A cache that is full has an entry that expires first. -/
theorem exists_oldest {c : TtlCache V} (h : c.maxEntries ≤ c.size) :
    ∃ oldest, c.oldest? = some oldest := by
  cases holdest : c.oldest? with
  | some oldest => exact ⟨oldest, rfl⟩
  | none =>
    have hnil : c.entries.entries = [] := List.argmin_eq_none.mp holdest
    have hpos := c.maxEntries_pos
    simp [size, hnil] at h
    omega

/-- What is found after room was made: everything but the entry that was dropped. -/
theorem makeRoom_get? (c : TtlCache V) (key : String) :
    c.makeRoom.entries.get? key =
      if c.maxEntries ≤ c.size ∧ c.oldest?.map Prod.fst = some key then none
      else c.entries.get? key := by
  unfold makeRoom
  split
  · rename_i hfull
    obtain ⟨oldest, holdest⟩ := exists_oldest hfull
    simp [evictOldest, holdest, hfull, Dict.get?_erase, eq_comm]
  · rename_i hroom
    simp [hroom]

/-- After room was made in a cache within its bound, another entry fits. -/
theorem makeRoom_size_lt {c : TtlCache V} (h : c.size ≤ c.maxEntries) :
    c.makeRoom.size < c.maxEntries := by
  unfold makeRoom
  split
  · rename_i hfull
    obtain ⟨oldest, holdest⟩ := exists_oldest hfull
    have hlt := Dict.length_entries_erase_lt (mem_of_oldest? holdest)
    simp only [evictOldest, holdest, size] at h ⊢
    omega
  · omega

/-- A call keeps a cache within its bound. -/
theorem apply_size_le {c : TtlCache V} (h : c.size ≤ c.maxEntries) (call : CacheCall V) :
    (c.apply call).size ≤ c.maxEntries := by
  cases call with
  | get now key =>
    simp only [apply, get]
    split
    · exact h
    · split
      · exact (Dict.length_entries_erase_le _ _).trans h
      · exact h
  | set now key value =>
    have hroom := makeRoom_size_lt h
    have hset := c.makeRoom.entries.length_entries_set_le key (now + c.ttlSeconds, value)
    simp only [apply, set, size] at hroom hset ⊢
    omega

/-- Every entry comes from the last call that set its key. -/
def Recorded (c : TtlCache V) (calls : List (CacheCall V)) : Prop :=
  ∀ key entry, c.entries.get? key = some entry →
    ∃ written, lastSet calls key = some (written, entry.2) ∧ entry.1 = written + c.ttlSeconds

/-- A cache stays within its bound, keeps its parameters, and its entries come from the last
calls that set their keys. -/
structure Reached (maxEntries : ℤ) (ttlSeconds : ℚ) (calls : List (CacheCall V))
    (c : TtlCache V) : Prop where
  bound : c.maxEntries = (max 1 maxEntries).toNat
  lifetime : c.ttlSeconds = max 0 ttlSeconds
  size_le : c.size ≤ c.maxEntries
  recorded : c.Recorded calls

@[simp] theorem lastSet_get (calls : List (CacheCall V)) (now : ℚ) (k key : String) :
    lastSet (calls ++ [.get now k]) key = lastSet calls key := by
  simp [lastSet]

theorem lastSet_set (calls : List (CacheCall V)) (now : ℚ) (k key : String) (value : Option V) :
    lastSet (calls ++ [.set now k value]) key =
      if k = key then some (now, value) else lastSet calls key := by
  simp [lastSet]

/-- What is in the cache after a lookup was there before. -/
theorem get?_of_get {c : TtlCache V} {now : ℚ} {key other : String} {entry : ℚ × Option V}
    (h : (c.get now key).2.entries.get? other = some entry) :
    c.entries.get? other = some entry := by
  unfold get at h
  split at h
  · exact h
  · split at h
    · rw [Dict.get?_erase] at h
      split at h
      · exact absurd h (by simp)
      · exact h
    · exact h

/-- What is in the cache after a key was set. -/
theorem get?_set (c : TtlCache V) (now : ℚ) (key other : String) (value : Option V) :
    (c.set now key value).entries.get? other =
      if other = key then some (now + c.ttlSeconds, value)
      else c.makeRoom.entries.get? other := by
  by_cases h : other = key
  · simp [set, h]
  · simp [set, h, Dict.get?_set_ne]

/-- What is in the cache after room was made was there before. -/
theorem get?_of_makeRoom {c : TtlCache V} {key : String} {entry : ℚ × Option V}
    (h : c.makeRoom.entries.get? key = some entry) : c.entries.get? key = some entry := by
  rw [makeRoom_get?] at h
  split at h
  · exact absurd h (by simp)
  · exact h

/-- A call keeps what its entries come from on record. -/
theorem Recorded.apply {c : TtlCache V} {calls : List (CacheCall V)} (h : c.Recorded calls)
    (call : CacheCall V) : (c.apply call).Recorded (calls ++ [call]) := by
  intro key entry hentry
  rw [apply_ttlSeconds]
  cases call with
  | get now k =>
    rw [lastSet_get]
    exact h key entry (get?_of_get hentry)
  | set now k value =>
    rw [lastSet_set]
    rw [TtlCache.apply, get?_set] at hentry
    by_cases hk : key = k
    · rw [if_pos hk] at hentry
      cases hentry
      exact ⟨now, by rw [if_pos hk.symm], rfl⟩
    · rw [if_neg hk] at hentry
      rw [if_neg (Ne.symm hk)]
      exact h key entry (get?_of_makeRoom hentry)

/-- What every sequence of calls leaves. -/
theorem reached_after (maxEntries : ℤ) (ttlSeconds : ℚ) (calls : List (CacheCall V)) :
    Reached maxEntries ttlSeconds calls ((init maxEntries ttlSeconds).after calls) := by
  induction calls using List.reverseRecOn with
  | nil =>
    exact ⟨rfl, rfl, Nat.zero_le _, fun key entry h => by simp [after, init] at h⟩
  | append_singleton calls call ih =>
    rw [after, List.foldl_append]
    change Reached _ _ _ (((init maxEntries ttlSeconds).after calls).apply call)
    exact ⟨by rw [apply_maxEntries, ih.bound], by rw [apply_ttlSeconds, ih.lifetime],
      by rw [apply_maxEntries]; exact apply_size_le ih.size_le call, ih.recorded.apply call⟩

/-- A value that a lookup answers is that of an entry which has not expired. -/
theorem get_eq_some {c : TtlCache V} {now : ℚ} {key : String} {value : V}
    (h : (c.get now key).1 = some value) :
    ∃ expiresAt, c.entries.get? key = some (expiresAt, some value) ∧ now ≤ expiresAt := by
  unfold get at h
  split at h
  · exact absurd h (by simp)
  · rename_i expiresAt kept hentry
    split at h
    · exact absurd h (by simp)
    · rename_i hlive
      cases h
      exact ⟨expiresAt, hentry, not_lt.mp hlive⟩

/-- Setting a present key leaves the live entries of the others exactly if it need not drop
one of them. -/
theorem set_spares_iff (c : TtlCache V) (now : ℚ) (key : String) (value : Option V) :
    (key ∈ c.entries.keys → ∀ other, other ≠ key → c.Live now other →
        (c.set now key value).entries.get? other = c.entries.get? other) ↔
      c.SparesLive (.set now key value) := by
  refine forall_congr' fun hkey => ?_
  constructor
  · intro hspares hfull oldest holdest
    by_contra hlost
    rw [not_or, not_lt] at hlost
    have hentry := (c.entries.get?_eq_some_iff oldest.1 oldest.2).mpr (mem_of_oldest? holdest)
    have hkept := hspares oldest.1 hlost.1 ⟨oldest.2, hentry, hlost.2⟩
    rw [get?_set, if_neg hlost.1, makeRoom_get?, if_pos ⟨hfull, by simp [holdest]⟩, hentry] at hkept
    exact absurd hkept (by simp)
  · rintro hroom other hne ⟨entry, hentry, hlive⟩
    rw [get?_set, if_neg hne, makeRoom_get?, if_neg]
    rintro ⟨hfull, hdropped⟩
    obtain ⟨oldest, holdest, rfl⟩ := Option.map_eq_some_iff.mp hdropped
    have hsame := (c.entries.get?_eq_some_iff oldest.1 oldest.2).mpr (mem_of_oldest? holdest)
    cases hentry.symm.trans hsame
    rcases hroom hfull oldest holdest with h | h
    · exact hne h
    · exact absurd hlive (not_le.mpr h)

/-- After any calls, what the next one answers and leaves is right exactly if it need not drop
a live entry in order to set a present key. -/
theorem callSound_iff (maxEntries : ℤ) (ttlSeconds : ℚ) (calls : List (CacheCall V))
    (call : CacheCall V) :
    CallSound maxEntries ttlSeconds calls call ↔
      ((init maxEntries ttlSeconds).after calls).SparesLive call := by
  have hreached := reached_after maxEntries ttlSeconds calls
  have hsize := (apply_size_le hreached.size_le call).trans_eq hreached.bound
  unfold CallSound
  generalize (init maxEntries ttlSeconds).after calls = c at hreached hsize ⊢
  refine ⟨fun h => ?_, fun h => ⟨hsize, ?_⟩⟩
  · cases call with
    | get now key => trivial
    | set now key value => exact (c.set_spares_iff now key value).mp h.2
  · cases call with
    | get now key =>
      intro value hvalue
      obtain ⟨expiresAt, hentry, hlive⟩ := get_eq_some hvalue
      obtain ⟨written, hlast, hexpires⟩ := hreached.recorded key _ hentry
      rw [hreached.lifetime] at hexpires
      exact ⟨written, hlast, hexpires ▸ hlive⟩
    | set now key value => exact (c.set_spares_iff now key value).mpr h

/-- In a sequence of calls every answer and every effect is right exactly if every call that
sets a present key finds room, or the entry that expires first is that of the key itself or has
expired. -/
theorem calls_sound_iff (maxEntries : ℤ) (ttlSeconds : ℚ) (calls : List (CacheCall V)) :
    (∀ front call rest, calls = front ++ call :: rest →
        CallSound maxEntries ttlSeconds front call) ↔
      ∀ front call rest, calls = front ++ call :: rest →
        ((init maxEntries ttlSeconds).after front).SparesLive call :=
  forall_congr' fun front => forall_congr' fun call => forall_congr' fun _ =>
    forall_congr' fun _ => callSound_iff maxEntries ttlSeconds front call

/-- A cache for two entries holds "a" and "b"; setting "b" again drops "a", which is alive. -/
theorem calls_sound_fails :
    ¬ ∀ (maxEntries : ℤ) (ttlSeconds : ℚ) (calls : List (CacheCall ℕ)),
      (calls.map CacheCall.now).Pairwise (· ≤ ·) →
        ∀ front call rest, calls = front ++ call :: rest →
          CallSound maxEntries ttlSeconds front call := by
  intro h
  have hsound := h 2 60 [.set 0 "a" (some 1), .set 1 "b" (some 2), .set 2 "b" (some 3)]
    (by decide +kernel) [.set 0 "a" (some 1), .set 1 "b" (some 2)] (.set 2 "b" (some 3)) [] rfl
  have hkept := hsound.2 (by decide +kernel) "a" (by decide +kernel)
    ⟨(60, some 1), by decide +kernel, by decide +kernel⟩
  exact absurd hkept (by decide +kernel)

end TtlCache

end PalmEngine.Resource
