import PalmEngine.Storage.Tiered
import PalmEngine.Lib.Pool

/-!
# Concurrent calls of the tiered backend

The lock of the tiered backend covers its hot dictionary alone. A read looks the key up in the
hot dictionary, reads the cold backend on a miss and fills the hot dictionary with what it
read; a set writes the cold backend and then fills the hot dictionary; a delete drops the hot
entry and then deletes in the cold backend. Other calls can come between these steps.

A key is about to be filled while some call has yet to put it into the hot dictionary. As long
as the last call to fill a key puts there what the cold backend holds, and no key is deleted in
the cold backend while it is hot and not about to be filled, the tiers agree at the end.
-/

namespace PalmEngine.Storage

open PalmEngine.Lib

variable {V : Type*}

/-- A call of the tiered backend at one of its steps. -/
inductive TierProc (V : Type*) where
  /-- A read that has not looked at the hot dictionary. -/
  | get (key : Key)
  /-- A read that missed the hot dictionary. -/
  | coldGet (key : Key)
  /-- A set that has not written the cold backend. -/
  | set (key : Key) (value : Option V)
  /-- A call about to put a value into the hot dictionary, and then to return. -/
  | fill (key : Key) (value : Option V) (result : Option V)
  /-- A delete that has not dropped the hot entry. -/
  | delete (key : Key)
  /-- A delete that has not deleted in the cold backend. -/
  | coldDelete (key : Key)
  /-- A call that has returned. -/
  | returned (result : Option V)
  deriving DecidableEq, Repr

/-- The tiers over a cold dictionary. -/
abbrev Tiers (V : Type*) := Tiered (Dict Key (Option V)) V

namespace TierProc

/-- The call has returned. -/
def isReturned : TierProc V → Bool
  | returned _ => true
  | _ => false

/-- The call is about to put the key into the hot dictionary. -/
def fills (key : Key) : TierProc V → Bool
  | fill key' _ _ => key' = key
  | _ => false

/-- The next step of a call. -/
def move (hotMaxKeys : ℕ) (t : Tiers V) : TierProc V → Option (Tiers V × TierProc V)
  | get key =>
    match t.hot.get? key with
    | some value => some (t.touch key, returned value)
    | none => some (t, coldGet key)
  | coldGet key =>
    match (t.cold.get? key).join with
    | none => some (t, returned none)
    | some v => some (t, fill key (some v) (some v))
  | set key value => some ({ t with cold := t.cold.set key value }, fill key value none)
  | fill key value result => some (t.remember hotMaxKeys key value, returned result)
  | delete key => some (t.forget key, coldDelete key)
  | coldDelete key => some ({ t with cold := t.cold.erase key }, returned none)
  | returned _ => none

end TierProc

/-- Concurrent calls on the tiers. -/
abbrev TierPool (V : Type*) := Pool (Tiers V) (TierProc V)

/-- How many calls are about to put the key into the hot dictionary. -/
def TierPool.fills (pool : TierPool V) (key : Key) : ℕ := pool.procs.countP (TierProc.fills key)

/-- Every hot key has the value that the cold backend holds for it. -/
def Tiers.Coherent (t : Tiers V) : Prop :=
  ∀ k v, t.hot.get? k = some v → t.cold.get? k = some v

/-- Where the tiers agree, a read returns what the cold backend holds. -/
theorem Tiers.Coherent.get_eq {t : Tiers V} (h : t.Coherent) (E : Type*) (hotMaxKeys : ℕ)
    (k : Key) : ((tieredBackend (memoryBackend V E) hotMaxKeys).get t k).1 =
      .ok (t.cold.get? k).join := by
  simp only [tieredBackend]
  cases hhot : t.hot.get? k with
  | some v => simp [h k v hhot]
  | none =>
    cases hcold : (t.cold.get? k).join with
    | none => simp [memoryBackend, hcold]
    | some v => simp [memoryBackend, hcold]

/-- Every hot key has the value of the cold backend or is about to be filled. -/
def TierPool.Filling (pool : TierPool V) : Prop :=
  ∀ k v, pool.shared.hot.get? k = some v →
    pool.shared.cold.get? k = some v ∨ 0 < pool.fills k

/-- The step leaves no key hot with another value than the cold backend's and nobody about to
fill it: the last call to fill a key writes what the cold backend holds, and a key deleted in the
cold backend is not hot or about to be filled. -/
def TierPool.KeepsTiers (pool : TierPool V) : TierProc V → Prop
  | .fill key value _ => pool.shared.cold.get? key = some value ∨ 1 < pool.fills key
  | .coldDelete key => pool.shared.hot.get? key = none ∨ 0 < pool.fills key
  | _ => True

instance [DecidableEq V] (pool : TierPool V) : ∀ p, Decidable (pool.KeepsTiers p)
  | .fill _ _ _ => inferInstanceAs (Decidable (_ ∨ _))
  | .coldDelete _ => inferInstanceAs (Decidable (_ ∨ _))
  | .get _ | .coldGet _ | .set _ _ | .delete _ | .returned _ => .isTrue trivial

/-- A step that meets the condition keeps every hot key right or about to be filled. -/
theorem TierPool.Filling.step {hotMaxKeys : ℕ} {pool pool' : TierPool V} {i : ℕ}
    (h : pool.Filling) (hstep : pool.step (TierProc.move hotMaxKeys) i = some pool')
    (hok : Pool.OnTurn TierPool.KeepsTiers pool i pool') : pool'.Filling := by
  obtain ⟨p, s, q, hp, hmove, rfl⟩ := Pool.step_cases hstep
  have hkeeps := hok p hp
  intro k v hhot
  change s.hot.get? k = some v at hhot
  change s.cold.get? k = some v ∨ 0 < (pool.procs.set i q).countP (TierProc.fills k)
  have hstays (hp' : TierProc.fills k p = false) (hpos : 0 < pool.fills k) :
      0 < (pool.procs.set i q).countP (TierProc.fills k) :=
    hpos.trans_le (Pool.countP_le_set hp hp')
  cases p with
  | get key =>
    simp only [TierProc.move] at hmove
    split at hmove <;> cases hmove <;> exact (h k v hhot).imp_right (hstays rfl)
  | coldGet key =>
    simp only [TierProc.move] at hmove
    split at hmove <;> cases hmove <;> exact (h k v hhot).imp_right (hstays rfl)
  | set key value =>
    cases hmove
    by_cases hk : k = key
    · exact .inr (Pool.countP_set_pos hp (decide_eq_true hk.symm))
    · rw [Dict.get?_set_ne _ _ hk]
      exact (h k v hhot).imp_right (hstays rfl)
  | fill key value result =>
    cases hmove
    rcases Tiered.get?_remember hhot with ⟨rfl, rfl⟩ | ⟨hk, hhot⟩
    · refine hkeeps.imp_right fun hpos => ?_
      have hcount := Pool.countP_set (q := .returned result) (TierProc.fills k) hp
      simp only [TierPool.fills, TierProc.fills] at hpos hcount ⊢
      simp at hcount
      omega
    · exact (h k v hhot).imp_right (hstays (decide_eq_false (Ne.symm hk)))
  | delete key =>
    cases hmove
    exact (h k v (Tiered.get?_forget hhot).2).imp_right (hstays rfl)
  | coldDelete key =>
    cases hmove
    by_cases hk : k = key
    · subst hk
      rcases hkeeps with hnone | hpos
      · rw [hnone] at hhot
        cases hhot
      · exact .inr (hstays rfl hpos)
    · rw [Dict.get?_erase, if_neg hk]
      exact (h k v hhot).imp_right (hstays rfl)
  | returned result => cases hmove

/-- From tiers that agree, calls that run in any interleaving with each step meeting the condition
leave tiers that agree once all have returned, so that a later read returns what the cold backend
holds. -/
theorem coherent_run {hotMaxKeys : ℕ} {start : Tiers V} {calls : List (TierProc V)}
    {turns : List ℕ} {pool : TierPool V} (hstart : start.Coherent)
    (hrun : runSteps (Pool.step (TierProc.move hotMaxKeys)) ⟨start, calls⟩ turns = some pool)
    (hok : AllSteps (Pool.step (TierProc.move hotMaxKeys)) (Pool.OnTurn TierPool.KeepsTiers)
      ⟨start, calls⟩ turns)
    (hreturned : ∀ p ∈ pool.procs, p.isReturned) :
    pool.shared.Coherent ∧ ∀ k,
      ((tieredBackend (memoryBackend V Unit) hotMaxKeys).get pool.shared k).1 =
        .ok (pool.shared.cold.get? k).join := by
  have hfilling : pool.Filling :=
    invariant_of_allSteps (fun _ _ _ h hstep hok => TierPool.Filling.step h hstep hok)
      (fun k v hhot => .inl (hstart k v hhot)) hok hrun
  have hcoherent : pool.shared.Coherent := by
    intro k v hhot
    refine (hfilling k v hhot).resolve_right fun hpos => ?_
    obtain ⟨p, hp, hfills⟩ := List.countP_pos_iff.mp hpos
    have hdone := hreturned p hp
    cases p <;> simp [TierProc.isReturned, TierProc.fills] at hdone hfills
  exact ⟨hcoherent, hcoherent.get_eq Unit hotMaxKeys⟩

/-- A cold dictionary with one key. -/
def oneKey : Dict Key (Option ℕ) := Dict.empty.set ['k'] (some 1)

/-- A read and a set of one key, one after the other. -/
theorem coherent_run_sequence : ∃ pool : TierPool ℕ,
    runSteps (Pool.step (TierProc.move 500)) ⟨.start oneKey, [.get ['k'], .set ['k'] (some 2)]⟩
      [0, 0, 0, 1, 1] = some pool ∧ pool.shared.Coherent := by
  refine ⟨_, rfl, (@coherent_run ℕ 500 (.start oneKey) [.get ['k'], .set ['k'] (some 2)]
    [0, 0, 0, 1, 1] _ ?_ rfl ?_ ?_).1⟩
  · exact fun _ _ h => (nomatch h)
  · decide
  · decide

/-- A read that missed the hot dictionary fills it with what a set has overwritten since. -/
theorem coherent_run_fails : ¬ ∀ (calls : List (TierProc ℕ)) (turns : List ℕ) (pool : TierPool ℕ),
    runSteps (Pool.step (TierProc.move 500)) ⟨.start oneKey, calls⟩ turns = some pool →
      (∀ p ∈ pool.procs, p.isReturned) → pool.shared.Coherent := by
  intro h
  have hcoherent := h [.get ['k'], .set ['k'] (some 2)] [0, 0, 1, 1, 0] _ rfl (by decide)
  have hcold := hcoherent ['k'] (some 1) (by decide)
  revert hcold
  decide

end PalmEngine.Storage
