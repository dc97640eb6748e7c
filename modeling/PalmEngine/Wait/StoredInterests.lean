import PalmEngine.Context.PlainValues
import PalmEngine.Lib.Strip

/-!
# Interests as a job state stores them

The open interests of a job are a list of dictionaries under one key of its state. They are decoded
whenever they are read, and entries that cannot be decoded are skipped; a write stores the decoded
ones. A decoder strips the kind and the id of the target, which an interest need not have been.
-/

namespace PalmEngine.Wait.Stored

open PalmEngine.Lib

/-- The key of the open interests. -/
def waitInterestsKey : String := "palm.wait.interests"

/-- What becomes of the owner when the target fails. -/
structure WaitPolicy where
  onTargetFailed : String := "fail_owner"
  deriving DecidableEq

/-- An open interest; its kind and the id of its target are not blank. -/
structure WaitInterest (K V : Type) where
  kind : String
  targetId : String
  openedAt : String
  policy : WaitPolicy
  info : Dict K V
  version : ℤ
  kind_ok : strip kind ≠ ""
  targetId_ok : strip targetId ≠ ""

/-- The time now as a text. -/
abbrev Now := {now : String // now ≠ ""}

/-- A call on a state, at a time. -/
inductive WaitCall (K V : Type) where
  | openWait (interest : WaitInterest K V) (replaceSameTarget : Bool)
  | closeWait (kind targetId : String)

section Encode

variable {K V : Type} [DecidableEq K] (ops : ScriptValues K V)

/-- The policy as a dictionary. -/
def WaitPolicy.toDict (policy : WaitPolicy) : Dict K V :=
  ops.record [("on_target_failed", ops.text policy.onTargetFailed)]

/-- The policy of a dictionary, the default one if there is none. -/
def WaitPolicy.fromDict (data : Option (Dict K V)) : WaitPolicy :=
  match data with
  | none => {}
  | some data =>
    if data.entries = [] then {}
    else ⟨ops.strOr (ops.field data "on_target_failed") "fail_owner"⟩

namespace WaitInterest

/-- The target of an interest. -/
def target (w : WaitInterest K V) : String × String := (w.kind, w.targetId)

/-- Whether an interest is on a target. -/
def Matches (w : WaitInterest K V) (kind targetId : String) : Prop :=
  w.kind = kind ∧ w.targetId = targetId

instance (w : WaitInterest K V) (kind targetId : String) : Decidable (w.Matches kind targetId) :=
  inferInstanceAs (Decidable (_ ∧ _))

/-- The interest as a dictionary. -/
def toDict (w : WaitInterest K V) : Dict K V :=
  ops.record [("v", ops.int w.version), ("kind", ops.text w.kind),
    ("target_id", ops.text w.targetId), ("opened_at", ops.text w.openedAt),
    ("policy", ops.dict (w.policy.toDict ops)), ("meta", ops.dict w.info)]

/-- The interest of a dictionary, unless its kind or the id of its target is blank. -/
def fromDict (now : Now) (data : Dict K V) : Option (WaitInterest K V) :=
  let kind := strip (ops.strOr (ops.field data "kind") "")
  let targetId := strip (ops.strOr (ops.field data "target_id") "")
  if h : strip kind ≠ "" ∧ strip targetId ≠ "" then some {
    kind
    targetId
    openedAt := ops.strOr (ops.field data "opened_at") now
    policy := .fromDict ops (ops.asDict (ops.field data "policy"))
    info := (ops.asDict (ops.field data "meta")).getD .empty
    version := (ops.toInt ((data.get? (ops.key "v")).getD (ops.int 1))).getD 1
    kind_ok := h.1
    targetId_ok := h.2 }
  else none

/-- Nothing is changed when the interest is decoded: kind and id are stripped, and neither the time
nor the policy is empty. -/
def IsNormal (w : WaitInterest K V) : Prop :=
  strip w.kind = w.kind ∧ strip w.targetId = w.targetId ∧ w.openedAt ≠ "" ∧
    w.policy.onTargetFailed ≠ ""

end WaitInterest

/-- The open interests of a state. -/
def listWaitInterests (now : Now) (state : Dict K V) : List (WaitInterest K V) :=
  match ops.asList (ops.field state waitInterestsKey) with
  | none => []
  | some items => items.filterMap fun item => (ops.asDict item).bind (WaitInterest.fromDict ops now)

/-- Store interests in a state. -/
def writeInterests (state : Dict K V) (interests : List (WaitInterest K V)) : Dict K V :=
  state.set (ops.key waitInterestsKey)
    (ops.list (interests.map fun w => ops.dict (w.toDict ops)))

/-- Open an interest: it takes the place of the first one on the same target, unless told to leave
that one. Returns the interest that is open then. -/
def openWaitInterest (now : Now) (state : Dict K V) (interest : WaitInterest K V)
    (replaceSameTarget : Bool) : Dict K V × WaitInterest K V :=
  let current := listWaitInterests ops now state
  match current.findIdx? fun w => w.Matches interest.kind interest.targetId with
  | none => (writeInterests ops state (current ++ [interest]), interest)
  | some i =>
    let current := if replaceSameTarget then current.set i interest else current
    (writeInterests ops state current, current.getD i interest)

/-- Close the first interest on a target and return it. -/
def closeWaitInterest (now : Now) (state : Dict K V) (kind targetId : String) :
    Dict K V × Option (WaitInterest K V) :=
  let current := listWaitInterests ops now state
  match current.find? fun w => w.Matches kind targetId with
  | none => (state, none)
  | some closed =>
    (writeInterests ops state (current.eraseP fun w => w.Matches kind targetId), some closed)

/-- Store what can be decoded again. -/
def rehydrateWaitInterests (now : Now) (state : Dict K V) :
    Dict K V × List (WaitInterest K V) :=
  let interests := listWaitInterests ops now state
  (writeInterests ops state interests, interests)

/-- The state after a call. -/
def WaitCall.run (state : Dict K V) (call : Now × WaitCall K V) : Dict K V :=
  match call.2 with
  | .openWait interest replaceSameTarget =>
    (openWaitInterest ops call.1 state interest replaceSameTarget).1
  | .closeWait kind targetId => (closeWaitInterest ops call.1 state kind targetId).1

/-- The state after a list of calls. -/
def runCalls (state : Dict K V) (calls : List (Now × WaitCall K V)) : Dict K V :=
  calls.foldl (WaitCall.run ops) state

end Encode

section RoundTrip

variable {K V : Type} [DecidableEq K] {ops : ScriptValues K V}

/-- A policy comes back from its dictionary unless its text is empty. -/
theorem WaitPolicy.fromDict_toDict (policy : WaitPolicy) :
    WaitPolicy.fromDict ops (some (policy.toDict ops)) =
      ⟨if policy.onTargetFailed = "" then "fail_owner" else policy.onTargetFailed⟩ := by
  have hget : (policy.toDict ops).get? (ops.key "on_target_failed") =
      some (ops.text policy.onTargetFailed) := ops.get?_record (by simp) (by simp)
  have hne : (policy.toDict ops).entries ≠ [] := by
    intro hnil
    rw [Dict.get?, hnil] at hget
    cases hget
  rw [WaitPolicy.fromDict, if_neg hne]
  by_cases h : policy.onTargetFailed = "" <;>
    simp [ScriptValues.field, hget, ScriptValues.strOr, h]

/-- An interest as it comes back from its dictionary. -/
theorem WaitInterest.fromDict_toDict (now : Now) (w : WaitInterest K V) :
    WaitInterest.fromDict ops now (w.toDict ops) = some { w with
      kind := strip w.kind
      targetId := strip w.targetId
      openedAt := if w.openedAt = "" then now else w.openedAt
      policy := ⟨if w.policy.onTargetFailed = "" then "fail_owner" else w.policy.onTargetFailed⟩
      kind_ok := by rw [strip_strip]; exact w.kind_ok
      targetId_ok := by rw [strip_strip]; exact w.targetId_ok } := by
  have hversion : (w.toDict ops).get? (ops.key "v") = some (ops.int w.version) :=
    ops.get?_record (by simp) (by simp)
  have hkind : (w.toDict ops).get? (ops.key "kind") = some (ops.text w.kind) :=
    ops.get?_record (by simp) (by simp)
  have htarget : (w.toDict ops).get? (ops.key "target_id") = some (ops.text w.targetId) :=
    ops.get?_record (by simp) (by simp)
  have hopened : (w.toDict ops).get? (ops.key "opened_at") = some (ops.text w.openedAt) :=
    ops.get?_record (by simp) (by simp)
  have hpolicy : (w.toDict ops).get? (ops.key "policy") =
      some (ops.dict (w.policy.toDict ops)) := ops.get?_record (by simp) (by simp)
  have hinfo : (w.toDict ops).get? (ops.key "meta") = some (ops.dict w.info) :=
    ops.get?_record (by simp) (by simp)
  have hok : strip (strip w.kind) ≠ "" ∧ strip (strip w.targetId) ≠ "" := by
    rw [strip_strip, strip_strip]
    exact ⟨w.kind_ok, w.targetId_ok⟩
  simp only [WaitInterest.fromDict, ScriptValues.field, hversion, hkind, htarget, hopened, hpolicy,
    hinfo, Option.getD_some, ScriptValues.strOr_text_empty, ScriptValues.asDict_dict,
    WaitPolicy.fromDict_toDict, ScriptValues.toInt_int, dif_pos hok]
  by_cases h : w.openedAt = "" <;> simp [ScriptValues.strOr, h]

/-- An interest comes back from its dictionary unchanged exactly if it is normal. -/
theorem WaitInterest.fromDict_toDict_eq_iff (now : Now) (w : WaitInterest K V) :
    WaitInterest.fromDict ops now (w.toDict ops) = some w ↔ w.IsNormal := by
  rw [WaitInterest.fromDict_toDict]
  constructor
  · intro heq
    have hsame := Option.some.inj heq
    have hopened := congrArg WaitInterest.openedAt hsame
    have hpolicy := congrArg (fun w : WaitInterest K V => w.policy.onTargetFailed) hsame
    refine ⟨congrArg WaitInterest.kind hsame, congrArg WaitInterest.targetId hsame, fun hnil => ?_,
      fun hnil => ?_⟩
    · exact now.2 (by simpa [hnil] using hopened)
    · simp [hnil] at hpolicy
  · rintro ⟨hkind, htarget, hopened, hpolicy⟩
    simp [hkind, htarget, hopened, hpolicy]

end RoundTrip

section Runs

variable {K V : Type} [DecidableEq K] {ops : ScriptValues K V}

/-- No two interests are on the same target. -/
def DistinctTargets (interests : List (WaitInterest K V)) : Prop :=
  (interests.map WaitInterest.target).Nodup

/-- A state stores normal interests on distinct targets. -/
structure Holds (ops : ScriptValues K V) (state : Dict K V) (interests : List (WaitInterest K V)) :
    Prop where
  listed : ∀ now, listWaitInterests ops now state = interests
  normal : ∀ w ∈ interests, w.IsNormal
  distinct : DistinctTargets interests

/-- Stored interests that are normal are read as they are. -/
theorem listWaitInterests_write (now : Now) (state : Dict K V)
    {interests : List (WaitInterest K V)} (h : ∀ w ∈ interests, w.IsNormal) :
    listWaitInterests ops now (writeInterests ops state interests) = interests := by
  rw [listWaitInterests, writeInterests, ScriptValues.field, Dict.get?_set_self, Option.getD_some,
    ops.asList_list]
  simp only [List.filterMap_map]
  refine (List.filterMap_congr fun w hw => ?_).trans List.filterMap_some
  rw [Function.comp_apply, ops.asDict_dict, Option.bind_some]
  exact (WaitInterest.fromDict_toDict_eq_iff now w).mpr (h w hw)

omit [DecidableEq K] in
/-- An interest is on a target exactly if this is its target. -/
theorem WaitInterest.matches_iff (w : WaitInterest K V) (kind targetId : String) :
    w.Matches kind targetId ↔ w.target = (kind, targetId) := by
  rw [WaitInterest.Matches, WaitInterest.target, Prod.mk.injEq]

/-- An opened interest that is normal is held from then on. -/
theorem Holds.openWait {state : Dict K V} {interests : List (WaitInterest K V)}
    (h : Holds ops state interests) (now : Now) {w : WaitInterest K V} (hw : w.IsNormal)
    (replaceSameTarget : Bool) :
    ∃ opened, Holds ops (openWaitInterest ops now state w replaceSameTarget).1 opened := by
  have hwrite : ∀ opened : List (WaitInterest K V), (∀ w' ∈ opened, w'.IsNormal) →
      DistinctTargets opened → Holds ops (writeInterests ops state opened) opened :=
    fun opened hnormal hdistinct =>
      ⟨fun now => listWaitInterests_write now state hnormal, hnormal, hdistinct⟩
  rw [openWaitInterest, h.listed]
  cases hfind : interests.findIdx? fun w' => w'.Matches w.kind w.targetId with
  | none =>
    refine ⟨interests ++ [w], hwrite _ ?_ ?_⟩
    · intro w' hw'
      rw [List.mem_append, List.mem_singleton] at hw'
      rcases hw' with hw' | rfl
      · exact h.normal w' hw'
      · exact hw
    · rw [DistinctTargets, List.map_append, List.map_singleton, List.nodup_append]
      refine ⟨h.distinct, List.nodup_singleton _, fun t ht t' ht' heq => ?_⟩
      obtain ⟨w', hw', rfl⟩ := List.mem_map.mp ht
      rw [List.mem_singleton.mp ht'] at heq
      have hnot := List.findIdx?_eq_none_iff.mp hfind w' hw'
      rw [decide_eq_false_iff_not, WaitInterest.matches_iff] at hnot
      exact hnot heq
  | some i =>
    cases replaceSameTarget with
    | false => exact ⟨interests, hwrite _ h.normal h.distinct⟩
    | true =>
      obtain ⟨hi, hmatch, -⟩ := List.findIdx?_eq_some_iff_getElem.mp hfind
      rw [decide_eq_true_iff, WaitInterest.matches_iff] at hmatch
      refine ⟨interests.set i w, hwrite _ (fun w' hw' => ?_) ?_⟩
      · rcases List.mem_or_eq_of_mem_set hw' with hw' | rfl
        · exact h.normal w' hw'
        · exact hw
      · have hsame : (interests.map WaitInterest.target).set i w.target =
            interests.map WaitInterest.target := by
          have hi' : i < (interests.map WaitInterest.target).length := by simpa using hi
          have htarget : w.target = (interests.map WaitInterest.target)[i] := by
            rw [List.getElem_map, hmatch]
            rfl
          rw [htarget, List.set_getElem_self]
        rw [DistinctTargets, if_pos rfl, List.map_set, hsame]
        exact h.distinct

omit [DecidableEq K] in
/-- Of interests on distinct targets, taking the first one on a target out leaves those on other
targets. -/
theorem eraseP_eq_filter {interests : List (WaitInterest K V)} (h : DistinctTargets interests)
    (kind targetId : String) :
    (interests.eraseP fun w => w.Matches kind targetId) =
      interests.filter fun w => ¬w.Matches kind targetId := by
  induction interests with
  | nil => rfl
  | cons w rest ih =>
    rw [DistinctTargets, List.map_cons, List.nodup_cons] at h
    by_cases hw : w.Matches kind targetId
    · rw [List.eraseP_cons_of_pos (by simpa using hw), List.filter_cons_of_neg (by simpa using hw)]
      symm
      rw [List.filter_eq_self]
      intro w' hw'
      have hne : ¬w'.Matches kind targetId := fun hmatch => by
        rw [WaitInterest.matches_iff] at hw hmatch
        exact h.1 (hw.trans hmatch.symm ▸ List.mem_map_of_mem hw')
      simpa using hne
    · rw [List.eraseP_cons_of_neg (by simpa using hw), List.filter_cons_of_pos (by simpa using hw),
        ih h.2]

/-- A close leaves the interests on other targets. -/
theorem Holds.closeWait {state : Dict K V} {interests : List (WaitInterest K V)}
    (h : Holds ops state interests) (now : Now) (kind targetId : String) :
    Holds ops (closeWaitInterest ops now state kind targetId).1
      (interests.filter fun w => ¬w.Matches kind targetId) := by
  have hnormal : ∀ w ∈ interests.filter fun w => ¬w.Matches kind targetId, w.IsNormal :=
    fun w hw => h.normal w (List.mem_of_mem_filter hw)
  have hdistinct : DistinctTargets (interests.filter fun w => ¬w.Matches kind targetId) :=
    h.distinct.sublist (List.filter_sublist.map _)
  rw [closeWaitInterest, h.listed]
  cases hfind : interests.find? fun w => w.Matches kind targetId with
  | none =>
    have hsame : (interests.filter fun w => ¬w.Matches kind targetId) = interests := by
      rw [List.filter_eq_self]
      intro w hw
      simpa using List.find?_eq_none.mp hfind w hw
    rw [hsame]
    exact h
  | some closed =>
    rw [eraseP_eq_filter h.distinct]
    exact ⟨fun now => listWaitInterests_write now state hnormal, hnormal, hdistinct⟩

/-- What is opened in a list of calls is normal. -/
def OpensNormal (calls : List (Now × WaitCall K V)) : Prop :=
  ∀ call ∈ calls, ∀ w replaceSameTarget, call.2 = .openWait w replaceSameTarget → w.IsNormal

/-- After calls that open normal interests a state holds interests on distinct targets. -/
theorem holds_runCalls {start : Dict K V} (hstart : ops.key waitInterestsKey ∉ start.keys)
    {calls : List (Now × WaitCall K V)} (h : OpensNormal calls) :
    ∃ interests, Holds ops (runCalls ops start calls) interests := by
  induction calls using List.reverseRecOn with
  | nil =>
    have hnone : start.get? (ops.key waitInterestsKey) = none := by
      rw [Option.eq_none_iff_forall_ne_some]
      exact fun v hv => hstart ((Dict.mem_keys_iff _ _).mpr ⟨v, hv⟩)
    refine ⟨[], fun now => ?_, by simp, List.nodup_nil⟩
    simp [runCalls, listWaitInterests, ScriptValues.field, hnone]
  | append_singleton calls call ih =>
    obtain ⟨interests, hholds⟩ := ih fun c hc => h c (List.mem_append_left _ hc)
    have hcall := h call (List.mem_append_right _ (List.mem_singleton_self call))
    rw [runCalls, List.foldl_append]
    obtain ⟨now, call⟩ := call
    cases call with
    | openWait w replaceSameTarget =>
      exact hholds.openWait now (hcall w replaceSameTarget rfl) replaceSameTarget
    | closeWait kind targetId => exact ⟨_, hholds.closeWait now kind targetId⟩

/-- Through a list of calls on a state, every opened interest comes back from its dictionary, no two
open interests are on the same target, and a close takes out the one on its target and no other. -/
structure KeepsInterests (ops : ScriptValues K V) (start : Dict K V)
    (calls : List (Now × WaitCall K V)) : Prop where
  restored : ∀ call ∈ calls, ∀ w replaceSameTarget, call.2 = .openWait w replaceSameTarget →
    ∀ now, WaitInterest.fromDict ops now (w.toDict ops) = some w
  distinct : ∀ front, front <+: calls → ∀ now,
    DistinctTargets (listWaitInterests ops now (runCalls ops start front))
  closes : ∀ front at' kind targetId, front ++ [(at', .closeWait kind targetId)] <+: calls →
    ∀ now, listWaitInterests ops now
        (runCalls ops start (front ++ [(at', .closeWait kind targetId)])) =
      (listWaitInterests ops now (runCalls ops start front)).filter
        fun w => ¬w.Matches kind targetId

/-- A state without open interests keeps them through a list of calls exactly if everything that is
opened is normal. -/
theorem keepsInterests_iff (start : {start : Dict K V // ops.key waitInterestsKey ∉ start.keys})
    (calls : List (Now × WaitCall K V)) :
    KeepsInterests ops start.1 calls ↔ OpensNormal calls := by
  constructor
  · intro h call hcall w replaceSameTarget hopen
    have hback := h.restored call hcall w replaceSameTarget hopen ⟨"now", by decide⟩
    exact (WaitInterest.fromDict_toDict_eq_iff _ w).mp hback
  · intro h
    have hfront : ∀ front, front <+: calls →
        ∃ interests, Holds ops (runCalls ops start.1 front) interests := fun front hpre =>
      holds_runCalls start.2 fun call hcall => h call (hpre.subset hcall)
    refine ⟨fun call hcall w replaceSameTarget hopen now => ?_, fun front hpre now => ?_,
      fun front at' kind targetId hpre now => ?_⟩
    · exact (WaitInterest.fromDict_toDict_eq_iff now w).mpr (h call hcall w _ hopen)
    · obtain ⟨interests, hholds⟩ := hfront front hpre
      rw [hholds.listed]
      exact hholds.distinct
    · obtain ⟨interests, hholds⟩ := hfront front ((List.prefix_append _ _).trans hpre)
      rw [runCalls, List.foldl_append, hholds.listed]
      exact (hholds.closeWait at' kind targetId).listed now

end Runs

section Plain

open PalmEngine.Context

/-- An interest whose kind has a blank comes back with another kind. -/
theorem keepsInterests_fails :
    ¬∀ calls : List (Now × WaitCall String Value), KeepsInterests plainValues .empty calls := by
  intro h
  let w : WaitInterest String Value :=
    ⟨" job", "j1", "now", {}, .empty, 1, by decide, by decide⟩
  have hback := (h [(⟨"now", by decide⟩, .openWait w true)]).restored _ (List.mem_singleton_self _)
    w true rfl ⟨"now", by decide⟩
  have hkind := congrArg (Option.map WaitInterest.kind) hback
  revert hkind
  decide

end Plain

end PalmEngine.Wait.Stored
