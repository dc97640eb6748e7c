import PalmEngine.Lib.Dict

/-!
# Renaming fields

The rule either picks the mapped fields or renames them in place, entry by entry. The entries of a
mapping rename at once if they do not see each other's targets. In place, a target that is the
source of a later entry is renamed a second time, and what stood there before is lost.
-/

namespace PalmEngine.Transform

open PalmEngine.Lib

variable {K V : Type*} [DecidableEq K]

/-- The rule that applies a key mapping to a dictionary. -/
structure MapFieldsRule (K : Type*) where
  mapping : Dict K K
  keepUnmapped : Bool := true

/-- Move the value of one key to another. -/
def renameField (out : Dict K V) (entry : K × K) : Dict K V :=
  match out.get? entry.1 with
  | none => out
  | some v => (out.erase entry.1).set entry.2 v

/-- Take the value of one key over under another. -/
def pickField (value out : Dict K V) (entry : K × K) : Dict K V :=
  match value.get? entry.1 with
  | none => out
  | some v => out.set entry.2 v

/-- The value that the rule makes of a dictionary. -/
def MapFieldsRule.apply (rule : MapFieldsRule K) (value : Dict K V) : Dict K V :=
  if rule.keepUnmapped then rule.mapping.entries.foldl renameField value
  else rule.mapping.entries.foldl (pickField value) .empty

/-- No two fields are mapped to one. -/
def DistinctTargets (mapping : Dict K K) : Prop := mapping.values.Nodup

instance (mapping : Dict K K) : Decidable (DistinctTargets mapping) :=
  inferInstanceAs (Decidable (List.Nodup _))

/-- A field is the source or the target of a renaming that applies to a value. -/
def Renamed (mapping : Dict K K) (value : Dict K V) (k : K) : Prop :=
  ∃ e ∈ mapping.entries, e.1 ∈ value.keys ∧ (e.1 = k ∨ e.2 = k)

/-- Renaming in place gives the mapped fields that are picked without it, and besides them the
fields that are not renamed. -/
def RenamesAtOnce (mapping : Dict K K) (value : Dict K V) : Prop :=
  ∀ k, (Renamed mapping value k → ((MapFieldsRule.mk mapping true).apply value).get? k =
      ((MapFieldsRule.mk mapping false).apply value).get? k) ∧
    (¬Renamed mapping value k → ((MapFieldsRule.mk mapping true).apply value).get? k = value.get? k)

section Pick

variable {value : Dict K V}

/-- The fields that are picked: of a target the value of its source. -/
theorem get?_foldl_pickField (entries : List (K × K)) (out : Dict K V)
    (hdistinct : (entries.map Prod.snd).Nodup) (k : K) :
    (entries.foldl (pickField value) out).get? k =
      ((entries.find? (·.2 = k)).bind fun e => value.get? e.1).or (out.get? k) := by
  induction entries generalizing out with
  | nil => rfl
  | cons e entries ih =>
    rw [List.map_cons, List.nodup_cons] at hdistinct
    rw [List.foldl_cons, ih _ hdistinct.2]
    by_cases he : e.2 = k
    · have hnone : entries.find? (·.2 = k) = none := by
        rw [List.find?_eq_none]
        intro e' he' hk
        exact hdistinct.1 (he ▸ of_decide_eq_true hk ▸ List.mem_map_of_mem he')
      rw [hnone, List.find?_cons_of_pos (by simpa using he), Option.bind_none, Option.none_or,
        Option.bind_some, pickField]
      cases value.get? e.1 with
      | none => rfl
      | some v => rw [← he, Dict.get?_set_self, Option.some_or]
    · rw [List.find?_cons_of_neg (by simpa using he), pickField]
      cases value.get? e.1 with
      | none => rfl
      | some v => rw [Dict.get?_set_ne _ _ (Ne.symm he)]

end Pick

section Rename

/-- No target of an entry that applies is the source of a later entry. -/
def TargetsDone (value : Dict K V) (entries : List (K × K)) : Prop :=
  entries.Pairwise fun e e' => e.1 ∈ value.keys → e.2 ≠ e'.1

/-- The value of another field stays when one is renamed. -/
theorem get?_renameField_ne (value : Dict K V) {e : K × K} {k : K} (hsource : k ≠ e.1)
    (htarget : k ≠ e.2) : (renameField value e).get? k = value.get? k := by
  rw [renameField]
  cases value.get? e.1 with
  | none => rfl
  | some v => rw [Dict.get?_set_ne _ _ htarget, Dict.get?_erase, if_neg hsource]

/-- A field that is renamed to another one is gone. -/
theorem get?_renameField_self (value : Dict K V) {e : K × K} (hne : e.1 ≠ e.2) :
    (renameField value e).get? e.1 = none := by
  rw [renameField]
  cases hv : value.get? e.1 with
  | none => exact hv
  | some v => rw [Dict.get?_set_ne _ _ hne, Dict.get?_erase, if_pos rfl]

/-- If no target is the source of a later entry, then a target has the value of its source, a source
is gone unless it is a target, and the other fields stay. -/
theorem get?_foldl_renameField {entries : List (K × K)} (hsources : (entries.map Prod.fst).Nodup)
    (htargets : (entries.map Prod.snd).Nodup) {value : Dict K V}
    (hdone : TargetsDone value entries) (k : K) :
    (entries.foldl renameField value).get? k =
      ((entries.find? (·.2 = k)).bind fun e => value.get? e.1).or
        (if k ∈ entries.map Prod.fst then none else value.get? k) := by
  induction entries generalizing value with
  | nil => simp
  | cons e entries ih =>
    rw [List.map_cons, List.nodup_cons] at hsources htargets
    rw [TargetsDone, List.pairwise_cons] at hdone
    have hkept : ∀ e' ∈ entries, (renameField value e).get? e'.1 = value.get? e'.1 := by
      intro e' he'
      have hsource : e'.1 ≠ e.1 := fun heq => hsources.1 (heq ▸ List.mem_map_of_mem he')
      by_cases happlies : e.1 ∈ value.keys
      · exact get?_renameField_ne value hsource (Ne.symm (hdone.1 e' he' happlies))
      · have hnone : value.get? e.1 = none := by
          rw [Option.eq_none_iff_forall_ne_some]
          exact fun v hv => happlies ((Dict.mem_keys_iff value e.1).mpr ⟨v, hv⟩)
        rw [renameField, hnone]
    have hdone' : TargetsDone (renameField value e) entries := by
      refine hdone.2.imp_of_mem fun he' _ hlater happlies => hlater ?_
      rw [Dict.mem_keys_iff, ← hkept _ he', ← Dict.mem_keys_iff]
      exact happlies
    have hfound : ((entries.find? (·.2 = k)).bind fun e' => (renameField value e).get? e'.1) =
        (entries.find? (·.2 = k)).bind fun e' => value.get? e'.1 := by
      cases hfind : entries.find? (·.2 = k) with
      | none => rfl
      | some e' => exact hkept e' (List.mem_of_find?_eq_some hfind)
    rw [List.foldl_cons, ih hsources.2 htargets.2 hdone', hfound]
    by_cases he : e.2 = k
    · have hnone : entries.find? (·.2 = k) = none := by
        rw [List.find?_eq_none]
        intro e' he' hk
        exact htargets.1 (he ▸ of_decide_eq_true hk ▸ List.mem_map_of_mem he')
      rw [hnone, List.find?_cons_of_pos (by simpa using he), Option.bind_none, Option.none_or,
        Option.bind_some]
      cases hv : value.get? e.1 with
      | none =>
        simp only [renameField, hv, Option.none_or, List.map_cons, List.mem_cons]
        by_cases hk : k = e.1
        · simp [hk, hv]
        · exact if_congr (by simp [hk]) rfl rfl
      | some v =>
        have happlies := (Dict.mem_keys_iff value e.1).mpr ⟨v, hv⟩
        have hlater : k ∉ entries.map Prod.fst := by
          intro hk
          obtain ⟨e', he', heq⟩ := List.mem_map.mp hk
          exact hdone.1 e' he' happlies (he.trans heq.symm)
        rw [if_neg hlater, renameField, hv, ← he, Dict.get?_set_self, Option.some_or]
    · rw [List.find?_cons_of_neg (by simpa using he)]
      simp only [List.map_cons, List.mem_cons]
      refine congrArg _ ?_
      by_cases hk : k = e.1
      · rw [if_pos (Or.inl hk), hk, get?_renameField_self value (fun heq => he (heq ▸ hk.symm)),
          ite_self]
      · rw [get?_renameField_ne value hk (Ne.symm he)]
        simp only [hk, false_or]

/-- A field stays gone while no later entry has it as target. -/
theorem get?_foldl_renameField_none (entries : List (K × K)) (value : Dict K V) {k : K}
    (hnone : value.get? k = none) (htarget : k ∉ entries.map Prod.snd) :
    (entries.foldl renameField value).get? k = none := by
  induction entries generalizing value with
  | nil => exact hnone
  | cons e entries ih =>
    rw [List.map_cons, List.mem_cons, not_or] at htarget
    rw [List.foldl_cons]
    refine ih _ ?_ htarget.2
    by_cases hk : k = e.1
    · rw [hk]
      exact get?_renameField_self value fun heq => htarget.1 (hk.trans heq)
    · rw [get?_renameField_ne value hk htarget.1]
      exact hnone

end Rename

section AtOnce

variable {mapping : Dict K K} {value : Dict K V}

/-- What is picked under a target. -/
theorem get?_apply_pick (hdistinct : DistinctTargets mapping) (k : K) :
    ((MapFieldsRule.mk mapping false).apply value).get? k =
      (mapping.entries.find? (·.2 = k)).bind fun e => value.get? e.1 := by
  rw [MapFieldsRule.apply, if_neg Bool.false_ne_true, get?_foldl_pickField _ _ hdistinct,
    Dict.get?_empty, Option.or_none]

/-- What is picked under the target of an entry is the value of its source. -/
theorem get?_apply_pick_of_mem (hdistinct : DistinctTargets mapping) {e : K × K}
    (he : e ∈ mapping.entries) :
    ((MapFieldsRule.mk mapping false).apply value).get? e.2 = value.get? e.1 := by
  rw [get?_apply_pick hdistinct]
  cases hfind : mapping.entries.find? (·.2 = e.2) with
  | none => exact absurd (decide_eq_true rfl) (List.find?_eq_none.mp hfind e he)
  | some e' =>
    have hsame : e'.2 = e.2 := by simpa using List.find?_some hfind
    have heq := List.inj_on_of_nodup_map hdistinct (List.mem_of_find?_eq_some hfind) he hsame
    rw [heq, Option.bind_some]

/-- If no target is the source of a later entry, then renaming in place renames at once. -/
theorem TargetsDone.renamesAtOnce (hdone : TargetsDone value mapping.entries)
    (hdistinct : DistinctTargets mapping) : RenamesAtOnce mapping value := by
  intro k
  rw [get?_apply_pick hdistinct, MapFieldsRule.apply, if_pos rfl,
    get?_foldl_renameField mapping.nodup hdistinct hdone]
  constructor
  · rintro ⟨e, he, happlies, hk⟩
    rcases hk with hsource | htarget
    · rw [if_pos (hsource ▸ List.mem_map_of_mem he), Option.or_none]
    · have hpicked : ((MapFieldsRule.mk mapping false).apply value).get? e.2 = value.get? e.1 :=
        get?_apply_pick_of_mem hdistinct he
      obtain ⟨v, hv⟩ := (Dict.mem_keys_iff value e.1).mp happlies
      rw [get?_apply_pick hdistinct, htarget, hv] at hpicked
      rw [hpicked, Option.some_or]
  · intro hkept
    have hnone : ((mapping.entries.find? (·.2 = k)).bind fun e => value.get? e.1) = none := by
      rw [Option.eq_none_iff_forall_ne_some]
      intro v hv
      obtain ⟨e, hfind, hv⟩ := Option.bind_eq_some_iff.mp hv
      have htarget : e.2 = k := by simpa using List.find?_some hfind
      exact hkept ⟨e, List.mem_of_find?_eq_some hfind, (Dict.mem_keys_iff value e.1).mpr ⟨v, hv⟩,
        Or.inr htarget⟩
    rw [hnone, Option.none_or]
    split
    · next hsource =>
      obtain ⟨e, he, rfl⟩ := List.mem_map.mp hsource
      rw [eq_comm, Option.eq_none_iff_forall_ne_some]
      exact fun v hv => hkept ⟨e, he, (Dict.mem_keys_iff value e.1).mpr ⟨v, hv⟩, Or.inl rfl⟩
    · rfl

/-- The target of an entry is gone if a later entry has it as source. -/
theorem get?_foldl_renameField_of_later {before after : List (K × K)} {e : K × K}
    (htargets : ((before ++ e :: after).map Prod.snd).Nodup) (hsource : e.1 ∈ before.map Prod.snd)
    (value : Dict K V) : ((before ++ e :: after).foldl renameField value).get? e.1 = none := by
  rw [List.map_append, List.map_cons, List.nodup_append] at htargets
  obtain ⟨-, hafter, hapart⟩ := htargets
  rw [List.foldl_append, List.foldl_cons]
  refine get?_foldl_renameField_none after _ ?_ fun hlater => ?_
  · exact get?_renameField_self _ (hapart _ hsource _ List.mem_cons_self)
  · exact hapart _ hsource _ (List.mem_cons_of_mem _ hlater) rfl

/-- If renaming in place renames at once, then no target of an entry that applies is the source of a
later entry. -/
theorem RenamesAtOnce.targetsDone (h : RenamesAtOnce mapping value)
    (hdistinct : DistinctTargets mapping) : TargetsDone value mapping.entries := by
  rw [TargetsDone, List.pairwise_iff_getElem]
  intro i j hi hj hij happlies heq
  have hsplit : mapping.entries.take j ++ mapping.entries[j] :: mapping.entries.drop (j + 1) =
      mapping.entries := by
    rw [← List.drop_eq_getElem_cons hj, List.take_append_drop]
  have hbefore : mapping.entries[i] ∈ mapping.entries.take j :=
    List.mem_take_iff_getElem.mpr ⟨i, by omega, rfl⟩
  have hsource : mapping.entries[j].1 ∈ (mapping.entries.take j).map Prod.snd :=
    heq ▸ List.mem_map_of_mem hbefore
  have htargets : ((mapping.entries.take j ++ mapping.entries[j] ::
      mapping.entries.drop (j + 1)).map Prod.snd).Nodup := hsplit.symm ▸ hdistinct
  have hgone := get?_foldl_renameField_of_later htargets hsource value
  rw [hsplit, ← heq] at hgone
  have hmem : mapping.entries[i] ∈ mapping.entries := List.getElem_mem hi
  have hatOnce := (h mapping.entries[i].2).1 ⟨_, hmem, happlies, Or.inr rfl⟩
  rw [get?_apply_pick_of_mem hdistinct hmem, MapFieldsRule.apply, if_pos rfl, hgone] at hatOnce
  obtain ⟨v, hv⟩ := (Dict.mem_keys_iff value _).mp happlies
  rw [hv] at hatOnce
  cases hatOnce

/-- The entries of a mapping in another order. -/
def Reordered (mapping mapping' : Dict K K) : Prop := mapping'.entries.Perm mapping.entries

/-- Renaming in place is renaming at once exactly if no target of an entry that applies is the source
of a later entry; it is so in every order of the entries exactly if none is the source of any other
entry. -/
theorem renamesAtOnce_iff (mapping : Dict K K) (value : Dict K V)
    (hdistinct : DistinctTargets mapping) :
    (RenamesAtOnce mapping value ↔ TargetsDone value mapping.entries) ∧
      ((∀ mapping', Reordered mapping mapping' → RenamesAtOnce mapping' value) ↔
        ∀ e ∈ mapping.entries, ∀ e' ∈ mapping.entries, e ≠ e' → e.1 ∈ value.keys → e.2 ≠ e'.1) := by
  have hreordered : ∀ mapping', Reordered mapping mapping' → DistinctTargets mapping' :=
    fun mapping' hperm => (hperm.map Prod.snd).nodup_iff.mpr hdistinct
  refine ⟨⟨fun h => h.targetsDone hdistinct, fun hdone => hdone.renamesAtOnce hdistinct⟩, ?_⟩
  constructor
  · intro h e he e' he' hne
    have hrest := List.perm_cons_erase he
    have he'rest : e' ∈ mapping.entries.erase e :=
      (List.mem_cons.mp (hrest.subset he')).resolve_left (Ne.symm hne)
    let mapping' : Dict K K :=
      ⟨e :: mapping.entries.erase e, (hrest.map Prod.fst).nodup_iff.mp mapping.nodup⟩
    have hperm : Reordered mapping mapping' := hrest.symm
    have hdone := (h mapping' hperm).targetsDone (hreordered mapping' hperm)
    exact (List.pairwise_cons.mp hdone).1 e' he'rest
  · intro hapart mapping' hperm
    refine TargetsDone.renamesAtOnce ?_ (hreordered mapping' hperm)
    have hdistinctEntries : mapping'.entries.Nodup := mapping'.nodup.of_map _
    refine hdistinctEntries.imp_of_mem fun he he' hne => ?_
    exact hapart _ (hperm.subset he) _ (hperm.subset he') hne

end AtOnce

section Fixed

/-- Two fields are given new names. -/
def twoRenamed : Dict String String := ⟨[("first", "given"), ("last", "family")], by decide⟩

/-- Two fields change places. -/
def swapped : Dict String String := ⟨[("a", "b"), ("b", "a")], by decide⟩

/-- The two fields the other way round. -/
def twoReordered : Dict String String := ⟨[("last", "family"), ("first", "given")], by decide⟩

/-- Fields with new names are renamed at once, in either order. -/
theorem renamesAtOnce_iff_twoRenamed :
    RenamesAtOnce twoReordered (⟨[("last", 2), ("first", 1)], by decide⟩ : Dict String ℕ) :=
  (renamesAtOnce_iff twoRenamed _ (by decide)).2.mpr (by decide) twoReordered
    (List.Perm.swap _ _ _)

/-- Fields that change places are not renamed at once: a value is lost. -/
theorem renamesAtOnce_fails :
    ¬∀ (mapping : Dict String String) (value : Dict String ℕ), DistinctTargets mapping →
      RenamesAtOnce mapping value := by
  intro h
  have hswap := (h swapped ⟨[("a", 1), ("b", 2)], by decide⟩ (by decide) "b").1
    ⟨("a", "b"), by decide, by decide, Or.inr rfl⟩
  revert hswap
  decide

end Fixed

end PalmEngine.Transform
