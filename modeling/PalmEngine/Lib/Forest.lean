import Mathlib

/-!
# Forests

Every node has a parent or none, and no node is above itself. Making a node the child of another
keeps it so if the node is neither the other nor above it, which is found by going up from the
other. In a finite forest one goes up through no more nodes than there are. What is below one child is
not below another, so a visit of all that is below a node meets no node twice.
-/

namespace PalmEngine.Lib

variable {α : Type*}

/-- A node has a parent. -/
def HasParent (parent : α → Option α) (n p : α) : Prop := parent n = some p

/-- A node is another, or above it. -/
def AtOrAbove (parent : α → Option α) (n a : α) : Prop :=
  Relation.ReflTransGen (HasParent parent) n a

/-- A node is above another. -/
def IsAbove (parent : α → Option α) (n a : α) : Prop := Relation.TransGen (HasParent parent) n a

/-- No node is above itself. -/
def IsForest (parent : α → Option α) : Prop := ∀ n, ¬IsAbove parent n n

/-- Look for a node by going up, past so many nodes at most. There is no answer if the way up is
longer. -/
def findAbove [DecidableEq α] (parent : α → Option α) (target : α) : ℕ → Option α → Option Bool
  | _, none => some false
  | 0, some _ => none
  | fuel + 1, some n => if n = target then some true else findAbove parent target fuel (parent n)

/-- Visit nodes one after the other with what has been seen, up to an error. -/
def visitAll {ε : Type*} (visit : List α → α → Option (Except ε (List α))) :
    List α → List α → Option (Except ε (List α))
  | seen, [] => some (.ok seen)
  | seen, n :: rest =>
    match visit seen n with
    | none => none
    | some (.error error) => some (.error error)
    | some (.ok seen) => visitAll visit seen rest

/-- Visit a node and what is below it, so many levels at most, up to a node that has been seen. -/
def visitBelow [DecidableEq α] (children : α → List α) :
    ℕ → List α → α → Option (Except α (List α))
  | 0, _, _ => none
  | fuel + 1, seen, n =>
    if n ∈ seen then some (.error n)
    else visitAll (visitBelow children fuel) (n :: seen) (children n)

section Forest

variable {parent : α → Option α} {n p c c' x : α}

/-- A node has one parent. -/
theorem hasParent_rightUnique (parent : α → Option α) : Relator.RightUnique (HasParent parent) :=
  fun _ _ _ h h' => Option.some.inj (h.symm.trans h')

/-- Nothing is above anything where no node has a parent. -/
theorem isForest_none : IsForest fun _ : α => none := by
  intro n hn
  obtain ⟨m, hm, -⟩ := Relation.TransGen.head'_iff.mp hn
  cases hm

/-- What is above a node is at or above its parent. -/
theorem isAbove_iff_of_hasParent (h : parent n = some p) : IsAbove parent n x ↔ AtOrAbove parent p x := by
  constructor
  · intro hx
    obtain ⟨m, hm, hmx⟩ := Relation.TransGen.head'_iff.mp hx
    exact Option.some.inj (h.symm.trans hm) ▸ hmx
  · exact fun hx => Relation.TransGen.head' h hx

/-- A search that ends has found whether the node is at or above where it began. -/
theorem findAbove_eq_some [DecidableEq α] {target : α} {fuel : ℕ} {found : Bool}
    (h : findAbove parent target fuel (some n) = some found) :
    found = true ↔ AtOrAbove parent n target := by
  induction fuel generalizing n with
  | zero => cases h
  | succ fuel ih =>
    unfold findAbove at h
    split at h
    · next heq =>
      subst heq
      exact iff_of_true (Option.some.inj h).symm Relation.ReflTransGen.refl
    · next hne =>
      rw [show AtOrAbove parent n target ↔ IsAbove parent n target from
        (Relation.reflTransGen_iff_eq_or_transGen.trans (or_iff_right (Ne.symm hne)))]
      cases hp : parent n with
      | none =>
        rw [hp] at h
        have hfound : found = false := by cases fuel <;> exact (Option.some.inj h).symm
        refine iff_of_false (by simp [hfound]) fun habove => ?_
        obtain ⟨m, hm, -⟩ := Relation.TransGen.head'_iff.mp habove
        exact Option.some_ne_none m (hm.symm.trans hp)
      | some p => exact (ih (hp ▸ h)).trans (isAbove_iff_of_hasParent hp).symm

/-- A search past as many nodes as there are ends. -/
theorem exists_findAbove [DecidableEq α] (hforest : IsForest parent) (target : α) (nodes : Finset α)
    (hclosed : ∀ m ∈ nodes, ∀ p ∈ parent m, p ∈ nodes) {fuel : ℕ} (hfuel : nodes.card ≤ fuel)
    (hn : n ∈ nodes) : ∃ found, findAbove parent target fuel (some n) = some found := by
  classical
  induction fuel generalizing n nodes with
  | zero => exact absurd hn (by simp [Finset.card_eq_zero.mp (Nat.le_zero.mp hfuel)])
  | succ fuel ih =>
    unfold findAbove
    split
    · exact ⟨true, rfl⟩
    · cases hp : parent n with
      | none => exact ⟨false, by cases fuel <;> rfl⟩
      | some p =>
        -- what is above the node is closed under parents and does not have the node itself
        have hmem : ∀ m, m ∈ nodes.filter (IsAbove parent n ·) ↔ m ∈ nodes ∧ IsAbove parent n m :=
          fun m => Finset.mem_filter
        have hless : nodes.filter (IsAbove parent n ·) ⊂ nodes :=
          Finset.filter_ssubset.mpr ⟨n, hn, hforest n⟩
        refine ih (nodes.filter (IsAbove parent n ·)) ?_ ?_ ?_
        · intro m hm q hq
          rw [hmem] at hm ⊢
          exact ⟨hclosed m hm.1 q hq, hm.2.tail hq⟩
        · exact Nat.le_of_lt_succ ((Finset.card_lt_card hless).trans_le hfuel)
        · exact (hmem p).mpr ⟨hclosed n hn p hp, Relation.TransGen.single hp⟩

/-- After a node got a parent, a step up is the one to it, or was one before. -/
theorem hasParent_of_update [DecidableEq α] (h : HasParent (Function.update parent c (some p)) n x) :
    (n = c ∧ x = p) ∨ (n ≠ c ∧ HasParent parent n x) := by
  unfold HasParent at h
  by_cases hn : n = c
  · subst hn
    rw [Function.update_self] at h
    exact Or.inl ⟨rfl, (Option.some.inj h).symm⟩
  · rw [Function.update_of_ne hn] at h
    exact Or.inr ⟨hn, h⟩

/-- What leads up from a new parent without the new child led up from it before. -/
theorem atOrAbove_of_update [DecidableEq α] (hfree : ¬AtOrAbove parent p c)
    (h : AtOrAbove (Function.update parent c (some p)) p x) : AtOrAbove parent p x := by
  induction h with
  | refl => exact Relation.ReflTransGen.refl
  | tail _ hstep ih =>
    rcases hasParent_of_update hstep with ⟨rfl, -⟩ | ⟨-, hstep⟩
    · exact absurd ih hfree
    · exact ih.tail hstep

/-- What is above a node after a node got a parent was above it before, or leads through the new
child and its parent. -/
theorem isAbove_of_update [DecidableEq α] (h : IsAbove (Function.update parent c (some p)) n x) :
    IsAbove parent n x ∨
      (AtOrAbove parent n c ∧ AtOrAbove (Function.update parent c (some p)) p x) := by
  induction h using Relation.TransGen.head_induction_on with
  | single hstep =>
    rcases hasParent_of_update hstep with ⟨rfl, rfl⟩ | ⟨-, hstep⟩
    · exact Or.inr ⟨Relation.ReflTransGen.refl, Relation.ReflTransGen.refl⟩
    · exact Or.inl (Relation.TransGen.single hstep)
  | head hstep hrest ih =>
    rcases hasParent_of_update hstep with ⟨rfl, rfl⟩ | ⟨-, hstep⟩
    · exact Or.inr ⟨Relation.ReflTransGen.refl, hrest.to_reflTransGen⟩
    · rcases ih with hold | ⟨hc, hx⟩
      · exact Or.inl (Relation.TransGen.head hstep hold)
      · exact Or.inr ⟨Relation.ReflTransGen.head hstep hc, hx⟩

/-- A node that is not at or above another may become its child. -/
theorem IsForest.update [DecidableEq α] (hforest : IsForest parent) (hfree : ¬AtOrAbove parent p c) :
    IsForest (Function.update parent c (some p)) := by
  intro n hn
  rcases isAbove_of_update hn with hold | ⟨hnc, hpn⟩
  · exact hforest n hold
  · exact hfree ((atOrAbove_of_update hfree hpn).trans hnc)

/-- No parent is at or below its child. -/
theorem IsForest.not_atOrAbove_child (hforest : IsForest parent) (h : parent c = some p) :
    ¬AtOrAbove parent p c :=
  fun hc => hforest c (Relation.TransGen.head' h hc)

/-- What is at or below one child of a node is not at or below another. -/
theorem IsForest.eq_of_siblings (hforest : IsForest parent) (hc : parent c = some p)
    (hc' : parent c' = some p) (hx : AtOrAbove parent x c) (hx' : AtOrAbove parent x c') :
    c = c' := by
  have hsibling : ∀ {d d' : α}, parent d = some p → parent d' = some p → AtOrAbove parent d d' →
      d = d' := by
    intro d d' hd hd' habove
    by_contra hne
    rcases Relation.reflTransGen_iff_eq_or_transGen.mp habove with heq | habove
    · exact hne heq.symm
    · exact hforest.not_atOrAbove_child hd' ((isAbove_iff_of_hasParent hd).mp habove)
  rcases Relation.ReflTransGen.total_of_right_unique (hasParent_rightUnique parent) hx hx' with h | h
  · exact hsibling hc hc' h
  · exact (hsibling hc' hc h).symm

/-- What a visit of a node is to do when nothing at or below the node has been seen: it returns, and
what has been seen then was seen before or is at or below the node. -/
def Visits {ε : Type*} (parent : α → Option α) (visit : List α → α → Option (Except ε (List α)))
    (n : α) : Prop :=
  ∀ seen, (∀ x, AtOrAbove parent x n → x ∉ seen) →
    ∃ seen', visit seen n = some (.ok seen') ∧ ∀ x ∈ seen', x ∈ seen ∨ AtOrAbove parent x n

/-- If each child of a node can be visited, they can be visited one after the other. -/
theorem IsForest.visitAll_ok {ε : Type*} (hforest : IsForest parent)
    {visit : List α → α → Option (Except ε (List α))} {cs : List α} (hnodup : cs.Nodup)
    (hparent : ∀ c ∈ cs, parent c = some p) (hvisit : ∀ c ∈ cs, Visits parent visit c)
    {seen : List α} (hseen : ∀ c ∈ cs, ∀ x, AtOrAbove parent x c → x ∉ seen) :
    ∃ seen', visitAll visit seen cs = some (.ok seen') ∧
      ∀ x ∈ seen', x ∈ seen ∨ ∃ c ∈ cs, AtOrAbove parent x c := by
  induction cs generalizing seen with
  | nil => exact ⟨seen, rfl, fun x hx => Or.inl hx⟩
  | cons c cs ih =>
    obtain ⟨hnew, hnodup⟩ := List.nodup_cons.mp hnodup
    obtain ⟨seen', hc, hbelow⟩ := hvisit c List.mem_cons_self seen (hseen c List.mem_cons_self)
    -- what is at or below this child is not at or below the ones that follow
    have hseen' : ∀ d ∈ cs, ∀ x, AtOrAbove parent x d → x ∉ seen' := by
      intro d hd x hxd hx
      rcases hbelow x hx with hold | hxc
      · exact hseen d (List.mem_cons_of_mem c hd) x hxd hold
      · have heq : c = d := hforest.eq_of_siblings (hparent c List.mem_cons_self)
          (hparent d (List.mem_cons_of_mem c hd)) hxc hxd
        exact hnew (heq ▸ hd)
    obtain ⟨seen'', hrest, hbelow'⟩ := ih hnodup
      (fun d hd => hparent d (List.mem_cons_of_mem c hd))
      (fun d hd => hvisit d (List.mem_cons_of_mem c hd)) hseen'
    refine ⟨seen'', by simp only [visitAll, hc, hrest], fun x hx => ?_⟩
    rcases hbelow' x hx with hx | ⟨d, hd, hxd⟩
    · rcases hbelow x hx with hx | hxc
      · exact Or.inl hx
      · exact Or.inr ⟨c, List.mem_cons_self, hxc⟩
    · exact Or.inr ⟨d, List.mem_cons_of_mem c hd, hxd⟩

/-- In a finite forest a visit of a node and what is below it returns. -/
theorem IsForest.visitBelow_ok [DecidableEq α] (hforest : IsForest parent) {children : α → List α}
    (hparent : ∀ n, ∀ c ∈ children n, parent c = some n) (hnodup : ∀ n, (children n).Nodup)
    (nodes : Finset α) (hclosed : ∀ m ∈ nodes, ∀ c ∈ children m, c ∈ nodes) {fuel : ℕ}
    (hfuel : nodes.card ≤ fuel) (hn : n ∈ nodes) : Visits parent (visitBelow children fuel) n := by
  classical
  induction fuel generalizing n nodes with
  | zero => exact absurd hn (by simp [Finset.card_eq_zero.mp (Nat.le_zero.mp hfuel)])
  | succ fuel ih =>
    intro seen hseen
    have hself : n ∉ seen := hseen n Relation.ReflTransGen.refl
    -- what is below the node is closed under children and does not have the node itself
    have hmem : ∀ m, m ∈ nodes.filter (IsAbove parent · n) ↔ m ∈ nodes ∧ IsAbove parent m n :=
      fun m => Finset.mem_filter
    have hless : nodes.filter (IsAbove parent · n) ⊂ nodes :=
      Finset.filter_ssubset.mpr ⟨n, hn, hforest n⟩
    have hvisit : ∀ c ∈ children n, Visits parent (visitBelow children fuel) c := by
      intro c hc
      refine ih (nodes.filter (IsAbove parent · n)) ?_ ?_ ?_
      · intro m hm d hd
        rw [hmem] at hm ⊢
        exact ⟨hclosed m hm.1 d hd, Relation.TransGen.head (hparent m d hd) hm.2⟩
      · exact Nat.le_of_lt_succ ((Finset.card_lt_card hless).trans_le hfuel)
      · exact (hmem c).mpr ⟨hclosed n hn c hc, Relation.TransGen.single (hparent n c hc)⟩
    have hfresh : ∀ c ∈ children n, ∀ x, AtOrAbove parent x c → x ∉ n :: seen := by
      intro c hc x hx hmem
      rcases List.mem_cons.mp hmem with rfl | hold
      · exact hforest.not_atOrAbove_child (hparent x c hc) hx
      · exact hseen x (hx.tail (hparent n c hc)) hold
    obtain ⟨seen', hall, hbelow⟩ := hforest.visitAll_ok (hnodup n) (hparent n) hvisit hfresh
    refine ⟨seen', by simp only [visitBelow, if_neg hself, hall], fun x hx => ?_⟩
    rcases hbelow x hx with hx | ⟨c, hc, hxc⟩
    · rcases List.mem_cons.mp hx with rfl | hx
      · exact Or.inr Relation.ReflTransGen.refl
      · exact Or.inl hx
    · exact Or.inr (hxc.tail (hparent n c hc))

end Forest

end PalmEngine.Lib
