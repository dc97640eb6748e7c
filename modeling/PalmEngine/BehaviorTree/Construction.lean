import PalmEngine.Lib.Forest

/-!
# Building behavior trees

Nodes are objects with a parent and children. A constructor makes a new object and adds its children
one after the other; where one is refused, or where the constructor refuses another of its arguments
afterwards, the object and the links made so far remain. A child is added only if it has no parent
yet and is not at or above the node it is added to, which is found by following the parents.

Whatever is built, the objects form a forest, and no validation of a node raises.
-/

namespace PalmEngine.BehaviorTree

open PalmEngine.Lib

/-- The bases of the node classes. -/
inductive NodeKind where
  | leaf
  | composite
  | decorator
  deriving DecidableEq, Repr

/-- The fields of a node object that links it to others. -/
structure NodeObject where
  kind : NodeKind
  name : String
  parent : Option ℕ := none
  children : List ℕ := []
  deriving DecidableEq, Repr

/-- The node objects by their identity. -/
structure NodeHeap where
  objects : List NodeObject := []
  deriving DecidableEq, Repr

/-- Why a child is refused or a validation raises. -/
inductive InvalidTreeStructureError where
  | alreadyHasParent (child parent : String)
  | cycle (child node : String)
  | leafWithChild (leaf child : String)
  | alreadyHasChild (decorator child : String)
  | duplicate (node : String)
  deriving DecidableEq, Repr

/-- Why a call raises. An argument that is no object is not passed at all. -/
inductive BuildError where
  | structure (error : InvalidTreeStructureError)
  | value (text : String)
  | noObject
  deriving DecidableEq, Repr

/-- What a decorator takes besides its child. -/
inductive DecoratorOptions where
  | plain
  | repeating (times : Option ℤ)
  | retrying (maxAttempts : ℤ)
  deriving DecidableEq, Repr

/-- The calls that make nodes and add children. -/
inductive BuildCall where
  | leaf (name : String)
  | composite (name : String) (children : List ℕ)
  | decorator (name : String) (child : Option ℕ) (options : DecoratorOptions)
  | root (name : String) (child : ℕ)
  | addChild (node child : ℕ)
  deriving DecidableEq, Repr

namespace NodeHeap

/-- The parent of a node. -/
def parentOf (heap : NodeHeap) (n : ℕ) : Option ℕ := heap.objects[n]?.bind NodeObject.parent

/-- The children of a node. -/
def childrenOf (heap : NodeHeap) (n : ℕ) : List ℕ :=
  (heap.objects[n]?.map NodeObject.children).getD []

/-- The name of a node. -/
def nameOf (heap : NodeHeap) (n : ℕ) : String := (heap.objects[n]?.map NodeObject.name).getD ""

/-- The parent of the child is set, then the child is appended. -/
def link (heap : NodeHeap) (node child : ℕ) : NodeHeap :=
  let objects := heap.objects.modify child fun o => { o with parent := some node }
  ⟨objects.modify node fun o => { o with children := o.children ++ [child] }⟩

/-- A new object, without links. -/
def allocate (heap : NodeHeap) (kind : NodeKind) (name : String) : NodeHeap :=
  ⟨heap.objects ++ [⟨kind, name, none, []⟩]⟩

/-- Add a child to a node of any kind. There is no outcome if the parents go on for longer than
there are objects. -/
def addChildBase (heap : NodeHeap) (node child : ℕ) :
    Option (Except InvalidTreeStructureError NodeHeap) :=
  match heap.parentOf child with
  | some parent => some (.error (.alreadyHasParent (heap.nameOf child) (heap.nameOf parent)))
  | none =>
    match findAbove heap.parentOf child heap.objects.length (some node) with
    | none => none
    | some true => some (.error (.cycle (heap.nameOf child) (heap.nameOf node)))
    | some false => some (.ok (heap.link node child))

/-- Add a child to a node of some kind: a leaf takes none, a decorator takes one. -/
def addChild (heap : NodeHeap) (kind : NodeKind) (node child : ℕ) :
    Option (Except InvalidTreeStructureError NodeHeap) :=
  match kind with
  | .leaf => some (.error (.leafWithChild (heap.nameOf node) (heap.nameOf child)))
  | .composite => heap.addChildBase node child
  | .decorator =>
    match heap.childrenOf node with
    | first :: _ => some (.error (.alreadyHasChild (heap.nameOf node) (heap.nameOf first)))
    | [] => heap.addChildBase node child

/-- Add children one after the other, up to one that is refused. -/
def addChildren (kind : NodeKind) (node : ℕ) :
    NodeHeap → List ℕ → Option (NodeHeap × Except BuildError Unit)
  | heap, [] => some (heap, .ok ())
  | heap, child :: rest =>
    match heap.addChild kind node child with
    | none => none
    | some (.error error) => some (heap, .error (.structure error))
    | some (.ok heap) => addChildren kind node heap rest

/-- Make a node and add its children. -/
def construct (heap : NodeHeap) (kind : NodeKind) (name : String) (children : List ℕ) :
    Option (NodeHeap × Except BuildError Unit) :=
  addChildren kind heap.objects.length (heap.allocate kind name) children

/-- Visit the tree below a node, and raise at a node that has been seen. There is no outcome if it
is deeper than there are objects. -/
def validateTreeStructure (heap : NodeHeap) (node : ℕ) :
    Option (Except InvalidTreeStructureError Unit) :=
  match visitBelow heap.childrenOf heap.objects.length [] node with
  | none => none
  | some (.error seen) => some (.error (.duplicate (heap.nameOf seen)))
  | some (.ok _) => some (.ok ())

end NodeHeap

/-- What a decorator requires of what it takes, once its child is added. -/
def DecoratorOptions.check : DecoratorOptions → Except BuildError Unit
  | .plain => .ok ()
  | .repeating none => .ok ()
  | .repeating (some times) =>
    if times < 1 then .error (.value "RepeatNode times must be None or >= 1") else .ok ()
  | .retrying maxAttempts =>
    if maxAttempts < 1 then .error (.value "RetryNode max_attempts must be >= 1") else .ok ()

/-- The objects that a call is given. -/
def BuildCall.arguments : BuildCall → List ℕ
  | .leaf _ => []
  | .composite _ children => children
  | .decorator _ child _ => child.toList
  | .root _ child => [child]
  | .addChild node child => [node, child]

/-- Make a call with objects that exist. -/
def BuildCall.perform (heap : NodeHeap) : BuildCall → Option (NodeHeap × Except BuildError Unit)
  | .leaf name => heap.construct .leaf name []
  | .composite name children => heap.construct .composite name children
  | .decorator name child options =>
    match heap.construct .decorator name child.toList with
    | some (heap, .ok ()) => some (heap, options.check)
    | refused => refused
  | .root name child =>
    match heap.construct .decorator name [child] with
    | some (built, .ok ()) =>
      match built.validateTreeStructure heap.objects.length with
      | none => none
      | some (.error error) => some (built, .error (.structure error))
      | some (.ok ()) => some (built, .ok ())
    | refused => refused
  | .addChild node child =>
    match heap.objects[node]? with
    | none => some (heap, .error .noObject)
    | some object => NodeHeap.addChildren object.kind node heap [child]

/-- Make a call. -/
def BuildCall.call (heap : NodeHeap) (call : BuildCall) :
    Option (NodeHeap × Except BuildError Unit) :=
  if ∀ n ∈ call.arguments, n < heap.objects.length then call.perform heap
  else some (heap, .error .noObject)

/-- The objects after calls that may have raised, if every call has returned or raised. -/
def NodeHeap.build : NodeHeap → List BuildCall → Option NodeHeap
  | heap, [] => some heap
  | heap, call :: rest => (call.call heap).bind fun out => build out.1 rest

/-- How many children a node of some kind may have. -/
def NodeKind.Holds : NodeKind → List ℕ → Prop
  | .leaf, children => children = []
  | .composite, _ => True
  | .decorator, children => children.length ≤ 1

/-- Parents and children agree, no node is a child twice or above itself, and no node has more
children than its kind may have. -/
structure NodeHeap.WellLinked (heap : NodeHeap) : Prop where
  mem_childrenOf_iff : ∀ n c, c ∈ heap.childrenOf n ↔ heap.parentOf c = some n
  nodup : ∀ n, (heap.childrenOf n).Nodup
  forest : IsForest heap.parentOf
  holds : ∀ (n : ℕ) (object : NodeObject), heap.objects[n]? = some object →
    object.kind.Holds object.children

namespace NodeHeap

variable {heap heap' : NodeHeap} {kind : NodeKind} {name : String} {node child : ℕ}

/-- A new object has no parent. -/
@[simp] theorem parentOf_allocate : (heap.allocate kind name).parentOf = heap.parentOf := by
  funext n
  unfold parentOf allocate
  rcases Nat.lt_trichotomy n heap.objects.length with h | h | h
  · rw [List.getElem?_append_left h]
  · subst h
    simp
  · rw [List.getElem?_eq_none h.le, List.getElem?_eq_none (by simpa using h)]

/-- A new object has no children. -/
@[simp] theorem childrenOf_allocate : (heap.allocate kind name).childrenOf = heap.childrenOf := by
  funext n
  unfold childrenOf allocate
  rcases Nat.lt_trichotomy n heap.objects.length with h | h | h
  · rw [List.getElem?_append_left h]
  · subst h
    simp
  · rw [List.getElem?_eq_none h.le, List.getElem?_eq_none (by simpa using h)]

/-- A link makes no object. -/
@[simp] theorem length_link : (heap.link node child).objects.length = heap.objects.length := by
  simp [link]

/-- An object after a link. -/
theorem getElem?_link (n : ℕ) : (heap.link node child).objects[n]? =
    heap.objects[n]?.map fun o =>
      { o with
        parent := if child = n then some node else o.parent
        children := if node = n then o.children ++ [child] else o.children } := by
  simp only [link, List.getElem?_modify]
  cases heap.objects[n]? with
  | none => rfl
  | some o =>
    by_cases hchild : child = n <;> by_cases hnode : node = n <;> simp [hchild, hnode]

/-- A link changes the parent of the child. -/
theorem parentOf_link (hchild : child < heap.objects.length) :
    (heap.link node child).parentOf = Function.update heap.parentOf child (some node) := by
  funext n
  unfold parentOf
  rw [getElem?_link]
  by_cases h : n = child
  · subst h
    simp [hchild]
  · simp [h, Ne.symm h, Option.bind_map]

/-- A link changes the children of the node. -/
theorem childrenOf_link (hnode : node < heap.objects.length) :
    (heap.link node child).childrenOf =
      Function.update heap.childrenOf node (heap.childrenOf node ++ [child]) := by
  funext n
  unfold childrenOf
  rw [getElem?_link]
  by_cases h : n = node
  · subst h
    simp [hnode]
  · simp [h, Ne.symm h, Function.comp_def]

/-- A node that has a child is an object. -/
theorem lt_of_mem_childrenOf {n c : ℕ} (h : c ∈ heap.childrenOf n) : n < heap.objects.length := by
  by_contra hn
  simp [childrenOf, List.getElem?_eq_none (not_lt.mp hn)] at h

/-- A node that has a parent is an object. -/
theorem lt_of_parentOf {n p : ℕ} (h : heap.parentOf n = some p) : n < heap.objects.length := by
  by_contra hn
  simp [parentOf, List.getElem?_eq_none (not_lt.mp hn)] at h

/-- In the beginning there is no object. -/
theorem wellLinked_empty : WellLinked {} where
  mem_childrenOf_iff n c := by simp [childrenOf, parentOf]
  nodup n := by simp [childrenOf]
  forest := by
    have hnone : parentOf {} = fun _ => none := by
      funext n
      simp [parentOf]
    exact hnone ▸ isForest_none
  holds n object h := by simp at h

/-- A new object is linked to none. -/
theorem WellLinked.allocate (h : heap.WellLinked) (kind : NodeKind) (name : String) :
    (heap.allocate kind name).WellLinked where
  mem_childrenOf_iff := by simpa using h.mem_childrenOf_iff
  nodup := by simpa using h.nodup
  forest := by simpa using h.forest
  holds n object hobject := by
    rcases Nat.lt_or_ge n heap.objects.length with hn | hn
    · exact h.holds n object (by rwa [NodeHeap.allocate, List.getElem?_append_left hn] at hobject)
    · rw [NodeHeap.allocate, List.getElem?_append_right hn, List.getElem?_singleton] at hobject
      split at hobject
      · cases Option.some.inj hobject
        cases kind <;> simp [NodeKind.Holds]
      · cases hobject

/-- A node without a parent that is not at or above another may be linked to it. -/
theorem WellLinked.link (h : heap.WellLinked) (hnode : node < heap.objects.length)
    (hchild : child < heap.objects.length) (hparentless : heap.parentOf child = none)
    (hfree : ¬AtOrAbove heap.parentOf node child)
    (hroom : ∀ object, heap.objects[node]? = some object →
      object.kind.Holds (object.children ++ [child])) : (heap.link node child).WellLinked where
  mem_childrenOf_iff n c := by
    have hnot : ∀ m, child ∉ heap.childrenOf m := by
      intro m hmem
      exact Option.some_ne_none m (((h.mem_childrenOf_iff m child).mp hmem).symm.trans hparentless)
    rw [parentOf_link hchild, childrenOf_link hnode]
    by_cases hc : c = child
    · subst hc
      by_cases hn : n = node
      · subst hn
        simp
      · simp [hn, Ne.symm hn, hnot n]
    · rw [Function.update_of_ne hc, ← h.mem_childrenOf_iff n c]
      by_cases hn : n = node
      · subst hn
        simp [hc]
      · simp [hn]
  nodup n := by
    rw [childrenOf_link hnode]
    by_cases hn : n = node
    · subst hn
      rw [Function.update_self]
      have hnot : child ∉ heap.childrenOf n := by
        intro hmem
        exact Option.some_ne_none n
          (((h.mem_childrenOf_iff n child).mp hmem).symm.trans hparentless)
      exact List.nodup_append_comm.mp (List.nodup_cons.mpr ⟨hnot, h.nodup n⟩)
    · rw [Function.update_of_ne hn]
      exact h.nodup n
  forest := by
    rw [parentOf_link hchild]
    exact h.forest.update hfree
  holds n object hobject := by
    rw [getElem?_link] at hobject
    obtain ⟨old, hold, rfl⟩ := Option.map_eq_some_iff.mp hobject
    by_cases hn : n = node
    · subst hn
      simpa using hroom old hold
    · simpa [Ne.symm hn] using h.holds n old hold

/-- The way up from a node ends. -/
theorem WellLinked.exists_findAbove (h : heap.WellLinked) (target : ℕ)
    (hnode : node < heap.objects.length) :
    ∃ found, findAbove heap.parentOf target heap.objects.length (some node) = some found := by
  refine Lib.exists_findAbove h.forest target (Finset.range heap.objects.length) ?_
    (Finset.card_range _).le (Finset.mem_range.mpr hnode)
  intro m _ p hp
  exact Finset.mem_range.mpr (lt_of_mem_childrenOf ((h.mem_childrenOf_iff p m).mpr hp))

/-- Adding a child returns or raises, and it links the child to a node it may be linked to. -/
theorem WellLinked.addChildBase (h : heap.WellLinked) (hnode : node < heap.objects.length)
    (child : ℕ) : ∃ out, heap.addChildBase node child = some out ∧
      ∀ heap', out = .ok heap' → heap' = heap.link node child ∧ heap.parentOf child = none ∧
        ¬AtOrAbove heap.parentOf node child := by
  unfold NodeHeap.addChildBase
  split
  · exact ⟨_, rfl, fun _ hout => by cases hout⟩
  · next hparentless =>
    obtain ⟨found, hfound⟩ := h.exists_findAbove child hnode
    rw [hfound]
    cases found with
    | true => exact ⟨_, rfl, fun _ hout => by cases hout⟩
    | false =>
      refine ⟨_, rfl, fun heap' hout => ?_⟩
      cases hout
      exact ⟨rfl, hparentless, fun habove =>
        Bool.false_ne_true ((findAbove_eq_some hfound).mpr habove)⟩

/-- Adding a child to a node of its kind returns or raises, and keeps the objects linked. -/
theorem WellLinked.addChild (h : heap.WellLinked) {object : NodeObject}
    (hobject : heap.objects[node]? = some object) (hchild : child < heap.objects.length) :
    ∃ out, heap.addChild object.kind node child = some out ∧
      ∀ heap', out = .ok heap' → heap'.WellLinked ∧ heap' = heap.link node child := by
  obtain ⟨hnode, -⟩ := List.getElem?_eq_some_iff.mp hobject
  obtain ⟨out, hout, hlinks⟩ := h.addChildBase hnode child
  have hkeeps : (object.kind.Holds (object.children ++ [child])) → ∀ heap', out = .ok heap' →
      heap'.WellLinked ∧ heap' = heap.link node child := by
    intro hroom heap' hok
    obtain ⟨rfl, hparentless, hfree⟩ := hlinks heap' hok
    refine ⟨h.link hnode hchild hparentless hfree fun other hother => ?_, rfl⟩
    exact Option.some.inj (hobject.symm.trans hother) ▸ hroom
  unfold NodeHeap.addChild
  cases hkind : object.kind with
  | leaf => exact ⟨_, rfl, fun _ hout => by cases hout⟩
  | composite =>
    rw [hkind] at hkeeps
    exact ⟨out, hout, hkeeps trivial⟩
  | decorator =>
    rw [hkind] at hkeeps
    have hchildren : heap.childrenOf node = object.children := by simp [childrenOf, hobject]
    cases hfirst : heap.childrenOf node with
    | cons first rest => exact ⟨_, rfl, fun _ hout => by cases hout⟩
    | nil =>
      rw [← hchildren, hfirst] at hkeeps
      exact ⟨out, hout, hkeeps (by simp [NodeKind.Holds])⟩

/-- Adding children one after the other returns or raises, and keeps the objects linked. -/
theorem WellLinked.addChildren (h : heap.WellLinked) {object : NodeObject}
    (hobject : heap.objects[node]? = some object) (children : List ℕ)
    (hchildren : ∀ c ∈ children, c < heap.objects.length) :
    ∃ heap' outcome, addChildren object.kind node heap children = some (heap', outcome) ∧
      heap'.WellLinked ∧ heap'.objects.length = heap.objects.length := by
  induction children generalizing heap object with
  | nil => exact ⟨heap, .ok (), rfl, h, rfl⟩
  | cons child rest ih =>
    obtain ⟨out, hout, hkeeps⟩ := h.addChild hobject (hchildren child List.mem_cons_self)
    unfold NodeHeap.addChildren
    rw [hout]
    cases out with
    | error error => exact ⟨heap, _, rfl, h, rfl⟩
    | ok linked =>
      obtain ⟨hlinked, heq⟩ := hkeeps linked rfl
      have hlength : linked.objects.length = heap.objects.length := by rw [heq, length_link]
      obtain ⟨object', hobject', hkind⟩ : ∃ object', linked.objects[node]? = some object' ∧
          object'.kind = object.kind := by
        rw [heq, getElem?_link, hobject]
        exact ⟨_, rfl, rfl⟩
      obtain ⟨heap', outcome, hrest, hlinks, hlength'⟩ := ih hlinked hobject'
        fun c hc => hlength ▸ hchildren c (List.mem_cons_of_mem child hc)
      rw [hkind] at hrest
      exact ⟨heap', outcome, hrest, hlinks, hlength'.trans hlength⟩

/-- Making a node with children returns or raises, and keeps the objects linked. -/
theorem WellLinked.construct (h : heap.WellLinked) (kind : NodeKind) (name : String)
    (children : List ℕ) (hchildren : ∀ c ∈ children, c < heap.objects.length) :
    ∃ heap' outcome, heap.construct kind name children = some (heap', outcome) ∧
      heap'.WellLinked ∧ heap'.objects.length = heap.objects.length + 1 := by
  have hobject : (heap.allocate kind name).objects[heap.objects.length]? =
      some ⟨kind, name, none, []⟩ := by simp [NodeHeap.allocate]
  have hlength : (heap.allocate kind name).objects.length = heap.objects.length + 1 := by
    simp [NodeHeap.allocate]
  obtain ⟨heap', outcome, hout, hlinks, hlength'⟩ :=
    (h.allocate kind name).addChildren hobject children
      fun c hc => hlength ▸ Nat.lt_succ_of_lt (hchildren c hc)
  exact ⟨heap', outcome, hout, hlinks, hlength'.trans hlength⟩

/-- No validation raises. -/
theorem WellLinked.validateTreeStructure (h : heap.WellLinked) (hnode : node < heap.objects.length) :
    heap.validateTreeStructure node = some (.ok ()) := by
  have hvisits := h.forest.visitBelow_ok (fun n c hc => (h.mem_childrenOf_iff n c).mp hc) h.nodup
    (Finset.range heap.objects.length)
    (fun m _ c hc => Finset.mem_range.mpr (lt_of_parentOf ((h.mem_childrenOf_iff m c).mp hc)))
    (Finset.card_range _).le (Finset.mem_range.mpr hnode)
  obtain ⟨seen, hseen, -⟩ := hvisits [] (by simp)
  unfold NodeHeap.validateTreeStructure
  rw [hseen]

/-- A call returns or raises, and keeps the objects linked. -/
theorem WellLinked.call (h : heap.WellLinked) (call : BuildCall) :
    ∃ heap' outcome, call.call heap = some (heap', outcome) ∧ heap'.WellLinked := by
  unfold BuildCall.call
  split
  · next hargs =>
    cases call with
    | leaf name =>
      obtain ⟨heap', outcome, hout, hlinks, -⟩ := h.construct .leaf name [] (by simp)
      exact ⟨heap', outcome, hout, hlinks⟩
    | composite name children =>
      obtain ⟨heap', outcome, hout, hlinks, -⟩ := h.construct .composite name children hargs
      exact ⟨heap', outcome, hout, hlinks⟩
    | decorator name child options =>
      obtain ⟨heap', outcome, hout, hlinks, -⟩ :=
        h.construct .decorator name child.toList hargs
      simp only [BuildCall.perform, hout]
      cases outcome with
      | error error => exact ⟨heap', .error error, rfl, hlinks⟩
      | ok _ => exact ⟨heap', options.check, rfl, hlinks⟩
    | root name child =>
      obtain ⟨heap', outcome, hout, hlinks, hlength⟩ :=
        h.construct .decorator name [child] hargs
      simp only [BuildCall.perform, hout]
      cases outcome with
      | error error => exact ⟨heap', .error error, rfl, hlinks⟩
      | ok _ =>
        have hvalid : heap'.validateTreeStructure heap.objects.length = some (.ok ()) :=
          hlinks.validateTreeStructure (by omega)
        exact ⟨heap', .ok (), by simp only [hvalid], hlinks⟩
    | addChild node child =>
      have hnode : node < heap.objects.length := hargs node (by simp [BuildCall.arguments])
      have hobject := List.getElem?_eq_getElem hnode
      obtain ⟨heap', outcome, hout, hlinks, -⟩ := h.addChildren hobject [child]
        fun c hc => hargs c (by simp_all [BuildCall.arguments])
      exact ⟨heap', outcome, by simp only [BuildCall.perform, hobject, hout], hlinks⟩
  · exact ⟨heap, _, rfl, h⟩

/-- Calls one after the other return or raise, and keep the objects linked. -/
theorem WellLinked.build (h : heap.WellLinked) (calls : List BuildCall) :
    ∃ heap', heap.build calls = some heap' ∧ heap'.WellLinked := by
  induction calls generalizing heap with
  | nil => exact ⟨heap, rfl, h⟩
  | cons call rest ih =>
    obtain ⟨next, outcome, hcall, hnext⟩ := h.call call
    obtain ⟨heap', hrest, hheap'⟩ := ih hnext
    exact ⟨heap', by simp only [NodeHeap.build, hcall, Option.bind_some, hrest], hheap'⟩

/-- After any calls, whether they have returned or raised, parents and children agree, no node has
two parents or is a child twice, no node is above itself, and the validation of any node returns. -/
theorem build_forest (calls : List BuildCall) : ∃ heap, build {} calls = some heap ∧
    (∀ n c, c ∈ heap.childrenOf n ↔ heap.parentOf c = some n) ∧
    (∀ n, (heap.childrenOf n).Nodup) ∧
    (∀ n m c, c ∈ heap.childrenOf n → c ∈ heap.childrenOf m → n = m) ∧
    (∀ n, ¬IsAbove heap.parentOf n n) ∧
    ∀ n < heap.objects.length, heap.validateTreeStructure n = some (.ok ()) := by
  obtain ⟨heap, hbuild, h⟩ := wellLinked_empty.build calls
  refine ⟨heap, hbuild, h.mem_childrenOf_iff, h.nodup, ?_, h.forest,
    fun n hn => h.validateTreeStructure hn⟩
  intro n m c hn hm
  exact Option.some.inj
    (((h.mem_childrenOf_iff n c).mp hn).symm.trans ((h.mem_childrenOf_iff m c).mp hm))

end NodeHeap

end PalmEngine.BehaviorTree
