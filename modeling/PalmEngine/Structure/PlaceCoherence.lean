import PalmEngine.Structure.Places
import PalmEngine.Workloads.Book

/-!
# Coherence of the places

A place is observed ready only when the registry finds it ready, it is found ready only while the
workload that stands for it is live, and its release ends the workloads that were started or
adopted for it. This holds as long as the workload that an ensure finds or gets has the id of the
place, is labelled with it and was not stopped.
-/

namespace PalmEngine.Structure

open PalmEngine.Lib PalmEngine.Workloads

/-- The hands of the place have a workload for it. -/
def HasWorkload (place : String) : Prop :=
  placeRoute place = .workload ∨ placeRoute place = .adopt

instance (place : String) : Decidable (HasWorkload place) := inferInstanceAs (Decidable (_ ∨ _))

/-- A workload has the id of the place and its label, and was not stopped. -/
structure StandsFor (place : String) (wl : Workload) : Prop where
  workloadId_eq : wl.workloadId = place
  placeId_eq : placeIdFor wl = place
  running : wl.status ≠ .stopped

/-- Whether a workload stands for a place. -/
instance (place : String) (wl : Workload) : Decidable (StandsFor place wl) :=
  decidable_of_iff (wl.workloadId = place ∧ placeIdFor wl = place ∧ wl.status ≠ .stopped)
    ⟨fun h => ⟨h.1, h.2.1, h.2.2⟩, fun h => ⟨h.1, h.2, h.3⟩⟩

/-- The workload that a call of the engine returns. -/
def returned? (result : EStateM.Result WorkloadError WorkloadEngine Workload) : Option Workload :=
  match result with
  | .ok wl _ => some wl
  | .error _ _ => none

/-- An intent, or another call by which what happens to a workload becomes known. -/
inductive PlaceCall where
  | intent (intent : EffectIntent) (body : PlacePayload) (w : World) (os : Except String String)
  | outcome (call : WorkloadCall)

namespace PlacePort

/-- A call on the places or on their workloads. -/
def step (s : PlacePort) : PlaceCall → Option PlacePort
  | .intent intent body w os => some (s.apply intent body w os).1
  | .outcome call =>
    if call.IsOutcome then some { s with engine := stateAfter call.perform s.engine } else none

/-- The observations of a call. -/
def observations (s : PlacePort) : PlaceCall → List PlaceObservation
  | .intent intent body w os => (s.apply intent body w os).2
  | .outcome _ => []

/-- A workload is in the book and has not ended. -/
def Live (s : PlacePort) (wid : String) : Prop :=
  ∃ wl, bookRow s.engine wid = some wl ∧ isTerminal wl.status = false

/-- What a call leaves: a place that is observed ready is ready, a place that is ready and has a
workload has a live one standing for it, and of a place that was released without an error no
workload that was started or adopted for it is live. -/
structure Coherent (s : PlacePort) (call : PlaceCall) (s' : PlacePort) : Prop where
  readied : ∀ o ∈ s.observations call, o.kind = .placeReady → s'.ready o.target = true
  stands : ∀ place, s'.ready place = true → HasWorkload (strip place) →
    ∃ wid, s'.standing.get? (strip place) = some wid ∧ s'.Live wid
  released : ∀ o ∈ s.observations call, o.kind = .placeGone → o.reason ≠ "workload_stop_error" →
    ∀ wid, (o.target, wid) ∈ s'.started → ¬ s'.Live wid

/-- The workload that an ensure finds in the book, if it has not failed, or that the engine starts
or adopts for it. -/
def bodyFor (s : PlacePort) (place : String) (body : PlacePayload) (w : World) : Option Workload :=
  if s.BookIsHome then
    match placeRoute place with
    | .workload =>
      match bookRow s.engine (body.wid place) with
      | some wl => if wl.status = .failed then none else some wl
      | none => (body.spec place).toOption.bind fun spec =>
        returned? (WorkloadEngine.start w spec (some (body.owner place)) (some (body.wid place))
          (some (body.key place)) none s.engine)
    | .adopt =>
      match body.handle with
      | none => (bookRow s.engine (body.wid place)).filter fun wl => !isTerminal wl.status
      | some handle => returned? (WorkloadEngine.adopt w (body.wid place) (some handle)
        (some { body.owner place with createdByPalm := false }) s.engine)
    | _ => none
  else none

/-- The workload that an ensure finds or gets stands for its place. -/
def OwnBody (s : PlacePort) (call : PlaceCall) (_ : PlacePort) : Prop :=
  match call with
  | .intent intent body w _ => intent.kind = .ensurePlace →
    ∀ wl ∈ s.bodyFor (strip intent.target) body w, StandsFor (strip intent.target) wl
  | .outcome _ => True

/-- The condition is decided on the book before the call. -/
instance (s : PlacePort) : ∀ call s', Decidable (s.OwnBody call s')
  | .intent intent body w _, _ =>
    inferInstanceAs (Decidable (_ → ∀ wl ∈ s.bodyFor (strip intent.target) body w, StandsFor _ wl))
  | .outcome _, _ => inferInstanceAs (Decidable True)

/-- The places over an engine that is new, or that was set up, with or without binding it. -/
def start (setUp : Option (Bool × Bool × Option String × Finset String)) (bound : Bool) :
    PlacePort where
  engine := setUp.elim WorkloadEngine.new fun options =>
    stateAfter (WorkloadEngine.doInitialize options.1 options.2.1 options.2.2.1 options.2.2.2)
      WorkloadEngine.new
  bound := bound

end PlacePort

/-! ## The book -/

/-- The book of an engine that is set up has the records. -/
theorem bookRow_eq {e : WorkloadEngine} (h : e.initialized = true) (wid : String) :
    bookRow e wid = (e.workloads.get? wid).map (·.record) := by
  rw [bookRow, WorkloadEngine.get_eq h]
  cases e.workloads.get? wid <;> rfl

/-- The book of an engine that is not set up has none. -/
theorem bookRow_none {e : WorkloadEngine} (h : e.initialized = false) (wid : String) :
    bookRow e wid = none := by
  rw [bookRow, WorkloadEngine.get_error h]

/-- The rows of an engine that is set up are the records. -/
theorem PlacePort.rows_eq {s : PlacePort} (h : s.engine.initialized = true) :
    s.rows = s.engine.workloads.values.map (·.record) := by
  simp only [PlacePort.rows, WorkloadEngine.list_eq h]

/-- One more row of a book. -/
theorem projectBook_concat (rows : List Workload) (wl : Workload) :
    projectBook (rows ++ [wl]) = if placeIdFor wl = "" then projectBook rows
      else (projectBook rows).setSome (placeIdFor wl) (projectState wl) := by
  simp only [projectBook, List.foldl_append, List.foldl_cons, List.foldl_nil]

/-- What is told of a place is told by a workload for it. -/
theorem projectBook_some {rows : List Workload} {key : String} {state : PlaceState}
    (h : (projectBook rows).get? key = some state) :
    ∃ wl ∈ rows, placeIdFor wl = key ∧ projectState wl = some state := by
  induction rows using List.reverseRecOn with
  | nil => cases h
  | append_singleton rows wl ih =>
    have hrest (hold : (projectBook rows).get? key = some state) :
        ∃ wl' ∈ rows ++ [wl], placeIdFor wl' = key ∧ projectState wl' = some state := by
      obtain ⟨wl', hwl', htold⟩ := ih hold
      exact ⟨wl', List.mem_append_left _ hwl', htold⟩
    rw [projectBook_concat] at h
    split at h
    · exact hrest h
    · by_cases hkey : key = placeIdFor wl
      · cases hstate : projectState wl with
        | none =>
          rw [hstate] at h
          exact hrest h
        | some told =>
          rw [hstate, hkey, Dict.setSome, Dict.get?_set_self] at h
          exact ⟨wl, by simp, hkey.symm, by rw [hstate, h]⟩
      · rw [Dict.get?_setSome_ne _ _ hkey] at h
        exact hrest h

/-- What all workloads for a place tell is told of it. -/
theorem projectBook_get? {rows : List Workload} {wl : Workload} {state : PlaceState}
    (hwl : wl ∈ rows) (hplace : placeIdFor wl ≠ "")
    (hall : ∀ wl' ∈ rows, placeIdFor wl' = placeIdFor wl → projectState wl' = some state) :
    (projectBook rows).get? (placeIdFor wl) = some state := by
  induction rows using List.reverseRecOn with
  | nil => cases hwl
  | append_singleton rows last ih =>
    have hold (hmem : wl ∈ rows) : (projectBook rows).get? (placeIdFor wl) = some state :=
      ih hmem fun wl' hwl' => hall wl' (List.mem_append_left _ hwl')
    rw [projectBook_concat]
    by_cases hkey : placeIdFor wl = placeIdFor last
    · rw [if_neg (hkey ▸ hplace), hkey, hall last (by simp) hkey.symm, Dict.setSome,
        Dict.get?_set_self]
    · have hmem : wl ∈ rows := by
        rcases List.mem_append.mp hwl with hmem | hlast
        · exact hmem
        · exact absurd (congrArg placeIdFor (List.mem_singleton.mp hlast)) hkey
      split
      · exact hold hmem
      · rw [Dict.get?_setSome_ne _ _ hkey]
        exact hold hmem

/-- The place that a workload stands for is a stripped text. -/
@[simp] theorem strip_placeIdFor (wl : Workload) : strip (placeIdFor wl) = placeIdFor wl := by
  unfold placeIdFor
  dsimp only
  split <;> exact strip_strip _

/-- A workload that stands for a place is live unless it has failed. -/
theorem StandsFor.live_iff {place : String} {wl : Workload}
    (h : StandsFor place wl) :
    isTerminal wl.status = false ↔ wl.status ≠ .failed := by
  have hrunning := h.running
  cases hstatus : wl.status <;> simp_all [isTerminal]

/-- A place with a workload has an id. -/
theorem HasWorkload.ne_empty {place : String} (h : HasWorkload place) : place ≠ "" := by
  rintro rfl
  exact absurd h (by decide)

namespace PlacePort

/-- Records are in a book at home, of places with a workload: they have the id and the label of the place, and
those that have not ended stand for it. Acknowledged places with a workload, and places that one
was started or adopted for, have a record. -/
structure Sound (s : PlacePort) : Prop where
  consistent : s.engine.Consistent
  home : ∀ wid t, s.engine.workloads.get? wid = some t → s.BookIsHome
  named : ∀ wid t, s.engine.workloads.get? wid = some t → t.record.workloadId = wid
  labelled : ∀ wid t, s.engine.workloads.get? wid = some t → placeIdFor t.record = wid
  placed : ∀ wid t, s.engine.workloads.get? wid = some t → HasWorkload wid
  standing : ∀ wid t, s.engine.workloads.get? wid = some t → isTerminal t.record.status = false →
    s.standing.get? wid = some wid
  acknowledged : ∀ place, s.acknowledged.get? place = some .ready → HasWorkload place →
    s.BookIsHome ∧ ∃ t, s.engine.workloads.get? place = some t
  started : ∀ place wid, (place, wid) ∈ s.started →
    wid = place ∧ ∃ t, s.engine.workloads.get? place = some t

variable {s s' : PlacePort} {place : String}

/-- A record of a book at home tells of its place. -/
theorem Sound.projected (h : s.Sound) (hhome : s.BookIsHome) {t : Tracked}
    (hget : s.engine.workloads.get? place = some t) {state : PlaceState}
    (hstate : projectState t.record = some state) :
    (projectBook s.rows).get? place = some state := by
  have hplace := h.labelled place t hget
  have hne := (h.placed place t hget).ne_empty
  have hmem : t.record ∈ s.rows := by
    rw [rows_eq hhome.2]
    refine List.mem_map_of_mem (List.mem_map.mpr ⟨(place, t), ?_, rfl⟩)
    exact (s.engine.workloads.get?_eq_some_iff _ _).mp hget
  rw [← hplace] at hne ⊢
  refine projectBook_get? hmem hne fun wl hwl hsame => ?_
  rw [rows_eq hhome.2] at hwl
  obtain ⟨t', ht', rfl⟩ := List.mem_map.mp hwl
  obtain ⟨⟨wid, t''⟩, hentry, rfl⟩ := List.mem_map.mp ht'
  have hget' := (s.engine.workloads.get?_eq_some_iff _ _).mpr hentry
  have hwid : wid = place := (h.labelled wid t'' hget').symm.trans (hsame.trans hplace)
  subst hwid
  obtain rfl := Option.some.inj (hget'.symm.trans hget)
  exact hstate

/-- What a book at home tells of a place it tells of its record. -/
theorem Sound.record_of_projected (h : s.Sound) (hhome : s.BookIsHome) {state : PlaceState}
    (hstate : (projectBook s.rows).get? place = some state) :
    ∃ t, s.engine.workloads.get? place = some t ∧ projectState t.record = some state := by
  obtain ⟨wl, hwl, hplace, htold⟩ := projectBook_some hstate
  rw [rows_eq hhome.2] at hwl
  obtain ⟨t, ht, rfl⟩ := List.mem_map.mp hwl
  obtain ⟨⟨wid, t'⟩, hentry, rfl⟩ := List.mem_map.mp ht
  have hget := (s.engine.workloads.get?_eq_some_iff _ _).mpr hentry
  have hwid : wid = place := (h.labelled wid t' hget).symm.trans hplace
  exact ⟨t', hwid ▸ hget, htold⟩

/-- A workload tells that its place is ready exactly when it has not ended. -/
theorem projectState_eq_ready (wl : Workload) :
    projectState wl = some .ready ↔ isTerminal wl.status = false := by
  unfold projectState
  cases wl.status <;> decide

/-- A place whose record has not ended is ready. -/
theorem Sound.ready_of_live (h : s.Sound) (hhome : s.BookIsHome) {t : Tracked}
    (hget : s.engine.workloads.get? place = some t)
    (hlive : isTerminal t.record.status = false) : s.ready place = true := by
  have hstrip : strip place = place := by
    rw [← h.labelled place t hget]
    exact strip_placeIdFor _
  have htold := h.projected hhome hget ((projectState_eq_ready _).mpr hlive)
  unfold ready
  simp only [hstrip, (h.placed place t hget).ne_empty, if_false, hhome, if_true, htold]
  rfl

/-- An acknowledged place without a workload is ready. -/
theorem Sound.ready_of_acknowledged (h : s.Sound) (hstrip : strip place = place) (hne : place ≠ "")
    (hnone : ¬ HasWorkload place) (hack : s.acknowledged.get? place = some .ready) :
    s.ready place = true := by
  have hrecord : s.engine.workloads.get? place = none := by
    by_contra hsome
    obtain ⟨t, ht⟩ := Option.ne_none_iff_exists'.mp hsome
    exact hnone (h.placed place t ht)
  unfold ready
  simp only [hstrip, hne, if_false, hack, decide_true, Bool.and_true]
  split
  · next hhome =>
    cases htold : (projectBook s.rows).get? place with
    | some state =>
      obtain ⟨t, ht, -⟩ := h.record_of_projected hhome htold
      cases hrecord.symm.trans ht
    | none =>
      rw [bookRow_eq hhome.2, hrecord]
      rfl
  · rfl

/-- A place with a workload that is ready has a live one standing for it. -/
theorem Sound.stands (h : s.Sound) (hready : s.ready place = true)
    (hplace : HasWorkload (strip place)) :
    ∃ wid, s.standing.get? (strip place) = some wid ∧ s.Live wid := by
  unfold ready at hready
  simp only [hplace.ne_empty, if_false] at hready
  split at hready
  · next hhome =>
    cases htold : (projectBook s.rows).get? (strip place) with
    | some state =>
      rw [htold] at hready
      obtain rfl : state = .ready := of_decide_eq_true hready
      obtain ⟨t, ht, hstate⟩ := h.record_of_projected hhome htold
      have hlive := (projectState_eq_ready _).mp hstate
      refine ⟨_, h.standing _ t ht hlive, t.record, ?_, hlive⟩
      rw [bookRow_eq hhome.2, ht]
      rfl
    | none =>
      rw [htold] at hready
      obtain ⟨hnone, hack⟩ := (Bool.and_eq_true _ _).mp hready
      obtain ⟨-, t, ht⟩ := h.acknowledged _ (of_decide_eq_true hack) hplace
      rw [bookRow_eq hhome.2, ht] at hnone
      cases hnone
  · next hnot =>
    exact absurd (h.acknowledged _ (of_decide_eq_true hready) hplace).1 hnot

/-! ## What the hands do -/

/-- What an ensure does: it is refused and the book is the same, or the place is present without a
workload, or the workload that stands for it is booked, and told to be ready unless it has
failed. -/
inductive Ensured (s : PlacePort) (place : String) (result : PlaceSpawnResult) :
    WorkloadEngine → Prop where
  | refused {e : WorkloadEngine} : result.state ≠ .ready → s.engine.SameBook e →
      Ensured s place result e
  | present : ¬ HasWorkload place → result.handle = none → Ensured s place result s.engine
  | booked {e : WorkloadEngine} (t : Tracked) : HasWorkload place → s.BookIsHome →
      result.handle = some place → s.engine.Books place t e → StandsFor place t.record →
      (result.state = .ready ↔ t.record.status ≠ .failed) → Ensured s place result e

/-- A workload with the id of a place is named by it. -/
theorem nameOr_eq {wl : Workload} {wid : String} (h : wl.workloadId = place) (hne : place ≠ "") :
    nameOr wl wid = place := by
  rw [nameOr, h, if_neg hne]

/-- What a call of the engine that starts or adopts a workload does, if what it returns stands for
the place. -/
theorem ensured_of_gives {m : EngineM Workload} (refused : PlaceSpawnResult)
    (told : Workload → PlaceSpawnResult)
    (hm : Ensures (· = s.engine) m s.engine.Gives fun _ => s.engine.SameBook)
    (hplace : HasWorkload place) (hhome : s.BookIsHome)
    (hstands : ∀ wl ∈ returned? (m s.engine), StandsFor place wl)
    (hrefused : refused.state ≠ .ready)
    (hhandle : ∀ wl, wl.workloadId = place → (told wl).handle = some place)
    (hstate : ∀ wl, (told wl).state = .ready ↔ wl.status ≠ .failed)
    {result : PlaceSpawnResult × WorkloadEngine}
    (hresult : result = match m s.engine with
      | .error _ e => (refused, e)
      | .ok wl e => (told wl, e)) : Ensured s place result.1 result.2 := by
  have hgives := hm s.engine rfl
  cases hrun : m s.engine with
  | error error e =>
    rw [hrun] at hgives hresult
    subst hresult
    exact .refused hrefused hgives
  | ok wl e =>
    rw [hrun] at hgives hresult hstands
    subst hresult
    obtain ⟨t, rfl, hbooks⟩ := hgives
    have hstands := hstands t.record rfl
    rw [hstands.workloadId_eq] at hbooks
    exact .booked t hplace hhome (hhandle _ hstands.workloadId_eq) hbooks hstands (hstate _)

/-- A record that is found in the book, if it stands for the place. -/
theorem Sound.ensured_of_row {wid : String} {wl : Workload} {result : PlaceSpawnResult}
    (hplace : HasWorkload place) (hhome : s.BookIsHome)
    (hrow : bookRow s.engine wid = some wl) (hnamed : wl.workloadId = wid)
    (hstands : StandsFor place wl) (hhandle : result.handle = some place)
    (hstate : result.state = .ready ↔ wl.status ≠ .failed) :
    Ensured s place result s.engine := by
  rw [bookRow_eq hhome.2] at hrow
  obtain ⟨t, ht, rfl⟩ := Option.map_eq_some_iff.mp hrow
  obtain rfl : wid = place := hnamed.symm.trans hstands.workloadId_eq
  exact .booked t hplace hhome hhandle ((WorkloadEngine.SameBook.refl _).books ht) hstands hstate

/-- Every row of the book has the id under which it is found. -/
theorem Sound.row_named (h : s.Sound) (hhome : s.BookIsHome) {wid : String} {wl : Workload}
    (hrow : bookRow s.engine wid = some wl) : wl.workloadId = wid := by
  rw [bookRow_eq hhome.2] at hrow
  obtain ⟨t, ht, rfl⟩ := Option.map_eq_some_iff.mp hrow
  exact h.named wid t ht

/-- Ensuring the workload of a place. -/
theorem Sound.ensured_workload (h : s.Sound) {w : World} {body : PlacePayload}
    (hroute : placeRoute place = .workload) (hbound : s.bound = true)
    (hown : ∀ wl ∈ s.bodyFor place body w, StandsFor place wl) :
    Ensured s place (WorkloadPlaceSpawn.ensure w place body s.engine).1
      (WorkloadPlaceSpawn.ensure w place body s.engine).2 := by
  have hplace : HasWorkload place := .inl hroute
  have hne := hplace.ne_empty
  unfold WorkloadPlaceSpawn.ensure
  split
  · exact .refused (by simp) (.refl _)
  · next hinit =>
    have hhome : s.BookIsHome := ⟨hbound, by simpa using hinit⟩
    unfold bodyFor at hown
    rw [if_pos hhome, hroute] at hown
    dsimp only at hown
    cases hrow : bookRow s.engine (body.wid place) with
    | some wl =>
      rw [hrow] at hown
      dsimp only at hown ⊢
      by_cases hfailed : wl.status = .failed
      · exact .refused (by simp [WorkloadPlaceSpawn.existing, hfailed, isTerminal]) (.refl _)
      · rw [if_neg hfailed] at hown
        have hstands := hown wl rfl
        have hname := @nameOr_eq place wl place hstands.workloadId_eq hne
        refine ensured_of_row hplace hhome hrow (h.row_named hhome hrow) hstands ?_ ?_
        · unfold WorkloadPlaceSpawn.existing
          split
          · exact congrArg some hname
          · split <;> exact congrArg some hname
        · unfold WorkloadPlaceSpawn.existing
          split
          · simp [hfailed]
          · next hterminal =>
            have hend : ¬ wl.status = .stopped → wl.status = .failed := by
              simpa [isTerminal] using hterminal
            exact absurd (hend hstands.running) hfailed
    | none =>
      rw [hrow] at hown
      dsimp only at hown ⊢
      cases hspec : body.spec place with
      | error error => exact .refused (by simp) (.refl _)
      | ok spec =>
        rw [hspec] at hown
        refine ensured_of_gives ⟨.failed, "workload_start_error", none⟩
          (WorkloadPlaceSpawn.started (body.wid place)) (WorkloadEngine.start_gives h.named) hplace
          hhome hown (by simp) (fun wl hwl => ?_) (fun wl => ?_) rfl
        · unfold WorkloadPlaceSpawn.started
          split <;> exact congrArg some (nameOr_eq hwl hne)
        · unfold WorkloadPlaceSpawn.started
          split <;> simp_all

/-- Ensuring the adopted workload of a place. -/
theorem Sound.ensured_adopt (h : s.Sound) {w : World} {body : PlacePayload}
    (hroute : placeRoute place = .adopt) (hbound : s.bound = true)
    (hown : ∀ wl ∈ s.bodyFor place body w, StandsFor place wl) :
    Ensured s place (AdoptPlaceSpawn.ensure w place body s.engine).1
      (AdoptPlaceSpawn.ensure w place body s.engine).2 := by
  have hplace : HasWorkload place := .inr hroute
  have hne := hplace.ne_empty
  unfold AdoptPlaceSpawn.ensure
  split
  · exact .refused (by simp) (.refl _)
  · next hinit =>
    have hhome : s.BookIsHome := ⟨hbound, by simpa using hinit⟩
    unfold bodyFor at hown
    rw [if_pos hhome, hroute] at hown
    dsimp only at hown
    cases hhandle : body.handle with
    | none =>
      rw [hhandle] at hown
      dsimp only at hown ⊢
      cases hrow : (bookRow s.engine (body.wid place)).filter fun wl => !isTerminal wl.status with
      | none => exact .refused (by simp) (.refl _)
      | some wl =>
        have hstands := hown wl hrow
        obtain ⟨hrow, hlive⟩ := Option.filter_eq_some_iff.mp hrow
        have hfailed : wl.status ≠ .failed := by
          intro hfailed
          rw [hfailed] at hlive
          cases hlive
        exact ensured_of_row hplace hhome hrow (h.row_named hhome hrow) hstands
          (congrArg some (nameOr_eq hstands.workloadId_eq hne)) (by simp [hfailed])
    | some handle =>
      rw [hhandle] at hown
      dsimp only at hown ⊢
      refine ensured_of_gives ⟨.failed, "adopt_error", none⟩
        (AdoptPlaceSpawn.adopted (body.wid place)) (WorkloadEngine.adopt_gives h.named) hplace
        hhome hown (by simp) (fun wl hwl => ?_) (fun wl => ?_) rfl
      · unfold AdoptPlaceSpawn.adopted
        split <;> exact congrArg some (nameOr_eq hwl hne)
      · unfold AdoptPlaceSpawn.adopted
        split <;> simp_all

/-- Ensuring a place. -/
theorem Sound.ensured (h : s.Sound) {w : World} {os : Except String String} {body : PlacePayload}
    (hown : ∀ wl ∈ s.bodyFor place body w, StandsFor place wl) :
    Ensured s place (s.spawnEnsure w os place body).1 (s.spawnEnsure w os place body).2 := by
  have hunbound : Ensured s place ⟨.failed, "workload_engine_not_bound", none⟩ s.engine :=
    .refused (by simp) (.refl _)
  have hnone (hroute : placeRoute place = .os ∨ placeRoute place = .inProcess) :
      ¬ HasWorkload place := by
    rcases hroute with hroute | hroute <;> simp [HasWorkload, hroute]
  unfold spawnEnsure
  cases hroute : placeRoute place with
  | os =>
    cases os with
    | ok reason => exact .present (hnone (.inl hroute)) rfl
    | error reason => exact .refused (by simp) (.refl _)
  | inProcess => exact .present (hnone (.inr hroute)) rfl
  | workload =>
    dsimp only
    split
    · next hbound => exact h.ensured_workload hroute hbound hown
    · exact hunbound
  | adopt =>
    dsimp only
    split
    · next hbound => exact h.ensured_adopt hroute hbound hown
    · exact hunbound

/-- Ensuring a place leaves the records of workloads that have ended. -/
theorem spawnEnsure_follows (h : s.engine.Consistent) (w : World) (os : Except String String)
    (body : PlacePayload) : s.engine.Follows (s.spawnEnsure w os place body).2 := by
  have hstart (spec : WorkloadSpec) (owner : Option WorkloadOwner) (wid key hostId : Option String) :=
    @WorkloadEngine.start_follows s.engine w spec owner wid key hostId s.engine h.follows
  have hadopt (wid : String) (handle : Option WorkloadHandle) (owner : Option WorkloadOwner) :=
    @WorkloadEngine.adopt_follows s.engine w wid handle owner s.engine h.follows
  unfold spawnEnsure WorkloadPlaceSpawn.ensure AdoptPlaceSpawn.ensure
  split
  · cases os <;> exact h.follows
  · split
    · split
      · exact h.follows
      · split
        · exact h.follows
        · split
          · exact h.follows
          · next spec _ =>
            have hrun := hstart spec (some (body.owner place)) (some (body.wid place))
              (some (body.key place)) none
            split
            · next heq =>
              rw [heq] at hrun
              exact hrun.2
            · next heq =>
              rw [heq] at hrun
              exact hrun
    · exact h.follows
  · split
    · split
      · exact h.follows
      · split
        · split <;> exact h.follows
        · next handle _ =>
          have hrun := hadopt (body.wid place) (some handle)
            (some { body.owner place with createdByPalm := false })
          split
          · next heq =>
            rw [heq] at hrun
            exact hrun.2
          · next heq =>
            rw [heq] at hrun
            exact hrun
    · exact h.follows
  · exact h.follows

/-- What a release does: the records are about the same workloads, those that have ended stay, and
the workload of the place has ended unless stopping it has raised. -/
structure Released (s : PlacePort) (place : String) (result : PlaceSpawnResult)
    (e : WorkloadEngine) : Prop where
  keeps : s.engine.Keeps e
  follows : s.engine.Follows e
  gone : result.state = .gone
  ended : HasWorkload place → result.reason ≠ "workload_stop_error" →
    ∀ t, e.workloads.get? place = some t → isTerminal t.record.status = true

/-- Releasing the workload of a place. -/
theorem Sound.released_workload (h : s.Sound) (hplace : HasWorkload place) (released : String)
    (w : World) : Released s place (releaseWorkload released w place s.engine).1
      (releaseWorkload released w place s.engine).2 := by
  have hsame := (WorkloadEngine.SameBook.refl s.engine).keeps
  unfold releaseWorkload
  cases hrow : bookRow s.engine place with
  | none =>
    refine ⟨hsame, h.consistent.follows, rfl, fun _ _ t ht => ?_⟩
    rw [bookRow_eq (h.home place t ht).2, ht] at hrow
    cases hrow
  | some wl =>
    have hinit : s.engine.initialized = true := by
      by_contra hnot
      cases (bookRow_none (by simpa using hnot) place).symm.trans hrow
    rw [bookRow_eq hinit] at hrow
    obtain ⟨t, ht, rfl⟩ := Option.map_eq_some_iff.mp hrow
    have hname := @nameOr_eq place t.record place (h.named place t ht) hplace.ne_empty
    have hkeeps := @WorkloadEngine.stop_keeps s.engine w place s.engine rfl
    have hfollows := @WorkloadEngine.stop_follows s.engine place w s.engine h.consistent.follows
    have hends := @WorkloadEngine.stop_ends w place s.engine trivial
    dsimp only
    rw [hname]
    cases hrun : WorkloadEngine.stop w place s.engine with
    | error error e =>
      rw [hrun] at hkeeps hfollows
      exact ⟨hkeeps, hfollows.2, rfl, fun _ hreason => absurd rfl hreason⟩
    | ok wl e =>
      rw [hrun] at hkeeps hfollows hends
      exact ⟨hkeeps, hfollows, rfl, fun _ _ => hends⟩

/-- Releasing a place. -/
theorem Sound.released (h : s.Sound) (w : World) (os : String) :
    Released s place (s.spawnRelease w os place).1 (s.spawnRelease w os place).2 := by
  have hsame := (WorkloadEngine.SameBook.refl s.engine).keeps
  have hnone (hroute : placeRoute place = .os ∨ placeRoute place = .inProcess) :
      ¬ HasWorkload place := by
    rcases hroute with hroute | hroute <;> simp [HasWorkload, hroute]
  have hunbound (hbound : ¬ s.bound = true) :
      Released s place ⟨.gone, "workload_not_tracked", none⟩ s.engine :=
    ⟨hsame, h.consistent.follows, rfl, fun _ _ t ht => absurd (h.home place t ht).1 hbound⟩
  unfold spawnRelease
  cases hroute : placeRoute place with
  | os =>
    exact ⟨hsame, h.consistent.follows, rfl, fun hplace => absurd hplace (hnone (.inl hroute))⟩
  | inProcess =>
    exact ⟨hsame, h.consistent.follows, rfl, fun hplace => absurd hplace (hnone (.inr hroute))⟩
  | workload =>
    dsimp only
    split
    · exact h.released_workload (.inl hroute) _ w
    · next hbound => exact hunbound hbound
  | adopt =>
    dsimp only
    split
    · exact h.released_workload (.inr hroute) _ w
    · next hbound => exact hunbound hbound

/-! ## The invariant -/

/-- Where the records are about the same workloads and those that have ended stay, the invariant
stays, also when acknowledgements are dropped. -/
theorem Sound.later (h : s.Sound) {e : WorkloadEngine} {acknowledged : Dict String PlaceState}
    (hkeeps : s.engine.Keeps e) (hfollows : s.engine.Follows e)
    (hack : ∀ place, acknowledged.get? place = some .ready →
      s.acknowledged.get? place = some .ready) :
    Sound { s with engine := e, acknowledged } := by
  have hhome : s.BookIsHome → s.bound = true ∧ e.initialized = true :=
    fun hhome => ⟨hhome.1, hkeeps.initialized_eq.trans hhome.2⟩
  have hold (wid : String) (t : Tracked) (ht : e.workloads.get? wid = some t) :
      ∃ t₀, s.engine.workloads.get? wid = some t₀ ∧ t₀.body = t.body := by
    have hbody := hkeeps.bodies_eq wid
    rw [ht] at hbody
    obtain ⟨t₀, ht₀, heq⟩ := Option.map_eq_some_iff.mp hbody.symm
    exact ⟨t₀, ht₀, heq⟩
  have hnew (wid : String) (t₀ : Tracked) (ht₀ : s.engine.workloads.get? wid = some t₀) :
      ∃ t, e.workloads.get? wid = some t := by
    have hbody := hkeeps.bodies_eq wid
    rw [ht₀] at hbody
    obtain ⟨t, ht, -⟩ := Option.map_eq_some_iff.mp hbody
    exact ⟨t, ht⟩
  have hbody {t₀ t : Tracked} (heq : t₀.body = t.body) :
      t₀.record.workloadId = t.record.workloadId ∧ t₀.record.spec = t.record.spec :=
    Prod.mk.injEq _ _ _ _ ▸ heq
  refine ⟨hfollows.consistent h.consistent, fun wid t ht => ?_, fun wid t ht => ?_,
    fun wid t ht => ?_, fun wid t ht => ?_, fun wid t ht hlive => ?_, fun place hplace hhas => ?_,
    fun place wid hmem => ?_⟩
  · obtain ⟨t₀, ht₀, -⟩ := hold wid t ht
    exact hhome (h.home wid t₀ ht₀)
  · obtain ⟨t₀, ht₀, heq⟩ := hold wid t ht
    exact (hbody heq).1.symm.trans (h.named wid t₀ ht₀)
  · obtain ⟨t₀, ht₀, heq⟩ := hold wid t ht
    have hsame : placeIdFor t.record = placeIdFor t₀.record := by
      rw [placeIdFor, placeIdFor, (hbody heq).1, (hbody heq).2]
    exact hsame.trans (h.labelled wid t₀ ht₀)
  · obtain ⟨t₀, ht₀, -⟩ := hold wid t ht
    exact h.placed wid t₀ ht₀
  · obtain ⟨t₀, ht₀, -⟩ := hold wid t ht
    refine h.standing wid t₀ ht₀ ?_
    by_contra hended
    have hkept := hfollows.keeps wid t₀ ht₀ (by simpa using hended)
    obtain rfl := Option.some.inj (ht.symm.trans hkept)
    exact hended hlive
  · obtain ⟨hbook, t₀, ht₀⟩ := h.acknowledged place (hack place hplace) hhas
    exact ⟨hhome hbook, hnew place t₀ ht₀⟩
  · obtain ⟨heq, t₀, ht₀⟩ := h.started place wid hmem
    exact ⟨heq, hnew place t₀ ht₀⟩

/-- Where the workload that stands for a place is booked, the invariant stays, with the place
acknowledged and its workload noted if it is live. -/
theorem Sound.booked (h : s.Sound) (hplace : HasWorkload place) (hhome : s.BookIsHome)
    {e : WorkloadEngine} {t : Tracked} (hbooks : s.engine.Books place t e)
    (hstands : StandsFor place t.record) (hfollows : s.engine.Follows e)
    {acknowledged : Dict String PlaceState} {standing : Dict String String}
    {started : List (String × String)}
    (hack : ∀ q, acknowledged.get? q = some .ready → q = place ∨
      s.acknowledged.get? q = some .ready)
    (hstanding : isTerminal t.record.status = false → standing.get? place = some place)
    (hothers : ∀ q, q ≠ place → standing.get? q = s.standing.get? q)
    (hstarted : ∀ q wid, (q, wid) ∈ started → (q = place ∧ wid = place) ∨ (q, wid) ∈ s.started) :
    Sound { s with engine := e, acknowledged, standing, started } := by
  have hhome' : s.bound = true ∧ e.initialized = true :=
    ⟨hhome.1, hbooks.initialized_eq.trans hhome.2⟩
  have hcases (wid : String) (t' : Tracked) (ht' : e.workloads.get? wid = some t') :
      (wid = place ∧ t' = t) ∨ (wid ≠ place ∧ s.engine.workloads.get? wid = some t') := by
    by_cases hwid : wid = place
    · subst hwid
      exact .inl ⟨rfl, Option.some.inj (ht'.symm.trans hbooks.booked)⟩
    · exact .inr ⟨hwid, (hbooks.others wid hwid).symm.trans ht'⟩
  have hrow (q : String) (t₀ : Tracked) (ht₀ : s.engine.workloads.get? q = some t₀) :
      ∃ t', e.workloads.get? q = some t' := by
    by_cases hq : q = place
    · exact ⟨t, hq ▸ hbooks.booked⟩
    · exact ⟨t₀, (hbooks.others q hq).trans ht₀⟩
  refine ⟨hfollows.consistent h.consistent, fun _ _ _ => hhome', fun wid t' ht' => ?_,
    fun wid t' ht' => ?_, fun wid t' ht' => ?_, fun wid t' ht' hlive => ?_,
    fun q hq hhas => ?_, fun q wid hmem => ?_⟩
  · rcases hcases wid t' ht' with ⟨rfl, rfl⟩ | ⟨-, hold⟩
    · exact hstands.workloadId_eq
    · exact h.named wid t' hold
  · rcases hcases wid t' ht' with ⟨rfl, rfl⟩ | ⟨-, hold⟩
    · exact hstands.placeId_eq
    · exact h.labelled wid t' hold
  · rcases hcases wid t' ht' with ⟨rfl, rfl⟩ | ⟨-, hold⟩
    · exact hplace
    · exact h.placed wid t' hold
  · rcases hcases wid t' ht' with ⟨rfl, rfl⟩ | ⟨hne, hold⟩
    · exact hstanding hlive
    · exact (hothers wid hne).trans (h.standing wid t' hold hlive)
  · rcases hack q hq with rfl | hold
    · exact ⟨hhome', t, hbooks.booked⟩
    · obtain ⟨-, t₀, ht₀⟩ := h.acknowledged q hold hhas
      exact ⟨hhome', hrow q t₀ ht₀⟩
  · rcases hstarted q wid hmem with ⟨rfl, rfl⟩ | hold
    · exact ⟨rfl, t, hbooks.booked⟩
    · obtain ⟨heq, t₀, ht₀⟩ := h.started q wid hold
      exact ⟨heq, hrow q t₀ ht₀⟩

/-- An ensure that is not ready keeps the invariant. -/
theorem Sound.not_ready (h : s.Sound) {result : PlaceSpawnResult} {e : WorkloadEngine}
    (hensured : Ensured s place result e) (hfollows : s.engine.Follows e)
    (hready : ¬ result.state = .ready) : Sound { s with engine := e } := by
  cases hensured with
  | refused _ hsame => exact h.later hsame.keeps hfollows fun _ => id
  | present => exact h
  | booked t hplace hhome _ hbooks hstands hiff =>
    refine h.booked hplace hhome hbooks hstands hfollows (fun _ => .inr) (fun hlive => ?_)
      (fun _ _ => rfl) fun _ _ => .inr
    exact absurd (hiff.mpr (hstands.live_iff.mp hlive)) hready

/-- An ensure that is ready keeps the invariant, and leaves the place ready. -/
theorem Sound.made_ready (h : s.Sound) (hstrip : strip place = place) (hne : place ≠ "")
    {result : PlaceSpawnResult} {e : WorkloadEngine} (hensured : Ensured s place result e)
    (hfollows : s.engine.Follows e) (hready : result.state = .ready)
    (hs' : s' = { s with
      engine := e, acknowledged := s.acknowledged.set place .ready }.note place result) :
    s'.Sound ∧ s'.ready place = true := by
  have hack (q : String) (hq : (s.acknowledged.set place .ready).get? q = some .ready) :
      q = place ∨ s.acknowledged.get? q = some .ready := by
    by_cases heq : q = place
    · exact .inl heq
    · rw [Dict.get?_set_ne _ _ heq] at hq
      exact .inr hq
  cases hensured with
  | refused hnot => exact absurd hready hnot
  | present hnone hhandle =>
    have hnote : s' = { s with acknowledged := s.acknowledged.set place .ready } := by
      rw [hs', note, hhandle]
      simp [Dict.setSome]
    have hsound : s'.Sound := by
      rw [hnote]
      refine ⟨h.consistent, h.home, h.named, h.labelled, h.placed, h.standing,
        fun q hq hhas => ?_, h.started⟩
      rcases hack q hq with rfl | hold
      · exact absurd hhas hnone
      · exact h.acknowledged q hold hhas
    refine ⟨hsound, hsound.ready_of_acknowledged hstrip hne hnone ?_⟩
    rw [hnote]
    exact Dict.get?_set_self _ _ _
  | booked t hplace hhome hhandle hbooks hstands hiff =>
    have hlive := hstands.live_iff.mpr (hiff.mp hready)
    have hsound : s'.Sound := by
      rw [hs', note, hhandle]
      refine h.booked hplace hhome hbooks hstands hfollows hack (fun _ => ?_) (fun q hq => ?_)
        fun q wid hmem => ?_
      · exact Dict.get?_set_self _ _ _
      · exact Dict.get?_set_ne _ _ hq
      · rcases List.mem_append.mp hmem with hold | hnew
        · exact .inr hold
        · obtain ⟨wid', hwid', heq⟩ := List.mem_map.mp hnew
          have hwid : wid' = place := by simpa using (List.mem_filter.mp hwid').1
          cases heq
          exact .inl ⟨rfl, hwid⟩
    have hget : s'.engine.workloads.get? place = some t := by
      rw [hs']
      exact hbooks.booked
    have hhome' : s'.BookIsHome := by
      rw [hs']
      exact ⟨hhome.1, hbooks.initialized_eq.trans hhome.2⟩
    exact ⟨hsound, hsound.ready_of_live hhome' hget hlive⟩

/-- A release keeps the invariant, and the workloads that were started or adopted for the place
have ended unless stopping one has raised. -/
theorem Sound.release (h : s.Sound) {result : PlaceSpawnResult} {e : WorkloadEngine}
    (hreleased : Released s place result e)
    (hs' : s' = { s with engine := e, acknowledged := s.acknowledged.erase place }) :
    s'.Sound ∧ (result.reason ≠ "workload_stop_error" →
      ∀ wid, (place, wid) ∈ s'.started → ¬ s'.Live wid) := by
  have hsound : s'.Sound := by
    rw [hs']
    refine h.later hreleased.keeps hreleased.follows fun q hq => ?_
    rw [Dict.get?_erase] at hq
    split at hq
    · cases hq
    · exact hq
  refine ⟨hsound, fun hreason wid hmem hlive => ?_⟩
  obtain ⟨rfl, t, ht⟩ := hsound.started place wid hmem
  obtain ⟨wl, hrow, hlive⟩ := hlive
  rw [bookRow_eq (hsound.home _ t ht).2, ht] at hrow
  obtain rfl := Option.some.inj hrow
  have ht' : e.workloads.get? wid = some t := by
    rw [hs'] at ht
    exact ht
  rw [hreleased.ended (hsound.placed _ t ht) hreason t ht'] at hlive
  cases hlive

/-- What an intent about a place does. -/
theorem Sound.applyTo (h : s.Sound) (hstrip : strip place = place) (hne : place ≠ "")
    (kind : EffectIntentKind) (body : PlacePayload) (w : World) (os : Except String String)
    (hown : kind = .ensurePlace → ∀ wl ∈ s.bodyFor place body w, StandsFor place wl) :
    (s.applyTo kind place body w os).1.Sound ∧
      ∀ o ∈ (s.applyTo kind place body w os).2, o.target = place ∧
        (o.kind = .placeReady → (s.applyTo kind place body w os).1.ready place = true) ∧
        (o.kind = .placeGone → o.reason ≠ "workload_stop_error" → ∀ wid,
          (place, wid) ∈ (s.applyTo kind place body w os).1.started →
            ¬ (s.applyTo kind place body w os).1.Live wid) := by
  cases kind with
  | ensurePlace =>
    have hensured := @Sound.ensured s place h w os body (hown rfl)
    have hfollows := @spawnEnsure_follows s place h.consistent w os body
    unfold PlacePort.applyTo
    dsimp only
    split
    · next hready =>
      obtain ⟨hsound, hplace⟩ := h.made_ready hstrip hne hensured hfollows hready rfl
      refine ⟨hsound, fun o ho => ?_⟩
      obtain rfl := List.mem_singleton.mp ho
      exact ⟨rfl, fun _ => hplace, (fun hkind => by cases hkind)⟩
    · next hready =>
      refine ⟨h.not_ready hensured hfollows hready, fun o ho => ?_⟩
      obtain rfl := List.mem_singleton.mp ho
      exact ⟨rfl, (fun hkind => by cases hkind), (fun hkind => by cases hkind)⟩
  | releasePlace =>
    have hreleased := @Sound.released s place h w (os.toOption.getD "os_not_tracked")
    obtain ⟨hsound, hended⟩ := h.release hreleased rfl
    refine ⟨hsound, fun o ho => ?_⟩
    obtain rfl := List.mem_singleton.mp ho
    exact ⟨rfl, (fun hkind => by cases hkind), fun _ => hended⟩
  | invalidateProjection | refreshProjection | applyStructurePolicy | requestStructureSeed =>
    exact ⟨h, fun o ho => by cases ho⟩

/-- A call whose workload stands for its place keeps the invariant, and leaves the places
coherent. -/
theorem Sound.step {call : PlaceCall} (h : s.Sound) (hstep : s.step call = some s')
    (hown : s.OwnBody call s') : s.Coherent call s' ∧ s'.Sound := by
  cases call with
  | outcome call =>
    simp only [PlacePort.step] at hstep
    split at hstep
    · next hout =>
      obtain rfl := Option.some.inj hstep
      have hsound := h.later (WorkloadEngine.outcome_keeps hout)
        (WorkloadEngine.outcome_follows hout h.consistent) fun _ => id
      exact ⟨⟨(fun o ho => by cases ho), fun _ => hsound.stands, (fun o ho => by cases ho)⟩, hsound⟩
    · cases hstep
  | intent intent body w os =>
    obtain rfl := Option.some.inj hstep
    have hnone (o : PlaceObservation) (ho : o ∈ (s.apply intent body w os).2)
        (hempty : strip intent.target = "") : o.kind = .placeFailed := by
      unfold apply at ho
      rw [if_pos hempty] at ho
      dsimp only at ho
      split at ho
      · obtain rfl := List.mem_singleton.mp ho
        rfl
      · cases ho
    by_cases hempty : strip intent.target = ""
    · have hsame : (s.apply intent body w os).1 = s := by
        unfold apply
        rw [if_pos hempty]
      rw [hsame]
      refine ⟨⟨fun o ho hkind => ?_, fun _ => h.stands, fun o ho hkind => ?_⟩, h⟩
      · cases (hnone o ho hempty).symm.trans hkind
      · cases (hnone o ho hempty).symm.trans hkind
    · have happly : s.apply intent body w os =
          s.applyTo intent.kind (strip intent.target) body w os := by
        unfold apply
        rw [if_neg hempty]
      obtain ⟨hsound, htold⟩ := h.applyTo (strip_strip _) hempty intent.kind body w os hown
      rw [← happly] at hsound htold
      refine ⟨⟨fun o ho hkind => ?_, fun _ => hsound.stands, fun o ho hkind hreason wid => ?_⟩,
        hsound⟩
      · obtain ⟨htarget, hready, -⟩ := htold o ho
        rw [htarget]
        exact hready hkind
      · obtain ⟨htarget, -, hended⟩ := htold o ho
        rw [htarget]
        exact hended hkind hreason wid

/-- An engine that was just set up is consistent and has no records. -/
theorem start_engine (setUp : Option (Bool × Bool × Option String × Finset String)) (bound : Bool) :
    (start setUp bound).engine.Consistent ∧ (start setUp bound).engine.workloads = .empty := by
  cases setUp with
  | none => exact ⟨WorkloadEngine.new_consistent, rfl⟩
  | some options =>
    obtain ⟨hconsistent, hempty, -⟩ := @WorkloadEngine.doInitialize_consistent WorkloadEngine.new
      WorkloadEngine.new WorkloadEngine.new_consistent options.1 options.2.1 options.2.2.1
      options.2.2.2 WorkloadEngine.new rfl
    exact ⟨hconsistent, hempty⟩

/-- Nothing is ready before the first call. -/
theorem sound_start (setUp : Option (Bool × Bool × Option String × Finset String)) (bound : Bool) :
    (start setUp bound).Sound := by
  obtain ⟨hconsistent, hempty⟩ := start_engine setUp bound
  have hnone (wid : String) (t : Tracked)
      (ht : (start setUp bound).engine.workloads.get? wid = some t) : False := by
    rw [hempty] at ht
    cases ht
  exact ⟨hconsistent, fun wid t ht => (hnone wid t ht).elim, fun wid t ht => (hnone wid t ht).elim,
    fun wid t ht => (hnone wid t ht).elim, fun wid t ht => (hnone wid t ht).elim,
    fun wid t ht => (hnone wid t ht).elim, (fun _ hack => by cases hack),
    (fun _ _ hmem => by cases hmem)⟩

/-! ## Runs -/

/-- Whatever intents with whatever payloads are applied, and whatever the runtimes answer or raise:
if what every ensure finds or gets for its place has the id and the label of the place and was not
stopped, every call leaves the places coherent. -/
theorem placesCoherent_run (setUp : Option (Bool × Bool × Option String × Finset String)) (bound : Bool)
    (calls : List PlaceCall) (hown : AllSteps step OwnBody (start setUp bound) calls) :
    AllSteps step Coherent (start setUp bound) calls := by
  refine AllSteps.imp Sound (fun s call s' h hstep hok => ?_) (sound_start setUp bound) hown
  exact h.step hstep hok

/-- The engine is set up with one runtime and bound. -/
def localPlaces : PlacePort := start (some (false, false, some "local", {"local"})) true

/-- Ensure or release a place, with a runtime that starts and stops what it is asked to. -/
def intentOf (kind : EffectIntentKind) (target : String) (body : PlacePayload) : PlaceCall :=
  .intent ⟨kind, target⟩ body (localWorld (.ok { status := .ready })) (.error "os_spawn_not_configured")

/-- A place is started and another is adopted, and both are released. -/
def startedAndAdopted : List PlaceCall :=
  [intentOf .ensurePlace "workload:db" {},
    intentOf .ensurePlace "adopt:yard" { handle := some ⟨"adopt:yard", some "http://yard", .empty, .empty⟩ },
    intentOf .ensurePlace "workload:db" {}, intentOf .releasePlace "adopt:yard" {},
    intentOf .releasePlace "workload:db" {}]

/-- Places that are ensured, adopted and released are coherent all the time. -/
theorem placesCoherent_run_released : AllSteps step Coherent localPlaces startedAndAdopted ∧
    (runSteps step localPlaces startedAndAdopted).isSome = true :=
  ⟨placesCoherent_run _ _ _ (by decide +kernel), by decide +kernel⟩

/-- A place is ensured, released and ensured again: it is observed ready, and is not. -/
theorem placesCoherent_run_fails : ¬ AllSteps step Coherent localPlaces
    ([intentOf .ensurePlace "workload:db" {}, intentOf .releasePlace "workload:db" {}] ++
      [intentOf .ensurePlace "workload:db" {}]) := by
  intro h
  have hfound : (runSteps step localPlaces
      [intentOf .ensurePlace "workload:db" {}, intentOf .releasePlace "workload:db" {}]).any (fun s =>
        (s.step (intentOf .ensurePlace "workload:db" {})).any fun s' =>
          (s.observations (intentOf .ensurePlace "workload:db" {})).any fun o =>
            o.kind = .placeReady && !s'.ready o.target) = true := by decide +kernel
  obtain ⟨s, hrun, hs⟩ := (Option.any_eq_true _ _).mp hfound
  obtain ⟨s', hstep, hs'⟩ := (Option.any_eq_true _ _).mp hs
  obtain ⟨o, ho, hnot⟩ := List.any_eq_true.mp hs'
  obtain ⟨hkind, hready⟩ := (Bool.and_eq_true _ _).mp hnot
  have hcoherent := (h.of_append hrun s' hstep).1
  rw [hcoherent.readied o ho (of_decide_eq_true hkind)] at hready
  cases hready

end PlacePort

end PalmEngine.Structure
