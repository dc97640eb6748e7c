import PalmEngine.Context.PlainValues
import PalmEngine.Lib.Fallible
import PalmEngine.Workloads.Record

/-!
# Workload specs as mappings

A workload spec with all its fields, the mapping it is written to, and the strict decoder. The
decoder shows, copies and defaults the values of any mapping, and what it makes of them it reads
back from the mapping that the spec is written to.
-/

namespace PalmEngine.Workloads.Stored

open PalmEngine.Lib

/-- The text of a kind. -/
def kindText : WorkloadKind → String
  | .run => "run"
  | .service => "service"
  | .workspace => "workspace"

/-- The text of a lifecycle. -/
def lifecycleText : LifecyclePolicy → String
  | .job => "job"
  | .session => "session"
  | .lease => "lease"

/-- The kind of a text. -/
def workloadKind (t : String) : Option WorkloadKind :=
  [.run, .service, .workspace].find? (kindText · = t)

/-- The isolation of a text. -/
def isolationPolicy (t : String) : Option IsolationPolicy :=
  [.host, .hermetic, .bestEffort].find? (·.text = t)

/-- The lifecycle of a text. -/
def lifecyclePolicy (t : String) : Option LifecyclePolicy :=
  [.job, .session, .lease].find? (lifecycleText · = t)

@[simp] theorem workloadKind_text (k : WorkloadKind) : workloadKind (kindText k) = some k := by
  cases k <;> rfl

@[simp] theorem isolationPolicy_text (p : IsolationPolicy) : isolationPolicy p.text = some p := by
  cases p <;> rfl

@[simp] theorem lifecyclePolicy_text (p : LifecyclePolicy) :
    lifecyclePolicy (lifecycleText p) = some p := by
  cases p <;> rfl

/-- The errors of the decoder; `raised` is one of the language itself. -/
inductive SpecError where
  | unknownFields
  | missingField (name : String)
  | notAMember (text : String)
  | commandNotArgv
  | unsupportedVersion (version : ℤ)
  | commandRequired
  | commandTexts
  | raised
  deriving DecidableEq, Repr

/-- The fields of a spec. -/
structure SpecFields (K V : Type) where
  kind : WorkloadKind
  isolation : IsolationPolicy
  lifecycle : LifecyclePolicy
  command : List String := []
  image : Option String := none
  imageRef : Option String := none
  workdir : Option String := none
  seed : Option (Dict K V) := none
  env : Dict String String := .empty
  secretsRef : Option String := none
  ports : List (Dict K V) := []
  health : Option (Dict K V) := none
  timeoutS : Option V := none
  resources : Dict K V := .empty
  labels : Dict String String := .empty
  placement : WorkloadPlacement := {}
  mesh : Option (Dict K V) := none
  specVersion : ℤ := 1

/-- A workload spec: its version is the supported one, and its command consists of texts that are
not empty, at least one to run. -/
structure WorkloadSpec (K V : Type) extends SpecFields K V where
  version_ok : specVersion = 1
  command_ok : kind = .run → command ≠ []
  texts_ok : "" ∉ command

variable {K V : Type}

/-- The checks of a new spec. -/
def SpecFields.construct (f : SpecFields K V) : Except SpecError (WorkloadSpec K V) :=
  if hversion : f.specVersion = 1 then
    if hcommand : f.kind = .run → f.command ≠ [] then
      if htexts : "" ∉ f.command then .ok ⟨f, hversion, hcommand, htexts⟩
      else .error .commandTexts
    else .error .commandRequired
  else .error (.unsupportedVersion f.specVersion)

/-- The fields of a spec make it again. -/
theorem construct_toSpecFields (s : WorkloadSpec K V) : s.toSpecFields.construct = .ok s := by
  rw [SpecFields.construct, dif_pos s.version_ok, dif_pos s.command_ok, dif_pos s.texts_ok]

/-- A new spec has the fields it was made of. -/
theorem toSpecFields_of_construct {f : SpecFields K V} {s : WorkloadSpec K V}
    (h : f.construct = .ok s) : s.toSpecFields = f := by
  unfold SpecFields.construct at h
  split_ifs at h
  exact (Except.ok.inj h) ▸ rfl

variable [DecidableEq K] (ops : ScriptValues K V)

section Encode

/-- A value that is written only under a condition. -/
def writtenIf (present : Bool) (v : V) : Option V := if present then some v else none

/-- A dictionary of texts as a dictionary of values. -/
def ofTexts (texts : Dict String String) : Dict K V :=
  texts.entries.foldl (fun d e => d.set (ops.key e.1) (ops.text e.2)) .empty

/-- The mapping of a placement. -/
def placementDict (p : WorkloadPlacement) : Dict K V :=
  ops.recordSome [
    ("host_id", p.hostId.map ops.text),
    ("runtime", p.runtime.map ops.text),
    ("reject_runtimes",
      writtenIf (!p.rejectRuntimes.isEmpty) (ops.list (p.rejectRuntimes.map ops.text)))]

/-- The fields that are written, in order; an optional one is left out where it is none, and a
collection where it is empty. -/
def SpecFields.written (f : SpecFields K V) : List (String × Option V) := [
  ("spec_version", some (ops.int f.specVersion)),
  ("kind", some (ops.text (kindText f.kind))),
  ("isolation", some (ops.text f.isolation.text)),
  ("lifecycle", some (ops.text (lifecycleText f.lifecycle))),
  ("command", writtenIf (!f.command.isEmpty) (ops.list (f.command.map ops.text))),
  ("image", f.image.map ops.text),
  ("image_ref", f.imageRef.map ops.text),
  ("workdir", f.workdir.map ops.text),
  ("seed", f.seed.map ops.dict),
  ("env", writtenIf (!f.env.entries.isEmpty) (ops.dict (ofTexts ops f.env))),
  ("secrets_ref", f.secretsRef.map ops.text),
  ("ports", writtenIf (!f.ports.isEmpty) (ops.list (f.ports.map ops.dict))),
  ("health", f.health.map ops.dict),
  ("timeout_s", f.timeoutS),
  ("resources", writtenIf (!f.resources.entries.isEmpty) (ops.dict f.resources)),
  ("labels", writtenIf (!f.labels.entries.isEmpty) (ops.dict (ofTexts ops f.labels))),
  ("placement", writtenIf (!(placementDict ops f.placement).entries.isEmpty)
    (ops.dict (placementDict ops f.placement))),
  ("mesh", f.mesh.map ops.dict)]

/-- The mapping of a spec. -/
def SpecFields.toDict (f : SpecFields K V) : Dict K V := ops.recordSome (f.written ops)

end Encode

section Decode

/-- A value, unless the language raises. -/
def orRaised {α : Type} (v : Option α) : Except SpecError α := v.elim (.error .raised) .ok

/-- The fields that a mapping may have. -/
def knownFields : List String :=
  ["spec_version", "kind", "isolation", "lifecycle", "command", "image", "image_ref", "workdir",
    "seed", "env", "secrets_ref", "ports", "expose", "health", "timeout_s", "resources", "labels",
    "placement", "mesh"]

/-- The check that a mapping has known fields only. -/
def checkKnown (data : Dict K V) : Except SpecError Unit :=
  if ∀ k ∈ data.keys, k ∈ knownFields.map ops.key then .ok () else .error .unknownFields

/-- The member of an enumeration that a required field names. -/
def member {α : Type} (find : String → Option α) (data : Dict K V) (name : String) :
    Except SpecError α :=
  match data.get? (ops.key name) with
  | none => .error (.missingField name)
  | some v =>
    match find (ops.str v) with
    | none => .error (.notAMember (ops.str v))
    | some a => .ok a

/-- The text of a value, none of null and of what shows as the empty text. -/
def optStr (v : V) : Option String := (ops.strIfPresent v).filter (· ≠ "")

/-- The texts of the members of a value that counts as true. -/
def strs (v : V) : Option (List String) :=
  if ops.truthy v then (ops.iter v).map (·.map ops.str) else some []

/-- The command: a list, not one text. -/
def commandOf (v : V) : Except SpecError (List String) :=
  if ops.truthy v = true ∧ ops.isText v = true then .error .commandNotArgv
  else orRaised (strs ops v)

/-- The ports, which may go by another name. -/
def portsOf (ports expose : V) : Option (List (Dict K V)) :=
  let raw := if ops.truthy ports then ports else expose
  if ops.truthy raw then (ops.iter raw).bind fun items => items.mapM ops.toDict else some []

/-- A dictionary of the texts of the keys and values of another one. -/
def textsOf (d : Dict K V) : Dict String String :=
  d.entries.foldl (fun texts e => texts.set (ops.keyText e.1) (ops.str e.2)) .empty

/-- The version, the supported one where none is given. -/
def versionOf (v : Option V) : Option ℤ := v.elim (some 1) ops.toInt

/-- A dictionary made of a value other than null. -/
def optDictOf (v : V) : Option (Option (Dict K V)) :=
  if ops.isNull v then some none else (ops.toDict v).map some

/-- A number made of a value other than null. -/
def optFloat (v : V) : Option (Option V) :=
  if ops.isNull v then some none else (ops.toFloat v).map some

/-- The placement of a dictionary. -/
def placementFrom (data : Dict K V) : Option WorkloadPlacement :=
  (strs ops (ops.field data "reject_runtimes")).map fun rejectRuntimes => {
    hostId := optStr ops (ops.field data "host_id")
    runtime := optStr ops (ops.field data "runtime")
    rejectRuntimes }

/-- The placement of a value that counts as true. -/
def placementOf (v : V) : Option WorkloadPlacement :=
  if ops.truthy v then (ops.asDict v).bind (placementFrom ops) else some {}

/-- The fields of a mapping. -/
def SpecFields.parse (data : Dict K V) : Except SpecError (SpecFields K V) := do
  checkKnown ops data
  let kind ← member ops workloadKind data "kind"
  let isolation ← member ops isolationPolicy data "isolation"
  let lifecycle ← member ops lifecyclePolicy data "lifecycle"
  let command ← commandOf ops (ops.field data "command")
  let ports ← orRaised (portsOf ops (ops.field data "ports") (ops.field data "expose"))
  let env ← orRaised (ops.dictOrEmpty (ops.field data "env"))
  let labels ← orRaised (ops.dictOrEmpty (ops.field data "labels"))
  let specVersion ← orRaised (versionOf ops (data.get? (ops.key "spec_version")))
  let seed ← orRaised (optDictOf ops (ops.field data "seed"))
  let health ← orRaised (optDictOf ops (ops.field data "health"))
  let timeoutS ← orRaised (optFloat ops (ops.field data "timeout_s"))
  let resources ← orRaised (ops.dictOrEmpty (ops.field data "resources"))
  let placement ← orRaised (placementOf ops (ops.field data "placement"))
  let mesh ← orRaised (optDictOf ops (ops.field data "mesh"))
  .ok {
    kind, isolation, lifecycle, command, ports, specVersion, seed, health, timeoutS, resources,
    placement, mesh
    env := textsOf ops env
    labels := textsOf ops labels
    image := optStr ops (ops.field data "image")
    imageRef := optStr ops (ops.field data "image_ref")
    workdir := optStr ops (ops.field data "workdir")
    secretsRef := optStr ops (ops.field data "secrets_ref") }

/-- The spec of a mapping. -/
def WorkloadSpec.fromDict (data : Dict K V) : Except SpecError (WorkloadSpec K V) :=
  SpecFields.parse ops data >>= SpecFields.construct

end Decode

section RoundTrip

variable {ops}

/-- What a decoded spec is: none of its optional texts is empty, and its timeout is a number. -/
structure SpecFields.Normal (ops : ScriptValues K V) (f : SpecFields K V) : Prop where
  image : f.image ≠ some ""
  imageRef : f.imageRef ≠ some ""
  workdir : f.workdir ≠ some ""
  secretsRef : f.secretsRef ≠ some ""
  hostId : f.placement.hostId ≠ some ""
  runtime : f.placement.runtime ≠ some ""
  timeoutS : ∀ t ∈ f.timeoutS, ops.toFloat t = some t ∧ ops.isNull t = false

omit [DecidableEq K] in
theorem orRaised_eq_ok_iff {α : Type} {v : Option α} {a : α} : orRaised v = .ok a ↔ v = some a := by
  cases v <;> simp [orRaised]

omit [DecidableEq K] in
theorem optStr_ne (v : V) : optStr ops v ≠ some "" := by
  simp [optStr, Option.filter_eq_some_iff]

omit [DecidableEq K] in
/-- An optional text that is not empty comes back. -/
theorem optStr_written {o : Option String} (h : o ≠ some "") :
    optStr ops ((o.map ops.text).getD ops.null) = o := by
  cases o with
  | none => simp [optStr]
  | some t => simpa [optStr, Option.filter_eq_some_iff] using h

omit [DecidableEq K] in
/-- A list of texts comes back. -/
theorem strs_written (l : List String) :
    strs ops ((writtenIf (!l.isEmpty) (ops.list (l.map ops.text))).getD ops.null) = some l := by
  cases l with
  | nil => simp [strs, writtenIf]
  | cons t rest => simp [strs, writtenIf, Function.comp_def]

omit [DecidableEq K] in
/-- The command comes back. -/
theorem commandOf_written (l : List String) :
    commandOf ops ((writtenIf (!l.isEmpty) (ops.list (l.map ops.text))).getD ops.null) = .ok l := by
  rw [commandOf, strs_written]
  refine if_neg fun h => ?_
  cases l with
  | nil => simp [writtenIf] at h
  | cons t rest => simp [writtenIf] at h

omit [DecidableEq K] in
/-- The ports come back. -/
theorem portsOf_written (l : List (Dict K V)) :
    portsOf ops ((writtenIf (!l.isEmpty) (ops.list (l.map ops.dict))).getD ops.null) ops.null =
      some l := by
  have hmap : (l.map ops.dict).mapM ops.toDict = some l := by
    simpa using option_mapM_map (h := id) fun d (_ : d ∈ l) => ops.toDict_dict d
  cases l with
  | nil => simp [portsOf, writtenIf]
  | cons d rest => simpa [portsOf, writtenIf] using hmap

omit [DecidableEq K] in
/-- A dictionary comes back. -/
theorem dictOrEmpty_written (d : Dict K V) :
    ops.dictOrEmpty ((writtenIf (!d.entries.isEmpty) (ops.dict d)).getD ops.null) = some d := by
  by_cases h : d.entries = []
  · obtain rfl : d = .empty := Dict.eq_of_entries h
    simp [writtenIf, ScriptValues.dictOrEmpty, Dict.empty]
  · simp [writtenIf, h]

omit [DecidableEq K] in
/-- An optional dictionary comes back. -/
theorem optDictOf_written (o : Option (Dict K V)) :
    optDictOf ops ((o.map ops.dict).getD ops.null) = some o := by
  cases o <;> simp [optDictOf]

omit [DecidableEq K] in
/-- A number comes back. -/
theorem optFloat_written {t : Option V}
    (h : ∀ v ∈ t, ops.toFloat v = some v ∧ ops.isNull v = false) :
    optFloat ops (t.getD ops.null) = some t := by
  cases t with
  | none => simp [optFloat]
  | some v => simp [optFloat, h v rfl]

/-- A dictionary of texts is written entry by entry. -/
theorem entries_ofTexts (texts : Dict String String) :
    (ofTexts ops texts).entries = texts.entries.map (Prod.map ops.key ops.text) := by
  have hkeys : ((texts.entries.map (Prod.map ops.key ops.text)).map Prod.fst).Nodup := by
    have hmap : (texts.entries.map (Prod.map ops.key ops.text)).map Prod.fst =
        texts.keys.map ops.key := by
      simp [Dict.keys, Function.comp_def]
    rw [hmap]
    exact texts.nodup.map (Function.LeftInverse.injective ops.keyText_key)
  have hfold := Dict.entries_foldl_set (d := (Dict.empty : Dict K V)) hkeys
    fun _ _ => List.not_mem_nil
  rw [List.foldl_map] at hfold
  exact hfold

/-- A dictionary of texts comes back. -/
theorem textsOf_ofTexts (texts : Dict String String) : textsOf ops (ofTexts ops texts) = texts := by
  rw [textsOf, entries_ofTexts, List.foldl_map]
  simp only [Prod.map_fst, Prod.map_snd, ScriptValues.keyText_key, ScriptValues.str_text]
  exact Dict.update_empty texts

/-- A dictionary of texts is decoded from what is written. -/
theorem dictOrEmpty_texts (texts : Dict String String) :
    ops.dictOrEmpty ((writtenIf (!texts.entries.isEmpty) (ops.dict (ofTexts ops texts))).getD
      ops.null) = some (ofTexts ops texts) := by
  have h : texts.entries.isEmpty = (ofTexts ops texts).entries.isEmpty := by
    simp [entries_ofTexts]
  rw [h]
  exact dictOrEmpty_written _

/-- A placement without empty texts comes back from its mapping. -/
theorem placementFrom_placementDict {p : WorkloadPlacement} (hhost : p.hostId ≠ some "")
    (hruntime : p.runtime ≠ some "") : placementFrom ops (placementDict ops p) = some p := by
  have hget : ∀ {name : String} {v : Option V},
      (name, v) ∈ [
        ("host_id", p.hostId.map ops.text),
        ("runtime", p.runtime.map ops.text),
        ("reject_runtimes",
          writtenIf (!p.rejectRuntimes.isEmpty) (ops.list (p.rejectRuntimes.map ops.text)))] →
        ops.field (placementDict ops p) name = v.getD ops.null := fun hmem =>
    congrArg (Option.getD · ops.null) (ops.get?_recordSome_of_mem (by simp) hmem)
  have hreject := hget (List.mem_of_getElem? (i := 2) rfl)
  have hhostId := hget (List.mem_of_getElem? (i := 0) rfl)
  have hruntimeId := hget (List.mem_of_getElem? (i := 1) rfl)
  rw [placementFrom, hreject, strs_written, hhostId, hruntimeId, optStr_written hhost,
    optStr_written hruntime]
  rfl

/-- A placement without empty texts is decoded from what is written. -/
theorem placementOf_written {p : WorkloadPlacement} (hhost : p.hostId ≠ some "")
    (hruntime : p.runtime ≠ some "") :
    placementOf ops ((writtenIf (!(placementDict ops p).entries.isEmpty)
      (ops.dict (placementDict ops p))).getD ops.null) = some p := by
  have hfrom : placementFrom ops (placementDict ops p) = some p :=
    placementFrom_placementDict hhost hruntime
  by_cases h : (placementDict ops p).entries = []
  · rw [show placementDict ops p = .empty from Dict.eq_of_entries h] at hfrom ⊢
    have hnone : placementFrom ops (.empty : Dict K V) = some {} := by
      simp [placementFrom, strs, optStr, ScriptValues.field]
    rw [hnone] at hfrom
    simpa [writtenIf, placementOf, Dict.empty] using hfrom
  · simpa [writtenIf, h, placementOf] using hfrom

/-- The names of the written fields: the ports are written under one name. -/
theorem names_written (f : SpecFields K V) :
    (f.written ops).map Prod.fst = knownFields.erase "expose" := rfl

/-- A written field comes back. -/
theorem get?_toDict (f : SpecFields K V) {name : String} {v : Option V}
    (h : (name, v) ∈ f.written ops) : (f.toDict ops).get? (ops.key name) = v :=
  ops.get?_recordSome_of_mem (names_written f ▸ by decide) h

theorem field_toDict (f : SpecFields K V) {name : String} {v : Option V}
    (h : (name, v) ∈ f.written ops) : ops.field (f.toDict ops) name = v.getD ops.null :=
  congrArg (Option.getD · ops.null) (get?_toDict f h)

/-- What is written has known fields only. -/
theorem checkKnown_toDict (f : SpecFields K V) : checkKnown ops (f.toDict ops) = .ok () := by
  refine if_pos fun k hk => ?_
  obtain ⟨e, he, rfl⟩ := ops.mem_keys_recordSome hk
  refine List.mem_map_of_mem ?_
  have hname : e.1 ∈ (f.written ops).map Prod.fst := List.mem_map_of_mem he
  exact List.mem_of_mem_erase (names_written f ▸ hname)

/-- Nothing is written under the other name of the ports. -/
theorem field_toDict_expose (f : SpecFields K V) :
    ops.field (f.toDict ops) "expose" = ops.null :=
  ops.field_recordSome_of_not_mem (names_written f ▸ by decide)

omit [DecidableEq K] in
/-- A member of an enumeration comes back from its text. -/
theorem member_eq_ok {α : Type} [DecidableEq K] {find : String → Option α} {data : Dict K V}
    {name text : String} {a : α} (hget : data.get? (ops.key name) = some (ops.text text))
    (hfind : find text = some a) : member ops find data name = .ok a := by
  simp [member, hget, hfind]

/-- The fields without empty texts come back from their mapping. -/
theorem parse_toDict {f : SpecFields K V} (h : f.Normal ops) :
    SpecFields.parse ops (f.toDict ops) = .ok f := by
  have hget := fun i {name} {v : Option V} (hi : (f.written ops)[i]? = some (name, v)) =>
    get?_toDict f (List.mem_of_getElem? hi)
  have hfield := fun i {name} {v : Option V} (hi : (f.written ops)[i]? = some (name, v)) =>
    field_toDict f (List.mem_of_getElem? hi)
  rw [SpecFields.parse, checkKnown_toDict, member_eq_ok (hget 1 rfl) (workloadKind_text _),
    member_eq_ok (hget 2 rfl) (isolationPolicy_text _),
    member_eq_ok (hget 3 rfl) (lifecyclePolicy_text _),
    hfield 4 rfl, commandOf_written, hfield 11 rfl, field_toDict_expose, portsOf_written,
    hfield 9 rfl, dictOrEmpty_texts, hfield 15 rfl, dictOrEmpty_texts, hget 0 rfl,
    hfield 8 rfl, optDictOf_written, hfield 12 rfl, optDictOf_written, hfield 13 rfl,
    optFloat_written h.timeoutS, hfield 14 rfl, dictOrEmpty_written, hfield 16 rfl,
    placementOf_written h.hostId h.runtime, hfield 17 rfl, optDictOf_written,
    hfield 5 rfl, optStr_written h.image, hfield 6 rfl, optStr_written h.imageRef,
    hfield 7 rfl, optStr_written h.workdir, hfield 10 rfl, optStr_written h.secretsRef]
  simp only [orRaised, versionOf, Option.elim_some, ScriptValues.toInt_int]
  change Except.ok { f with
    env := textsOf ops (ofTexts ops f.env)
    labels := textsOf ops (ofTexts ops f.labels) } = _
  rw [textsOf_ofTexts, textsOf_ofTexts]

omit [DecidableEq K] in
/-- A number that is decoded is one. -/
theorem optFloat_number {v : V} {t : Option V} (h : optFloat ops v = some t) :
    ∀ w ∈ t, ops.toFloat w = some w ∧ ops.isNull w = false := by
  intro w hw
  unfold optFloat at h
  split at h
  · obtain rfl := Option.some.inj h
    cases hw
  · obtain ⟨w', hw', rfl⟩ := Option.map_eq_some_iff.mp h
    obtain rfl := Option.some.inj hw
    exact ops.toFloat_toFloat v _ hw'

/-- A placement that is decoded has no empty texts. -/
theorem placementOf_ne {v : V} {p : WorkloadPlacement} (h : placementOf ops v = some p) :
    p.hostId ≠ some "" ∧ p.runtime ≠ some "" := by
  unfold placementOf at h
  split at h
  · obtain ⟨data, -, hdata⟩ := Option.bind_eq_some_iff.mp h
    obtain ⟨rejected, -, rfl⟩ := Option.map_eq_some_iff.mp hdata
    exact ⟨optStr_ne _, optStr_ne _⟩
  · obtain rfl := Option.some.inj h
    exact ⟨by simp, by simp⟩

/-- What is decoded has no empty optional text, and its timeout is a number. -/
theorem parse_normal {data : Dict K V} {f : SpecFields K V}
    (h : SpecFields.parse ops data = .ok f) : f.Normal ops := by
  simp only [SpecFields.parse, except_bind_eq_ok_iff, orRaised_eq_ok_iff] at h
  obtain ⟨-, -, kind, -, isolation, -, lifecycle, -, command, -, ports, -, env, -, labels, -,
    version, -, seed, -, health, -, timeoutS, htimeout, resources, -, placement, hplacement, mesh, -,
    hf⟩ := h
  obtain rfl := Except.ok.inj hf
  obtain ⟨hhost, hruntime⟩ := placementOf_ne hplacement
  exact ⟨optStr_ne _, optStr_ne _, optStr_ne _, optStr_ne _, hhost, hruntime,
    optFloat_number htimeout⟩

/-- A spec decoded from a mapping is decoded again from the mapping it is written to. -/
theorem workloadSpec_fromDict_toDict (ops : ScriptValues K V) (data : Dict K V)
    (s : WorkloadSpec K V) (h : WorkloadSpec.fromDict ops data = .ok s) :
    WorkloadSpec.fromDict ops (s.toDict ops) = .ok s := by
  obtain ⟨f, hf, hs⟩ := except_bind_eq_ok_iff.mp h
  obtain rfl := toSpecFields_of_construct hs
  rw [WorkloadSpec.fromDict, parse_toDict (parse_normal hf)]
  exact construct_toSpecFields s

end RoundTrip

/-- A service with an empty image, its ports under their other name and a placement field that is
not read. -/
def serviceData : Dict String Context.Value :=
  Context.entriesDict [("kind", .str "service"), ("isolation", .str "host"),
    ("lifecycle", .str "job"), ("image", .str ""), ("workdir", .str "/srv"),
    ("expose", .list [.dict [("port", .int 80)]]), ("env", .dict [("A", .str "1")]),
    ("timeout_s", .int 5), ("resources", .dict []),
    ("placement", .dict [("runtime", .str "local"), ("zone", .int 1)])]

theorem workloadSpec_fromDict_toDict_service :
    ∃ s, WorkloadSpec.fromDict Context.plainValues serviceData = .ok s ∧
      WorkloadSpec.fromDict Context.plainValues (s.toDict Context.plainValues) = .ok s :=
  ⟨_, rfl, workloadSpec_fromDict_toDict _ serviceData _ rfl⟩

end PalmEngine.Workloads.Stored
