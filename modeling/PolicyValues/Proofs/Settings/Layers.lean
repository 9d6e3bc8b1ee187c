import PolicyValues.Proofs.Settings.Documents
import PolicyValues.Proofs.Toml.Dialects

/-!
Settings from layers, told from what each layer sets: every setting is that of the highest layer
that sets it, and only what comes out on top is checked. One file alone makes what it makes as the
only layer.
-/
namespace PolicyValues

open Toml (Table layerOver)

inductive LayerTells : Option String → Said → Prop
  | absent : LayerTells none {}
  | file {text : String} {document : Table} {said : Said}
      (read : Toml.parse? .strict text = some document) (told : Tells document said)
      (mergeable : Mergeable document) : LayerTells (some text) said

theorem LayerTells.of_isWhole {text : String} {said : Said}
    (whole : (Toml.parse? .strict text).any said.isWhole = true) : LayerTells (some text) said := by
  obtain ⟨document, read, whole⟩ := (Option.any_eq_true _ _).1 whole
  obtain ⟨told, mergeable⟩ := Said.tells_of_isWhole whole
  exact .file read told mergeable

theorem LayerTells.fileTable? {text : String} {said : Said} (h : LayerTells (some text) said) :
    ∃ upper, Settings.fileTable? text = some upper ∧ Layer upper said := by
  cases h with
  | file read told mergeable =>
    obtain ⟨plain, written, layer⟩ := told.layer (Toml.distinct_of_parse? read) mergeable
    refine ⟨plain, ?_, layer⟩
    have once : Toml.parse? .lenient (Toml.withoutMark text) = Toml.parse? .lenient text := by
      unfold Toml.parse?
      rw [Toml.withoutMark_of_parse? read]
    rw [Settings.fileTable?, once, Toml.parse?_lenient_of_strict read]
    exact written

theorem LayerTells.layers {files : List (String × Said)}
    (each : ∀ f ∈ files, LayerTells (some f.1) f.2) :
    ∃ layers : List (Table × Said), (∀ l ∈ layers, Layer l.1 l.2) ∧
      (files.map (·.1)).mapM Settings.fileTable? = some (layers.map (·.1)) ∧
      layers.map (·.2) = files.map (·.2) := by
  induction files with
  | nil => exact ⟨[], List.forall_mem_nil _, rfl, rfl⟩
  | cons f rest ih =>
    obtain ⟨layers, others, read, same⟩ := ih fun g mem => each g (List.mem_cons_of_mem _ mem)
    obtain ⟨upper, first, layer⟩ := (each f List.mem_cons_self).fileTable?
    refine ⟨(upper, f.2) :: layers, List.forall_mem_cons.2 ⟨layer, others⟩, ?_, ?_⟩
    · rw [List.map_cons, List.mapM_cons, first, read]
      rfl
    · rw [List.map_cons, List.map_cons, same]

theorem LayerTells.files {file : Option String} {said : Said} (h : LayerTells file said) :
    ∃ files : List (String × Said), (∀ f ∈ files, LayerTells (some f.1) f.2) ∧
      file.toList = files.map (·.1) ∧
      ∀ lower, (files.map (·.2)).foldl (fun below above => above.onto below) lower =
        said.onto lower := by
  cases h with
  | absent => exact ⟨[], List.forall_mem_nil _, rfl, fun _ => rfl⟩
  | @file text _ said read told mergeable =>
    refine ⟨[(text, said)], fun f mem => ?_, rfl, fun _ => rfl⟩
    exact List.mem_singleton.1 mem ▸ .file read told mergeable

theorem Layer.onto {upper lower : Table} {above below : Said} (layer : Layer upper above)
    (h : Tells lower below) : Tells (layerOver upper lower) (above.onto below) := by
  rw [Toml.layerOver_eq_overlayMembers layer.own]
  exact layer.told.onto layer.keyed h

theorem tells_layers {layers : List (Table × Said)} (each : ∀ l ∈ layers, Layer l.1 l.2) :
    ∀ {lower : Table} {below : Said}, Tells lower below →
      Tells ((layers.map (·.1)).foldl (fun lower layer => layerOver layer lower) lower)
        ((layers.map (·.2)).foldl (fun below above => above.onto below) below) := by
  induction layers with
  | nil => exact id
  | cons l rest ih =>
    intro lower below h
    exact ih (fun m mem => each m (List.mem_cons_of_mem _ mem)) ((each l List.mem_cons_self).onto h)

theorem Variable.layer_eq_nil {start : String} {environment : List Variable}
    (quiet : ∀ v ∈ environment, v.key? start = none) : Variable.layer start environment = [] := by
  unfold Variable.layer
  induction environment with
  | nil => rfl
  | cons v rest ih =>
    rw [List.foldl_cons, quiet v List.mem_cons_self]
    exact ih fun w mem => quiet w (List.mem_cons_of_mem _ mem)

namespace Settings

def checked (s : Settings) : Except SettingsFault Settings := s.validate.map fun _ => s

theorem ofTables_of_tells {tables : List Table} {said : Said}
    (told : Tells (tables.foldl (fun lower layer => layerOver layer lower) (toTable {})) said) :
    ofTables tables = said.settings.checked.mapError .invalid := by
  rw [ofTables, told.ofTable? (fun _ => rfl) (fun _ => rfl), checked]
  dsimp only
  cases said.settings.validate <;> rfl

theorem ofFile_of_tells {text : String} {document : Table} {said : Said}
    (read : Toml.parse? .strict text = some document) (told : Tells document said) :
    ofFile (some text) = said.settings.checked.mapError .invalid := by
  have settings := told.ofTable? (r := .strict) (fun _ => rfl) (fun _ => rfl)
  unfold ofFile checked
  simp only [read, Option.bind_some, settings]
  cases said.settings.validate <;> rfl

theorem load_of_files {l : Layers} {files : List (String × Said)}
    (texts : [l.user, l.project, l.localFile].filterMap id = files.map (·.1))
    (each : ∀ f ∈ files, LayerTells (some f.1) f.2)
    (quiet : ∀ v ∈ l.environment, v.key? l.start = none) :
    load l = (Said.together (files.map (·.2))).settings.checked.mapError .invalid := by
  obtain ⟨layers, layered, read, same⟩ := LayerTells.layers each
  rw [load, texts, read, Variable.layer_eq_nil quiet]
  refine ofTables_of_tells ?_
  -- No variable of the environment, so the topmost layer is empty.
  rw [List.foldl_append, ← same]
  exact tells_layers layered (tells_toTable {})

theorem load_of_layers {project localFile : Option String} {below above : Said} {start : String}
    {environment : List Variable} (lower : LayerTells project below)
    (upper : LayerTells localFile above) (quiet : ∀ v ∈ environment, v.key? start = none) :
    load { project, localFile, environment, start } =
      (above.onto below).settings.checked.mapError .invalid := by
  obtain ⟨first, tell, texts, lay⟩ := lower.files
  obtain ⟨second, tell', texts', lay'⟩ := upper.files
  have both : [none, project, localFile].filterMap id = (first ++ second).map (·.1) := by
    rw [List.map_append, ← texts, ← texts']
    cases project <;> cases localFile <;> rfl
  have each : ∀ f ∈ first ++ second, LayerTells (some f.1) f.2 := fun f mem =>
    (List.mem_append.1 mem).elim (tell f) (tell' f)
  rw [load_of_files both each quiet, Said.together, List.map_append, List.foldl_append, lay, lay',
    ← Said.onto_assoc, Said.settings_onto_default]

def Refused (i : String) : Prop :=
  i.toList.all Text.isBlank = true ∨ i.toList.any Text.isBlank = true

theorem checkIdentifier_eq_ok_iff {i : String} : checkIdentifier i = .ok () ↔ ¬Refused i := by
  unfold checkIdentifier Refused
  by_cases blank : i.toList.all Text.isBlank = true
  · simp only [blank, if_true, reduceCtorEq, true_or, not_true]
  · by_cases broken : i.toList.any Text.isBlank = true
    · simp only [blank, broken, if_true, if_false, reduceCtorEq, or_true, not_true,
        Bool.false_eq_true]
    · simp only [blank, broken, if_false, or_self, not_false_eq_true, Bool.false_eq_true]

theorem validate_eq_ok_iff {s : Settings} :
    s.validate = .ok () ↔ ∀ i ∈ s.disabled, ¬Refused i := by
  unfold validate
  induction s.disabled with
  | nil => exact ⟨fun _ => List.forall_mem_nil _, fun _ => rfl⟩
  | cons i rest ih =>
    change (checkIdentifier i >>= fun _ => rest.forM checkIdentifier) = .ok () ↔ _
    rw [bind_eq_ok_iff, List.forall_mem_cons, ← ih, ← checkIdentifier_eq_ok_iff]
    exact ⟨fun ⟨_, first, others⟩ => ⟨first, others⟩, fun ⟨first, others⟩ => ⟨(), first, others⟩⟩

theorem checked_of_usable {s : Settings} (usable : ∀ i ∈ s.disabled, ¬Refused i) :
    s.checked = .ok s := by
  rw [checked, validate_eq_ok_iff.2 usable]
  rfl

theorem checked_of_refused {s : Settings} (refused : ∃ i ∈ s.disabled, Refused i) :
    ∃ fault, s.checked = .error fault := by
  cases checked : s.validate with
  | ok _ =>
    obtain ⟨i, mem, refused⟩ := refused
    exact absurd refused (validate_eq_ok_iff.1 checked i mem)
  | error fault => exact ⟨fault, by rw [Settings.checked, checked]; rfl⟩

end Settings

theorem loaded_settings_are_those_of_the_highest_layer {project localFile : Option String}
    {below above : Said} {start : String} {environment : List Variable}
    (lower : LayerTells project below) (upper : LayerTells localFile above)
    (quiet : ∀ v ∈ environment, v.key? start = none) :
    let l : Layers := { project, localFile, environment, start }
    let effective : Settings := {
      legacyIdentifiers := (above.legacyIdentifiers.or below.legacyIdentifiers).getD true
      disabled := (above.disabled.or below.disabled).getD []
      collapseWhitespace := (above.collapseWhitespace.or below.collapseWhitespace).getD false }
    ((∀ i ∈ effective.disabled, ¬Settings.Refused i) → Settings.load l = .ok effective) ∧
    ((∃ i ∈ effective.disabled, Settings.Refused i) →
      ∃ fault, Settings.load l = .error (.invalid fault)) ∧
    (∀ ids, above.disabled = some ids → (∀ i ∈ ids, ¬Settings.Refused i) →
      Settings.load l = .ok effective) ∧
    ∀ text, project = some text → localFile = none →
      ∃ outcome : Except SettingsFault Settings,
        Settings.load l = outcome.mapError .invalid ∧
          Settings.ofFile (some text) = outcome.mapError .invalid := by
  intro l effective
  have loaded : Settings.load l = effective.checked.mapError .invalid :=
    Settings.load_of_layers lower upper quiet
  have accepted (usable : ∀ i ∈ effective.disabled, ¬Settings.Refused i) :
      Settings.load l = .ok effective := by
    rw [loaded, Settings.checked_of_usable usable]
    rfl
  refine ⟨accepted, fun refused => ?_, fun ids own usable => accepted ?_,
    fun text present alone => ?_⟩
  · obtain ⟨fault, checked⟩ := Settings.checked_of_refused refused
    refine ⟨fault, ?_⟩
    rw [loaded, checked]
    rfl
  · have same : effective.disabled = ids := by
      change (above.disabled.or below.disabled).getD [] = ids
      rw [own]
      rfl
    exact same ▸ usable
  · subst present alone
    refine ⟨effective.checked, loaded, ?_⟩
    cases upper
    cases lower with
    | file read told mergeable => exact Settings.ofFile_of_tells read told

theorem overridden_list_does_no_harm :
    let project := "[registry]\nlegacy_identifiers = false\ndisabled = ['']\n\n" ++
      "[conversion]\ncollapse_whitespace = true\n"
    let localFile := "registry.disabled = ['urn:a']\n"
    let environment : List Variable := [⟨"HOME", "/root"⟩]
    let below : Said := ⟨some false, some [""], some true⟩
    let above : Said := ⟨none, some ["urn:a"], none⟩
    LayerTells (some project) below ∧ LayerTells (some localFile) above ∧
      (∀ v ∈ environment, v.key? "XACML" = none) ∧
      Settings.load { project := some project, localFile := some localFile, environment } =
        .ok ⟨false, ["urn:a"], true⟩ ∧
      (∃ fault, Settings.load { project := some project, environment } = .error (.invalid fault)) ∧
      ∃ outcome : Except SettingsFault Settings,
        Settings.load { project := some project, environment } = outcome.mapError .invalid ∧
          Settings.ofFile (some project) = outcome.mapError .invalid := by
  intro project localFile environment below above
  have lower : LayerTells (some project) below := .of_isWhole (by decide +kernel)
  have upper : LayerTells (some localFile) above := .of_isWhole (by decide +kernel)
  have quiet : ∀ v ∈ environment, v.key? "XACML" = none :=
    List.forall_mem_singleton.2 (by decide +kernel)
  have usable : ∀ i ∈ ["urn:a"], ¬Settings.Refused i :=
    List.forall_mem_singleton.2 (by unfold Settings.Refused; decide +kernel)
  have empty : ∃ i ∈ [""], Settings.Refused i :=
    ⟨"", List.mem_singleton.2 rfl, .inl (by decide +kernel)⟩
  have both := loaded_settings_are_those_of_the_highest_layer lower upper quiet
  have single := loaded_settings_are_those_of_the_highest_layer lower .absent quiet
  exact ⟨lower, upper, quiet, both.2.2.1 _ rfl usable, single.2.1 empty, single.2.2.2 _ rfl rfl⟩

end PolicyValues
