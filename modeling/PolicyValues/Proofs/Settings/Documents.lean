import PolicyValues.Proofs.Toml.Distinct
import PolicyValues.Proofs.Toml.Overlay
import PolicyValues.Settings.Layers

/-!
What a document tells of the settings, kept apart from the document: of each setting a value or
nothing. Laid over what is below it, the settings it sets are its own and the others stay; written
plainly, it tells the same.
-/
namespace PolicyValues

open Toml (Table plain? plainMembers? path? overlayMembers layerOver)

def Toml.section? (document : Table) (key : String) : Option Table :=
  match document.lookup key with
  | none => some []
  | some (.table members) => some members
  | some _ => none

theorem Toml.lookup_section {document members : Table} {key : String}
    (shown : section? document key = some members) :
    document.lookup key = some (.table members) ∨ document.lookup key = none ∧ members = [] := by
  unfold section? at shown
  split at shown
  · rename_i absent
    exact .inr ⟨absent, (Option.some.inj shown).symm⟩
  · rename_i found
    exact .inl (Option.some.inj shown ▸ found)
  · cases shown

/-- The settings that a layer sets. -/
structure Said where
  legacyIdentifiers : Option Bool := none
  disabled : Option (List String) := none
  collapseWhitespace : Option Bool := none

namespace Said

def onto (upper lower : Said) : Said where
  legacyIdentifiers := upper.legacyIdentifiers.or lower.legacyIdentifiers
  disabled := upper.disabled.or lower.disabled
  collapseWhitespace := upper.collapseWhitespace.or lower.collapseWhitespace

def settings (said : Said) : Settings where
  legacyIdentifiers := said.legacyIdentifiers.getD true
  disabled := said.disabled.getD []
  collapseWhitespace := said.collapseWhitespace.getD false

def all (s : Settings) : Said :=
  ⟨some s.legacyIdentifiers, some s.disabled, some s.collapseWhitespace⟩

/-- What layers set together over the defaults, the first one lowest. -/
def together (layers : List Said) : Said :=
  layers.foldl (fun below above => above.onto below) (all {})

theorem onto_assoc (top middle bottom : Said) :
    (top.onto middle).onto bottom = top.onto (middle.onto bottom) := by
  simp only [onto, Option.or_assoc]

theorem settings_onto_default (said : Said) : (said.onto (all {})).settings = said.settings := by
  obtain ⟨legacy, disabled, collapse⟩ := said
  cases legacy <;> cases disabled <;> cases collapse <;> rfl

end Said

structure Tells (document : Table) (said : Said) : Prop where
  registry : ∃ members, Toml.section? document "registry" = some members ∧
    members.lookup "legacy_identifiers" = said.legacyIdentifiers.map .boolean ∧
    members.lookup "disabled" = said.disabled.map fun ids => .array (ids.map .string)
  conversion : ∃ members, Toml.section? document "conversion" = some members ∧
    members.lookup "collapse_whitespace" = said.collapseWhitespace.map .boolean

section Reading

variable {r : FieldReading}

theorem FieldReading.boolean?_said (truth : ∀ b, r.boolean? (.boolean b) = some b)
    (b? : Option Bool) (default : Bool) :
    field? r.boolean? default (b?.map .boolean) = some (b?.getD default) := by
  cases b? with
  | none => rfl
  | some b => exact truth b

theorem FieldReading.list?_said (text : ∀ s, r.text? (.string s) = some s)
    (ids? : Option (List String)) (default : List String) :
    field? r.list? default (ids?.map fun ids => .array (ids.map .string)) =
      some (ids?.getD default) := by
  cases ids? with
  | none => rfl
  | some ids =>
    change (ids.map Toml.string).mapM r.text? = some ids
    induction ids with
    | nil => rfl
    | cons i rest ih =>
      rw [List.map_cons, List.mapM_cons, text, ih]
      rfl

theorem Settings.ofTable?_of_sections {document registry conversion : Table}
    (hr : Toml.section? document "registry" = some registry)
    (hc : Toml.section? document "conversion" = some conversion) :
    Settings.ofTable? r document =
      (Settings.withRegistry? r {} (.table registry)).bind fun s =>
        s.withConversion? r (.table conversion) := by
  unfold Settings.ofTable?
  rcases Toml.lookup_section hr with found | ⟨absent, rfl⟩
  · rcases Toml.lookup_section hc with found' | ⟨absent', rfl⟩
    · rw [found, found']
      rfl
    · rw [found, absent']
      rfl
  · rcases Toml.lookup_section hc with found' | ⟨absent', rfl⟩
    · rw [absent, found']
      rfl
    · rw [absent, absent']
      rfl

theorem Tells.ofTable? (truth : ∀ b, r.boolean? (.boolean b) = some b)
    (text : ∀ s, r.text? (.string s) = some s) {document : Table} {said : Said}
    (told : Tells document said) : Settings.ofTable? r document = some said.settings := by
  obtain ⟨⟨registry, shown, legacy, disabled⟩, ⟨conversion, shown', collapse⟩⟩ := told
  rw [Settings.ofTable?_of_sections shown shown']
  simp only [Settings.withRegistry?, Settings.withConversion?, FieldReading.fields?, List.map_cons,
    List.map_nil, legacy, disabled, collapse, Option.bind_eq_bind, Option.bind_some,
    FieldReading.boolean?_said truth, FieldReading.list?_said text, Option.pure_def]
  rfl

end Reading

theorem tells_toTable (s : Settings) : Tells s.toTable (.all s) :=
  ⟨⟨_, rfl, rfl, rfl⟩, ⟨_, rfl, rfl⟩⟩

structure Keyed (document : Table) : Prop where
  keys : (document.map (·.1)).Nodup
  sections : ∀ key members, Toml.section? document key = some members →
    (members.map (·.1)).Nodup

theorem Toml.section?_overlayMembers {upper lower : Table} (keyed : Keyed upper) {key : String}
    {above below : Table} (hu : section? upper key = some above)
    (hl : section? lower key = some below) :
    ∃ merged, section? (overlayMembers upper lower) key = some merged ∧
      ∀ name, merged.lookup name =
        ((above.lookup name).map fun item =>
          item.overlay ((below.lookup name).getD (.table []))).or (below.lookup name) := by
  rcases lookup_section hu with found | ⟨absent, rfl⟩
  · refine ⟨overlayMembers above below, ?_,
      lookup_overlayMembers (keyed.sections key above hu) below⟩
    unfold section?
    rw [lookup_overlayMembers keyed.keys, found, Option.map_some, Option.some_or, overlay]
    rcases lookup_section hl with found | ⟨absent, rfl⟩
    · rw [found]
      rfl
    · rw [absent]
      rfl
  · refine ⟨below, ?_, fun name => rfl⟩
    unfold section? at hl ⊢
    rw [lookup_overlayMembers keyed.keys, absent]
    exact hl

theorem Tells.onto {upper lower : Table} {above below : Said} (keyed : Keyed upper)
    (hu : Tells upper above) (hl : Tells lower below) :
    Tells (overlayMembers upper lower) (above.onto below) := by
  have flag (upper? lower? : Option Bool) (item : Toml) :
      ((upper?.map Toml.boolean).map fun i => i.overlay item).or (lower?.map .boolean) =
        (upper?.or lower?).map .boolean := by
    cases upper? <;> rfl
  have list (upper? lower? : Option (List String)) (item : Toml) :
      ((upper?.map fun ids => Toml.array (ids.map .string)).map fun i => i.overlay item).or
          (lower?.map fun ids => .array (ids.map .string)) =
        (upper?.or lower?).map fun ids => .array (ids.map .string) := by
    cases upper? <;> rfl
  constructor
  · obtain ⟨registry, shown, legacy, disabled⟩ := hu.registry
    obtain ⟨registry', shown', legacy', disabled'⟩ := hl.registry
    obtain ⟨merged, together, lookup⟩ := Toml.section?_overlayMembers keyed shown shown'
    refine ⟨merged, together, ?_, ?_⟩
    · rw [lookup, legacy, legacy', flag]
      rfl
    · rw [lookup, disabled, disabled', list]
      rfl
  · obtain ⟨conversion, shown, collapse⟩ := hu.conversion
    obtain ⟨conversion', shown', collapse'⟩ := hl.conversion
    obtain ⟨merged, together, lookup⟩ := Toml.section?_overlayMembers keyed shown shown'
    refine ⟨merged, together, ?_⟩
    rw [lookup, collapse, collapse', flag]
    rfl

theorem Toml.Distinct.keyed {document : Table} (distinct : (Toml.table document).Distinct) :
    Keyed document := by
  refine ⟨distinct.keys, fun key members shown => ?_⟩
  rcases Toml.lookup_section shown with found | ⟨-, rfl⟩
  · exact (distinct.inner _ (Toml.mem_of_lookup found)).keys
  · exact List.nodup_nil

def PlainBeside (names : List String) (members : Table) : Prop :=
  ∀ m ∈ members, m.1 ∉ names → (plain? m.2).isSome = true

theorem PlainBeside.isSome_plainMembers? {names : List String} {members : Table}
    (beside : PlainBeside names members) (keys : (members.map (·.1)).Nodup)
    (named : ∀ name ∈ names, ∀ item, members.lookup name = some item →
      (plain? item).isSome = true) : (plainMembers? members).isSome = true := by
  refine Toml.isSome_plainMembers? fun m mem => ?_
  by_cases known : m.1 ∈ names
  · exact named _ known _ (Toml.lookup_of_mem keys mem)
  · exact beside m mem known

structure Mergeable (document : Table) : Prop where
  own : ∀ m ∈ document, m.1 ∉ ["registry", "conversion"] →
    (path? m.1).getD [.member m.1] = [.member m.1]
  others : PlainBeside ["registry", "conversion"] document
  registry : ∀ members, Toml.section? document "registry" = some members →
    PlainBeside ["legacy_identifiers", "disabled"] members
  conversion : ∀ members, Toml.section? document "conversion" = some members →
    PlainBeside ["collapse_whitespace"] members

theorem PlainBeside.of_named {names : List String} {members : Table}
    (named : ∀ key ∈ members.map (·.1), key ∈ names) : PlainBeside names members :=
  fun m mem other => absurd (named m.1 (List.mem_map.2 ⟨m, mem, rfl⟩)) other

theorem Mergeable.of_named {document registry conversion : Table}
    (hr : Toml.section? document "registry" = some registry)
    (hc : Toml.section? document "conversion" = some conversion)
    (sections : ∀ key ∈ document.map (·.1), key ∈ ["registry", "conversion"])
    (first : ∀ key ∈ registry.map (·.1), key ∈ ["legacy_identifiers", "disabled"])
    (second : ∀ key ∈ conversion.map (·.1), key ∈ ["collapse_whitespace"]) :
    Mergeable document where
  own m mem other := absurd (sections m.1 (List.mem_map.2 ⟨m, mem, rfl⟩)) other
  others := .of_named sections
  registry _ shown := Option.some.inj (hr.symm.trans shown) ▸ .of_named first
  conversion _ shown := Option.some.inj (hc.symm.trans shown) ▸ .of_named second

structure Layer (upper : Table) (said : Said) : Prop where
  told : Tells upper said
  keyed : Keyed upper
  own : ∀ m ∈ upper, (path? m.1).getD [.member m.1] = [.member m.1]

section Plain

variable {document plain : Table}

theorem plain?_strings (ids : List String) :
    plain? (.array (ids.map .string)) = some (.array (ids.map .string)) := by
  have items : Toml.plainItems? (ids.map .string) = some (ids.map .string) := by
    induction ids with
    | nil => rfl
    | cons i rest ih =>
      rw [List.map_cons, Toml.plainItems?, ih]
      rfl
  rw [plain?, items]
  rfl

theorem plain?_eq_table {item : Toml} {members : Table} (h : plain? item = some (.table members)) :
    ∃ written, item = .table written ∧ plainMembers? written = some members := by
  cases item with
  | table written =>
    rw [plain?] at h
    obtain ⟨members', read, same⟩ := Option.map_eq_some_iff.1 h
    exact ⟨written, rfl, Toml.table.inj same ▸ read⟩
  | array items =>
    rw [plain?] at h
    obtain ⟨items', -, same⟩ := Option.map_eq_some_iff.1 h
    cases same
  | integer n =>
    rw [plain?] at h
    split at h <;> cases h
  | _ => cases h

theorem isSome_plain?_section {key : String} {members : Table} {item : Toml}
    (shown : Toml.section? document key = some members)
    (inner : (plainMembers? members).isSome = true) (found : document.lookup key = some item) :
    (plain? item).isSome = true := by
  rcases Toml.lookup_section shown with table | ⟨absent, -⟩
  · obtain rfl := Option.some.inj (found.symm.trans table)
    rw [plain?, Option.isSome_map]
    exact inner
  · rw [absent] at found
    cases found

theorem section?_plainMembers? (read : plainMembers? document = some plain) {key : String}
    {members members' : Table} (shown : Toml.section? document key = some members)
    (inner : plainMembers? members = some members') :
    Toml.section? plain key = some members' := by
  unfold Toml.section?
  rw [Toml.lookup_plainMembers? read]
  rcases Toml.lookup_section shown with found | ⟨absent, rfl⟩
  · rw [found, Option.bind_some, plain?, inner]
    rfl
  · rw [absent]
    exact inner

theorem Keyed.of_plainMembers? (keyed : Keyed document)
    (read : plainMembers? document = some plain) : Keyed plain := by
  constructor
  · rw [Toml.keys_plainMembers? read]
    exact keyed.keys
  · intro key members shown
    rcases Toml.lookup_section shown with found | ⟨-, rfl⟩
    · rw [Toml.lookup_plainMembers? read] at found
      obtain ⟨item, found, plain⟩ := Option.bind_eq_some_iff.1 found
      obtain ⟨written, rfl, inner⟩ := plain?_eq_table plain
      have shown : Toml.section? document key = some written := by
        rw [Toml.section?, found]
      rw [Toml.keys_plainMembers? inner]
      exact keyed.sections key written shown
    · exact List.nodup_nil

theorem Tells.plain_sections {said : Said} (told : Tells document said) (keyed : Keyed document)
    (mergeable : Mergeable document) :
    (∀ members, Toml.section? document "registry" = some members →
      (plainMembers? members).isSome = true) ∧
    ∀ members, Toml.section? document "conversion" = some members →
      (plainMembers? members).isSome = true := by
  obtain ⟨⟨registry, shown, legacy, disabled⟩, ⟨conversion, shown', collapse⟩⟩ := told
  constructor
  · intro members same
    obtain rfl := Option.some.inj (shown.symm.trans same)
    refine (mergeable.registry _ shown).isSome_plainMembers? (keyed.sections _ _ shown) ?_
    intro name known item found
    simp only [List.mem_cons, List.not_mem_nil, or_false] at known
    rcases known with rfl | rfl
    · obtain ⟨b, -, rfl⟩ := Option.map_eq_some_iff.1 (legacy.symm.trans found)
      rfl
    · obtain ⟨ids, -, rfl⟩ := Option.map_eq_some_iff.1 (disabled.symm.trans found)
      rw [plain?_strings]
      rfl
  · intro members same
    obtain rfl := Option.some.inj (shown'.symm.trans same)
    refine (mergeable.conversion _ shown').isSome_plainMembers? (keyed.sections _ _ shown') ?_
    intro name known item found
    rw [List.mem_singleton.1 known] at found
    obtain ⟨b, -, rfl⟩ := Option.map_eq_some_iff.1 (collapse.symm.trans found)
    rfl

theorem Tells.isSome_plainMembers? {said : Said} (told : Tells document said)
    (keyed : Keyed document) (mergeable : Mergeable document) :
    (plainMembers? document).isSome = true := by
  obtain ⟨registry, conversion⟩ := told.plain_sections keyed mergeable
  refine mergeable.others.isSome_plainMembers? keyed.keys fun name known item found => ?_
  simp only [List.mem_cons, List.not_mem_nil, or_false] at known
  rcases known with rfl | rfl
  · obtain ⟨members, shown, -⟩ := told.registry
    exact isSome_plain?_section shown (registry _ shown) found
  · obtain ⟨members, shown, -⟩ := told.conversion
    exact isSome_plain?_section shown (conversion _ shown) found

theorem Tells.of_plainMembers? {said : Said} (told : Tells document said) (keyed : Keyed document)
    (mergeable : Mergeable document) (read : plainMembers? document = some plain) :
    Tells plain said := by
  obtain ⟨registry, conversion⟩ := told.plain_sections keyed mergeable
  have flag (b? : Option Bool) : (b?.map Toml.boolean).bind plain? = b?.map .boolean := by
    cases b? <;> rfl
  have list (ids? : Option (List String)) :
      (ids?.map fun ids => Toml.array (ids.map .string)).bind plain? =
        ids?.map fun ids => .array (ids.map .string) := by
    cases ids? with
    | none => rfl
    | some ids => exact plain?_strings ids
  constructor
  · obtain ⟨members, shown, legacy, disabled⟩ := told.registry
    obtain ⟨members', inner⟩ := Option.isSome_iff_exists.1 (registry _ shown)
    refine ⟨members', section?_plainMembers? read shown inner, ?_, ?_⟩
    · rw [Toml.lookup_plainMembers? inner, legacy, flag]
    · rw [Toml.lookup_plainMembers? inner, disabled, list]
  · obtain ⟨members, shown, collapse⟩ := told.conversion
    obtain ⟨members', inner⟩ := Option.isSome_iff_exists.1 (conversion _ shown)
    refine ⟨members', section?_plainMembers? read shown inner, ?_⟩
    rw [Toml.lookup_plainMembers? inner, collapse, flag]

theorem Mergeable.own_of_plainMembers? (mergeable : Mergeable document)
    (read : plainMembers? document = some plain) :
    ∀ m ∈ plain, (path? m.1).getD [.member m.1] = [.member m.1] := by
  intro m mem
  have key : m.1 ∈ document.map (·.1) :=
    Toml.keys_plainMembers? read ▸ List.mem_map.2 ⟨m, mem, rfl⟩
  obtain ⟨m', mem', same⟩ := List.mem_map.1 key
  by_cases known : m'.1 ∈ ["registry", "conversion"]
  · simp only [List.mem_cons, List.not_mem_nil, or_false] at known
    rcases known with name | name
    · rw [← same, name]
      decide +kernel
    · rw [← same, name]
      decide +kernel
  · exact same ▸ mergeable.own m' mem' known

theorem Tells.layer {said : Said} (told : Tells document said)
    (distinct : (Toml.table document).Distinct) (mergeable : Mergeable document) :
    ∃ plain, plainMembers? document = some plain ∧ Layer plain said := by
  obtain ⟨plain, read⟩ :=
    Option.isSome_iff_exists.1 (told.isSome_plainMembers? distinct.keyed mergeable)
  exact ⟨plain, read, told.of_plainMembers? distinct.keyed mergeable read,
    distinct.keyed.of_plainMembers? read, mergeable.own_of_plainMembers? read⟩

end Plain

section Whole

theorem FieldReading.eq_strings_of_strict {items : List Toml} {ids : List String}
    (read : items.mapM strict.text? = some ids) : items = ids.map .string := by
  induction items generalizing ids with
  | nil =>
    obtain rfl := Option.some.inj read
    rfl
  | cons item rest ih =>
    rw [List.mapM_cons] at read
    obtain ⟨i, first, read⟩ := Option.bind_eq_some_iff.1 read
    obtain ⟨others, more, read⟩ := Option.bind_eq_some_iff.1 read
    obtain rfl := Option.some.inj read
    cases item <;> cases first
    rw [List.map_cons, ih more]

theorem FieldReading.eq_list_of_strict {item? : Option Toml} {ids? : Option (List String)}
    (read : item?.map strict.list? = ids?.map some) :
    item? = ids?.map fun ids => .array (ids.map .string) := by
  cases item? with
  | none => cases ids? <;> trivial
  | some item =>
    obtain ⟨ids, rfl, same⟩ := Option.map_eq_some_iff.1 read.symm
    cases item with
    | array items =>
      rw [eq_strings_of_strict same.symm]
      rfl
    | _ => cases same

theorem FieldReading.eq_boolean_of_strict {item? : Option Toml} {b? : Option Bool}
    (read : item?.map strict.boolean? = b?.map some) : item? = b?.map .boolean := by
  cases item? with
  | none => cases b? <;> trivial
  | some item =>
    obtain ⟨b, rfl, same⟩ := Option.map_eq_some_iff.1 read.symm
    cases item <;> cases same
    rfl

def Said.isWhole (said : Said) (document : Table) : Bool :=
  match Toml.section? document "registry", Toml.section? document "conversion" with
  | some registry, some conversion =>
    decide ((registry.lookup "legacy_identifiers").map FieldReading.strict.boolean? =
        said.legacyIdentifiers.map some ∧
      (registry.lookup "disabled").map FieldReading.strict.list? = said.disabled.map some ∧
      (conversion.lookup "collapse_whitespace").map FieldReading.strict.boolean? =
        said.collapseWhitespace.map some ∧
      (∀ key ∈ document.map Prod.fst, key ∈ ["registry", "conversion"]) ∧
      (∀ key ∈ registry.map Prod.fst, key ∈ ["legacy_identifiers", "disabled"]) ∧
      ∀ key ∈ conversion.map Prod.fst, key ∈ ["collapse_whitespace"])
  | _, _ => false

theorem Said.tells_of_isWhole {said : Said} {document : Table}
    (whole : said.isWhole document = true) : Tells document said ∧ Mergeable document := by
  unfold isWhole at whole
  split at whole
  · rename_i registry conversion hr hc
    obtain ⟨legacy, disabled, collapse, sections, first, second⟩ := of_decide_eq_true whole
    exact ⟨⟨⟨registry, hr, FieldReading.eq_boolean_of_strict legacy,
        FieldReading.eq_list_of_strict disabled⟩,
      ⟨conversion, hc, FieldReading.eq_boolean_of_strict collapse⟩⟩,
      .of_named hr hc sections first second⟩
  · cases whole

end Whole

end PolicyValues
