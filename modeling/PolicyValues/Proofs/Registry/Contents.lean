import Mathlib.Data.List.Nodup
import Mathlib.Data.List.Sort
import PolicyValues.Registry

/-!
What a registry holds, told from its settings: which identifier names which datatype. The two tables
know each identifier once, so nothing that was put in is replaced and lookup has no choice. Sorted,
the identifiers are a list that more disabling only thins.
-/
namespace PolicyValues

namespace DataType

/-- The identifiers of before version 3.0, two for each kind of duration. -/
def formerIdentifiers : DataType → List String
  | dayTimeDuration =>
    ["urn:oasis:names:tc:xacml:2.0:data-type:dayTimeDuration",
      "http://www.w3.org/TR/2002/WD-xquery-operators-20020816#dayTimeDuration"]
  | yearMonthDuration =>
    ["urn:oasis:names:tc:xacml:2.0:data-type:yearMonthDuration",
      "http://www.w3.org/TR/2002/WD-xquery-operators-20020816#yearMonthDuration"]
  | _ => []

def directory : List Entry := current ++ former

theorem mem_current_iff {e : Entry} : e ∈ current ↔ e.identifier = e.dataType.identifier := by
  unfold current
  rw [List.mem_map]
  constructor
  · rintro ⟨t, _, rfl⟩
    rfl
  · intro same
    exact ⟨e.dataType, mem_all e.dataType, by rw [← same]⟩

theorem mem_former_iff {e : Entry} :
    e ∈ former ↔ e.identifier ∈ e.dataType.formerIdentifiers := by
  constructor
  · have listed : ∀ e ∈ former, e.identifier ∈ e.dataType.formerIdentifiers := by decide +kernel
    exact listed e
  · have known : ∀ t ∈ all, ∀ i ∈ t.formerIdentifiers, (⟨i, t⟩ : Entry) ∈ former := by
      decide +kernel
    exact known e.dataType (mem_all e.dataType) e.identifier

theorem mem_directory_iff {e : Entry} :
    e ∈ directory ↔
      e.identifier = e.dataType.identifier ∨ e.identifier ∈ e.dataType.formerIdentifiers := by
  rw [directory, List.mem_append, mem_current_iff, mem_former_iff]

theorem identifiers_apart : (directory.map (·.identifier)).Nodup := by decide +kernel

theorem eq_of_mem_directory {e e' : Entry} (he : e ∈ directory) (he' : e' ∈ directory)
    (same : e.identifier = e'.identifier) : e = e' :=
  List.inj_on_of_nodup_map identifiers_apart he he' same

/-! ## Tables filled one entry after another -/

theorem insert_of_new {entries : List Entry} {e : Entry}
    (new : e.identifier ∉ entries.map (·.identifier)) : insert entries e = e :: entries := by
  rw [insert, List.filter_eq_self.2]
  intro other mem
  refine decide_eq_true fun same => new ?_
  rw [← same]
  exact List.mem_map_of_mem mem

theorem foldl_insert {entries more : List Entry}
    (apart : ((more ++ entries).map (·.identifier)).Nodup) :
    more.foldl insert entries = more.reverse ++ entries := by
  induction more generalizing entries with
  | nil => rfl
  | cons e more ih =>
    rw [List.cons_append, List.map_cons, List.nodup_cons] at apart
    have new : e.identifier ∉ entries.map (·.identifier) := fun mem =>
      apart.1 (by rw [List.map_append]; exact List.mem_append_right _ mem)
    rw [List.foldl_cons, insert_of_new new, ih, List.reverse_cons, List.append_assoc,
      List.singleton_append]
    have moved : (more ++ e :: entries).Perm (e :: (more ++ entries)) := List.perm_middle
    rw [(moved.map _).nodup_iff, List.map_cons, List.nodup_cons]
    exact apart

end DataType

/-- Which identifier names which datatype under some settings. A former identifier goes with the
current one; the current one stays without it. -/
inductive Settings.Names (s : Settings) : String → DataType → Prop
  | current {t : DataType} (kept : t.identifier ∉ s.disabled) : s.Names t.identifier t
  | former {t : DataType} {i : String} (known : i ∈ t.formerIdentifiers)
      (legacy : s.legacyIdentifiers = true) (kept : i ∉ s.disabled)
      (target : t.identifier ∉ s.disabled) : s.Names i t

theorem Settings.Names.listed {s : Settings} {i : String} {t : DataType} (named : s.Names i t) :
    (⟨i, t⟩ : DataType.Entry) ∈ DataType.directory := by
  cases named with
  | current kept => exact DataType.mem_directory_iff.2 (.inl rfl)
  | former known legacy kept target => exact DataType.mem_directory_iff.2 (.inr known)

theorem Settings.Names.target {s : Settings} {i : String} {t : DataType} (named : s.Names i t) :
    s.Names t.identifier t := by
  cases named with
  | current kept => exact .current kept
  | former known legacy kept target => exact .current target

theorem Settings.Names.of_disabled {s : Settings} {more : List String} (grown : s.disabled ⊆ more)
    {i : String} {t : DataType} (named : ({ s with disabled := more } : Settings).Names i t) :
    s.Names i t := by
  cases named with
  | current kept => exact .current fun gone => kept (grown gone)
  | former known legacy kept target =>
    exact .former known legacy (fun gone => kept (grown gone)) fun gone => target (grown gone)

namespace Registry

variable {r : Registry} {i : String} {t : DataType}

def listed (r : Registry) : List DataType.Entry :=
  DataType.current.filter (fun e => r.enabled e.dataType) ++
    if r.settings.legacyIdentifiers then
      DataType.former.filter fun e =>
        r.enabled e.dataType && !r.settings.disabled.contains e.identifier
    else []

theorem listed_sublist (r : Registry) : r.listed.Sublist DataType.directory := by
  refine List.filter_sublist.append ?_
  split
  · exact List.filter_sublist
  · exact List.nil_sublist _

theorem listed_apart (r : Registry) : (r.listed.map (·.identifier)).Nodup :=
  DataType.identifiers_apart.sublist (r.listed_sublist.map _)

/-- No identifier is met twice, so nothing that was put into the table is replaced. -/
theorem entries_eq (r : Registry) : r.entries = r.listed.reverse := by
  have filled : r.entries = r.listed.foldl DataType.insert [] := by
    unfold entries listed
    rw [List.foldl_append]
    split
    · exact (List.foldl_filter ..).symm
    · rfl
  rw [filled, DataType.foldl_insert, List.append_nil]
  rw [List.append_nil]
  exact r.listed_apart

theorem enabled_iff : r.enabled t = true ↔ t.identifier ∉ r.settings.disabled := by
  rw [enabled, List.contains_eq_mem, Bool.not_eq_true', decide_eq_false_iff_not]

theorem mem_entries_iff {e : DataType.Entry} :
    e ∈ r.entries ↔ r.settings.Names e.identifier e.dataType := by
  obtain ⟨i, t⟩ := e
  change _ ↔ r.settings.Names i t
  rw [entries_eq, List.mem_reverse, listed, List.mem_append, List.mem_filter,
    DataType.mem_current_iff, enabled_iff]
  constructor
  · rintro (⟨same, target⟩ | known)
    · change i = t.identifier at same
      rw [same]
      exact .current target
    · split at known
      · rename_i legacy
        obtain ⟨known, kept⟩ := List.mem_filter.1 known
        rw [Bool.and_eq_true, enabled_iff, Bool.not_eq_true', List.contains_eq_mem,
          decide_eq_false_iff_not] at kept
        exact .former (DataType.mem_former_iff.1 known) legacy kept.2 kept.1
      · exact absurd known List.not_mem_nil
  · intro named
    cases named with
    | current kept => exact .inl ⟨rfl, kept⟩
    | former known legacy kept target =>
      right
      rw [if_pos legacy, List.mem_filter, Bool.and_eq_true, enabled_iff, Bool.not_eq_true',
        List.contains_eq_mem, decide_eq_false_iff_not]
      exact ⟨DataType.mem_former_iff.2 known, target, kept⟩

theorem get?_eq_some_iff : r.get? i = some t ↔ r.settings.Names i t := by
  have entry : r.get? i = some t ↔ (⟨i, t⟩ : DataType.Entry) ∈ r.entries := by
    unfold get?
    constructor
    · intro found
      obtain ⟨e, first, rfl⟩ := Option.map_eq_some_iff.1 found
      have same : e.identifier = i := by simpa using List.find?_some first
      exact same ▸ List.mem_of_find?_eq_some first
    · intro mem
      -- Something is found, and the tables have only one entry for the identifier.
      obtain ⟨e, first⟩ : ∃ e, r.entries.find? (·.identifier = i) = some e :=
        Option.isSome_iff_exists.1 (List.find?_isSome.2 ⟨⟨i, t⟩, mem, by simp⟩)
      have same : e.identifier = i := by simpa using List.find?_some first
      have known := mem_entries_iff.1 (List.mem_of_find?_eq_some first)
      have entry := DataType.eq_of_mem_directory known.listed (mem_entries_iff.1 mem).listed same
      rw [first]
      exact congrArg (some ·.dataType) entry
  rw [entry, mem_entries_iff]

theorem contains_iff : r.contains i = true ↔ ∃ t, r.settings.Names i t := by
  unfold contains
  simp only [List.any_eq_true, decide_eq_true_eq, mem_entries_iff]
  constructor
  · rintro ⟨e, named, rfl⟩
    exact ⟨e.dataType, named⟩
  · rintro ⟨t, named⟩
    exact ⟨⟨i, t⟩, named, rfl⟩

theorem mem_identifiers_iff : i ∈ r.identifiers ↔ r.contains i = true := by
  unfold identifiers contains
  simp only [List.mem_mergeSort, List.mem_map, List.any_eq_true, decide_eq_true_eq]

theorem identifiers_sorted (r : Registry) : r.identifiers.Pairwise (· < ·) := by
  have ordered : r.identifiers.Pairwise fun a b => decide (a ≤ b) = true :=
    @List.pairwise_mergeSort String (fun a b => a ≤ b)
      (fun a b c ab bc => decide_eq_true
        (String.le_trans (of_decide_eq_true ab) (of_decide_eq_true bc)))
      (fun a b => by simpa using String.le_total a b) _
  have apart : r.identifiers.Nodup := by
    rw [identifiers, (List.mergeSort_perm _ _).nodup_iff, entries_eq, List.map_reverse,
      List.nodup_reverse]
    exact r.listed_apart
  refine ordered.imp₂ (fun a b le ne => ?_) apart
  exact String.not_le.1 fun ge => ne (String.le_antisymm (of_decide_eq_true le) ge)

theorem contains_eq_isSome (r : Registry) (i : String) : r.contains i = (r.get? i).isSome := by
  rw [Bool.eq_iff_iff, contains_iff, Option.isSome_iff_exists]
  simp only [get?_eq_some_iff]

theorem require_eq_ok_iff : r.require i = .ok t ↔ r.get? i = some t := by
  unfold require
  cases r.get? i with
  | none => simp only [reduceCtorEq]
  | some t' => simp only [Except.ok.injEq, Option.some.injEq]

theorem convert_of_get? (found : r.get? i = some t) (s : Source) :
    r.convert i s = t.convert (r.prepare t s) := by
  rw [convert, require_eq_ok_iff.2 found]
  rfl

theorem require_of_not_contains (absent : r.contains i = false) :
    r.require i = .error (.unknownDataType i) := by
  rw [contains_eq_isSome, Option.isSome_eq_false_iff, Option.isNone_iff_eq_none] at absent
  rw [require, absent]

theorem identifiers_sublist {s : Settings} {more : List String} (grown : s.disabled ⊆ more) :
    List.Sublist (Registry.mk { s with disabled := more }).identifiers
      (Registry.mk s).identifiers := by
  refine List.sublist_of_subperm_of_pairwise (List.subperm_of_subset ?_ fun i mem => ?_)
    (identifiers_sorted _) (identifiers_sorted _)
  · exact (identifiers_sorted _).imp String.ne_of_lt
  · rw [mem_identifiers_iff, contains_iff] at mem ⊢
    obtain ⟨t, named⟩ := mem
    exact ⟨t, named.of_disabled grown⟩

end Registry

theorem registry_holds_what_its_settings_name (r : Registry) :
    (∀ i, r.contains i = true ↔ ∃ t, r.settings.Names i t) ∧
    (∀ i t, r.get? i = some t ↔ r.settings.Names i t) ∧
    (∀ i t, r.require i = .ok t ↔ r.settings.Names i t) ∧
    (∀ i, r.contains i = false →
      r.get? i = none ∧ r.require i = .error (.unknownDataType i)) ∧
    r.identifiers.Pairwise (· < ·) ∧
    (∀ i, i ∈ r.identifiers ↔ r.contains i = true) ∧
    r.size = r.identifiers.length ∧
    ∀ more, r.settings.disabled ⊆ more →
      List.Sublist (Registry.mk { r.settings with disabled := more }).identifiers
        r.identifiers := by
  refine ⟨fun _ => Registry.contains_iff, fun _ _ => Registry.get?_eq_some_iff, fun _ _ => ?_,
    fun i absent => ⟨?_, Registry.require_of_not_contains absent⟩, r.identifiers_sorted,
    fun _ => Registry.mem_identifiers_iff, ?_, fun _ grown => Registry.identifiers_sublist grown⟩
  · rw [Registry.require_eq_ok_iff, Registry.get?_eq_some_iff]
  · rw [Registry.contains_eq_isSome] at absent
    exact Option.isNone_iff_eq_none.1 (Option.isSome_eq_false_iff.1 absent)
  · rw [Registry.size, Registry.identifiers, List.length_mergeSort, List.length_map]

theorem disabled_duration_takes_its_former_identifiers :
    let former := "urn:oasis:names:tc:xacml:2.0:data-type:dayTimeDuration"
    let gone := ["urn:example:unknown", DataType.dayTimeDuration.identifier,
      DataType.dayTimeDuration.identifier]
    let more := DataType.string.identifier :: gone
    let r : Registry := ⟨{ disabled := gone }⟩
    r.contains former = false ∧ gone ⊆ more ∧
      r.require former = .error (.unknownDataType former) ∧
      List.Sublist (Registry.mk { disabled := more }).identifiers r.identifiers := by
  intro former gone more r
  have absent : r.contains former = false := by decide +kernel
  have grown : gone ⊆ more := List.subset_cons_self _ _
  obtain ⟨-, -, -, unknown, -, -, -, thinned⟩ := registry_holds_what_its_settings_name r
  exact ⟨absent, grown, (unknown former absent).2, thinned more grown⟩

end PolicyValues
