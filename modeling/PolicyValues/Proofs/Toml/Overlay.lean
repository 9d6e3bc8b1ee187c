import PolicyValues.Toml.Overlay

/-!
Tables read by key. Laying one table over another shows at a key what the upper table has there,
merged into what is below, and else what is below; writing a table plainly acts on each member
alone.
-/
namespace PolicyValues.Toml

theorem lookup_cons (key k : String) (item : Toml) (rest : Table) :
    List.lookup key ((k, item) :: rest) = if key = k then some item else rest.lookup key := by
  by_cases same : key = k
  · simp only [same, List.lookup_cons_self, if_true]
  · simp only [List.lookup_cons, beq_eq_false_iff_ne.2 same, same, if_false]

theorem lookup_eq_none {key : String} {members : Table} (absent : key ∉ members.map (·.1)) :
    members.lookup key = none := by
  induction members with
  | nil => rfl
  | cons m rest ih =>
    obtain ⟨k, item⟩ := m
    simp only [List.map_cons, List.mem_cons, not_or] at absent
    rw [lookup_cons, if_neg absent.1, ih absent.2]

theorem mem_of_lookup {key : String} {item : Toml} {members : Table}
    (found : members.lookup key = some item) : (key, item) ∈ members := by
  induction members with
  | nil => simp only [List.lookup_nil, reduceCtorEq] at found
  | cons m rest ih =>
    obtain ⟨k, other⟩ := m
    rw [lookup_cons] at found
    split at found
    · rename_i same
      rw [same, Option.some.inj found]
      exact List.mem_cons_self
    · exact List.mem_cons_of_mem _ (ih found)

theorem lookup_of_mem {key : String} {item : Toml} {members : Table}
    (distinct : (members.map (·.1)).Nodup) (mem : (key, item) ∈ members) :
    members.lookup key = some item := by
  induction members with
  | nil => exact absurd mem List.not_mem_nil
  | cons m rest ih =>
    obtain ⟨k, other⟩ := m
    obtain ⟨new, distinct⟩ := List.nodup_cons.1 distinct
    rw [lookup_cons]
    rcases List.mem_cons.1 mem with same | mem
    · obtain ⟨rfl, rfl⟩ := Prod.mk.inj same
      exact if_pos rfl
    · have apart : key ≠ k := fun same => new (same ▸ List.mem_map.2 ⟨_, mem, rfl⟩)
      rw [if_neg apart, ih distinct mem]

theorem lookup_update (key other : String) (f : Toml → Toml) (members : Table) :
    (update key f members).lookup other =
      if other = key then some (f ((members.lookup key).getD (.table [])))
      else members.lookup other := by
  induction members with
  | nil => simp only [update, lookup_cons, List.lookup_nil, Option.getD_none]
  | cons m rest ih =>
    obtain ⟨k, item⟩ := m
    unfold update
    by_cases here : k = key
    · subst here
      simp only [if_true, lookup_cons, Option.getD_some]
      by_cases same : other = k
      · simp only [same, if_true]
      · simp only [same, if_false]
    · have later : key ≠ k := fun same => here same.symm
      simp only [here, later, if_false, lookup_cons, ih]
      by_cases same : other = k
      · have apart : other ≠ key := fun h => here (same.symm.trans h)
        simp only [same, here, if_true, if_false]
      · simp only [same, if_false]

theorem lookup_overlayMembers {upper : Table} (distinct : (upper.map (·.1)).Nodup) (lower : Table)
    (key : String) :
    (overlayMembers upper lower).lookup key =
      ((upper.lookup key).map fun item =>
        item.overlay ((lower.lookup key).getD (.table []))).or (lower.lookup key) := by
  induction upper generalizing lower with
  | nil => rfl
  | cons m rest ih =>
    obtain ⟨k, item⟩ := m
    obtain ⟨new, distinct⟩ := List.nodup_cons.1 distinct
    rw [overlayMembers, ih distinct, lookup_update, lookup_cons]
    by_cases same : key = k
    · subst same
      simp only [lookup_eq_none new, if_true, Option.map_none, Option.map_some, Option.none_or,
        Option.some_or]
    · simp only [same, if_false]

theorem layerOver_eq_overlayMembers {layer : Table}
    (own : ∀ m ∈ layer, (path? m.1).getD [.member m.1] = [.member m.1]) (lower : Table) :
    layerOver layer lower = overlayMembers layer lower := by
  unfold layerOver
  induction layer generalizing lower with
  | nil => rfl
  | cons m rest ih =>
    obtain ⟨key, item⟩ := m
    have here : (path? key).getD [.member key] = [.member key] := own _ List.mem_cons_self
    rw [List.foldl_cons, ih fun m mem => own m (List.mem_cons_of_mem _ mem)]
    simp only [here, along, members, overlayMembers]

theorem plainMembers?_cons (key : String) (item : Toml) (rest : Table) :
    plainMembers? ((key, item) :: rest) =
      (plain? item).bind fun item => (plainMembers? rest).map ((key, item) :: ·) := by
  rw [plainMembers?]
  cases plain? item with
  | none => rfl
  | some item => cases plainMembers? rest <;> rfl

theorem isSome_plainMembers? {members : Table}
    (each : ∀ m ∈ members, (plain? m.2).isSome = true) :
    (plainMembers? members).isSome = true := by
  induction members with
  | nil => rfl
  | cons m rest ih =>
    obtain ⟨key, item⟩ := m
    obtain ⟨item, first⟩ := Option.isSome_iff_exists.1 (each _ List.mem_cons_self)
    obtain ⟨rest, others⟩ := Option.isSome_iff_exists.1
      (ih fun m mem => each m (List.mem_cons_of_mem _ mem))
    rw [plainMembers?_cons, first, others]
    rfl

theorem keys_plainMembers? {members plain : Table} (h : plainMembers? members = some plain) :
    plain.map (·.1) = members.map (·.1) := by
  induction members generalizing plain with
  | nil =>
    obtain rfl := Option.some.inj h
    rfl
  | cons m rest ih =>
    obtain ⟨key, item⟩ := m
    rw [plainMembers?_cons] at h
    obtain ⟨item, -, h⟩ := Option.bind_eq_some_iff.1 h
    obtain ⟨others, read, rfl⟩ := Option.map_eq_some_iff.1 h
    rw [List.map_cons, List.map_cons, ih read]

theorem lookup_plainMembers? {members plain : Table} (h : plainMembers? members = some plain)
    (key : String) : plain.lookup key = (members.lookup key).bind plain? := by
  induction members generalizing plain with
  | nil =>
    obtain rfl := Option.some.inj h
    rfl
  | cons m rest ih =>
    obtain ⟨k, item⟩ := m
    rw [plainMembers?_cons] at h
    obtain ⟨item', first, h⟩ := Option.bind_eq_some_iff.1 h
    obtain ⟨others, read, rfl⟩ := Option.map_eq_some_iff.1 h
    rw [lookup_cons, lookup_cons, ih read]
    by_cases same : key = k
    · simp only [same, if_true, Option.bind_some, first]
    · simp only [same, if_false]

end PolicyValues.Toml
