import PolicyValues.Proofs.Text.Digits
import PolicyValues.Toml.Path
import PolicyValues.Toml.Reader

/-!
Keys are distinct in every table of a document that was read. Drafts keep theirs so while they are
written: a key is added only when it is not there.
-/
namespace PolicyValues.Toml

inductive Distinct : Toml → Prop
  | intro {item : Toml} (keys : (item.members.map (·.1)).Nodup)
      (inner : ∀ m ∈ item.members, Distinct m.2) (parts : ∀ i ∈ item.items, Distinct i) :
      Distinct item

theorem Distinct.keys {item : Toml} : item.Distinct → (item.members.map (·.1)).Nodup
  | intro keys _ _ => keys

theorem Distinct.inner {item : Toml} : item.Distinct → ∀ m ∈ item.members, m.2.Distinct
  | intro _ inner _ => inner

def IsLeaf (item : Toml) : Prop := item.members = [] ∧ item.items = []

theorem IsLeaf.distinct {item : Toml} (leaf : item.IsLeaf) : item.Distinct := by
  refine .intro ?_ ?_ ?_
  · rw [leaf.1]
    exact List.nodup_nil
  · rw [leaf.1]
    exact List.forall_mem_nil _
  · rw [leaf.2]
    exact List.forall_mem_nil _

theorem Distinct.array {items : List Toml} (parts : ∀ i ∈ items, i.Distinct) :
    (Toml.array items).Distinct :=
  .intro List.nodup_nil (List.forall_mem_nil _) parts

namespace Draft

inductive Distinct : Draft → Prop
  | closed {item : Toml} (inner : item.Distinct) : Distinct (closed item)
  | table {origin : TableOrigin} {members : Members} (keys : (members.map (·.1)).Nodup)
      (inner : ∀ m ∈ members, Distinct m.2) : Distinct (table origin members)
  | tables {done : List Draft} {last : Members} (finished : ∀ d ∈ done, Distinct d)
      (keys : (last.map (·.1)).Nodup) (inner : ∀ m ∈ last, Distinct m.2) :
      Distinct (tables done last)

structure DistinctMembers (members : Members) : Prop where
  keys : (members.map (·.1)).Nodup
  inner : ∀ m ∈ members, m.2.Distinct

theorem DistinctMembers.nil : DistinctMembers [] :=
  ⟨List.nodup_nil, List.forall_mem_nil _⟩

theorem DistinctMembers.table {members : Members} (h : DistinctMembers members)
    (origin : TableOrigin) : (table origin members).Distinct := .table h.keys h.inner

theorem DistinctMembers.tables {done : List Draft} {last : Members} (h : DistinctMembers last)
    (finished : ∀ d ∈ done, d.Distinct) : (tables done last).Distinct :=
  .tables finished h.keys h.inner

theorem Distinct.members {origin : TableOrigin} {members : Members} :
    (Draft.table origin members).Distinct → DistinctMembers members
  | .table keys inner => ⟨keys, inner⟩

theorem Distinct.last {done : List Draft} {last : Members} :
    (Draft.tables done last).Distinct → DistinctMembers last
  | .tables _ keys inner => ⟨keys, inner⟩

theorem Distinct.done {done : List Draft} {last : Members} :
    (Draft.tables done last).Distinct → ∀ d ∈ done, d.Distinct
  | .tables finished _ _ => finished

section Alter

variable {key : String} {f : Option Draft → Option Draft} {members altered : Members}

theorem keys_alter? (h : alter? key f members = some altered) :
    altered.map (·.1) = members.map (·.1) ∨
      key ∉ members.map (·.1) ∧ altered.map (·.1) = members.map (·.1) ++ [key] := by
  induction members generalizing altered with
  | nil =>
    obtain ⟨d, -, rfl⟩ := Option.map_eq_some_iff.1 h
    exact .inr ⟨List.not_mem_nil, rfl⟩
  | cons m rest ih =>
    obtain ⟨k, d⟩ := m
    unfold alter? at h
    split at h
    · obtain ⟨d', -, rfl⟩ := Option.map_eq_some_iff.1 h
      exact .inl rfl
    · rename_i other
      obtain ⟨rest', more, rfl⟩ := Option.map_eq_some_iff.1 h
      simp only [List.map_cons, List.mem_cons, not_or, List.cons_append, List.cons.injEq, true_and]
      rcases ih more with same | ⟨new, added⟩
      · exact .inl same
      · exact .inr ⟨⟨fun same => other same.symm, new⟩, added⟩

theorem mem_alter? (h : alter? key f members = some altered) {m : String × Draft}
    (mem : m ∈ altered) :
    m ∈ members ∨ ∃ old, (∀ d ∈ old, (key, d) ∈ members) ∧ f old = some m.2 := by
  induction members generalizing altered with
  | nil =>
    obtain ⟨d, made, rfl⟩ := Option.map_eq_some_iff.1 h
    obtain rfl := List.mem_singleton.1 mem
    exact .inr ⟨none, by simp, made⟩
  | cons m' rest ih =>
    obtain ⟨k, d⟩ := m'
    unfold alter? at h
    split at h
    · rename_i same
      obtain ⟨d', made, rfl⟩ := Option.map_eq_some_iff.1 h
      rcases List.mem_cons.1 mem with rfl | mem
      · refine .inr ⟨some d, fun e he => ?_, made⟩
        rw [← Option.some.inj he, same]
        exact List.mem_cons_self
      · exact .inl (List.mem_cons_of_mem _ mem)
    · obtain ⟨rest', more, rfl⟩ := Option.map_eq_some_iff.1 h
      rcases List.mem_cons.1 mem with rfl | mem
      · exact .inl List.mem_cons_self
      · rcases ih more mem with old | ⟨old, there, made⟩
        · exact .inl (List.mem_cons_of_mem _ old)
        · exact .inr ⟨old, fun d hd => List.mem_cons_of_mem _ (there d hd), made⟩

theorem DistinctMembers.alter? (h : DistinctMembers members)
    (kept : ∀ old d, (∀ o ∈ old, o.Distinct) → f old = some d → d.Distinct)
    (made : alter? key f members = some altered) : DistinctMembers altered := by
  constructor
  · rcases keys_alter? made with same | ⟨new, added⟩
    · exact same ▸ h.keys
    · have single : [key].Nodup := List.nodup_cons.2 ⟨List.not_mem_nil, List.nodup_nil⟩
      have apart : ∀ k ∈ members.map (·.1), ∀ k' ∈ [key], k ≠ k' := fun k known k' mem same =>
        new (List.mem_singleton.1 mem ▸ same ▸ known)
      rw [added]
      exact List.nodup_append.2 ⟨h.keys, single, apart⟩
  · intro m mem
    rcases mem_alter? made mem with old | ⟨old, there, made⟩
    · exact h.inner m old
    · exact kept old m.2 (fun o ho => h.inner _ (there o ho)) made

end Alter

theorem DistinctMembers.within? {path : List String} {f : Members → Option Members}
    (kept : ∀ members written, DistinctMembers members → f members = some written →
      DistinctMembers written) :
    ∀ {members written : Members}, DistinctMembers members →
      within? path f members = some written → DistinctMembers written := by
  induction path with
  | nil => exact fun h made => kept _ _ h made
  | cons key path ih =>
    intro members written h made
    refine h.alter? (fun old d whole made => ?_) made
    split at made
    · obtain ⟨inner, inside, rfl⟩ := Option.map_eq_some_iff.1 made
      exact (ih .nil inside).table .implied
    · obtain ⟨inner, inside, rfl⟩ := Option.map_eq_some_iff.1 made
      exact (ih (whole _ rfl).members inside).table _
    · obtain ⟨last, inside, rfl⟩ := Option.map_eq_some_iff.1 made
      exact (ih (whole _ rfl).last inside).tables (whole _ rfl).done
    · cases made

theorem DistinctMembers.openTable? {path : List String} {members opened : Members}
    (h : DistinctMembers members) (made : openTable? path members = some opened) :
    DistinctMembers opened := by
  obtain ⟨key, -, made⟩ := Option.bind_eq_some_iff.1 made
  refine h.within? (fun members written h made => h.alter? (fun old d whole made => ?_) made) made
  split at made
  · exact Option.some.inj made ▸ DistinctMembers.nil.table .header
  · exact Option.some.inj made ▸ (whole _ rfl).members.table .header
  · cases made

theorem DistinctMembers.openNext? {path : List String} {members opened : Members}
    (h : DistinctMembers members) (made : openNext? path members = some opened) :
    DistinctMembers opened := by
  obtain ⟨key, -, made⟩ := Option.bind_eq_some_iff.1 made
  refine h.within? (fun members written h made => h.alter? (fun old d whole made => ?_) made) made
  split at made
  · rw [← Option.some.inj made]
    exact DistinctMembers.nil.tables (List.forall_mem_nil _)
  · rw [← Option.some.inj made]
    refine DistinctMembers.nil.tables fun d mem => ?_
    rcases List.mem_append.1 mem with earlier | single
    · exact (whole _ rfl).done d earlier
    · rw [List.mem_singleton.1 single]
      exact (whole _ rfl).last.table .header
  · cases made

theorem DistinctMembers.put? {dialect : Dialect} {item : Toml} (whole : item.Distinct)
    {path : List String} :
    ∀ {members written : Members}, DistinctMembers members →
      put? dialect item path members = some written → DistinctMembers written := by
  induction path with
  | nil =>
    intro members written _ made
    simp only [Draft.put?, reduceCtorEq] at made
  | cons key path ih =>
    intro members written h made
    cases path with
    | nil =>
      refine h.alter? (fun old d _ made => ?_) made
      split at made
      · exact Option.some.inj made ▸ .closed whole
      · cases made
    | cons next path =>
      refine h.alter? (fun old d whole made => ?_) made
      split at made
      · obtain ⟨inner, inside, rfl⟩ := Option.map_eq_some_iff.1 made
        exact (ih .nil inside).table .dotted
      · obtain ⟨inner, inside, rfl⟩ := Option.map_eq_some_iff.1 made
        exact (ih (whole _ rfl).members inside).table .dotted
      · split at made
        · cases made
        · obtain ⟨inner, inside, rfl⟩ := Option.map_eq_some_iff.1 made
          exact (ih (whole _ rfl).members inside).table .implied
      · split at made
        · cases made
        · obtain ⟨last, inside, rfl⟩ := Option.map_eq_some_iff.1 made
          exact (ih (whole _ rfl).last inside).tables (whole _ rfl).done
      · cases made

theorem keys_finishMembers (members : Members) :
    (finishMembers members).map (·.1) = members.map (·.1) := by
  induction members with
  | nil => rfl
  | cons m rest ih =>
    obtain ⟨key, d⟩ := m
    rw [finishMembers, List.map_cons, List.map_cons, ih]

theorem mem_finishMembers {members : Members} {m : String × Toml}
    (mem : m ∈ finishMembers members) : ∃ d, (m.1, d) ∈ members ∧ m.2 = d.finish := by
  induction members with
  | nil => exact absurd mem List.not_mem_nil
  | cons m' rest ih =>
    obtain ⟨key, d⟩ := m'
    rw [finishMembers] at mem
    rcases List.mem_cons.1 mem with rfl | mem
    · exact ⟨d, List.mem_cons_self, rfl⟩
    · obtain ⟨d', there, same⟩ := ih mem
      exact ⟨d', List.mem_cons_of_mem _ there, same⟩

theorem mem_finishAll {done : List Draft} {item : Toml} (mem : item ∈ finishAll done) :
    ∃ d ∈ done, item = d.finish := by
  induction done with
  | nil => exact absurd mem List.not_mem_nil
  | cons d rest ih =>
    rw [finishAll] at mem
    rcases List.mem_cons.1 mem with rfl | mem
    · exact ⟨d, List.mem_cons_self, rfl⟩
    · obtain ⟨d', there, same⟩ := ih mem
      exact ⟨d', List.mem_cons_of_mem _ there, same⟩

theorem distinct_finished {members : Members} (keys : (members.map (·.1)).Nodup)
    (inner : ∀ m ∈ members, m.2.finish.Distinct) :
    (Toml.table (finishMembers members)).Distinct := by
  refine .intro ?_ (fun m mem => ?_) (List.forall_mem_nil _)
  · change ((finishMembers members).map (·.1)).Nodup
    rw [keys_finishMembers]
    exact keys
  · obtain ⟨d, there, same⟩ := mem_finishMembers mem
    exact same ▸ inner _ there

theorem Distinct.finish {d : Draft} (h : d.Distinct) : d.finish.Distinct := by
  induction h with
  | closed whole => exact whole
  | table keys inner ih => exact distinct_finished keys ih
  | tables finished keys inner ihDone ihLast =>
    rw [Draft.finish]
    refine .array fun item mem => ?_
    rcases List.mem_append.1 mem with earlier | single
    · obtain ⟨d, there, same⟩ := mem_finishAll earlier
      exact same ▸ ihDone d there
    · exact List.mem_singleton.1 single ▸ distinct_finished keys ihLast

theorem DistinctMembers.finish {members : Members} (h : DistinctMembers members) :
    (Toml.table (finishMembers members)).Distinct :=
  distinct_finished h.keys fun m mem => (h.inner m mem).finish

end Draft

section Leaves

variable {item : Toml}

theorem isLeaf_wholeNumber? {n : Int} (h : wholeNumber? n = some item) : item.IsLeaf := by
  unfold wholeNumber? at h
  split at h
  · exact Option.some.inj h ▸ ⟨rfl, rfl⟩
  · cases h

theorem isLeaf_decimal? {negative : Bool} {cs : List Char} (h : decimal? negative cs = some item) :
    item.IsLeaf := by
  obtain ⟨whole, -, h⟩ := Option.bind_eq_some_iff.1 h
  split at h
  · exact isLeaf_wholeNumber? h
  -- The fraction and the power of ten may each be left out.
  · dsimp only at h
    split at h
    all_goals
      obtain ⟨fraction, -, h⟩ := Option.bind_eq_some_iff.1 h
      split at h
      all_goals
        obtain ⟨power, -, h⟩ := Option.bind_eq_some_iff.1 h
        split at h
        · cases h
        · exact Option.some.inj h ▸ ⟨rfl, rfl⟩

theorem isLeaf_number? {cs : List Char} (h : number? cs = some item) : item.IsLeaf := by
  unfold number? at h
  split at h
  · obtain ⟨n, -, h⟩ := Option.bind_eq_some_iff.1 h
    exact isLeaf_wholeNumber? h
  · obtain ⟨n, -, h⟩ := Option.bind_eq_some_iff.1 h
    exact isLeaf_wholeNumber? h
  · obtain ⟨n, -, h⟩ := Option.bind_eq_some_iff.1 h
    exact isLeaf_wholeNumber? h
  · dsimp only at h
    split at h
    · exact Option.some.inj h ▸ ⟨rfl, rfl⟩
    · split at h
      · exact Option.some.inj h ▸ ⟨rfl, rfl⟩
      · exact isLeaf_decimal? h

theorem isLeaf_readScalar? {cs rest : List Char} (h : readScalar? cs = some (item, rest)) :
    item.IsLeaf := by
  obtain ⟨read, scalar, same⟩ := Option.map_eq_some_iff.1 h
  obtain ⟨rfl, -⟩ := Prod.mk.inj same
  unfold scalar? at scalar
  split at scalar
  · exact Option.some.inj scalar ▸ ⟨rfl, rfl⟩
  · split at scalar
    · exact Option.some.inj scalar ▸ ⟨rfl, rfl⟩
    · split at scalar
      · rename_i date
        obtain ⟨text, -, rfl⟩ := Option.map_eq_some_iff.1 date
        exact Option.some.inj scalar ▸ ⟨rfl, rfl⟩
      · exact isLeaf_number? scalar

end Leaves

theorem distinct_read (steps : Nat) :
    (∀ depth cs item rest, readItem? steps depth cs = some (item, rest) → item.Distinct) ∧
    (∀ depth cs items rest, readItems? steps depth cs = some (items, rest) →
      ∀ i ∈ items, i.Distinct) ∧
    ∀ depth members cs written rest, Draft.DistinctMembers members →
      readInline? steps depth members cs = some (written, rest) →
        Draft.DistinctMembers written := by
  induction steps with
  | zero =>
    refine ⟨fun _ _ _ _ h => ?_, fun _ _ _ _ h => ?_, fun _ _ _ _ _ _ h => ?_⟩
    · simp only [readItem?, reduceCtorEq] at h
    · simp only [readItems?, reduceCtorEq] at h
    · simp only [readInline?, reduceCtorEq] at h
  | succ steps ih =>
    obtain ⟨ihItem, ihItems, ihInline⟩ := ih
    refine ⟨fun depth cs item rest h => ?_, fun depth cs items rest h => ?_,
      fun depth members cs written rest whole h => ?_⟩
    · unfold readItem? at h
      split at h
      · obtain ⟨_, -, same⟩ := Option.map_eq_some_iff.1 h
        exact (Prod.mk.inj same).1 ▸ IsLeaf.distinct ⟨rfl, rfl⟩
      · obtain ⟨_, -, same⟩ := Option.map_eq_some_iff.1 h
        exact (Prod.mk.inj same).1 ▸ IsLeaf.distinct ⟨rfl, rfl⟩
      · cases h
      · obtain ⟨⟨items, rest'⟩, read, same⟩ := Option.map_eq_some_iff.1 h
        exact (Prod.mk.inj same).1 ▸ .array (ihItems _ _ _ _ read)
      · cases h
      · obtain ⟨⟨members, rest'⟩, read, same⟩ := Option.map_eq_some_iff.1 h
        exact (Prod.mk.inj same).1 ▸ (ihInline _ _ _ _ _ .nil read).finish
      · exact (isLeaf_readScalar? h).distinct
    · rw [readItems?] at h
      split at h
      · obtain ⟨rfl, -⟩ := Prod.mk.inj (Option.some.inj h)
        exact List.forall_mem_nil _
      · obtain ⟨⟨item, cs'⟩, first, h⟩ := Option.bind_eq_some_iff.1 h
        have whole := ihItem _ _ _ _ first
        simp only at h
        split at h
        · obtain ⟨⟨items', rest'⟩, more, h⟩ := Option.bind_eq_some_iff.1 h
          obtain ⟨rfl, -⟩ := Prod.mk.inj (Option.some.inj h)
          exact List.forall_mem_cons.2 ⟨whole, ihItems _ _ _ _ more⟩
        · obtain ⟨rfl, -⟩ := Prod.mk.inj (Option.some.inj h)
          exact fun i mem => List.mem_singleton.1 mem ▸ whole
        · cases h
    · rw [readInline?] at h
      split at h
      · obtain ⟨rfl, -⟩ := Prod.mk.inj (Option.some.inj h)
        exact whole
      · obtain ⟨⟨path, cs₁⟩, -, h⟩ := Option.bind_eq_some_iff.1 h
        obtain ⟨cs₂, -, h⟩ := Option.bind_eq_some_iff.1 h
        obtain ⟨⟨item, cs₃⟩, read, h⟩ := Option.bind_eq_some_iff.1 h
        obtain ⟨put, made, h⟩ := Option.bind_eq_some_iff.1 h
        have whole := whole.put? (ihItem _ _ _ _ read) made
        split at h
        · exact ihInline _ _ _ _ _ whole h
        · obtain ⟨rfl, -⟩ := Prod.mk.inj (Option.some.inj h)
          exact whole
        · cases h

theorem distinct_readMember? {d : Dialect} {header : List String} {members written : Draft.Members}
    {cs rest : List Char} (whole : Draft.DistinctMembers members)
    (h : readMember? d header members cs = some (written, rest)) :
    Draft.DistinctMembers written := by
  obtain ⟨⟨path, cs₁⟩, -, h⟩ := Option.bind_eq_some_iff.1 h
  obtain ⟨cs₂, -, h⟩ := Option.bind_eq_some_iff.1 h
  obtain ⟨⟨item, cs₃⟩, read, h⟩ := Option.bind_eq_some_iff.1 h
  obtain ⟨put, made, h⟩ := Option.bind_eq_some_iff.1 h
  obtain ⟨rfl, -⟩ := Prod.mk.inj (Option.some.inj h)
  have inner : item.Distinct := (distinct_read _).1 _ _ _ _ read
  exact whole.within? (fun _ _ whole put => whole.put? inner put) made

theorem distinct_readLines? {d : Dialect} {steps : Nat} :
    ∀ {header : List String} {members written : Draft.Members} {cs : List Char},
      Draft.DistinctMembers members → readLines? d steps header members cs = some written →
        Draft.DistinctMembers written := by
  induction steps with
  | zero =>
    intro header members written cs _ h
    simp only [readLines?, reduceCtorEq] at h
  | succ steps ih =>
    intro header members written cs whole h
    rw [readLines?] at h
    split at h
    · exact Option.some.inj h ▸ whole
    · obtain ⟨⟨path, cs₁⟩, -, h⟩ := Option.bind_eq_some_iff.1 h
      obtain ⟨opened, made, h⟩ := Option.bind_eq_some_iff.1 h
      obtain ⟨cs₂, -, h⟩ := Option.bind_eq_some_iff.1 h
      exact ih (whole.openNext? made) h
    · obtain ⟨⟨path, cs₁⟩, -, h⟩ := Option.bind_eq_some_iff.1 h
      obtain ⟨opened, made, h⟩ := Option.bind_eq_some_iff.1 h
      obtain ⟨cs₂, -, h⟩ := Option.bind_eq_some_iff.1 h
      exact ih (whole.openTable? made) h
    · obtain ⟨⟨put, cs₁⟩, made, h⟩ := Option.bind_eq_some_iff.1 h
      obtain ⟨cs₂, -, h⟩ := Option.bind_eq_some_iff.1 h
      exact ih (distinct_readMember? whole made) h

theorem distinct_of_parse? {d : Dialect} {text : String} {document : Table}
    (h : parse? d text = some document) : (Toml.table document).Distinct := by
  obtain ⟨members, read, rfl⟩ := Option.map_eq_some_iff.1 h
  exact (distinct_readLines? .nil read).finish

end PolicyValues.Toml
