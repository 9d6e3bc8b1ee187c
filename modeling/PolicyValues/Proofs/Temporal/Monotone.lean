import PolicyValues.Proofs.Calendar.Order
import PolicyValues.Proofs.Temporal.Instants
import PolicyValues.Proofs.Temporal.Moves
import PolicyValues.Proofs.Temporal.Order

/-!
Moves keep the order of dates. Readings that show one time of day stay in step through the years and
months of a move, whichever days are cut; the rest shifts both clocks alike, and dropping the time
of day keeps what order is left. Instants in general have no such order to keep.
-/
namespace PolicyValues

def NotAfter {α : Type} (compare : α → α → Except ValueError Ordering) (a b : α) : Prop :=
  ∃ o, compare a b = .ok o ∧ o ≠ .gt

namespace LocalTime

theorem day_number_le {t u : LocalTime} (h : t.millis ≤ u.millis) :
    t.day.number ≤ u.day.number :=
  Int.ediv_le_ediv (by decide) h

structure InStep (t u : LocalTime) : Prop where
  time : t.timeOfDay = u.timeOfDay
  date : t.date.dayNumber ≤ u.date.dayNumber

namespace InStep
variable {t u t' u' : LocalTime}

theorem of_millis_le (time : t.timeOfDay = u.timeOfDay) (h : t.millis ≤ u.millis) :
    InStep t u where
  time := time
  date := by
    have days := day_number_le h
    rwa [t.day.number_eq_dayNumber, u.day.number_eq_dayNumber] at days

theorem millis_le (h : InStep t u) : t.millis ≤ u.millis := by
  have days := h.date
  rw [t.millis_eq, u.millis_eq, h.time, t.day.number_eq_dayNumber, u.day.number_eq_dayNumber]
  unfold LocalTime.date millisPerDay at *
  omega

theorem addMonths? (h : InStep t u) {months : Int} (ht : t.addMonths? months = some t')
    (hu : u.addMonths? months = some u') : InStep t' u' := by
  obtain ⟨date, time⟩ := onDate?_eq_some_iff.1 ht
  obtain ⟨date', time'⟩ := onDate?_eq_some_iff.1 hu
  constructor
  · rw [time, time', h.time]
  · rw [date, date']
    exact CivilDate.dayNumber_addMonths_le t.date_valid u.date_valid h.date months

end InStep

end LocalTime

namespace DateTime
open LocalTime

theorem inStep_stepMonths {u : Duration} {sign : Int} {s t s' t' : LocalTime} (h : InStep s t)
    (hs : stepMonths u sign s = .ok s') (ht : stepMonths u sign t = .ok t') : InStep s' t' := by
  obtain ⟨inYear, years, months⟩ := exists_of_stepMonths hs
  obtain ⟨inYear', years', months'⟩ := exists_of_stepMonths ht
  have through : InStep inYear inYear' := h.addMonths? years years'
  exact through.addMonths? months months'

theorem move_millis_le {u : Duration} {sign : Int} (unit : sign = 1 ∨ sign = -1)
    {d e d' e' : DateTime} (h : InStep d.wall e.wall) (hd : d.move u sign = .ok d')
    (he : e.move u sign = .ok e') : d'.wall.millis ≤ e'.wall.millis := by
  obtain ⟨stepped, steps, millis, _⟩ := (move_eq_ok_iff unit).1 hd
  obtain ⟨stepped', steps', millis', _⟩ := (move_eq_ok_iff unit).1 he
  rw [millis, millis']
  exact Int.add_le_add_right (inStep_stepMonths h steps steps').millis_le _

theorem compare_of_sameZone {d e : DateTime} (zone : d.zone = e.zone) :
    d.compare e = .ok (Ord.compare d.wall.millis e.wall.millis) := by
  have apart : d.epochMillis - e.epochMillis = d.wall.millis - e.wall.millis := by
    rw [d.epochMillis_eq, e.epochMillis_eq, zone]
    omega
  rw [compare_of_decided (.inl (congrArg Option.isSome zone)), compare_eq_of_sub_eq apart]

theorem notAfter_iff_of_sameZone {d e : DateTime} (zone : d.zone = e.zone) :
    NotAfter DateTime.compare d e ↔ d.wall.millis ≤ e.wall.millis := by
  rw [NotAfter, compare_of_sameZone zone, ← Int.compare_ne_gt]
  simp only [Except.ok.injEq, exists_eq_left']

end DateTime

namespace Date
open DateTime

theorem move_notAfter {a b a' b' : Date} (zone : a.zone = b.zone) (h : NotAfter compare a b)
    {u : Duration} {sign : Int} (unit : sign = 1 ∨ sign = -1)
    (ha : (a.toDateTime.move u sign).map ofDateTime = .ok a')
    (hb : (b.toDateTime.move u sign).map ofDateTime = .ok b') : NotAfter compare a' b' := by
  obtain ⟨d, moved, rfl⟩ := map_eq_ok_iff.1 ha
  obtain ⟨e, moved', rfl⟩ := map_eq_ok_iff.1 hb
  have inStep : LocalTime.InStep a.wall b.wall :=
    .of_millis_le (a.midnight.trans b.midnight.symm) ((notAfter_iff_of_sameZone zone).1 h)
  have days := LocalTime.day_number_le (move_millis_le unit inStep moved moved')
  obtain ⟨_, _, _, kept⟩ := (move_eq_ok_iff unit).1 moved
  obtain ⟨_, _, _, kept'⟩ := (move_eq_ok_iff unit).1 moved'
  have zone' : (ofDateTime d).zone = (ofDateTime e).zone := kept.trans (zone.trans kept'.symm)
  refine (notAfter_iff_of_sameZone zone').2 ?_
  exact Int.add_le_add_right (Int.mul_le_mul_of_nonneg_right days (by decide)) _

/-- Of two dates of one zone, or both without, the one that is not after the other is not after it
either once a duration of whichever components and sign is added to both or subtracted from both. -/
theorem add_and_sub_keep_order (a b : Date) (zone : a.zone = b.zone)
    (notAfter : NotAfter Date.compare a b) (u : Duration) :
    (∀ a' b' : Date, a.add u = .ok a' → b.add u = .ok b' → NotAfter Date.compare a' b') ∧
    ∀ a' b' : Date, a.sub u = .ok a' → b.sub u = .ok b' → NotAfter Date.compare a' b' :=
  ⟨fun _ _ => move_notAfter zone notAfter u.sign_eq,
    fun _ _ => move_notAfter zone notAfter u.neg_sign_eq⟩

theorem january_days_keep_order :
    let on (day : Day) : Date := .ofDateTime ⟨.ofDay day .midnight, some .utc⟩
    let a := on ⟨15369, by decide, by decide⟩
    let b := on ⟨15370, by decide, by decide⟩
    let later := on ⟨15400, by decide, by decide⟩
    let a' := on ⟨15336, by decide, by decide⟩
    let b' := on ⟨15337, by decide, by decide⟩
    let u : Duration := .signed false { months := 1, days := 1, hours := 12 }
    (a.text = "2012-01-30Z" ∧ b.text = "2012-01-31Z" ∧ later.text = "2012-03-01Z" ∧
        a'.text = "2011-12-28Z" ∧ b'.text = "2011-12-29Z" ∧ u.text = "P1M1DT12H") ∧
      (a.zone = b.zone ∧ NotAfter Date.compare a b) ∧
      (a.add u = .ok later ∧ b.add u = .ok later ∧ NotAfter Date.compare later later) ∧
      (a.sub u = .ok a' ∧ b.sub u = .ok b' ∧ NotAfter Date.compare a' b') := by
  intro on a b later a' b' u
  have order : NotAfter Date.compare a b := ⟨.lt, by decide +kernel, by decide⟩
  have added : a.add u = .ok later ∧ b.add u = .ok later := by decide +kernel
  have subtracted : a.sub u = .ok a' ∧ b.sub u = .ok b' := by decide +kernel
  obtain ⟨forth, back⟩ := add_and_sub_keep_order a b rfl order u
  refine ⟨by decide +kernel, ⟨rfl, order⟩, ?_, ?_⟩
  · exact ⟨added.1, added.2, forth later later added.1 added.2⟩
  · exact ⟨subtracted.1, subtracted.2, back a' b' subtracted.1 subtracted.2⟩

end Date

example :
    let d : DateTime := ⟨⟨1327964400000, by decide, by decide⟩, none⟩
    let e : DateTime := ⟨⟨1327971600000, by decide, by decide⟩, none⟩
    let d' : DateTime := ⟨⟨1330556400000, by decide, by decide⟩, none⟩
    let e' : DateTime := ⟨⟨1330477200000, by decide, by decide⟩, none⟩
    let month : Duration := .signed false { months := 1 }
    d.compare e = .ok .lt ∧ d.add month = .ok d' ∧ e.add month = .ok e' ∧
      d'.compare e' = .ok .gt := by
  decide +kernel

end PolicyValues
