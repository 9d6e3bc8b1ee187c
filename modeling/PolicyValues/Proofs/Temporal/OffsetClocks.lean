import PolicyValues.Proofs.Temporal.Instants
import PolicyValues.Proofs.Temporal.Shift

/-!
Clocks at a fixed offset of whole seconds. A date-time keeps the reading of such a clock and the
whole minutes of its offset, so it stands for the instant of the clock where the offset has no
seconds besides, and for one less than a minute away where it has.
-/
namespace PolicyValues

theorem OffsetInstant.of_ofPrecise? {reading : PreciseTime} {offset : ℤ} {clock : OffsetInstant}
    (h : ofPrecise? reading offset = some clock) :
    clock.offset = offset ∧ clock.wall.millis = reading.nanos / nanosPerMilli + 1000 * offset := by
  unfold ofPrecise? of? at h
  split at h
  · obtain rfl := Option.some.inj h
    exact ⟨rfl, rfl⟩
  · simp only [reduceCtorEq] at h

theorem Zone.exists_canonicalize?_of_seconds {offset : ℤ} (low : -86400 < offset)
    (high : offset < 86400) :
    ∃ zone : Zone, canonicalize? (offset.tdiv 60) = some (zone, -daysAhead (offset.tdiv 60)) := by
  have cut := Int.tmod_add_mul_tdiv offset 60
  have behind := Int.lt_tmod_of_pos offset (b := 60) (by decide)
  have ahead := Int.tmod_lt_of_pos offset (b := 60) (by decide)
  refine ⟨⟨offset.tdiv 60 - 1440 * daysAhead (offset.tdiv 60), ?_, ?_⟩,
    canonicalize?_eq_some_iff.2 ⟨⟨by omega, by omega⟩, rfl, rfl⟩⟩ <;>
  · unfold daysAhead
    omega

namespace DateTime

section
variable {clock : OffsetInstant} {zone : Zone} {days : ℤ}
  (canonical : Zone.canonicalize? (clock.offset.tdiv 60) = some (zone, days))
include canonical

theorem ofOffset_eq_ok_iff {d : DateTime} :
    ofOffset clock = .ok d ↔
      d.wall.millis = clock.wall.millis + days * millisPerDay ∧ d.zone = some zone := by
  rw [← LocalTime.ofMillis?_eq_some_iff, ← LocalTime.shift?]
  obtain ⟨wall, shown⟩ := d
  cases shifted : clock.wall.shift? (days * millisPerDay) with
  | none => simp only [ofOffset, canonical, shifted, reduceCtorEq, false_and]
  | some moved =>
    simp only [ofOffset, canonical, shifted, Except.ok.injEq, mk.injEq, Option.some.injEq]
    exact and_congr_right' eq_comm

theorem fault_of_ofOffset {fault : ValueError} (h : ofOffset clock = .error fault) :
    fault = .outOfRange .dateTime .zoneShift := by
  cases shifted : clock.wall.shift? (days * millisPerDay) with
  | none =>
    simp only [ofOffset, canonical, shifted, Except.error.injEq] at h
    exact h.symm
  | some moved => simp only [ofOffset, canonical, shifted, reduceCtorEq] at h

theorem exists_ofOffset_iff :
    (∃ d, ofOffset clock = .ok d) ↔
      LocalTime.InCalendar (clock.wall.millis + days * millisPerDay) := by
  simp only [ofOffset_eq_ok_iff canonical, ← LocalTime.exists_millis_eq_iff]
  constructor
  · rintro ⟨d, millis, _⟩
    exact ⟨d.wall, millis⟩
  · rintro ⟨wall, millis⟩
    exact ⟨⟨wall, some zone⟩, millis, rfl⟩

theorem epochMillis_of_ofOffset {d : DateTime} (h : ofOffset clock = .ok d) :
    d.epochMillis = clock.wall.millis - 1000 * clock.offset + 1000 * clock.offset.tmod 60 := by
  obtain ⟨millis, shown⟩ := (ofOffset_eq_ok_iff canonical).1 h
  have minutes := Zone.canonicalize?_moves canonical
  have cut := Int.tmod_add_mul_tdiv clock.offset 60
  rw [epochMillis_eq, shown, Option.elim_some, millis]
  unfold millisPerDay
  omega

end

/-- A clock shows its reading under the canonical zone of the whole minutes of its offset, if the
calendar has the day that this takes. What it stands for is then off by the seconds of the offset
that make up no minute, and is the instant itself, cut down to the millisecond, exactly where there
are none. -/
theorem clock_keeps_instant_iff_whole_minutes (reading : PreciseTime) (offset : ℤ)
    (low : -86400 < offset) (high : offset < 86400) (clock : OffsetInstant)
    (shows : OffsetInstant.ofPrecise? reading offset = some clock) :
    ((∃ d, ofOffset clock = .ok d) ↔ LocalTime.InCalendar
      (reading.nanos / nanosPerMilli + 1000 * offset -
        millisPerDay * Zone.daysAhead (offset.tdiv 60))) ∧
    (∀ fault, ofOffset clock = .error fault → fault = .outOfRange .dateTime .zoneShift) ∧
    ∀ d, ofOffset clock = .ok d →
      (∃ zone, d.zone = some zone ∧
        zone.minutes = offset.tdiv 60 - 1440 * Zone.daysAhead (offset.tdiv 60)) ∧
      d.epochMillis = reading.nanos / nanosPerMilli + 1000 * offset.tmod 60 ∧
      (d.epochMillis = reading.nanos / nanosPerMilli ↔ 60 ∣ offset) := by
  obtain ⟨rfl, wall⟩ := OffsetInstant.of_ofPrecise? shows
  obtain ⟨zone, canonical⟩ := Zone.exists_canonicalize?_of_seconds low high
  refine ⟨?_, fun fault => fault_of_ofOffset canonical, fun d shown => ?_⟩
  · rw [exists_ofOffset_iff canonical, wall, Int.neg_mul, Int.mul_comm millisPerDay,
      Int.sub_eq_add_neg]
  · have minutes := (Zone.canonicalize?_eq_some_iff.1 canonical).2.2
    have instant : d.epochMillis =
        reading.nanos / nanosPerMilli + 1000 * clock.offset.tmod 60 := by
      rw [epochMillis_of_ofOffset canonical shown, wall, Int.add_sub_cancel]
    refine ⟨⟨zone, ((ofOffset_eq_ok_iff canonical).1 shown).2, minutes⟩, instant, ?_⟩
    rw [instant, Int.dvd_iff_tmod_eq_zero]
    omega

theorem last_nanosecond_on_wrapped_clocks :
    let reading : PreciseTime := ⟨-1, by decide, by decide⟩
    let ahead : OffsetInstant := ⟨reading.toMillis, 50400, ⟨50399999, by decide, by decide⟩, rfl⟩
    let behind : OffsetInstant := ⟨reading.toMillis, -43230, ⟨-43230001, by decide, by decide⟩, rfl⟩
    let d : DateTime := ⟨⟨-36000001, by decide, by decide⟩, some ⟨-600, by decide, by decide⟩⟩
    let e : DateTime := ⟨⟨43169999, by decide, by decide⟩, some ⟨720, by decide, by decide⟩⟩
    (d.text = "1969-12-31T13:59:59.999-10:00" ∧ e.text = "1970-01-01T11:59:29.999+12:00") ∧
      (OffsetInstant.ofPrecise? reading 50400 = some ahead ∧ ofOffset ahead = .ok d ∧
        60 ∣ (50400 : ℤ) ∧ d.epochMillis = reading.nanos / nanosPerMilli) ∧
      (OffsetInstant.ofPrecise? reading (-43230) = some behind ∧ ofOffset behind = .ok e ∧
        ¬ 60 ∣ (-43230 : ℤ) ∧ e.epochMillis ≠ reading.nanos / nanosPerMilli) := by
  intro reading ahead behind d e
  have shows : OffsetInstant.ofPrecise? reading 50400 = some ahead ∧
      OffsetInstant.ofPrecise? reading (-43230) = some behind := ⟨rfl, rfl⟩
  have shown : ofOffset ahead = .ok d ∧ ofOffset behind = .ok e := by decide +kernel
  obtain ⟨_, _, kept⟩ :=
    clock_keeps_instant_iff_whole_minutes reading 50400 (by decide) (by decide) ahead shows.1
  obtain ⟨_, _, lost⟩ :=
    clock_keeps_instant_iff_whole_minutes reading (-43230) (by decide) (by decide) behind shows.2
  have whole : (60 : ℤ) ∣ 50400 := by decide
  have rest : ¬ (60 : ℤ) ∣ -43230 := by decide
  exact ⟨by decide +kernel, ⟨shows.1, shown.1, whole, (kept d shown.1).2.2.2 whole⟩,
    ⟨shows.2, shown.2, rest, mt (lost e shown.2).2.2.1 rest⟩⟩

theorem half_minute_moves_instant :
    ¬ ∀ (reading : PreciseTime) (offset : ℤ) (clock : OffsetInstant) (d : DateTime),
      -86400 < offset → offset < 86400 → OffsetInstant.ofPrecise? reading offset = some clock →
        ofOffset clock = .ok d → d.epochMillis = reading.nanos / nanosPerMilli := by
  intro kept
  let reading : PreciseTime := ⟨0, by decide, by decide⟩
  let clock : OffsetInstant := ⟨reading.toMillis, 30, ⟨30000, by decide, by decide⟩, rfl⟩
  let d : DateTime := ⟨⟨30000, by decide, by decide⟩, some .utc⟩
  have shows : OffsetInstant.ofPrecise? reading 30 = some clock := rfl
  have shown : ofOffset clock = .ok d := by decide +kernel
  have moved : d.epochMillis ≠ reading.nanos / nanosPerMilli := by decide +kernel
  exact moved (kept reading 30 clock d (by decide) (by decide) shows shown)

end DateTime

end PolicyValues
