import PolicyValues.Fault

/-!
Offsets from UTC in whole minutes. Every offset of at most a day is canonical within half a day:
wrapping it names another clock, and the day shift says how far the fields written against the raw
offset move so that they keep their instant.
-/
namespace PolicyValues

structure Zone where
  minutes : Int
  low : -720 < minutes
  high : minutes ≤ 720
deriving DecidableEq, Repr

namespace Zone

def utc : Zone := ⟨0, by decide, by decide⟩

def canonicalize? (raw : Int) : Option (Zone × Int) :=
  if far : 1440 < raw ∨ raw < -1440 then none
  else if east : 720 < raw then some (⟨raw - 1440, by omega, by omega⟩, -1)
  else if west : raw ≤ -720 then some (⟨raw + 1440, by omega, by omega⟩, 1)
  else some (⟨raw, by omega, by omega⟩, 0)

theorem canonicalize?_moves {raw days : Int} {zone : Zone}
    (h : canonicalize? raw = some (zone, days)) : raw = zone.minutes - 1440 * days := by
  unfold canonicalize? at h
  split at h
  · simp only [reduceCtorEq] at h
  · split at h
    · simp only [Option.some.injEq, Prod.mk.injEq] at h
      rw [← h.1, ← h.2]
      simp only
      omega
    · split at h <;> simp only [Option.some.injEq, Prod.mk.injEq] at h <;> rw [← h.1, ← h.2] <;>
        simp only <;> omega

def ofMinutes (raw : Int) : Except ValueError Zone :=
  match canonicalize? raw with
  | some (zone, _) => .ok zone
  | none => .error (.outOfRange .timeZone (.zoneOffset raw))

def readRaw : Reader Int
  | 'Z' :: cs => .ok (0, cs)
  | cs => do
    let (sign, cs) ← match cs with
      | '+' :: cs => .ok ((1 : Int), cs)
      | '-' :: cs => .ok (-1, cs)
      | cs => .error (.malformed cs .zoneStart)
    let (hours, cs) ← Reader.digits 2 "time zone hours" cs
    let (_, cs) ← Reader.mark ':' "between time zone hours and minutes" cs
    let (minutes, rest) ← Reader.digits 2 "time zone minutes" cs
    if 59 < minutes then .error (.malformed cs (.zoneMinutes minutes))
    else .ok (sign * (hours * 60 + minutes : Nat), rest)

def parse (text : String) : Except ValueError Zone :=
  match Reader.whole readRaw text.toList with
  | .error stop => .error (stop.within .timeZone text.toList)
  | .ok raw => ofMinutes raw

def chars (zone : Zone) : List Char :=
  if zone.minutes = 0 then ['Z']
  else
    let size := zone.minutes.natAbs
    (if zone.minutes < 0 then '-' else '+') ::
      (Digits.padded 2 (size / 60) ++ ':' :: Digits.padded 2 (size % 60))

def text (zone : Zone) : String := String.ofList zone.chars

instance : ToString Zone := ⟨text⟩

def readOptional : Reader (Option Zone × Int)
  | [] => .ok ((none, 0), [])
  | cs => do
    let (raw, rest) ← readRaw cs
    match canonicalize? raw with
    | some (zone, days) => .ok ((some zone, days), rest)
    | none => .error (.outOfRange .timeZone (.zoneOffset raw))

end Zone

end PolicyValues
