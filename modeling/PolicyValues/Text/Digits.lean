import PolicyValues.Rounding
import PolicyValues.Text.Basic

/-! Runs of ASCII digits at the front of a text. Each reader returns what it read and the text left. -/
namespace PolicyValues.Digits

def value (ds : List Char) : Nat := Nat.ofDigitChars 10 ds 0

def ofNat (n : Nat) : List Char := Nat.toDigits 10 n

theorem value_ofNat (n : Nat) : value (ofNat n) = n := Nat.ofDigitChars_ten_toDigits

def padded (width n : Nat) : List Char :=
  List.replicate (width - (ofNat n).length) '0' ++ ofNat n

theorem value_padded (width n : Nat) : value (padded width n) = n := by
  simp only [value, padded, Nat.ofDigitChars_append, Nat.ofDigitChars_replicate_zero, Nat.mul_zero]
  exact value_ofNat n

def ofInt : Int → List Char
  | .ofNat n => ofNat n
  | .negSucc n => '-' :: ofNat (n + 1)

def span (cs : List Char) : List Char × List Char := (cs.takeWhile Char.isDigit, cs.dropWhile Char.isDigit)

theorem span_append (cs : List Char) : (span cs).1 ++ (span cs).2 = cs :=
  List.takeWhile_append_dropWhile

def checked? (limit n : Nat) : Option Nat := if n < limit then some n else none

/-- One more digit behind a number. Both steps have to stay below the limit. -/
def extend? (limit n : Nat) (c : Char) : Option Nat := do
  let tens ← checked? limit (n * 10)
  checked? limit (tens + (c.toNat - 48))

def fixed? (width : Nat) (cs : List Char) : Option (Nat × List Char) :=
  if (cs.take width).length = width then do
    let n ← (cs.take width).foldlM (fun n c => if c.isDigit then extend? (2 ^ 32) n c else none) 0
    some (n, cs.drop width)
  else none

structure SignedRun where
  value : Int
  length : Nat
  rest : List Char
deriving DecidableEq, Repr

def run? (limit n length : Nat) : List Char → Option (Nat × Nat × List Char)
  | [] => some (n, length, [])
  | c :: cs =>
    if c.isDigit then do run? limit (← extend? limit n c) (length + 1) cs
    else some (n, length, c :: cs)

/-- None when no digit follows the sign or the magnitude takes more than 63 bits. -/
def signed? (cs : List Char) : Option SignedRun := do
  let negative := cs.head? = some '-'
  let (n, length, rest) ← run? (2 ^ 63) 0 0 (if negative then cs.drop 1 else cs)
  if length = 0 then none
  else some ⟨if negative then -(n : Int) else n, length, rest⟩

structure Written where
  whole : List Char
  fraction : List Char
deriving DecidableEq, Repr

def Written.chars (w : Written) : List Char :=
  if w.fraction = [] then w.whole else w.whole ++ '.' :: w.fraction

/-- A fraction after the whole part; a point without digits stays unread. -/
def fractionAfter (whole rest : List Char) : Written × List Char :=
  match rest with
  | '.' :: after =>
    if (span after).1 = [] then (⟨whole, []⟩, rest) else (⟨whole, (span after).1⟩, (span after).2)
  | _ => (⟨whole, []⟩, rest)

def unsigned? (cs : List Char) : Option (Written × List Char) :=
  if (span cs).1 = [] then none else some (fractionAfter (span cs).1 (span cs).2)

theorem length_span (cs : List Char) : (span cs).1.length + (span cs).2.length = cs.length := by
  rw [← List.length_append, span_append]

theorem length_fractionAfter (whole rest : List Char) :
    (fractionAfter whole rest).2.length ≤ rest.length := by
  unfold fractionAfter
  split
  · rename_i after
    have := length_span after
    split
    · exact Nat.le_refl _
    · simp only [List.length_cons]; omega
  · exact Nat.le_refl _

theorem length_of_unsigned? {cs rest : List Char} {w : Written} (h : unsigned? cs = some (w, rest)) :
    rest.length < cs.length := by
  unfold unsigned? at h
  split at h
  · simp only [reduceCtorEq] at h
  · rename_i some_digit
    have whole := length_span cs
    have rest_le := length_fractionAfter (span cs).1 (span cs).2
    have pos := List.length_pos_iff.2 some_digit
    simp only [Option.some.injEq] at h
    simp only [h] at rest_le
    omega

end PolicyValues.Digits
