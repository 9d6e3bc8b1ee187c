import PolicyValues.Rounding
import PolicyValues.Text.Digits

/-!
Decimals with a mantissa of at most 96 bits and at most 28 places after the point. A sum is the
exact sum, rounded to the largest scale at which its mantissa fits; an exact tie goes to the even
neighbour.
-/
namespace PolicyValues

structure Decimal where
  negative : Bool
  mantissa : Nat
  scale : Nat
  mantissa_lt : mantissa < 2 ^ 96 := by decide
  scale_le : scale ≤ 28 := by decide
deriving DecidableEq, Repr

namespace Decimal

def zero : Decimal := ⟨false, 0, 0, by decide, by decide⟩

def isZero (d : Decimal) : Bool := d.mantissa == 0

def neg (d : Decimal) : Decimal := { d with negative := !d.negative }

def abs (d : Decimal) : Decimal := { d with negative := false }

def signedAt (d : Decimal) (scale : Nat) : Int :=
  let size := d.mantissa * 10 ^ (scale - d.scale)
  if d.negative then -(size : Int) else size

def compare (a b : Decimal) : Ordering :=
  let scale := max a.scale b.scale
  Ord.compare (a.signedAt scale) (b.signedAt scale)

def Equal (a b : Decimal) : Prop :=
  a.signedAt (max a.scale b.scale) = b.signedAt (max a.scale b.scale)

instance (a b : Decimal) : Decidable (Equal a b) := inferInstanceAs (Decidable (_ = (_ : Int)))

/-- The largest scale, from `scale` down, at which a size counted in `10 ^ -scale` fits. -/
def fit? (negative : Bool) (size scale : Nat) : (target : Nat) → target ≤ 28 → Option Decimal
  | target, h =>
    let mantissa := divHalfEven size (10 ^ (scale - target))
    if fits : mantissa < 2 ^ 96 then some ⟨negative, mantissa, target, fits, h⟩
    else
      match target, h with
      | 0, _ => none
      | next + 1, h => fit? negative size scale next (by omega)

def add? (a b : Decimal) : Option Decimal :=
  let scale := max a.scale b.scale
  let sum := a.signedAt scale + b.signedAt scale
  fit? (sum < 0) sum.natAbs scale scale (by have := a.scale_le; have := b.scale_le; omega)

def strip : (mantissa scale : Nat) → Nat × Nat
  | mantissa, 0 => (mantissa, 0)
  | mantissa, scale + 1 =>
    if mantissa % 10 = 0 then strip (mantissa / 10) scale else (mantissa, scale + 1)

theorem strip_fst_le (mantissa scale : Nat) : (strip mantissa scale).1 ≤ mantissa := by
  induction scale generalizing mantissa with
  | zero => exact Nat.le_refl _
  | succ scale ih =>
    rw [strip]
    split
    · exact Nat.le_trans (ih _) (Nat.div_le_self _ _)
    · exact Nat.le_refl _

theorem strip_snd_le (mantissa scale : Nat) : (strip mantissa scale).2 ≤ scale := by
  induction scale generalizing mantissa with
  | zero => exact Nat.le_refl _
  | succ scale ih =>
    rw [strip]
    split
    · exact Nat.le_succ_of_le (ih _)
    · exact Nat.le_refl _

def normalize (d : Decimal) : Decimal where
  negative := d.negative && !d.isZero
  mantissa := (strip d.mantissa d.scale).1
  scale := (strip d.mantissa d.scale).2
  mantissa_lt := Nat.lt_of_le_of_lt (strip_fst_le _ _) d.mantissa_lt
  scale_le := Nat.le_trans (strip_snd_le _ _) d.scale_le

theorem strip_strip (mantissa scale : Nat) :
    strip (strip mantissa scale).1 (strip mantissa scale).2 = strip mantissa scale := by
  induction scale generalizing mantissa with
  | zero => rfl
  | succ scale ih =>
    by_cases h : mantissa % 10 = 0
    · simp only [strip, h, if_true, ih]
    · simp only [strip, h, if_false]

/-- A size without sign and without trailing zeros. -/
structure Plain (d : Decimal) : Prop where
  positive : d.negative = false
  stripped : strip d.mantissa d.scale = (d.mantissa, d.scale)

theorem plain_normalize_abs (d : Decimal) : d.abs.normalize.Plain :=
  ⟨rfl, strip_strip d.mantissa d.scale⟩

theorem normalize_eq_self {d : Decimal} (h : d.Plain) : d.normalize = d := by
  obtain ⟨negative, mantissa, scale, _, _⟩ := d
  obtain ⟨positive, stripped⟩ := h
  simp only at positive stripped
  simp only [normalize, stripped, positive, Bool.false_and]

def whole (d : Decimal) : Nat := d.mantissa / 10 ^ d.scale

def fraction (d : Decimal) : Decimal where
  negative := d.negative
  mantissa := d.mantissa % 10 ^ d.scale
  scale := d.scale
  mantissa_lt := Nat.lt_of_le_of_lt (Nat.mod_le _ _) d.mantissa_lt
  scale_le := d.scale_le

def thousandths (d : Decimal) : Nat := d.mantissa * 1000 / 10 ^ d.scale

def chars (d : Decimal) : List Char :=
  (if d.negative then ['-'] else []) ++ Digits.ofNat d.whole ++
    if d.scale = 0 then [] else '.' :: Digits.padded d.scale (d.mantissa % 10 ^ d.scale)

def text (d : Decimal) : String := String.ofList d.chars

instance : ToString Decimal := ⟨text⟩

def ofWritten? (negative : Bool) (w : Digits.Written) : Option Decimal :=
  let mantissa := Digits.value (w.whole ++ w.fraction)
  if h : mantissa < 2 ^ 96 ∧ w.fraction.length ≤ 28 then
    some ⟨negative, mantissa, w.fraction.length, h.1, h.2⟩
  else none

def dropTrailingZeros (ds : List Char) : List Char := Text.trimRight (· == '0') ds

/-- Without the zeros that pad it, and with a zero where no digit of the whole part is left. -/
def unpadded (w : Digits.Written) : Digits.Written where
  whole :=
    let whole := w.whole.dropWhile (· == '0')
    if whole = [] then ['0'] else whole
  fraction := dropTrailingZeros w.fraction

def push? (d : Decimal) (scale : Nat) (le : scale ≤ 28) (c : Char) : Option Decimal :=
  if fits : 10 * d.mantissa + (c.toNat - 48) < 2 ^ 96 then
    some ⟨d.negative, 10 * d.mantissa + (c.toNat - 48), scale, fits, le⟩
  else none

def roundUp? (d : Decimal) : Option Decimal :=
  if fits : d.mantissa + 1 < 2 ^ 96 then
    some { d with mantissa := d.mantissa + 1, mantissa_lt := fits }
  else if d.scale = 0 then none
  else some {
    d with
    mantissa := (d.mantissa + 5) / 10
    scale := d.scale - 1
    mantissa_lt := by have := d.mantissa_lt; omega
    scale_le := by have := d.scale_le; omega }

/-- The digits from `c` on find no place. Only the first of them rounds. -/
def cutAt? (d : Decimal) (c : Char) : Option Decimal :=
  if c.toNat - 48 < 5 then some d else d.roundUp?

def nextPlace? (d : Decimal) (c : Char) : Option Decimal :=
  if room : d.scale < 28 then d.push? (d.scale + 1) room c else none

def readFraction? (d : Decimal) : List Char → Option Decimal
  | [] => some d
  | c :: cs =>
    match d.nextPlace? c with
    | some longer => readFraction? longer cs
    | none => d.cutAt? c

def readRounded? (w : Digits.Written) : Option Decimal := do
  let whole ← w.whole.foldlM (fun d c => d.push? 0 (Nat.zero_le 28) c) zero
  whole.readFraction? w.fraction

/-- The number of a written form, refused where reading it rounds: what was read is written again
and has to show the same digits, apart from zeros that pad them. -/
def readExact? (w : Digits.Written) : Option Decimal := do
  let d ← readRounded? w
  if d.normalize.chars = (unpadded w).chars then some d.normalize else none

def parse? (text : String) : Option Decimal :=
  let (negative, cs) := match text.toList with
    | '-' :: cs => (true, cs)
    | '+' :: cs => (false, cs)
    | cs => (false, cs)
  match Digits.unsigned? cs with
  | some (w, []) => ofWritten? negative w
  | _ => none

end Decimal

end PolicyValues
