/-! Text is read as a list of characters, and places in it are counted in bytes of its UTF-8 form. -/
namespace PolicyValues.Text

def bytes (cs : List Char) : List UInt8 := cs.flatMap String.utf8EncodeChar

def leadByte (c : Char) : UInt8 := (String.utf8EncodeChar c).headD 0

def byteLength : List Char → Nat
  | [] => 0
  | c :: cs => c.utf8Size + byteLength cs

/-- What follows the first `offset` bytes; none past the end or inside a character. -/
def suffixAt? : List Char → Nat → Option (List Char)
  | cs, 0 => some cs
  | [], _ + 1 => none
  | c :: cs, n + 1 => if c.utf8Size ≤ n + 1 then suffixAt? cs (n + 1 - c.utf8Size) else none

def offsetOf (input rest : List Char) : Nat := byteLength input - byteLength rest

theorem byteLength_append (as bs : List Char) :
    byteLength (as ++ bs) = byteLength as + byteLength bs := by
  induction as with
  | nil => simp only [List.nil_append, byteLength, Nat.zero_add]
  | cons a as ih => simp only [List.cons_append, byteLength, ih, Nat.add_assoc]

theorem offsetOf_append (as bs : List Char) : offsetOf (as ++ bs) bs = byteLength as := by
  simp only [offsetOf, byteLength_append, Nat.add_sub_cancel]

theorem suffixAt?_append (as bs : List Char) : suffixAt? (as ++ bs) (byteLength as) = some bs := by
  induction as with
  | nil => cases bs <;> rfl
  | cons a as ih =>
    have hpos : 0 < a.utf8Size := Char.utf8Size_pos a
    obtain ⟨n, hn⟩ : ∃ n, byteLength (a :: as) = n + 1 :=
      ⟨byteLength (a :: as) - 1, by simp only [byteLength]; omega⟩
    have hsub : n + 1 - a.utf8Size = byteLength as := by simp only [byteLength] at hn; omega
    have hle : a.utf8Size ≤ n + 1 := by simp only [byteLength] at hn; omega
    rw [hn, List.cons_append, suffixAt?, if_pos hle, hsub, ih]

/-- The property White_Space of Unicode. -/
def isBlank (c : Char) : Bool :=
  let n := c.toNat
  (9 ≤ n && n ≤ 13) || n == 0x20 || n == 0x85 || n == 0xA0 || n == 0x1680 ||
    (0x2000 ≤ n && n ≤ 0x200A) || n == 0x2028 || n == 0x2029 || n == 0x202F || n == 0x205F ||
    n == 0x3000

/-- The general category Cc of Unicode. -/
def isControl (c : Char) : Bool := c.toNat < 0x20 || (0x7F ≤ c.toNat && c.toNat < 0xA0)

def isAsciiBlank (c : Char) : Bool :=
  c == ' ' || c == '\t' || c == '\n' || c == '\x0c' || c == '\r'

def lower (cs : List Char) : List Char := cs.map Char.toLower

def EqFold (as bs : List Char) : Prop := lower as = lower bs

instance (as bs : List Char) : Decidable (EqFold as bs) :=
  inferInstanceAs (Decidable (lower as = lower bs))

def splitFirst? (mark : Char) : List Char → Option (List Char × List Char)
  | [] => none
  | c :: cs =>
    if c = mark then some ([], cs)
    else (splitFirst? mark cs).map fun (before, after) => (c :: before, after)

theorem append_of_splitFirst? {mark : Char} {cs before after : List Char}
    (h : splitFirst? mark cs = some (before, after)) : cs = before ++ mark :: after := by
  induction cs generalizing before with
  | nil => simp only [splitFirst?, reduceCtorEq] at h
  | cons c cs ih =>
    by_cases hc : c = mark
    · simp only [splitFirst?, hc, if_true, Option.some.injEq, Prod.mk.injEq] at h
      simp only [← h.1, ← h.2, hc, List.nil_append]
    · simp only [splitFirst?, hc, if_false, Option.map_eq_some_iff, Prod.mk.injEq, Prod.exists] at h
      obtain ⟨b, a, hs, hb, ha⟩ := h
      subst hb ha
      simp only [List.cons_append, ← ih hs]

def split (mark : Char) : List Char → List (List Char)
  | [] => [[]]
  | c :: cs =>
    if c = mark then [] :: split mark cs
    else match split mark cs with
      | part :: rest => (c :: part) :: rest
      | [] => [[c]]

def joinPairs (mark joined : Char) : List Char → List Char
  | a :: b :: cs =>
    if a = mark ∧ b = mark then joined :: joinPairs mark joined cs
    else a :: joinPairs mark joined (b :: cs)
  | cs => cs

def trim (p : Char → Bool) (cs : List Char) : List Char :=
  ((cs.dropWhile p).reverse.dropWhile p).reverse

def trimRight (p : Char → Bool) (cs : List Char) : List Char :=
  (cs.reverse.dropWhile p).reverse

def hexDigit (n : Nat) : Char := if n < 10 then Char.ofNat (48 + n) else Char.ofNat (87 + n)

def hexValue? (c : Char) : Option Nat :=
  let n := c.toNat
  if 48 ≤ n ∧ n ≤ 57 then some (n - 48)
  else if 97 ≤ n ∧ n ≤ 102 then some (n - 87)
  else if 65 ≤ n ∧ n ≤ 70 then some (n - 55)
  else none

def isHexDigit (c : Char) : Bool := (hexValue? c).isSome

end PolicyValues.Text
