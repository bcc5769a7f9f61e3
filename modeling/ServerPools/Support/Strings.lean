import Mathlib.Algebra.Order.Ring.Int
import Mathlib.Data.List.TakeWhile

/- Byte strings as C and C++ handle them: arrays read up to a zero byte, find and substr of
   std::string with their size_t positions, and the decimal numbers that atoi reads. -/
namespace Strings

abbrev Text := List UInt8

def ofChars (chars : List Char) : Text := chars.map fun c => UInt8.ofNat c.toNat

/-- The bytes of a string literal. -/
def ofString (s : String) : Text := s.toUTF8.data.toList

def newline : UInt8 := 10

/-- The string that an array of char holds. -/
def cString (array : Text) : Text := array.takeWhile (· ≠ 0)

/-- A size_t stored in an int, and an int passed as a size_t. -/
def asInt (n : Nat) : Int := Int.bmod n (2 ^ 32)
def asSize (i : Int) : Nat := (i % 2 ^ 64).toNat

def npos : Nat := 2 ^ 64 - 1

/-- The first c in s from pos on. -/
def find (s : Text) (c : UInt8) (pos : Nat) : Nat :=
  match (s.drop pos).idxOf? c with
  | some i => pos + i
  | none => npos

/-- A position beyond the end throws out_of_range, for which none stands. -/
def substr (s : Text) (pos count : Nat) : Option Text :=
  if pos ≤ s.length then some ((s.drop pos).take count) else none

def isSpace (b : UInt8) : Bool := b = 32 ∨ 9 ≤ b ∧ b ≤ 13

def isDigit (b : UInt8) : Bool := 48 ≤ b ∧ b ≤ 57

/-- The digits in front of anything else, as a number. -/
def magnitude (s : Text) : Nat :=
  (s.takeWhile isDigit).foldl (fun sum b => 10 * sum + (b.toNat - 48)) 0

/-- The number in front of a text: white space, a sign, digits. -/
def numeral (s : Text) : Int :=
  match s.dropWhile isSpace with
  | [] => 0
  | b :: rest =>
    if b = 45 then -(magnitude rest : Int)
    else if b = 43 then magnitude rest
    else magnitude (b :: rest)

def isInt (n : Int) : Prop := -2 ^ 31 ≤ n ∧ n < 2 ^ 31

instance (n : Int) : Decidable (isInt n) := instDecidableAnd

/-- C leaves the result open when the number is not an int; outside gives it. -/
def atoi (outside : Int → Int) (s : Text) : Int :=
  if isInt (numeral s) then numeral s else outside (numeral s)

/-- The decimal spelling of a number. -/
def decimal (n : Int) : Text :=
  if n < 0 then 45 :: ofChars (Nat.toDigits 10 n.natAbs) else ofChars (Nat.toDigits 10 n.natAbs)

variable {s key value : Text} {c : UInt8} {pos n : Nat} {i : Int}

theorem cString_zeroed (tail : Text) (nonzero : 0 ∉ s) : cString (s ++ 0 :: tail) = s := by
  unfold cString
  rw [List.takeWhile_append_of_pos]
  · simp
  · intro b member
    simp only [decide_eq_true_eq]
    exact fun zero => nonzero (zero ▸ member)

theorem cString_length (array : Text) : (cString array).length ≤ array.length :=
  (List.takeWhile_sublist _).length_le

theorem asInt_small (small : n < 2 ^ 31) : asInt n = n := by
  apply Int.bmod_eq_of_le <;> omega

theorem asInt_npos : asInt npos = -1 := by decide

theorem asSize_small (small : n < 2 ^ 64) : asSize n = n := by
  unfold asSize
  omega

/-- A negative int is a length that no string has. -/
theorem asSize_negative (low : -2 ^ 31 ≤ i) (negative : i < 0) : 2 ^ 63 ≤ asSize i := by
  unfold asSize
  omega

theorem find_absent (absent : c ∉ s.drop pos) : find s c pos = npos := by
  unfold find
  rw [List.idxOf?_eq_none_iff.mpr absent]

theorem find_present (key value : Text) (split : s.drop pos = key ++ c :: value) (before : c ∉ key) :
    find s c pos = pos + key.length := by
  have first : (s.drop pos).idxOf? c = some key.length := by
    rw [split, List.idxOf?_eq_some_iff]
    refine ⟨by simp, by simp, fun j earlier same => ?_⟩
    rw [List.getElem_append_left earlier] at same
    exact before (same ▸ List.getElem_mem earlier)
  unfold find
  rw [first]

/-- The part of a text between a key with its separator and a tail, asked for by its length. -/
theorem substr_middle (key value tail : Text) :
    substr (key ++ c :: value ++ tail) (key.length + 1) value.length = some value := by
  unfold substr
  rw [if_pos (by simp)]
  simp [List.drop_append, List.drop_eq_nil_of_le]

/-- The same for what is left to the end, asked for by more than that. -/
theorem substr_rest (key value : Text) (enough : value.length ≤ n) :
    substr (key ++ c :: value) (key.length + 1) n = some value := by
  unfold substr
  rw [if_pos (by simp)]
  simp [List.drop_append, List.drop_eq_nil_of_le, List.take_of_length_le enough]

theorem substr_front (key value : Text) : substr (key ++ value) 0 key.length = some key := by
  simp [substr]

section Numbers
variable {chars : List Char}

theorem digit_byte {c : Char} (digit : c.isDigit) :
    (UInt8.ofNat c.toNat).toNat = c.toNat ∧ 48 ≤ c.toNat ∧ c.toNat ≤ 57 := by
  have range : 48 ≤ c.toNat ∧ c.toNat ≤ 57 := Char.isDigit_iff_toNat.mp digit
  refine ⟨?_, range⟩
  rw [UInt8.toNat_ofNat']
  omega

theorem digits_are_digits (digits : ∀ c ∈ chars, c.isDigit) : ∀ b ∈ ofChars chars, isDigit b := by
  intro b member
  obtain ⟨c, inside, rfl⟩ := List.mem_map.mp member
  obtain ⟨same, low, high⟩ := digit_byte (digits c inside)
  simp [isDigit, UInt8.le_iff_toNat_le, same, low, high]

theorem magnitude_digits (digits : ∀ c ∈ chars, c.isDigit) :
    magnitude (ofChars chars) = Nat.ofDigitChars 10 chars 0 := by
  have all : (ofChars chars).takeWhile isDigit = ofChars chars :=
    List.takeWhile_eq_self_iff.mpr (digits_are_digits digits)
  have folded (start : Nat) : (ofChars chars).foldl (fun sum b => 10 * sum + (b.toNat - 48)) start =
      Nat.ofDigitChars 10 chars start := by
    clear all
    induction chars generalizing start with
    | nil => rfl
    | cons c rest ih =>
      have same := (digit_byte (digits c (by simp))).1
      have later := ih (fun d member => digits d (by simp [member])) (10 * start + (c.toNat - 48))
      rw [Nat.ofDigitChars_cons]
      simpa [ofChars, same] using later
  unfold magnitude
  rw [all, folded]

theorem toDigits_digits (n : Nat) : ∀ c ∈ Nat.toDigits 10 n, c.isDigit := fun _ member =>
  Nat.isDigit_of_mem_toDigits (by decide) (by decide) member

theorem magnitude_toDigits (n : Nat) : magnitude (ofChars (Nat.toDigits 10 n)) = n := by
  rw [magnitude_digits (toDigits_digits n), Nat.ofDigitChars_ten_toDigits]

/-- A text that starts with a digit starts with neither white space nor a sign. -/
theorem digit_first {b : UInt8} (digit : isDigit b) : isSpace b = false ∧ b ≠ 45 ∧ b ≠ 43 := by
  simp only [isDigit, isSpace, UInt8.le_iff_toNat_le, ne_eq, ← UInt8.toNat_inj,
    decide_eq_true_eq, decide_eq_false_iff_not] at digit ⊢
  simp only [UInt8.reduceToNat] at digit ⊢
  omega

/-- The decimal spelling of a number is read back. -/
theorem numeral_decimal (n : Int) : numeral (decimal n) = n := by
  have digits := digits_are_digits (toDigits_digits n.natAbs)
  have size := magnitude_toDigits n.natAbs
  unfold decimal
  split
  · rename_i negative
    have minus : (45 :: ofChars (Nat.toDigits 10 n.natAbs)).dropWhile isSpace =
        45 :: ofChars (Nat.toDigits 10 n.natAbs) := by rfl
    unfold numeral
    rw [minus]
    simp only [if_true, size]
    omega
  · rename_i nonneg
    cases spelled : ofChars (Nat.toDigits 10 n.natAbs) with
    | nil => simp [ofChars, Nat.toDigits_ne_nil] at spelled
    | cons b rest =>
      rw [spelled] at digits size
      obtain ⟨space, minus, plus⟩ := digit_first (digits b (by simp))
      unfold numeral
      simp only [List.dropWhile_cons, space, Bool.false_eq_true, if_false, minus, plus, size]
      omega

/-- Digits and a sign only. -/
theorem decimal_plain (n : Int) : ∀ b ∈ decimal n, isDigit b ∨ b = 45 := by
  have digits := digits_are_digits (toDigits_digits n.natAbs)
  unfold decimal
  split
  · intro b member
    rcases List.mem_cons.mp member with rfl | later
    · exact Or.inr rfl
    · exact Or.inl (digits b later)
  · exact fun b member => Or.inl (digits b member)

/-- A sign and ten digits are enough for an int. -/
theorem decimal_length {n : Int} (range : isInt n) : (decimal n).length ≤ 11 := by
  have digits : (ofChars (Nat.toDigits 10 n.natAbs)).length ≤ 10 := by
    rw [ofChars, List.length_map, Nat.length_toDigits_le_iff (by decide) (by decide)]
    unfold isInt at range
    omega
  unfold decimal
  split
  · rw [List.length_cons]
    omega
  · omega

theorem atoi_decimal (outside : Int → Int) {n : Int} (range : isInt n) :
    atoi outside (decimal n) = n := by
  unfold atoi
  rw [numeral_decimal, if_pos range]

end Numbers

end Strings
