import Mathlib.Algebra.Order.Ring.Int

/- Address ranges and little-endian numbers in a byte memory. A range is half open; two
   empty ranges lie apart wherever they are, and an empty one fits at an end of another. -/

structure Span where
  start : Nat
  length : Nat
  deriving DecidableEq, Repr

namespace Span
variable {a b c : Span} {x : Nat}

def stop (a : Span) : Nat := a.start + a.length

def Apart (a b : Span) : Prop := a.stop ≤ b.start ∨ b.stop ≤ a.start

def Within (a b : Span) : Prop := b.start ≤ a.start ∧ a.stop ≤ b.stop

def Has (a : Span) (x : Nat) : Prop := a.start ≤ x ∧ x < a.stop

/-- Two ranges have a byte in common. -/
def Meets (a b : Span) : Prop := ∃ x, Has a x ∧ Has b x

instance : Decidable (Apart a b) := inferInstanceAs (Decidable (_ ∨ _))

instance : Decidable (Within a b) := inferInstanceAs (Decidable (_ ∧ _))

instance : Decidable (Has a x) := inferInstanceAs (Decidable (_ ∧ _))

theorem Apart.symm (apart : Apart a b) : Apart b a := Or.symm apart

theorem Within.refl (a : Span) : Within a a := ⟨Nat.le_refl _, Nat.le_refl _⟩

theorem Within.trans (inner : Within a b) (outer : Within b c) : Within a c := by
  simp only [Within] at *
  omega

theorem Within.has (inner : Within a b) (here : Has a x) : Has b x := by
  simp only [Within, Has] at *
  omega

theorem Apart.within (apart : Apart a b) (inner : Within c a) : Apart c b := by
  simp only [Apart, Within, stop] at *
  omega

theorem Apart.within_both {d : Span} (apart : Apart a b) (left : Within c a)
    (right : Within d b) : Apart c d :=
  ((apart.within left).symm.within right).symm

theorem Apart.not_has (apart : Apart a b) (here : Has a x) : ¬Has b x := by
  simp only [Apart, Has, stop] at *
  omega

theorem Apart.not_meets (apart : Apart a b) : ¬Meets a b := by
  rintro ⟨x, here, there⟩
  exact apart.not_has here there

/-- A range that is not empty does not lie apart from one that holds it. -/
theorem Within.not_apart (inner : Within a b) (full : 0 < a.length) : ¬Apart a b := by
  simp only [Apart, Within, stop] at *
  omega

theorem apart_irrefl (full : 0 < a.length) : ¬Apart a a := (Within.refl a).not_apart full

theorem apart_pairwise {spans rest : List Span} (same : spans.Perm rest) :
    spans.Pairwise Apart ↔ rest.Pairwise Apart :=
  same.pairwise_iff Apart.symm

end Span

namespace Bytes
variable {m n : Nat → UInt8} {a w v x : Nat}

/-- The number of width w at a, lowest byte first. -/
def load (m : Nat → UInt8) (a : Nat) : Nat → Nat
  | 0 => 0
  | w + 1 => (m a).toNat + 256 * load m (a + 1) w

def store (m : Nat → UInt8) (a w v : Nat) : Nat → UInt8 := fun x =>
  if a ≤ x ∧ x < a + w then UInt8.ofNat (v / 256 ^ (x - a)) else m x

def fill (m : Nat → UInt8) (a n : Nat) (byte : UInt8) : Nat → UInt8 := fun x =>
  if a ≤ x ∧ x < a + n then byte else m x

/-- Fresh contents from a on, counted from the start of the range. -/
def paste (m : Nat → UInt8) (a n : Nat) (contents : Nat → UInt8) : Nat → UInt8 := fun x =>
  if a ≤ x ∧ x < a + n then contents (x - a) else m x

theorem load_byte (m : Nat → UInt8) (a : Nat) : load m a 1 = (m a).toNat := by
  simp [load]

theorem load_congr (same : ∀ x, (Span.mk a w).Has x → m x = n x) : load m a w = load n a w := by
  induction w generalizing a with
  | zero => rfl
  | succ w ih =>
    have head : m a = n a := same a ⟨Nat.le_refl _, by simp only [Span.stop]; omega⟩
    have tail : load m (a + 1) w = load n (a + 1) w := ih fun x here => same x (by
      simp only [Span.Has, Span.stop] at *
      omega)
    simp only [load, head, tail]

theorem load_digits (digits : ∀ i, i < w → m (a + i) = UInt8.ofNat (v / 256 ^ i)) :
    load m a w = v % 256 ^ w := by
  induction w generalizing a v with
  | zero => simp [load, Nat.mod_one]
  | succ w ih =>
    have head : (m a).toNat = v % 256 := by
      have first := digits 0 (by omega)
      simp only [Nat.add_zero, Nat.pow_zero, Nat.div_one] at first
      simp [first]
    have tail : load m (a + 1) w = v / 256 % 256 ^ w := ih fun i small => by
      have next := digits (i + 1) (by omega)
      rw [Nat.div_div_eq_div_mul, ← Nat.pow_succ', Nat.add_assoc, Nat.add_comm 1 i]
      exact next
    rw [load, head, tail, Nat.pow_succ', Nat.mod_mul]

theorem load_store_same (m : Nat → UInt8) (a w v : Nat) :
    load (store m a w v) a w = v % 256 ^ w := by
  apply load_digits
  intro i small
  have inside : a ≤ a + i ∧ a + i < a + w := by omega
  rw [store, if_pos inside, Nat.add_sub_cancel_left]

theorem store_outside (outside : ¬(Span.mk a w).Has x) : store m a w v x = m x :=
  if_neg outside

theorem fill_outside {byte : UInt8} (outside : ¬(Span.mk a w).Has x) :
    fill m a w byte x = m x :=
  if_neg outside

theorem fill_inside {byte : UInt8} (inside : (Span.mk a w).Has x) : fill m a w byte x = byte :=
  if_pos inside

theorem paste_outside {contents : Nat → UInt8} (outside : ¬(Span.mk a w).Has x) :
    paste m a w contents x = m x :=
  if_neg outside

theorem load_bound (m : Nat → UInt8) (a w : Nat) : load m a w < 256 ^ w := by
  induction w generalizing a with
  | zero => simp [load]
  | succ w ih =>
    have head : (m a).toNat < 256 := (m a).toNat_lt
    have tail := ih (a + 1)
    rw [load, Nat.pow_succ]
    omega

end Bytes
