/-
The sixteen-bit codes of words, field by field. As a number, the code of a computation is the sum of its
fields in their places, so each of them can be taken out of it again; the code of a load is its value,
if that fits into fifteen bits. Codes of different words differ, except those of values that do not fit.
-/
import Hack.Machine.Program
import Mathlib.Data.Nat.Bitwise

namespace Hack

/-! ## Widths -/

theorem Comp.toNat_bits_lt (c : Comp) : c.bits.toNat < 128 := by
  have table : ∀ c ∈ Comp.all, c.bits.toNat < 128 := by decide
  exact table c c.mem_all

theorem Dest.toNat_bits_lt (x : Dest) : x.bits.toNat < 8 := by
  obtain ⟨a, d, m⟩ := x
  cases a <;> cases d <;> cases m <;> decide

theorem Jump.toNat_bits_lt (j : Jump) : j.bits.toNat < 8 := by
  obtain ⟨l, e, g⟩ := j
  cases l <;> cases e <;> cases g <;> decide

namespace Word

/-- Whether the code of a word has room for all of it. -/
def Fits : Word → Prop
  | .load v => v.toNat < 0x8000
  | .compute _ _ _ => True

instance (w : Word) : Decidable w.Fits := by
  cases w
  · exact inferInstanceAs (Decidable (_ < _))
  · exact inferInstanceAs (Decidable True)

/-! ## Codes as numbers -/

/-- A load's code is the rest of its value modulo the number of fifteen-bit values. -/
theorem toNat_encode_load (v : UInt16) : (load v).encode.toNat = v.toNat % 0x8000 := by
  show (v &&& 0x7FFF).toNat = v.toNat % 2 ^ 15
  rw [UInt16.toNat_and]
  exact Nat.and_two_pow_sub_one_eq_mod v.toNat 15

theorem encode_load {v : UInt16} (h : (load v).Fits) : (load v).encode = v := by
  apply UInt16.toNat_inj.1
  rw [toNat_encode_load]
  exact Nat.mod_eq_of_lt h

/-- Fields that do not overlap add up. -/
theorem or_eq_add {c d j : Nat} (hc : c < 128) (hd : d < 8) (hj : j < 8) :
    0xE000 ||| c <<< 6 ||| d <<< 3 ||| j = 0xE000 + 64 * c + 8 * d + j := by
  have h6 : 0xE000 ||| c <<< 6 = (896 + c) <<< 6 := by
    have : 0xE000 = 7 <<< 13 := rfl
    rw [this, ← Nat.shiftLeft_add_eq_or_of_lt (by omega)]
    omega
  have h3 : (896 + c) <<< 6 ||| d <<< 3 = (8 * (896 + c) + d) <<< 3 := by
    rw [← Nat.shiftLeft_add_eq_or_of_lt (by omega)]
    omega
  rw [h6, h3, ← Nat.shiftLeft_add_eq_or_of_lt (by omega)]
  omega

theorem toNat_encode_compute (dest : Dest) (comp : Comp) (jump : Jump) :
    (compute dest comp jump).encode.toNat =
      0xE000 + 64 * comp.bits.toNat + 8 * dest.bits.toNat + jump.bits.toNat := by
  have hc := comp.toNat_bits_lt
  have hd := dest.toNat_bits_lt
  have h6 : (comp.bits <<< 6).toNat = comp.bits.toNat <<< 6 := by
    rw [UInt16.toNat_shiftLeft]
    exact Nat.mod_eq_of_lt (by change _ <<< 6 < _; omega)
  have h3 : (dest.bits <<< 3).toNat = dest.bits.toNat <<< 3 := by
    rw [UInt16.toNat_shiftLeft]
    exact Nat.mod_eq_of_lt (by change _ <<< 3 < _; omega)
  rw [encode, UInt16.toNat_or, UInt16.toNat_or, UInt16.toNat_or, h6, h3]
  exact or_eq_add hc hd jump.toNat_bits_lt

/-! ## Fields of a code -/

/-- The seven bits behind the three leading ones of a computation. -/
def compField (code : UInt16) : Nat := code.toNat / 64 % 128

def destField (code : UInt16) : Nat := code.toNat / 8 % 8

def jumpField (code : UInt16) : Nat := code.toNat % 8

section

variable (dest : Dest) (comp : Comp) (jump : Jump)

theorem compField_encode : compField (compute dest comp jump).encode = comp.bits.toNat := by
  have hc := comp.toNat_bits_lt
  have hd := dest.toNat_bits_lt
  have hj := jump.toNat_bits_lt
  rw [compField, toNat_encode_compute]
  omega

theorem destField_encode : destField (compute dest comp jump).encode = dest.bits.toNat := by
  have hd := dest.toNat_bits_lt
  have hj := jump.toNat_bits_lt
  rw [destField, toNat_encode_compute]
  omega

theorem jumpField_encode : jumpField (compute dest comp jump).encode = jump.bits.toNat := by
  have hj := jump.toNat_bits_lt
  rw [jumpField, toNat_encode_compute]
  omega

/-- A computation's code has three leading ones. -/
theorem leading_encode : (compute dest comp jump).encode.toNat / 0x2000 = 7 := by
  have hc := comp.toNat_bits_lt
  have hd := dest.toNat_bits_lt
  have hj := jump.toNat_bits_lt
  rw [toNat_encode_compute]
  omega

end

end Word

end Hack
