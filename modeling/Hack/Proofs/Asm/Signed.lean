/-
Words as signed numbers. A jump is taken on the sign of a word, and the order of two words is told by
one word that is negative, zero or positive: their difference if their signs agree, as it does not
overflow then, and else a word with the sign of the first.
-/
import Hack.Asm.Fields

namespace Hack

/-! ## Signs -/

theorem toInt_toInt16 (v : UInt16) :
    v.toInt16.toInt = if v.toNat < 32768 then (v.toNat : Int) else (v.toNat : Int) - 65536 := by
  rw [← Int16.toInt_toBitVec, UInt16.toBitVec_toInt16, BitVec.toInt_eq_toNat_cond]
  have : v.toBitVec.toNat = v.toNat := rfl
  rw [this]
  split <;> split <;> omega

theorem toInt16_lt_zero {v : UInt16} : v.toInt16 < 0 ↔ 32768 ≤ v.toNat := by
  have h0 : (0 : Int16).toInt = 0 := rfl
  have := v.toNat_lt
  rw [Int16.lt_iff_toInt_lt, toInt_toInt16, h0]
  split <;> omega

theorem toInt16_lt {v w : UInt16} : v.toInt16 < w.toInt16 ↔
    (if v.toNat < 32768 then (v.toNat : Int) else (v.toNat : Int) - 65536) <
      if w.toNat < 32768 then (w.toNat : Int) else (w.toNat : Int) - 65536 := by
  rw [Int16.lt_iff_toInt_lt, toInt_toInt16, toInt_toInt16]

/-! ## Jumps -/

namespace Jump

@[simp] theorem taken_null (v : UInt16) : null.taken v = false := by
  simp [taken, null]

@[simp] theorem taken_jmp (v : UInt16) : jmp.taken v = true := by
  simp [taken, jmp]

theorem taken_jeq (v : UInt16) : jeq.taken v = decide (v = 0) := by
  by_cases h : v = 0 <;> simp [taken, jeq, h]

theorem taken_jlt (v : UInt16) : jlt.taken v = decide (v.toInt16 < 0) := by
  by_cases h : v = 0
  · simp [taken, jlt, h]
  · simp only [taken, jlt, h, if_false]
    split <;> simp_all

theorem taken_jge (v : UInt16) : jge.taken v = !decide (v.toInt16 < 0) := by
  by_cases h : v = 0
  · simp [taken, jge, h]
  · simp only [taken, jge, h, if_false]
    split <;> simp_all

theorem taken_jgt (v : UInt16) : jgt.taken v = !(decide (v = 0) || decide (v.toInt16 < 0)) := by
  by_cases h : v = 0
  · simp [taken, jgt, h]
  · simp only [taken, jgt, h, if_false]
    split <;> simp_all

end Jump

/-! ## Order -/

/-- A word whose sign tells the order of two words. -/
def orderWord (x y : UInt16) : UInt16 :=
  if x.toInt16 < 0 then (if y.toInt16 < 0 then x - y else 0xFFFF)
  else if y.toInt16 < 0 then 1 else x - y

/-- The order word is zero for equal words only. -/
theorem orderWord_eq_zero {x y : UInt16} : orderWord x y = 0 ↔ x = y := by
  have hx := x.toNat_lt
  have hy := y.toNat_lt
  have hsub : x - y = 0 ↔ x = y := by
    rw [← UInt16.toNat_inj, ← UInt16.toNat_inj, UInt16.toNat_sub]
    change _ = 0 ↔ _
    omega
  unfold orderWord
  by_cases h1 : x.toInt16 < 0 <;> by_cases h2 : y.toInt16 < 0 <;> simp only [h1, h2, if_true, if_false, hsub]
  · exact iff_of_false (by decide) (by rintro rfl; exact h2 h1)
  · exact iff_of_false (by decide) (by rintro rfl; exact h1 h2)

/-- The order word is negative if the first word is less. -/
theorem orderWord_lt_zero {x y : UInt16} : (orderWord x y).toInt16 < 0 ↔ x.toInt16 < y.toInt16 := by
  have hx := x.toNat_lt
  have hy := y.toNat_lt
  have hsub : (x - y).toNat = (65536 - y.toNat + x.toNat) % 65536 := UInt16.toNat_sub x y
  unfold orderWord
  rw [toInt16_lt]
  by_cases h1 : x.toInt16 < 0 <;> by_cases h2 : y.toInt16 < 0 <;> simp only [h1, h2, if_true, if_false] <;>
    rw [toInt16_lt_zero] at h1 h2
  · rw [toInt16_lt_zero, hsub]; split <;> split <;> omega
  · refine iff_of_true (by decide) ?_
    split <;> split <;> omega
  · refine iff_of_false (by decide) ?_
    split <;> split <;> omega
  · rw [toInt16_lt_zero, hsub]; split <;> split <;> omega

theorem toInt16_trichotomy {x y : UInt16} : ¬ (x = y ∨ x.toInt16 < y.toInt16) ↔ y.toInt16 < x.toInt16 := by
  have hx := x.toNat_lt
  have hy := y.toNat_lt
  rw [toInt16_lt, toInt16_lt, ← UInt16.toNat_inj]
  omega

namespace Jump

theorem taken_jeq_orderWord (x y : UInt16) : jeq.taken (orderWord x y) = decide (x = y) := by
  simp only [taken_jeq, orderWord_eq_zero]

theorem taken_jlt_orderWord (x y : UInt16) : jlt.taken (orderWord x y) = decide (x.toInt16 < y.toInt16) := by
  simp only [taken_jlt, orderWord_lt_zero]

theorem taken_jgt_orderWord (x y : UInt16) : jgt.taken (orderWord x y) = decide (y.toInt16 < x.toInt16) := by
  simp only [taken_jgt, orderWord_eq_zero, orderWord_lt_zero, ← Bool.decide_or, ← decide_not,
    toInt16_trichotomy]

end Jump

end Hack
