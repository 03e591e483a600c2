import Mathlib

/-!
# Fixed-width integers in byte strings

Little-endian encodings of natural numbers and the reduction of integers to
a signed machine word.  Nothing in this file depends on a particular format.
-/

namespace OpenRecovery

abbrev Bytes := List UInt8

namespace Words

/-- The number whose little-endian digits are the given bytes. -/
def leNat : Bytes → Nat
  | [] => 0
  | byte :: bytes => byte.toNat + 256 * leNat bytes

/-- The first `count` little-endian digits of a number. -/
def leBytes : (count value : Nat) → Bytes
  | 0, _ => []
  | count + 1, value => UInt8.ofNat value :: leBytes count (value / 256)

@[simp] theorem leBytes_length (count value : Nat) : (leBytes count value).length = count := by
  induction count generalizing value with
  | zero => rfl
  | succ count ih => rw [leBytes, List.length_cons, ih]

theorem leNat_leBytes (count value : Nat) :
    leNat (leBytes count value) = value % 256 ^ count := by
  induction count generalizing value with
  | zero => simp [leBytes, leNat, Nat.mod_one]
  | succ count ih =>
      rw [leBytes, leNat, ih, Nat.pow_succ, Nat.mul_comm _ 256, Nat.mod_mul]
      simp

theorem leNat_leBytes_of_lt {count value : Nat} (hlt : value < 256 ^ count) :
    leNat (leBytes count value) = value := by
  rw [leNat_leBytes, Nat.mod_eq_of_lt hlt]

theorem leNat_lt (bytes : Bytes) : leNat bytes < 256 ^ bytes.length := by
  induction bytes with
  | nil => simp [leNat]
  | cons byte bytes ih =>
      have hbyte := byte.toNat_lt
      rw [leNat, List.length_cons, Nat.pow_succ]
      omega

/-- Reduce to a signed word of 32 bits. -/
@[irreducible] def wrap32 (value : Int) : Int :=
  value.bmod (2 ^ 32)

theorem wrap32_of_range {value : Int} (hlow : -2 ^ 31 ≤ value) (hhigh : value < 2 ^ 31) :
    wrap32 value = value := by
  unfold wrap32
  rw [Int.bmod_eq_of_le]
  · norm_num at hlow ⊢
    omega
  · norm_num at hhigh ⊢
    omega

theorem wrap32_range (value : Int) : -2 ^ 31 ≤ wrap32 value ∧ wrap32 value < 2 ^ 31 := by
  have hlow := Int.le_bmod (x := value) (m := 2 ^ 32) (by norm_num)
  have hhigh := Int.bmod_lt (x := value) (m := 2 ^ 32) (by norm_num)
  unfold wrap32
  norm_num at hlow hhigh ⊢
  omega

theorem wrap32_nonneg_iff (value : Int) : 0 ≤ wrap32 value ↔ value % 2 ^ 32 < 2 ^ 31 := by
  unfold wrap32
  rw [Int.bmod_def]
  norm_num
  omega

theorem wrap32_wrap32 (value : Int) : wrap32 (wrap32 value) = wrap32 value :=
  wrap32_of_range (wrap32_range value).1 (wrap32_range value).2

theorem wrap32_wrap32_sub (value other : Int) :
    wrap32 (wrap32 value - other) = wrap32 (value - other) := by
  unfold wrap32
  rw [Int.bmod_sub_bmod]

theorem wrap32_wrap32_add (value other : Int) :
    wrap32 (wrap32 value + other) = wrap32 (value + other) := by
  unfold wrap32
  rw [Int.bmod_add_bmod]

/-- A word that is read without its sign. -/
theorem wrap32_emod (value : Int) : wrap32 value % 2 ^ 32 = value % 2 ^ 32 := by
  unfold wrap32
  exact Int.bmod_emod

theorem wrap32_of_high {value : Int} (hlow : 2 ^ 31 ≤ value) (hhigh : value ≤ 2 ^ 32) :
    wrap32 value = value - 2 ^ 32 := by
  have hsub := @wrap32_of_range (value - 2 ^ 32) (by omega) (by omega)
  rw [← hsub]
  unfold wrap32
  exact (Int.sub_bmod_right value (2 ^ 32)).symm

end Words

end OpenRecovery
