/-
The rank of a floating point number.

A floating point number is kept in 64 bits, and whatever is done to it
first takes the bits apart into a sign, a mantissa and an exponent.  Two
numbers are compared by these parts: the signs first, then the exponents,
then the mantissas.  That is the order of the integers that one gets by
writing exponent and mantissa one after the other, because a number that
comes out of the bits has the one exponent its size allows.  Negation and
size change the sign only, and the parts survive being put back into bits.
-/
import LinProg.Proofs.Scalar.Ranked

namespace LinProg
namespace Scalar
namespace Binary64

open Float.Model (UnpackedFloat Format)
open Float.Model.UnpackedFloat

/-! ## The parts of a number -/

/-- The parts that the 64 bits of a number can stand for: a mantissa of 53 bits, or of fewer with
the least exponent. -/
inductive Parts : UnpackedFloat → Prop
  | undefined : Parts .notANumber
  | infinite (s : Sign) : Parts (.infinity s)
  | zero (s : Sign) : Parts (.zero s)
  | subnormal (s : Sign) {m : ℕ} (hm : 0 < m) (h : m < 2 ^ 52) : Parts (.finite s m (-1074) hm)
  | normal (s : Sign) {m : ℕ} {e : ℤ} (hm : 0 < m) (h : 2 ^ 52 ≤ m ∧ m < 2 ^ 53)
      (he : -1074 ≤ e ∧ e ≤ 971) : Parts (.finite s m e hm)

/-- The leading bit of a normal number is not stored. -/
theorem toNat_leading (v : BitVec 52) : (1#1 ++ v).toNat = 2 ^ 52 + v.toNat := by
  rw [BitVec.toNat_append, ← Nat.shiftLeft_add_eq_or_of_lt v.isLt]
  rfl

theorem parts_unpack (b : BitVec Format.binary64.numBits) : Parts (unpack .binary64 b) := by
  have hM : (unpackMantissa b).toNat < 2 ^ 52 := (unpackMantissa b).isLt
  have hE : (unpackExponent b).toNat < 2048 := (unpackExponent b).isLt
  simp only [unpack]
  split
  · split
    · exact .infinite _
    · exact .undefined
  · rename_i hspecial
    split
    · rename_i hzero
      split
      · exact .zero _
      · have he : ((unpackExponent b).toNat : ℤ) - (Format.binary64.exponentBias
            + Format.binary64.mantissaBitsWithoutImplicit) + 1 = -1074 := by
          rw [hzero]
          rfl
        simp only [he]
        exact .subnormal _ _ hM
    · rename_i hzero
      have hmax : (unpackExponent b).toNat ≠ 2047 := fun h => hspecial (BitVec.eq_of_toNat_eq h)
      have hmin : (unpackExponent b).toNat ≠ 0 := fun h => hzero (BitVec.eq_of_toNat_eq h)
      have hval := toNat_leading (unpackMantissa b)
      refine .normal _ _ ?_ ?_
      · show 2 ^ 52 ≤ (1#1 ++ unpackMantissa b).toNat ∧ (1#1 ++ unpackMantissa b).toNat < 2 ^ 53
        omega
      · show -1074 ≤ ((unpackExponent b).toNat : ℤ) - 1075 ∧
          ((unpackExponent b).toNat : ℤ) - 1075 ≤ 971
        omega

theorem Parts.neg {u : UnpackedFloat} (h : Parts u) : Parts u.neg := by
  cases h with
  | undefined => exact .undefined
  | infinite s => exact .infinite _
  | zero s => exact .zero _
  | subnormal s hm h => exact .subnormal _ hm h
  | normal s hm h he => exact .normal _ hm h he

theorem Parts.abs {u : UnpackedFloat} (h : Parts u) : Parts u.abs := by
  cases h with
  | undefined => exact .undefined
  | infinite s => exact .infinite _
  | zero s => exact .zero _
  | subnormal s hm h => exact .subnormal _ hm h
  | normal s hm h he => exact .normal _ hm h he

theorem Parts.bounds {s : Sign} {m : ℕ} {e : ℤ} {hm : 0 < m} (h : Parts (.finite s m e hm)) :
    m < 2 ^ 53 ∧ -1074 ≤ e ∧ e ≤ 971 := by
  cases h with
  | subnormal _ _ h => omega
  | normal _ _ h he => omega

/-! ## Putting the parts back -/

theorem sign_packComponents (s : Sign) (E : BitVec 11) (M : BitVec 52) :
    Sign.ofBitVec (unpackSign (packComponents .binary64 s E M)) = s := by
  have h : unpackSign (packComponents .binary64 s E M) = s.toBitVec := by
    simp only [unpackSign, packComponents, BitVec.extractLsb]
    rw [BitVec.extractLsb'_append_eq_of_le (by omega),
      BitVec.extractLsb'_append_eq_of_le (by omega)]
    cases s with
    | negative => rfl
    | positive => rfl
  rw [h]
  cases s with
  | negative => rfl
  | positive => rfl

theorem unpack_subnormal (s : Sign) {m : ℕ} (hm : 0 < m) (h : m < 2 ^ 52) :
    unpack .binary64 (packComponents .binary64 s 0#_ (BitVec.ofNat 52 m))
      = .finite s m (-1074) hm := by
  have hval : (BitVec.ofNat 52 m).toNat = m := by
    rw [BitVec.toNat_ofNat, Nat.mod_eq_of_lt h]
  have hne : BitVec.ofNat 52 m ≠ 0#52 := by
    intro hzero
    rw [hzero] at hval
    exact hm.ne hval
  simp only [unpack, unpackMantissa_packComponents, unpackExponent_packComponents,
    sign_packComponents]
  rw [if_neg (by decide), if_pos trivial, dif_neg hne]
  simp only [hval]
  rfl

theorem unpack_normal (s : Sign) {m E : ℕ} (hm : 0 < m) (h : 2 ^ 52 ≤ m ∧ m < 2 ^ 53)
    (hE : 1 ≤ E ∧ E ≤ 2046) :
    unpack .binary64 (packComponents .binary64 s (BitVec.ofNat 11 E) (BitVec.ofNat 52 m))
      = .finite s m (E - 1075) hm := by
  have hval : (BitVec.ofNat 11 E).toNat = E := by
    rw [BitVec.toNat_ofNat, Nat.mod_eq_of_lt (by omega)]
  have hspecial : BitVec.ofNat 11 E ≠ -1#_ := by
    intro h
    have : 2047 = E := (congrArg BitVec.toNat h).symm.trans hval
    omega
  have hzero : BitVec.ofNat 11 E ≠ 0#_ := by
    intro h
    rw [h] at hval
    have : 0 = E := hval
    omega
  have hmantissa : (1#1 ++ BitVec.ofNat 52 m).toNat = m := by
    rw [toNat_leading, BitVec.toNat_ofNat]
    omega
  simp only [unpack, unpackMantissa_packComponents, unpackExponent_packComponents,
    sign_packComponents]
  rw [if_neg hspecial, if_neg hzero]
  simp only [hval, hmantissa]
  rfl

theorem pack_subnormal (s : Sign) {m : ℕ} (hm : 0 < m) (h : m < 2 ^ 52) :
    pack .binary64 (.finite s m (-1074) hm)
      = packComponents .binary64 s 0#_ (BitVec.ofNat 52 m) := by
  have hlog : ¬ m.log2 + 1 = 53 := by
    have := (Nat.log2_lt hm.ne').mpr h
    omega
  simp only [pack]
  rw [if_neg (by decide)]
  exact if_neg hlog

theorem pack_normal (s : Sign) {m E : ℕ} (hm : 0 < m) (h : 2 ^ 52 ≤ m ∧ m < 2 ^ 53)
    (hE : 1 ≤ E ∧ E ≤ 2046) :
    pack .binary64 (.finite s m (E - 1075) hm)
      = packComponents .binary64 s (BitVec.ofNat 11 E) (BitVec.ofNat 52 m) := by
  have hlog : m.log2 + 1 = 53 := by
    have hlower := (Nat.le_log2 hm.ne').mpr h.1
    have hupper := (Nat.log2_lt hm.ne').mpr h.2
    omega
  have hbiased : ((E : ℤ) - 1075 + Format.binary64.exponentBias
      + Format.binary64.mantissaBitsWithoutImplicit).toNat = E := by
    show ((E : ℤ) - 1075 + (1023 : ℕ) + (52 : ℕ)).toNat = E
    omega
  have hfits : ¬ 2048 ≤ E + 1 := by omega
  simp only [pack, hbiased]
  rw [if_neg hfits]
  exact if_pos hlog

/-- Nothing is lost when the parts of a number are put into bits again. -/
theorem Parts.unpack_pack {u : UnpackedFloat} (h : Parts u) :
    unpack .binary64 (pack .binary64 u) = u := by
  cases h with
  | undefined => rfl
  | infinite s =>
      cases s with
      | negative => rfl
      | positive => rfl
  | zero s =>
      cases s with
      | negative => rfl
      | positive => rfl
  | subnormal s hm h => rw [pack_subnormal s hm h, unpack_subnormal s hm h]
  | normal s hm h he =>
      rename_i m e
      obtain ⟨E, rfl⟩ : ∃ E : ℕ, e = E - 1075 := ⟨(e + 1075).toNat, by omega⟩
      rw [pack_normal s hm h (by omega), unpack_normal s hm h (by omega)]

/-! ## Places -/

def partsPlace? : UnpackedFloat → Option ℤ
  | .notANumber => none
  | .infinity s => some (s.apply (2 ^ 64))
  | .zero _ => some 0
  | .finite s m e _ => some (s.apply ((e + 1074) * 2 ^ 53 + m))

theorem partsPlace?_neg (u : UnpackedFloat) :
    partsPlace? u.neg = (partsPlace? u).map Neg.neg := by
  cases u with
  | notANumber => rfl
  | infinity s =>
      cases s with
      | negative => rfl
      | positive => rfl
  | zero s => rfl
  | finite s m e hm =>
      cases s with
      | negative => exact congrArg some (neg_neg _).symm
      | positive => rfl

theorem Parts.partsPlace?_abs {u : UnpackedFloat} (h : Parts u) :
    partsPlace? u.abs = (partsPlace? u).map fun a => |a| := by
  cases u with
  | notANumber => rfl
  | infinity s =>
      cases s with
      | negative => rfl
      | positive => rfl
  | zero s => rfl
  | finite s m e hm =>
      have hpos : 0 < (e + 1074) * 2 ^ 53 + (m : ℤ) := by
        have hbounds := h.bounds
        omega
      cases s with
      | negative => exact congrArg some ((abs_neg _).trans (abs_of_pos hpos)).symm
      | positive => exact congrArg some (abs_of_pos hpos).symm

theorem compare_eq_of_lt {a b : ℤ} (h : a < b) : compare a b = .lt := compare_lt_iff_lt.mpr h

theorem compare_eq_of_gt {a b : ℤ} (h : b < a) : compare a b = .gt := compare_gt_iff_gt.mpr h

theorem compare_neg (a b : ℤ) : compare (-a) (-b) = (compare a b).swap := by
  rcases lt_trichotomy a b with h | rfl | h
  · rw [compare_eq_of_lt h, compare_eq_of_gt (neg_lt_neg h)]
    rfl
  · rw [compare_eq_iff_eq.mpr (rfl : a = a), compare_eq_iff_eq.mpr (rfl : -a = -a)]
    rfl
  · rw [compare_eq_of_gt h, compare_eq_of_lt (neg_lt_neg h)]
    rfl

/-- Exponents weigh more than mantissas. -/
theorem compare_then {m m' : ℕ} {e e' : ℤ} (hm : m < 2 ^ 53) (hm' : m' < 2 ^ 53) :
    (compare e e').then (compare m m')
      = compare ((e + 1074) * 2 ^ 53 + (m : ℤ)) ((e' + 1074) * 2 ^ 53 + (m' : ℤ)) := by
  rcases lt_trichotomy e e' with h | rfl | h
  · rw [compare_eq_of_lt h, compare_eq_of_lt (a := (e + 1074) * 2 ^ 53 + m) (by omega)]
    rfl
  · rw [compare_eq_iff_eq.mpr (rfl : e = e)]
    rcases lt_trichotomy m m' with h | rfl | h
    · rw [compare_eq_of_lt (a := (e + 1074) * 2 ^ 53 + m) (by omega)]
      exact compare_lt_iff_lt.mpr h
    · rw [compare_eq_iff_eq.mpr (rfl : m = m)]
      exact (compare_eq_iff_eq.mpr rfl).symm
    · rw [compare_eq_of_gt (a := (e + 1074) * 2 ^ 53 + m) (by omega)]
      exact compare_gt_iff_gt.mpr h
  · rw [compare_eq_of_gt h, compare_eq_of_gt (a := (e + 1074) * 2 ^ 53 + m) (by omega)]
    rfl

/-- Numbers are compared by their places. -/
theorem Parts.compare {u v : UnpackedFloat} (hu : Parts u) (hv : Parts v) :
    u.compare v
      = (partsPlace? u).bind fun a => (partsPlace? v).map fun b => Ord.compare a b := by
  cases u with
  | notANumber => cases v <;> rfl
  | infinity s =>
      cases v with
      | notANumber => cases s <;> rfl
      | infinity t => cases s <;> cases t <;> rfl
      | zero t => cases s <;> rfl
      | finite t m e hm =>
          have hbounds := hv.bounds
          cases s <;> cases t <;>
            simp only [UnpackedFloat.compare, partsPlace?, Sign.apply, Option.bind_some,
              Option.map_some]
          · rw [compare_eq_of_lt (by omega)]
          · rw [compare_eq_of_lt (by omega)]
          · rw [compare_eq_of_gt (by omega)]
          · rw [compare_eq_of_gt (by omega)]
  | zero s =>
      cases v with
      | notANumber => rfl
      | infinity t => cases t <;> rfl
      | zero t => rfl
      | finite t m e hm =>
          have hbounds := hv.bounds
          cases t <;>
            simp only [UnpackedFloat.compare, partsPlace?, Sign.apply, Option.bind_some,
              Option.map_some]
          · rw [compare_eq_of_gt (by omega)]
          · rw [compare_eq_of_lt (by omega)]
  | finite s m e hm =>
      have hbounds := hu.bounds
      cases v with
      | notANumber => cases s <;> rfl
      | infinity t =>
          cases s <;> cases t <;>
            simp only [UnpackedFloat.compare, partsPlace?, Sign.apply, Option.bind_some,
              Option.map_some]
          · rw [compare_eq_of_gt (by omega)]
          · rw [compare_eq_of_lt (by omega)]
          · rw [compare_eq_of_gt (by omega)]
          · rw [compare_eq_of_lt (by omega)]
      | zero t =>
          cases s <;>
            simp only [UnpackedFloat.compare, partsPlace?, Sign.apply, Option.bind_some,
              Option.map_some]
          · rw [compare_eq_of_lt (by omega)]
          · rw [compare_eq_of_gt (by omega)]
      | finite t m' e' hm' =>
          have hbounds' := hv.bounds
          cases s <;> cases t <;>
            simp only [UnpackedFloat.compare, partsPlace?, Sign.apply, Option.bind_some,
              Option.map_some]
          · rw [compare_then hbounds.1 hbounds'.1, compare_neg]
          · rw [compare_eq_of_lt (by omega)]
          · rw [compare_eq_of_gt (by omega)]
          · rw [compare_then hbounds.1 hbounds'.1]

/-! ## Floating point numbers -/

/-- The place of a floating point number among all of them. -/
def place? (x : Float) : Option ℤ := partsPlace? x.toModel.unpack

variable (x y : Float)

theorem place?_zero : place? 0.0 = some 0 := by decide +kernel

theorem place?_neg : place? (-x) = (place? x).map Neg.neg := by
  have hparts : (-x).toModel.unpack = x.toModel.unpack.neg := (parts_unpack _).neg.unpack_pack
  rw [place?, hparts, partsPlace?_neg]
  rfl

theorem place?_abs : place? x.abs = (place? x).map fun a => |a| := by
  have hparts : x.abs.toModel.unpack = x.toModel.unpack.abs := (parts_unpack _).abs.unpack_pack
  rw [place?, hparts]
  exact (parts_unpack _).partsPlace?_abs

def order? : Option Ordering := x.toModel.unpack.compare y.toModel.unpack

theorem order?_eq : order? x y = (place? x).bind fun a => (place? y).map (compare a) :=
  (parts_unpack _).compare (parts_unpack _)

theorem order?_eq_some {o : Ordering} :
    order? x y = some o ↔ ∃ a ∈ place? x, ∃ b ∈ place? y, compare a b = o := by
  simp only [order?_eq, Option.bind_eq_some_iff, Option.map_eq_some_iff, Option.mem_def]

theorem lt_iff_order? : x < y ↔ order? x y = some .lt := by
  show (decide ((order? x y == some .lt) = true)) = true ↔ _
  rw [decide_eq_true_iff, beq_iff_eq]

theorem le_iff_order? : x ≤ y ↔ ∃ o ∈ order? x y, o.isLE = true := by
  show (decide ((order? x y).any Ordering.isLE = true)) = true ↔ _
  rw [decide_eq_true_iff, Option.any_eq_true]
  rfl

theorem beq_iff_order? : (x == y) = true ↔ order? x y = some .eq := by
  show (order? x y == some .eq) = true ↔ _
  rw [beq_iff_eq]

theorem lt_iff_place? : x < y ↔ ∃ a ∈ place? x, ∃ b ∈ place? y, a < b := by
  simp only [lt_iff_order?, order?_eq_some, compare_lt_iff_lt]

theorem le_iff_place? : x ≤ y ↔ ∃ a ∈ place? x, ∃ b ∈ place? y, a ≤ b := by
  rw [le_iff_order?]
  constructor
  · rintro ⟨o, ho, hle⟩
    obtain ⟨a, ha, b, hb, rfl⟩ := (order?_eq_some x y).mp ho
    exact ⟨a, ha, b, hb, Std.isLE_compare.mp hle⟩
  · rintro ⟨a, ha, b, hb, hle⟩
    exact ⟨compare a b, (order?_eq_some x y).mpr ⟨a, ha, b, hb, rfl⟩, Std.isLE_compare.mpr hle⟩

theorem beq_iff_place? : (x == y) = true ↔ ∃ a ∈ place? x, a ∈ place? y := by
  rw [beq_iff_order?, order?_eq_some]
  constructor
  · rintro ⟨a, ha, b, hb, heq⟩
    obtain rfl := compare_eq_iff_eq.mp heq
    exact ⟨a, ha, hb⟩
  · rintro ⟨a, ha, hb⟩
    exact ⟨a, ha, a, hb, compare_eq_iff_eq.mpr rfl⟩

end Binary64

open Binary64 in
instance : Ranked Float where
  rank? x := (place? x).map Int.cast
  lt_iff x y := by
    simp [lt_iff_place?]
  le_iff x y := by
    simp [le_iff_place?]
  beq_iff x y := by
    simp [beq_iff_place?]
  rank?_zero := congrArg (Option.map Int.cast) place?_zero
  rank?_neg x := by
    rw [place?_neg, Option.map_map, Option.map_map]
    exact congrArg (Option.map · _) (funext fun a => Int.cast_neg a)
  rank?_abs x := by
    show (place? x.abs).map Int.cast = _
    rw [place?_abs, Option.map_map, Option.map_map]
    exact congrArg (Option.map · _) (funext fun a => Int.cast_abs)

end Scalar
end LinProg
