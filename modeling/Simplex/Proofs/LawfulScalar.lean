/-
  Laws that hold of rounded numbers as well.

  Over an ordered field all laws hold.  Most of them do not survive rounding, but negation and comparison do not round.
  What is left is collected here, for statements that are true of numbers of any kind.

  1. `LawfulScalar` — zero and one are equal to themselves, negation keeps a number finite and takes it to the other
     side of zero, and comparison is a strict order that only an undefined number stays out of.
  2. An ordered field has these laws.
  3. `unpack_pack_neg` — in any floating point format, a number that is negated has its sign changed and nothing else;
     `lt_iff_rank_lt` — numbers are compared by sign, exponent and mantissa, in this order.  So both precisions have
     these laws.
-/
import Mathlib
import Simplex.Proofs.Exact

namespace Simplex

/-- The laws of comparison and negation that hold of rounded numbers as well. -/
class LawfulScalar (F : Type) [Scalar F] : Prop where
  zero_beq_zero : ((0 : F) == 0) = true
  one_beq_one : ((1 : F) == 1) = true
  isFinite_neg : ∀ x : F, Scalar.isFinite x = true → Scalar.isFinite (-x) = true
  not_neg_lt_zero : ∀ x : F, x < 0 → ¬ -x < 0
  lt_irrefl : ∀ x : F, ¬ x < x
  lt_trans : ∀ x y z : F, x < y → y < z → x < z
  /-- Of two numbers that are apart, any third that is not undefined is above the lower or below the higher one. -/
  lt_or_lt : ∀ x y z w : F, x < z → y < w → x < y ∨ y < z

/-! ## Ordered fields -/

instance {F : Type} [Field F] [LinearOrder F] [IsStrictOrderedRing F] : LawfulScalar F where
  zero_beq_zero := beq_self_eq_true 0
  one_beq_one := beq_self_eq_true 1
  isFinite_neg _ _ := rfl
  not_neg_lt_zero _ hx := not_lt.2 (neg_nonneg.2 hx.le)
  lt_irrefl := lt_irrefl
  lt_trans _ _ _ := lt_trans
  lt_or_lt _ y _ _ hxz _ := (hxz.lt_or_gt y).symm

/-! ## Floating point formats -/

namespace Rounded

open Float.Model
open Float.Model.UnpackedFloat hiding unpack pack

/-- The bits with the other sign are those of the negated number. -/
theorem unpack_packComponents_neg {spec : Format} (b : BitVec spec.numBits) :
    UnpackedFloat.unpack spec (packComponents spec (-Sign.ofBitVec (unpackSign b)) (unpackExponent b)
      (unpackMantissa b)) = (UnpackedFloat.unpack spec b).neg := by
  simp only [UnpackedFloat.unpack, unpackMantissa_packComponents, unpackExponent_packComponents,
    unpackSign_packComponents, Sign.ofBitVec_toBitVec]
  split
  · split <;> rfl
  · split
    · split <;> rfl
    · rfl

/-- A number that is stored after its negation is read as the negated number. -/
theorem unpack_pack_neg {spec : Format} (hspec : 2 ≤ spec.exponentBits) (b : BitVec spec.numBits) :
    UnpackedFloat.unpack spec (UnpackedFloat.pack spec (UnpackedFloat.unpack spec b).neg) =
      (UnpackedFloat.unpack spec b).neg := by
  rw [← unpack_packComponents_neg, pack_unpack _ hspec]
  split
  · -- an undefined number has many forms and is stored in one of them
    rename_i hnan
    simp only [isNaNBits, decide_eq_true_eq] at hnan
    rw [unpack_packedNaN, UnpackedFloat.unpack, if_pos hnan.1, if_neg hnan.2]
  · rfl

theorem isFinite_neg {u : UnpackedFloat} (h : u.isFinite = true) : u.neg.isFinite = true := by
  cases u with
  | infinity sign => cases h
  | notANumber => cases h
  | zero sign => rfl
  | finite sign mantissa exponent hpos => rfl

theorem not_neg_lt_zero {u : UnpackedFloat} {sign : Sign} (h : u.lt (.zero sign) = true) :
    ¬ u.neg.lt (.zero sign) = true := by
  rcases u with (_ | _) | _ | _ | ⟨_ | _, _, _, _⟩
  · exact Bool.false_ne_true
  · cases h
  · cases h
  · cases h
  · exact Bool.false_ne_true
  · cases h

/-- Where a number stands in the order. -/
def rank : UnpackedFloat → ℤ ×ₗ ℤ ×ₗ ℤ
  | .infinity .negative => toLex (-2, toLex (0, 0))
  | .finite .negative mantissa exponent _ => toLex (-1, toLex (-exponent, -mantissa))
  | .zero _ | .notANumber => toLex (0, toLex (0, 0))
  | .finite .positive mantissa exponent _ => toLex (1, toLex (exponent, mantissa))
  | .infinity .positive => toLex (2, toLex (0, 0))

/-- Numbers are compared by where they stand, except for undefined ones. -/
theorem lt_iff_rank_lt {u v : UnpackedFloat} :
    u.lt v = true ↔ u ≠ .notANumber ∧ v ≠ .notANumber ∧ rank u < rank v := by
  have hsign : compare Sign.negative Sign.positive = .lt := rfl
  rcases u with (_ | _) | _ | _ | ⟨_ | _, _, _, _⟩ <;> rcases v with (_ | _) | _ | _ | ⟨_ | _, _, _, _⟩ <;>
    simp [UnpackedFloat.lt, UnpackedFloat.compare, rank, Prod.Lex.toLex_lt_toLex, hsign, Ordering.then_eq_lt,
      Ordering.then_eq_gt, compare_lt_iff_lt, compare_gt_iff_gt]

theorem not_lt_self (u : UnpackedFloat) : ¬ u.lt u = true := by
  intro h
  exact lt_irrefl _ (lt_iff_rank_lt.1 h).2.2

theorem lt_of_lt_of_lt {u v w : UnpackedFloat} (huv : u.lt v = true) (hvw : v.lt w = true) : u.lt w = true := by
  obtain ⟨hu, -, hlt⟩ := lt_iff_rank_lt.1 huv
  obtain ⟨-, hw, hlt'⟩ := lt_iff_rank_lt.1 hvw
  exact lt_iff_rank_lt.2 ⟨hu, hw, hlt.trans hlt'⟩

theorem lt_or_lt {u v w x : UnpackedFloat} (huw : u.lt w = true) (hvx : v.lt x = true) :
    u.lt v = true ∨ v.lt w = true := by
  obtain ⟨hu, hw, hlt⟩ := lt_iff_rank_lt.1 huw
  obtain ⟨hv, -, -⟩ := lt_iff_rank_lt.1 hvx
  rcases hlt.lt_or_gt (rank v) with hvw | huv
  · exact Or.inr (lt_iff_rank_lt.2 ⟨hv, hw, hvw⟩)
  · exact Or.inl (lt_iff_rank_lt.2 ⟨hu, hv, huv⟩)

/-- Numbers that are compared, negated and found finite in the form in which they are read have these laws. -/
theorem lawfulScalar_of_read {F : Type} [Scalar F] (read : F → UnpackedFloat)
    (hlt : ∀ x y : F, x < y ↔ (read x).lt (read y) = true) (hneg : ∀ x, read (-x) = (read x).neg)
    (hfinite : ∀ x, Scalar.isFinite x = (read x).isFinite) {sign : Sign} (hzero : read 0 = .zero sign)
    (h0 : ((0 : F) == 0) = true) (h1 : ((1 : F) == 1) = true) : LawfulScalar F where
  zero_beq_zero := h0
  one_beq_one := h1
  isFinite_neg x hx := by
    rw [hfinite] at hx ⊢
    rw [hneg]
    exact isFinite_neg hx
  not_neg_lt_zero x hx := by
    rw [hlt, hzero] at hx
    rw [hlt, hzero, hneg]
    exact not_neg_lt_zero hx
  lt_irrefl x := by
    rw [hlt]
    exact not_lt_self _
  lt_trans x y z hxy hyz := by
    rw [hlt] at hxy hyz ⊢
    exact lt_of_lt_of_lt hxy hyz
  lt_or_lt x y z w hxz hyw := by
    rw [hlt] at hxz hyw
    rw [hlt, hlt]
    exact lt_or_lt hxz hyw

end Rounded

/-! ## The two precisions -/

instance : LawfulScalar Float :=
  Rounded.lawfulScalar_of_read (fun x => x.toModel.unpack) (fun _ _ => decide_eq_true_iff)
    (fun _ => Rounded.unpack_pack_neg (by decide) _) (fun _ => rfl) rfl (by decide) (by decide)

instance : LawfulScalar Float32 :=
  Rounded.lawfulScalar_of_read (fun x => x.toModel.unpack) (fun _ _ => decide_eq_true_iff)
    (fun _ => Rounded.unpack_pack_neg (by decide) _) (fun _ => rfl) rfl (by decide) (by decide)

end Simplex
