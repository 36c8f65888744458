import ComponentStream.Number.Binary

/-!
# Doubles between others are finite

A double that lies strictly between two others is neither an infinity nor undefined, and so has a nearest whole number.  The
logical model of doubles takes their bits apart in its own way; both ways agree on what is finite.

* `isFinite_of_exponent_ne`, `unpack_of_not_isFinite` — the bits of a double that is not finite;
* `isFinite_of_lt_of_lt` — the double in the middle;
* `exists_round?_of_isFinite` — the whole number nearest to it.
-/

namespace ComponentStream.Number

open Float.Model (UnpackedFloat Format)

theorem isFinite_of_exponent_ne {x : Float} (h : x.toBits.toNat / Nat.pow 2 52 % Nat.pow 2 11 ≠ 2047) :
    isFinite x = true := by
  rw [isFinite, show view x = _ from if_neg h]
  by_cases hzero : x.toBits.toNat / Nat.pow 2 52 % Nat.pow 2 11 = 0
  · rw [if_pos hzero]
  · rw [if_neg hzero]

theorem toNat_unpackExponent (b : BitVec Format.binary64.numBits) :
    (UnpackedFloat.unpackExponent b).toNat = b.toNat / Nat.pow 2 52 % Nat.pow 2 11 := by
  rw [UnpackedFloat.unpackExponent, BitVec.toNat_cast, BitVec.extractLsb_toNat, Nat.shiftRight_eq_div_pow]
  rfl

theorem unpack_of_not_isFinite {x : Float} (h : isFinite x = false) :
    x.toModel.unpack = .notANumber ∨ ∃ s, x.toModel.unpack = .infinity s := by
  have hones : @UnpackedFloat.unpackExponent Format.binary64 x.toModel.toBits.toBitVec = -1#_ := by
    apply BitVec.eq_of_toNat_eq
    rw [toNat_unpackExponent]
    refine Classical.not_not.mp fun hne => ?_
    rw [isFinite_of_exponent_ne hne] at h
    cases h
  rw [show x.toModel.unpack = _ from if_pos hones]
  by_cases hzero : @UnpackedFloat.unpackMantissa Format.binary64 x.toModel.toBits.toBitVec = 0#_
  · exact .inr ⟨_, if_pos hzero⟩
  · exact .inl (if_neg hzero)

theorem lt_iff_compare {x y : Float} : x < y ↔ x.toModel.unpack.compare y.toModel.unpack = some .lt := by
  show decide (x.toModel.unpack.lt y.toModel.unpack = true) = true ↔ _
  rw [decide_eq_true_iff, UnpackedFloat.lt, beq_iff_eq]

/-- **A double that lies strictly between two others is finite.** -/
theorem isFinite_of_lt_of_lt {lo x hi : Float} (hlo : lo < x) (hhi : x < hi) : isFinite x = true := by
  rw [lt_iff_compare] at hlo hhi
  cases hx : isFinite x with
  | true => rfl
  | false =>
    rcases unpack_of_not_isFinite hx with hnan | ⟨s, hinf⟩
    · rw [hnan] at hhi
      cases hhi
    · rw [hinf] at hlo hhi
      cases s with
      | positive =>
        -- nothing is above
        cases hhi' : hi.toModel.unpack with
        | infinity s => cases s <;> rw [hhi'] at hhi <;> exact absurd hhi (by decide)
        | _ => rw [hhi'] at hhi; cases hhi
      | negative =>
        cases hlo' : lo.toModel.unpack with
        | infinity s => cases s <;> rw [hlo'] at hlo <;> exact absurd hlo (by decide)
        | _ => rw [hlo'] at hlo; cases hlo

theorem exists_round?_of_isFinite {x : Float} (h : isFinite x = true) : ∃ n, round? x = some n := by
  rw [isFinite] at h
  rw [round?]
  cases hview : view x with
  | finite negative m e => exact ⟨_, rfl⟩
  | _ =>
    rw [hview] at h
    cases h

end ComponentStream.Number
