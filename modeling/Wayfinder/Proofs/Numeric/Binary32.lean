import Mathlib

/-!
# Binary32 floats: their order, and adding one

A `Float32` is a bit pattern read through the IEEE model: comparisons and arithmetic unpack the bits
into a sign, a mantissa and an exponent, compute there, round, and pack the result. This module
proves the two facts about that model that percentages rest on.

*Order.* Away from NaN, comparing two floats is comparing their `place` on the extended number line:
a triple ordered lexicographically, the class of the value first (−∞, negative, zero, positive, +∞),
then the exponent and the mantissa, negated below zero (`Float32.lt_iff_place`,
`Float32.le_iff_place`, `Float32.beq_iff_place`). So `<` and `≤` chain as in a linear order, and a
comparison with NaN is false.

*Adding one.* A mantissa of `24 + k` bits rounds to a normal number that keeps the exponent and at
least the truncated mantissa, or carries into the next exponent (`Binary32.round_of_binade`); normal
numbers survive packing (`Binary32.unpack_pack_normal`). Adding one to a float from zero up to
`2 ^ 24` gives a larger exponent, or the same exponent and a larger mantissa (`Binary32.add_one`), so
`a < a + 1` there (`Float32.lt_add_one`).
-/

namespace Wayfinder

open Float.Model Float.Model.UnpackedFloat

/-! ## Order -/

/-- Where a float lies on the extended number line. Finite floats are compared by exponent, then
mantissa; below zero both are negated. NaN is given a place, but no comparison looks at it. -/
def UnpackedFloat.place : UnpackedFloat → ℤ ×ₗ ℤ ×ₗ ℤ
  | .infinity .negative => toLex (0, toLex (0, 0))
  | .finite .negative m e _ => toLex (1, toLex (-e, -(m : ℤ)))
  | .zero _ => toLex (2, toLex (0, 0))
  | .finite .positive m e _ => toLex (3, toLex (e, (m : ℤ)))
  | .infinity .positive => toLex (4, toLex (0, 0))
  | .notANumber => toLex (5, toLex (0, 0))

theorem UnpackedFloat.compare_eq_place {x y : UnpackedFloat} (hx : x.isNaN = false)
    (hy : y.isNaN = false) :
    x.compare y = some (compare (UnpackedFloat.place x) (UnpackedFloat.place y)) := by
  have hcast : ∀ a b : Nat, compare (a : ℤ) (b : ℤ) = compare a b := fun a b => by
    rw [← cmp_eq_compare, ← cmp_eq_compare, Nat.strictMono_cast.cmp_map_eq]
  have hanti : StrictAnti (fun x : ℤ => -x) := fun _ _ h => Int.neg_lt_neg h
  have hneg : ∀ a b : ℤ, compare (-a) (-b) = compare b a := fun a b => by
    rw [← cmp_eq_compare, ← cmp_eq_compare]
    exact hanti.cmp_map_eq a b
  rcases x with s | _ | s | ⟨s, m, e, hm⟩ <;> rcases y with t | _ | t | ⟨t, m', e', hm'⟩ <;>
    (try cases s) <;> (try cases t) <;>
    simp only [UnpackedFloat.isNaN, Bool.true_eq_false] at hx hy <;> try rfl
  -- two finite floats of one sign: the exponent decides, then the mantissa
  · show some ((compare e e').then (compare m m')).swap =
      some ((compare (1 : ℤ) 1).then ((compare (-e) (-e')).then (compare (-(m : ℤ)) (-(m' : ℤ)))))
    rw [hneg, hneg, hcast, Ordering.swap_then, ← Std.OrientedOrd.eq_swap,
      ← Std.OrientedOrd.eq_swap]
    rfl
  · show some ((compare e e').then (compare m m')) =
      some ((compare (3 : ℤ) 3).then ((compare e e').then (compare (m : ℤ) (m' : ℤ))))
    rw [hcast]
    rfl

/-- NaN compares with nothing. -/
theorem UnpackedFloat.compare_eq_none {x y : UnpackedFloat}
    (h : x.isNaN = true ∨ y.isNaN = true) : x.compare y = none := by
  rcases h with h | h
  · cases x <;> first | rfl | cases h
  · rcases x with s | _ | s | ⟨s, m, e, hm⟩ <;> cases y <;> (try cases s) <;> first | rfl | cases h

/-- Where a `Float32` lies on the extended number line. -/
def Float32.place (x : Float32) : ℤ ×ₗ ℤ ×ₗ ℤ := UnpackedFloat.place x.toModel.unpack

/-- Away from NaN, comparing two floats is comparing their places; with a NaN there is no
answer. -/
theorem Float32.compare_unpack (x y : Float32) :
    x.toModel.unpack.compare y.toModel.unpack =
      if x.isNaN = false ∧ y.isNaN = false then some (compare (Float32.place x) (Float32.place y))
      else none := by
  split_ifs with h
  · exact UnpackedFloat.compare_eq_place h.1 h.2
  · refine UnpackedFloat.compare_eq_none ?_
    cases hx : x.isNaN
    · cases hy : y.isNaN
      · exact absurd ⟨hx, hy⟩ h
      · exact .inr hy
    · exact .inl hx

theorem Float32.lt_iff_place {x y : Float32} :
    x < y ↔ x.isNaN = false ∧ y.isNaN = false ∧ Float32.place x < Float32.place y := by
  rw [show x < y ↔ x.toModel.unpack.lt y.toModel.unpack = true from decide_eq_true_iff,
    UnpackedFloat.lt, beq_iff_eq, Float32.compare_unpack]
  split_ifs with h
  · rw [Option.some_inj, compare_lt_iff_lt]
    exact ⟨fun hl => ⟨h.1, h.2, hl⟩, fun hl => hl.2.2⟩
  · exact iff_of_false id fun h' => h ⟨h'.1, h'.2.1⟩

theorem Float32.le_iff_place {x y : Float32} :
    x ≤ y ↔ x.isNaN = false ∧ y.isNaN = false ∧ Float32.place x ≤ Float32.place y := by
  rw [show x ≤ y ↔ x.toModel.unpack.le y.toModel.unpack = true from decide_eq_true_iff,
    UnpackedFloat.le, Float32.compare_unpack]
  split_ifs with h
  · rw [Option.any_some, Ordering.isLE_iff_ne_gt]
    exact ⟨fun hl => ⟨h.1, h.2, compare_le_iff_le.1 hl⟩, fun hl => compare_le_iff_le.2 hl.2.2⟩
  · exact iff_of_false (fun e => Bool.false_ne_true e) fun h' => h ⟨h'.1, h'.2.1⟩

theorem Float32.beq_iff_place {x y : Float32} :
    (x == y) = true ↔ x.isNaN = false ∧ y.isNaN = false ∧ Float32.place x = Float32.place y := by
  rw [show (x == y) = (x.toModel.unpack.compare y.toModel.unpack == some .eq) from rfl, beq_iff_eq,
    Float32.compare_unpack]
  split_ifs with h
  · rw [Option.some_inj, compare_eq_iff_eq]
    exact ⟨fun hl => ⟨h.1, h.2, hl⟩, fun hl => hl.2.2⟩
  · exact iff_of_false id fun h' => h ⟨h'.1, h'.2.1⟩

theorem Float32.lt_of_lt_of_le {x y z : Float32} (h₁ : x < y) (h₂ : y ≤ z) : x < z := by
  rw [Float32.lt_iff_place] at h₁ ⊢
  rw [Float32.le_iff_place] at h₂
  exact ⟨h₁.1, h₂.2.1, h₁.2.2.trans_le h₂.2.2⟩

theorem Float32.lt_of_le_of_lt {x y z : Float32} (h₁ : x ≤ y) (h₂ : y < z) : x < z := by
  rw [Float32.lt_iff_place] at h₂ ⊢
  rw [Float32.le_iff_place] at h₁
  exact ⟨h₁.1, h₂.2.1, h₁.2.2.trans_lt h₂.2.2⟩

theorem Float32.le_of_lt {x y : Float32} (h : x < y) : x ≤ y := by
  rw [Float32.lt_iff_place] at h
  exact Float32.le_iff_place.2 ⟨h.1, h.2.1, h.2.2.le⟩

theorem Float32.lt_trans {x y z : Float32} (h₁ : x < y) (h₂ : y < z) : x < z :=
  Float32.lt_of_lt_of_le h₁ (Float32.le_of_lt h₂)

/-- A float that compares at most another is not NaN, and neither is the other. -/
theorem Float32.not_nan_of_le {x y : Float32} (h : x ≤ y) : x.isNaN = false ∧ y.isNaN = false :=
  ⟨(Float32.le_iff_place.1 h).1, (Float32.le_iff_place.1 h).2.1⟩

/-- A float at most another is not greater than it. -/
theorem Float32.not_lt_of_le {x y : Float32} (h : x ≤ y) : ¬y < x := by
  rw [Float32.le_iff_place] at h
  rw [Float32.lt_iff_place]
  exact fun h' => absurd h.2.2 (not_le.2 h'.2.2)

/-- Two floats that are not NaN are ordered one way or the other. -/
theorem Float32.le_of_not_lt {x y : Float32} (hx : x.isNaN = false) (hy : y.isNaN = false)
    (h : ¬y < x) : x ≤ y :=
  Float32.le_iff_place.2 ⟨hx, hy, not_lt.1 fun h' => h (Float32.lt_iff_place.2 ⟨hy, hx, h'⟩)⟩

/-- Two floats are equal exactly when each is at most the other. -/
theorem Float32.beq_iff_le_le {x y : Float32} : (x == y) = true ↔ x ≤ y ∧ y ≤ x := by
  rw [Float32.beq_iff_place, Float32.le_iff_place, Float32.le_iff_place]
  constructor
  · rintro ⟨hx, hy, h⟩
    exact ⟨⟨hx, hy, h.le⟩, ⟨hy, hx, h.ge⟩⟩
  · rintro ⟨⟨hx, hy, h₁⟩, ⟨-, -, h₂⟩⟩
    exact ⟨hx, hy, le_antisymm h₁ h₂⟩

/-! ## Rounding in the normal range -/

theorem ExtendedMantissa.shiftRight_mantissa (em : ExtendedMantissa) (k : Nat) :
    (em >>> k).mantissa = em.mantissa / 2 ^ k := by
  induction k with
  | zero => simp only [Nat.pow_zero, Nat.div_one]; rfl
  | succ k ih =>
    show (em >>> k).mantissa / 2 = _
    rw [ih, Nat.div_div_eq_div_mul, Nat.pow_succ]

/-- Rounding to nearest keeps the truncated mantissa or adds one to it. -/
theorem ExtendedMantissa.roundedMantissa_bounds (em : ExtendedMantissa) :
    em.mantissa ≤ em.roundedMantissa ∧ em.roundedMantissa ≤ em.mantissa + 1 := by
  rcases em with ⟨m, _ | _, _ | _⟩ <;>
    simp only [ExtendedMantissa.roundedMantissa, ExtendedMantissa.accuracy,
      Accuracy.roundToNearestEven] <;> omega

theorem shiftToExponent_mantissa (m : Nat) (e : Int) (acc : Accuracy) (t : Int) :
    (shiftToExponent m e acc t).1.mantissa = m / 2 ^ (t - e).toNat := by
  rw [shiftToExponent, ExtendedMantissa.shiftRight_mantissa]
  congr 1
  rcases acc with _ | _ | _ | _ <;> rfl

theorem normalize_natCast {spec : Format} {M : Nat} (hM : 0 < M) (e : Int) (z : Sign) :
    UnpackedFloat.normalize spec M e z = UnpackedFloat.round spec .positive M e := by
  have hpos : compare (M : Int) 0 = .gt := Int.compare_eq_gt.2 (by omega)
  simp only [UnpackedFloat.normalize, hpos, Int.toNat_natCast]

namespace Binary32

/-- A mantissa of `24 + k` bits, at exponent `E`, is given exponent `E + k` when that is not below
the least one. -/
theorem targetExponent_of_binade {M k : Nat} {E : Int}
    (hlo : 2 ^ (23 + k) ≤ M) (hhi : M < 2 ^ (24 + k)) (hE : -149 ≤ E + k) :
    Format.binary32.targetExponent (totalExponent M E) = E + k := by
  have hM : M ≠ 0 := Nat.ne_of_gt (Nat.lt_of_lt_of_le (Nat.two_pow_pos _) hlo)
  have hlog : M.log2 = 23 + k := by
    have hup : M.log2 < 24 + k := (Nat.log2_lt hM).2 hhi
    have hdown : 23 + k ≤ M.log2 := (Nat.le_log2 hM).2 hlo
    omega
  simp only [Format.targetExponent, totalExponent, hlog]
  show max ((23 + k : Nat) + 1 + E - 24) (-149) = E + k
  omega

theorem shiftToTargetExponent_of_binade {M k : Nat} {E : Int} (acc : Accuracy)
    (hlo : 2 ^ (23 + k) ≤ M) (hhi : M < 2 ^ (24 + k)) (hE : -149 ≤ E + k) :
    (shiftToTargetExponent .binary32 M E acc).1.mantissa = M / 2 ^ k ∧
      (shiftToTargetExponent .binary32 M E acc).2 = E + k := by
  simp only [shiftToTargetExponent, targetExponent_of_binade hlo hhi hE]
  refine ⟨?_, ?_⟩
  · rw [shiftToExponent_mantissa]
    congr 2
    omega
  · show E + (E + k - E).toNat = E + k
    omega

theorem div_two_pow_of_binade {M k : Nat} (hlo : 2 ^ (23 + k) ≤ M) (hhi : M < 2 ^ (24 + k)) :
    2 ^ 23 ≤ M / 2 ^ k ∧ M / 2 ^ k < 2 ^ 24 := by
  refine ⟨(Nat.le_div_iff_mul_le (Nat.two_pow_pos k)).2 ?_,
    (Nat.div_lt_iff_lt_mul (Nat.two_pow_pos k)).2 ?_⟩
  · rwa [← Nat.pow_add]
  · rwa [← Nat.pow_add]

/-- Rounding a mantissa of `24 + k` bits in the normal range gives 24 bits, either at exponent
`E + k` and at least the truncated mantissa, or carried into the next exponent. -/
theorem roundWithAccuracy_of_binade (s : Sign) {M k : Nat} {E : Int}
    (hlo : 2 ^ (23 + k) ≤ M) (hhi : M < 2 ^ (24 + k)) (hE : -149 ≤ E + k) :
    ∃ mR eR h, roundWithAccuracy .binary32 s M E .exact = .finite s mR eR h ∧
      2 ^ 23 ≤ mR ∧ mR < 2 ^ 24 ∧ ((eR = E + k ∧ M / 2 ^ k ≤ mR) ∨ eR = E + k + 1) := by
  obtain ⟨hm₁, he₁⟩ := shiftToTargetExponent_of_binade .exact hlo hhi hE
  obtain ⟨hq_lo, hq_hi⟩ := div_two_pow_of_binade hlo hhi
  generalize hfirst : shiftToTargetExponent .binary32 M E .exact = first at hm₁ he₁
  rcases first with ⟨em, e₁⟩
  dsimp only at hm₁ he₁
  have hr := ExtendedMantissa.roundedMantissa_bounds em
  rw [hm₁] at hr
  rw [roundWithAccuracy, hfirst]
  dsimp only
  by_cases hsmall : em.roundedMantissa < 2 ^ 24
  · -- no carry: the rounded mantissa already has 24 bits, and the second shift does nothing
    obtain ⟨hm₂, he₂⟩ := shiftToTargetExponent_of_binade (k := 0) .exact
      (M := em.roundedMantissa) (E := e₁) (by omega) (by omega) (by omega)
    generalize shiftToTargetExponent .binary32 em.roundedMantissa e₁ .exact = second at hm₂ he₂
    rcases second with ⟨fem, fe⟩
    dsimp only at hm₂ he₂ ⊢
    rw [Nat.pow_zero, Nat.div_one] at hm₂
    have hne : fem.mantissa ≠ 0 := by omega
    exact ⟨fem.mantissa, fe, Nat.pos_of_ne_zero hne, dif_neg hne, by omega, by omega,
      .inl ⟨by omega, by omega⟩⟩
  · -- the carry: rounding up reached `2 ^ 24`, and one more bit is shifted out
    have hcarry : em.roundedMantissa = 2 ^ 24 := by omega
    obtain ⟨hm₂, he₂⟩ := shiftToTargetExponent_of_binade (k := 1) .exact
      (M := em.roundedMantissa) (E := e₁) (by omega) (by omega) (by omega)
    generalize shiftToTargetExponent .binary32 em.roundedMantissa e₁ .exact = second at hm₂ he₂
    rcases second with ⟨fem, fe⟩
    dsimp only at hm₂ he₂ ⊢
    rw [hcarry] at hm₂
    have hne : fem.mantissa ≠ 0 := by omega
    exact ⟨fem.mantissa, fe, Nat.pos_of_ne_zero hne, dif_neg hne, by omega, by omega,
      .inr (by omega)⟩

theorem round_of_binade (s : Sign) {M k : Nat} {E : Int}
    (hlo : 2 ^ (23 + k) ≤ M) (hhi : M < 2 ^ (24 + k)) (hE : -149 ≤ E + k) :
    ∃ mR eR h, UnpackedFloat.round .binary32 s M E = .finite s mR eR h ∧
      2 ^ 23 ≤ mR ∧ mR < 2 ^ 24 ∧ ((eR = E + k ∧ M / 2 ^ k ≤ mR) ∨ eR = E + k + 1) := by
  -- the mantissa is wide enough already: nothing is shifted in before rounding
  have hkeep : decreaseExponent M E (E + k) = (M, E) := by
    simp only [decreaseExponent, show (E - (E + k)).toNat = 0 by omega, Nat.shiftLeft_zero,
      Int.natCast_zero, Int.sub_zero]
  simp only [UnpackedFloat.round, targetExponent_of_binade hlo hhi hE, hkeep]
  exact roundWithAccuracy_of_binade s hlo hhi hE

/-! ## Packing -/

/-- The mantissa and exponent of a normal binary32 number: 24 significant bits, and an exponent
whose biased form is neither all zeros nor all ones. -/
structure Normal (m : Nat) (e : Int) : Prop where
  mantissa_ge : 2 ^ 23 ≤ m
  mantissa_lt : m < 2 ^ 24
  exponent_ge : -149 ≤ e
  exponent_le : e ≤ 104

theorem unpackSign_packComponents {spec : Format} {s : Sign} {E M} :
    unpackSign (packComponents spec s E M) = s.toBitVec := by
  ext i hi
  obtain rfl : i = 0 := by omega
  simp [unpackSign, packComponents, BitVec.getLsbD_append, BitVec.getElem_append]

theorem Sign.ofBitVec_toBitVec (s : Sign) : Sign.ofBitVec s.toBitVec = s := by
  cases s <;> rfl

/-- A normal number survives packing and unpacking. -/
theorem unpack_pack_normal (s : Sign) {m : Nat} {e : Int} (hm : 0 < m) (hn : Normal m e) :
    (Float32.Model.pack (.finite s m e hm)).unpack = .finite s m e hm := by
  obtain ⟨hlo, hhi, helo, hehi⟩ := hn
  have hlog : m.log2 = 23 := by
    have hup : m.log2 < 24 := (Nat.log2_lt (Nat.ne_of_gt hm)).2 hhi
    have hdown : 23 ≤ m.log2 := (Nat.le_log2 (Nat.ne_of_gt hm)).2 hlo
    omega
  have hbias : ((Format.binary32.exponentBias : Nat) : Int) = 127 := rfl
  simp only [Float32.Model.pack, Float32.Model.unpack, UnpackedFloat.pack, hlog, hbias]
  rw [if_neg (show ¬2 ^ 8 ≤ (e + 127 + (23 : Nat)).toNat + 1 by omega),
    if_pos (show 23 + 1 = Format.binary32.mantissaBits from rfl)]
  have hexp : (BitVec.ofNat 8 (e + 127 + (23 : Nat)).toNat).toNat = (e + 150).toNat := by
    rw [BitVec.toNat_ofNat]
    omega
  -- the biased exponent is neither all ones nor all zeros
  have hne : ∀ v : BitVec 8, v.toNat ≠ (e + 150).toNat →
      BitVec.ofNat 8 (e + 127 + (23 : Nat)).toNat ≠ v :=
    fun v hv h => hv (by rw [← h, hexp])
  have hne1 := hne (-1#8) (by rw [show (-1#8 : BitVec 8).toNat = 255 from rfl]; omega)
  have hne0 := hne 0#8 (by rw [BitVec.toNat_zero]; omega)
  simp only [UnpackedFloat.unpack, unpackMantissa_packComponents, unpackExponent_packComponents,
    unpackSign_packComponents, Sign.ofBitVec_toBitVec, hne1, hne0, if_false]
  have hmant : (1#1 ++ BitVec.ofNat 23 m).toNat = m := by
    rw [BitVec.toNat_append, ← Nat.shiftLeft_add_eq_or_of_lt (BitVec.isLt _)]
    simp only [BitVec.toNat_ofNat, Nat.shiftLeft_eq]
    omega
  simp only [UnpackedFloat.finite.injEq, hmant, hexp, hbias, true_and]
  show ((e + 150).toNat : Int) - (127 + 23) = e
  omega

/-- A finite number read from bits is normal, or subnormal at the least exponent. -/
theorem unpack_finite {x : Float32.Model} {s : Sign} {m : Nat} {e : Int} {hm : 0 < m}
    (h : x.unpack = .finite s m e hm) : Normal m e ∨ m < 2 ^ 23 ∧ e = -149 := by
  unfold Float32.Model.unpack UnpackedFloat.unpack at h
  generalize (x.toBits.toBitVec : BitVec Format.binary32.numBits) = b at h
  dsimp only at h
  have hexp := (@unpackExponent .binary32 b).isLt
  have hmant := (@unpackMantissa .binary32 b).isLt
  have hbias : Format.binary32.exponentBias = 127 := rfl
  split at h
  · split at h <;> cases h
  · rename_i hinf
    split at h
    · rename_i hzero
      split at h
      · cases h
      · -- subnormal: the least exponent
        simp only [UnpackedFloat.finite.injEq, hbias] at h
        obtain ⟨-, rfl, rfl⟩ := h
        rw [hzero]
        simp only [BitVec.toNat_zero]
        exact .inr ⟨hmant, by omega⟩
    · -- normal: the implicit bit is set
      rename_i hzero
      simp only [UnpackedFloat.finite.injEq, hbias] at h
      obtain ⟨-, rfl, rfl⟩ := h
      have hne0 : (@unpackExponent .binary32 b).toNat ≠ 0 :=
        fun h0 => hzero (BitVec.eq_of_toNat_eq h0)
      have hne1 : (@unpackExponent .binary32 b).toNat ≠ 255 :=
        fun h1 => hinf (BitVec.eq_of_toNat_eq h1)
      have hval : (1#1 ++ @unpackMantissa .binary32 b).toNat =
          2 ^ 23 + (@unpackMantissa .binary32 b).toNat := by
        rw [BitVec.toNat_append, ← Nat.shiftLeft_add_eq_or_of_lt (BitVec.isLt _)]
        rfl
      rw [hval]
      change (@unpackExponent .binary32 b).toNat < 256 at hexp
      change (@unpackMantissa .binary32 b).toNat < 2 ^ 23 at hmant
      exact .inl ⟨by omega, by omega, by omega, by omega⟩

/-! ## Adding one -/

/-- Adding one to a nonnegative number below `2 ^ 24` gives a normal number further up: with a
larger exponent, or the same exponent and a larger mantissa. -/
theorem add_one {m : Nat} {e : Int} (hm : 0 < m) (hc : Normal m e ∨ m < 2 ^ 23 ∧ e = -149)
    (he : e ≤ 0) :
    ∃ mR eR h, UnpackedFloat.add .binary32 (.finite .positive m e hm)
        (.finite .positive (2 ^ 23) (-23) (Nat.two_pow_pos _)) = .finite .positive mR eR h ∧
      Normal mR eR ∧ (e < eR ∨ e = eR ∧ m < mR) := by
  have hhi : m < 2 ^ 24 := by rcases hc with hn | ⟨hs, -⟩ <;> [exact hn.mantissa_lt; omega]
  have helo : -149 ≤ e := by rcases hc with hn | ⟨-, rfl⟩ <;> [exact hn.exponent_ge; omega]
  simp only [UnpackedFloat.add, decreaseExponent, Sign.apply]
  rcases le_or_gt (-23) e with hbig | hsmall
  · -- `a ≥ 1`, a normal number: one is brought to the exponent of `a`
    obtain ⟨j, rfl⟩ : ∃ j : Nat, e = -23 + j := ⟨(e + 23).toNat, by omega⟩
    have hm23 : 2 ^ 23 ≤ m := by rcases hc with hn | ⟨-, h⟩ <;> [exact hn.mantissa_ge; omega]
    have hj : j ≤ 23 := by omega
    rw [show min (-23 + (j : Int)) (-23) = -23 by omega,
      show (-23 + (j : Int) - -23).toNat = j by omega, show ((-23 : Int) - -23).toNat = 0 by omega,
      Nat.shiftLeft_zero, Nat.shiftLeft_eq, ← Int.natCast_add, normalize_natCast (by omega)]
    have hscaled : 2 ^ (23 + j) ≤ m * 2 ^ j := by
      rw [Nat.pow_add]
      exact Nat.mul_le_mul_right _ hm23
    have hbelow : m * 2 ^ j < 2 ^ (24 + j) := by
      rw [Nat.pow_add]
      exact Nat.mul_lt_mul_of_pos_right hhi (Nat.two_pow_pos j)
    have hone : 2 ^ 23 ≤ 2 ^ (23 + j) := Nat.pow_le_pow_right (by decide) (by omega)
    by_cases hcarry : m * 2 ^ j + 2 ^ 23 < 2 ^ (24 + j)
    · -- the sum stays in the binade of `a`, its mantissa grown by `2 ^ (23 - j)` before rounding
      obtain ⟨mR, eR, h, hround, hlo, hhi', hcase⟩ :=
        round_of_binade .positive (k := j) (E := -23) (by omega) hcarry (by omega)
      have hquot : (m * 2 ^ j + 2 ^ 23) / 2 ^ j = m + 2 ^ (23 - j) := by
        rw [Nat.add_comm, Nat.add_mul_div_right _ _ (Nat.two_pow_pos j),
          Nat.pow_div hj (by decide), Nat.add_comm]
      have hstep : 1 ≤ 2 ^ (23 - j) := Nat.one_le_two_pow
      refine ⟨mR, eR, h, hround, ⟨hlo, hhi', by omega, by omega⟩, ?_⟩
      rcases hcase with ⟨rfl, hq⟩ | rfl
      · exact .inr ⟨rfl, by omega⟩
      · exact .inl (by omega)
    · -- the sum carries into the next binade
      have hdouble : 2 ^ (24 + (j + 1)) = 2 * 2 ^ (24 + j) := by
        rw [← Nat.add_assoc, Nat.pow_succ, Nat.mul_comm]
      have hshift : 2 ^ (23 + (j + 1)) = 2 ^ (24 + j) := by
        rw [show 23 + (j + 1) = 24 + j by omega]
      obtain ⟨mR, eR, h, hround, hlo, hhi', hcase⟩ :=
        round_of_binade .positive (M := m * 2 ^ j + 2 ^ 23) (k := j + 1) (E := -23)
          (by omega) (by omega) (by omega)
      exact ⟨mR, eR, h, hround, ⟨hlo, hhi', by omega, by omega⟩, .inl (by omega)⟩
  · -- `a < 1`: `a` is brought to the exponent of one, and the sum lies in `[1, 2)`
    obtain ⟨i, rfl⟩ : ∃ i : Nat, e = -24 - i := ⟨(-24 - e).toNat, by omega⟩
    rw [show min (-24 - (i : Int)) (-23) = -24 - i by omega,
      show (-24 - (i : Int) - (-24 - i)).toNat = 0 by omega,
      show (-23 - (-24 - (i : Int))).toNat = i + 1 by omega,
      Nat.shiftLeft_zero, Nat.shiftLeft_eq, ← Int.natCast_add, normalize_natCast (by omega)]
    have hone : 2 ^ 23 * 2 ^ (i + 1) = 2 ^ (23 + (i + 1)) := (Nat.pow_add _ _ _).symm
    have hdouble : 2 ^ (24 + (i + 1)) = 2 * 2 ^ (23 + (i + 1)) := by
      rw [show 24 + (i + 1) = 23 + (i + 1) + 1 by omega, Nat.pow_succ, Nat.mul_comm]
    have hwide : 2 ^ 24 ≤ 2 ^ (23 + (i + 1)) := Nat.pow_le_pow_right (by decide) (by omega)
    obtain ⟨mR, eR, h, hround, hlo, hhi', hcase⟩ :=
      round_of_binade .positive (M := m + 2 ^ 23 * 2 ^ (i + 1)) (k := i + 1) (E := -24 - i)
        (by omega) (by omega) (by omega)
    exact ⟨mR, eR, h, hround, ⟨hlo, hhi', by omega, by omega⟩, .inl (by omega)⟩

end Binary32

theorem Float32.add_toModel_unpack (a b : Float32) :
    (a + b).toModel.unpack =
      (Float32.Model.pack (UnpackedFloat.add .binary32 a.toModel.unpack b.toModel.unpack)).unpack :=
  rfl

theorem Float32.one_unpack :
    (1.0 : Float32).toModel.unpack = .finite .positive (2 ^ 23) (-23) (Nat.two_pow_pos _) := rfl

/-- Adding one to a float from zero up to `2 ^ 24` gives a larger float. -/
theorem Float32.lt_add_one {a : Float32} (h0 : 0.0 ≤ a) (hlt : a < 16777216.0) :
    a < a + 1.0 := by
  rw [Float32.le_iff_place] at h0
  rw [Float32.lt_iff_place] at hlt ⊢
  obtain ⟨-, hna, h0⟩ := h0
  obtain ⟨-, -, hlt⟩ := hlt
  rw [show Float32.place 0.0 = toLex (2, toLex (0, 0)) from rfl] at h0
  rw [show Float32.place 16777216.0 = toLex (3, toLex (1, 2 ^ 23)) from rfl] at hlt
  unfold Float32.place at h0 hlt ⊢
  change a.toModel.unpack.isNaN = false at hna
  show a.toModel.unpack.isNaN = false ∧ (a + 1.0).toModel.unpack.isNaN = false ∧ _
  rw [Float32.add_toModel_unpack, Float32.one_unpack]
  have hbits : ∀ {s m e hm}, a.toModel.unpack = .finite s m e hm →
      Binary32.Normal m e ∨ m < 2 ^ 23 ∧ e = -149 := Binary32.unpack_finite
  generalize a.toModel.unpack = A at *
  -- only zero and the positive finite numbers lie between 0 and `2 ^ 24`
  rcases A with s | _ | s | ⟨s, m, e, hm⟩
  · cases s
    · exact absurd h0 (by decide)
    · exact absurd hlt (by decide)
  · cases hna
  · -- zero plus one is one
    have hsum : UnpackedFloat.add .binary32 (.zero s) (.finite .positive (2 ^ 23) (-23)
        (Nat.two_pow_pos _)) = .finite .positive (2 ^ 23) (-23) (Nat.two_pow_pos _) := by
      cases s <;> rfl
    rw [hsum, Binary32.unpack_pack_normal .positive _ ⟨Nat.le_refl _, by decide, by decide,
      by decide⟩]
    exact ⟨rfl, rfl, by cases s <;> decide⟩
  · cases s
    · exact absurd h0 (by simp [UnpackedFloat.place, Prod.Lex.toLex_le_toLex])
    · have hc := hbits rfl
      have he : e ≤ 0 := by
        simp only [UnpackedFloat.place, Prod.Lex.toLex_lt_toLex] at hlt
        rcases hc with hn | ⟨-, rfl⟩
        · have := hn.mantissa_ge
          omega
        · omega
      obtain ⟨mR, eR, h, hadd, hn, hup⟩ := Binary32.add_one hm hc he
      rw [hadd, Binary32.unpack_pack_normal .positive h hn]
      refine ⟨rfl, rfl, ?_⟩
      simp only [UnpackedFloat.place, Prod.Lex.toLex_lt_toLex, lt_self_iff_false, true_and,
        false_or, Nat.cast_lt]
      exact hup

end Wayfinder
