import ResourceApi.Proofs.Storage.Order

/-!
Integers as binary64 numbers. An integer that a binary64 number is equal to becomes a binary64 number of the same value.
-/

namespace ResourceApi.Double

/-- Whether a number is one of the binary64 format. -/
def Fits : Double → Prop
  | .finite _ significand exponent => significand < 2 ^ 53 ∧ minExponent ≤ exponent ∧ exponent ≤ maxExponent
  | _ => True

theorem roundHalfEven_of_dvd {num den : ℕ} (positive : 0 < den) (divides : den ∣ num) :
    roundHalfEven num den = num / den := by
  simp [roundHalfEven, Nat.mod_eq_zero_of_dvd divides, positive]

/-- The bits of an integer beyond the 53 leading ones are zero if a binary64 number is equal to it. -/
private theorem pow_dvd_of_fits {m n : ℕ} {e : ℤ} (small : m < 2 ^ 53) (same : (n : ℚ) = m * 2 ^ e) (nonzero : n ≠ 0) :
    2 ^ (n.log2 - 52) ∣ n := by
  by_cases whole : 0 ≤ e
  · obtain ⟨k, rfl⟩ := Int.eq_ofNat_of_zero_le whole
    have product : n = m * 2 ^ k := by
      rw [zpow_natCast] at same
      exact_mod_cast same
    have enough : n.log2 < k + 53 := by
      rw [Nat.log2_lt nonzero, product, add_comm, pow_add]
      exact Nat.mul_lt_mul_of_pos_right small (Nat.two_pow_pos k)
    rw [product] at *
    exact Dvd.dvd.mul_left (pow_dvd_pow 2 (by omega)) m
  · obtain ⟨k, opposite⟩ := Int.eq_ofNat_of_zero_le (show 0 ≤ -e by omega)
    have product : n * 2 ^ k = m := by
      have lifted : (n : ℚ) * 2 ^ k = m := by
        rw [same, show e = -(k : ℤ) by omega, zpow_neg, zpow_natCast, mul_assoc,
          inv_mul_cancel₀ (pow_ne_zero k two_ne_zero), mul_one]
      exact_mod_cast lifted
    have less : n < 2 ^ 53 := by
      refine lt_of_le_of_lt ?_ small
      rw [← product]
      exact Nat.le_mul_of_pos_right n (Nat.two_pow_pos k)
    have none : n.log2 - 52 = 0 := by
      have := (Nat.log2_lt nonzero).2 less
      omega
    rw [none, pow_zero]
    exact one_dvd n

/-- Over the power of two that leaves 53 digits an integer without further bits is a significand. -/
private theorem significand_of_dvd {n : ℕ} (divides : 2 ^ (n.log2 - 52) ∣ n) :
    ∃ m, roundHalfEven (scaled n 1 ((n.log2 : ℤ) - 52)).1 (scaled n 1 ((n.log2 : ℤ) - 52)).2 = m ∧ m < 2 ^ 53 ∧
      (m : ℚ) * 2 ^ ((n.log2 : ℤ) - 52) = n := by
  have bounded : n < 2 ^ (n.log2 + 1) := Nat.lt_log2_self
  by_cases large : 52 ≤ n.log2
  · have shift : ((n.log2 : ℤ) - 52) = ((n.log2 - 52 : ℕ) : ℤ) := by omega
    obtain ⟨q, product⟩ := divides
    have positive : 0 < 2 ^ (n.log2 - 52) := Nat.two_pow_pos _
    refine ⟨q, ?_, ?_, ?_⟩
    · rw [scaled, if_pos (by omega), shift, Int.toNat_natCast]
      dsimp only
      rw [one_mul, Nat.pow_eq, roundHalfEven_of_dvd positive ⟨q, product⟩]
      exact Nat.div_eq_of_eq_mul_right positive product
    · rw [show n.log2 + 1 = 53 + (n.log2 - 52) by omega, pow_add] at bounded
      refine Nat.lt_of_mul_lt_mul_right (a := 2 ^ (n.log2 - 52)) ?_
      rwa [mul_comm q, ← product]
    · rw [shift, zpow_natCast]
      conv_rhs => rw [product]
      push_cast
      exact mul_comm _ _
  · have shift : -((n.log2 : ℤ) - 52) = ((52 - n.log2 : ℕ) : ℤ) := by omega
    refine ⟨n * 2 ^ (52 - n.log2), ?_, ?_, ?_⟩
    · rw [scaled, if_neg (by omega), shift, Int.toNat_natCast]
      dsimp only
      rw [Nat.pow_eq, roundHalfEven_of_dvd Nat.one_pos (one_dvd _), Nat.div_one]
    · have widened := Nat.mul_lt_mul_of_pos_right bounded (Nat.two_pow_pos (52 - n.log2))
      rwa [← pow_add, show n.log2 + 1 + (52 - n.log2) = 53 by omega] at widened
    · push_cast
      rw [mul_assoc, ← zpow_natCast, ← zpow_add₀ two_ne_zero, ← shift, neg_add_cancel, zpow_zero, mul_one]

/-- An integer that needs no more than 53 digits is not rounded. -/
private theorem value_ofRatio {n : ℕ} (negative : Bool) (nonzero : n ≠ 0) (divides : 2 ^ (n.log2 - 52) ∣ n)
    (bounded : n.log2 ≤ 1023) :
    (ofRatio negative n 1).value = (((if negative then -(n : ℚ) else n) : ℚ) : WithTop ℚ) := by
  obtain ⟨m, rounded, small, product⟩ := significand_of_dvd divides
  have leading : 2 ^ n.log2 ≤ n := Nat.log2_self_le nonzero
  -- the first guess of the exponent leaves one digit too many
  have guess : ¬(scaled n 1 ((n.log2 : ℤ) - 53)).1 / (scaled n 1 ((n.log2 : ℤ) - 53)).2 < Nat.pow 2 53 := by
    rw [not_lt, Nat.pow_eq]
    by_cases large : 53 ≤ n.log2
    · have shift : ((n.log2 : ℤ) - 53) = ((n.log2 - 53 : ℕ) : ℤ) := by omega
      rw [scaled, if_pos (by omega), shift, Int.toNat_natCast]
      dsimp only
      rw [one_mul, Nat.pow_eq, Nat.le_div_iff_mul_le (Nat.two_pow_pos _), ← pow_add,
        show 53 + (n.log2 - 53) = n.log2 by omega]
      exact leading
    · have shift : -((n.log2 : ℤ) - 53) = ((53 - n.log2 : ℕ) : ℤ) := by omega
      rw [scaled, if_neg (by omega), shift, Int.toNat_natCast]
      dsimp only
      rw [Nat.div_one, Nat.pow_eq]
      have widened := Nat.mul_le_mul_right (2 ^ (53 - n.log2)) leading
      rwa [← pow_add, show n.log2 + (53 - n.log2) = 53 by omega] at widened
  have exponent : max minExponent ((n.log2 : ℤ) - 53 + 1) = (n.log2 : ℤ) - 52 := by
    unfold minExponent
    omega
  have one : Nat.log2 1 = 0 := by decide
  have notFull : m ≠ Nat.pow 2 53 := by
    rw [Nat.pow_eq]
    exact Nat.ne_of_lt small
  have made : ofRatio negative n 1 = .finite negative m ((n.log2 : ℤ) - 52) := by
    unfold ofRatio
    rw [if_neg (by simp [nonzero])]
    simp only [one, Nat.cast_zero, sub_zero, if_neg guess, exponent, rounded, if_neg notFull]
    rw [if_neg]
    unfold maxExponent
    omega
  rw [made, value]
  congr 2
  rw [← product]
  cases negative <;> simp [signed]

/-- An integer that a binary64 number is equal to becomes one of the same value. -/
theorem value_ofInt {n : ℤ} {d : Double} (fits : d.Fits) (same : d.value = ((n : ℚ) : WithTop ℚ)) :
    (ofInt n).value = ((n : ℚ) : WithTop ℚ) := by
  by_cases zero : n = 0
  · subst zero
    simp [ofInt, ofRatio, value, signed]
  have nonzero : n.natAbs ≠ 0 := Int.natAbs_ne_zero.2 zero
  cases d with
  | infinite below => cases below <;> cases same
  | notANumber =>
    have null : ((0 : ℚ) : WithTop ℚ) = ((n : ℚ) : WithTop ℚ) := WithBot.coe_injective same
    exact absurd (by exact_mod_cast null.symm) zero
  | finite negative m e =>
    obtain ⟨small, -, top⟩ := fits
    have product : (signed negative m : ℚ) * 2 ^ e = n := WithTop.coe_injective (WithBot.coe_injective same)
    have absolute : ((n.natAbs : ℕ) : ℚ) = m * 2 ^ e := by
      have power : (0 : ℚ) < 2 ^ e := zpow_pos two_pos e
      rw [Nat.cast_natAbs, Int.cast_abs, ← product, abs_mul, abs_of_pos power]
      cases negative <;> simp [signed]
    have divides := pow_dvd_of_fits small absolute nonzero
    have bounded : n.natAbs.log2 < 1024 := by
      rw [Nat.log2_lt nonzero]
      have less : (m : ℚ) < 2 ^ (53 : ℤ) := by exact_mod_cast small
      have power : (2 : ℚ) ^ e ≤ 2 ^ (971 : ℤ) := zpow_le_zpow_right₀ one_le_two top
      have most : ((n.natAbs : ℕ) : ℚ) < 2 ^ (53 : ℤ) * 2 ^ (971 : ℤ) := by
        rw [absolute]
        exact (mul_le_mul_of_nonneg_left power (Nat.cast_nonneg m)).trans_lt
          (mul_lt_mul_of_pos_right less (zpow_pos two_pos 971))
      rw [← zpow_add₀ two_ne_zero, show (53 + 971 : ℤ) = (1024 : ℕ) by norm_num, zpow_natCast] at most
      exact_mod_cast most
    rw [ofInt, value_ofRatio _ nonzero divides (by omega)]
    congr 2
    rw [Nat.cast_natAbs, Int.cast_abs]
    by_cases below : n < 0
    · rw [if_pos (by simpa using below), abs_of_neg (by exact_mod_cast below), neg_neg]
    · rw [if_neg (by simpa using below), abs_of_nonneg (by exact_mod_cast not_lt.1 below)]

/-! ## Sums of integers -/

theorem roundHalfEven_mul {c : ℕ} (positive : 0 < c) (num den : ℕ) :
    roundHalfEven (num * c) (den * c) = roundHalfEven num den := by
  have twice : 2 * (num * c % (den * c)) = 2 * (num % den) * c := by
    rw [Nat.mul_mod_mul_right, mul_assoc]
  simp only [roundHalfEven, twice, Nat.mul_div_mul_right num den positive, Nat.mul_lt_mul_right positive]

/-- A fraction over a power of two is rounded as it is in lowest terms. -/
private theorem ofRatio_mul_pow (negative : Bool) (n k : ℕ) :
    ofRatio negative (n * 2 ^ k) (2 ^ k) = ofRatio negative n 1 := by
  by_cases zero : n = 0
  · simp [ofRatio, zero]
  have positive : 0 < 2 ^ k := Nat.two_pow_pos k
  have guess : ((n * 2 ^ k).log2 : ℤ) - (2 ^ k : ℕ).log2 - 53 = (n.log2 : ℤ) - Nat.log2 1 - 53 := by
    have shifted : (n * 2 ^ k).log2 = n.log2 + k := by
      rw [Nat.log2_eq_iff (Nat.mul_ne_zero zero positive.ne'), pow_add, show n.log2 + k + 1 = n.log2 + 1 + k by omega,
        pow_add]
      exact ⟨Nat.mul_le_mul_right _ (Nat.log2_self_le zero), Nat.mul_lt_mul_of_pos_right Nat.lt_log2_self positive⟩
    have one : Nat.log2 1 = 0 := by decide
    rw [shifted, Nat.log2_two_pow, one]
    omega
  have wider (e : ℤ) : scaled (n * 2 ^ k) (2 ^ k) e = ((scaled n 1 e).1 * 2 ^ k, (scaled n 1 e).2 * 2 ^ k) := by
    unfold scaled
    split <;> simp [mul_comm, mul_left_comm, mul_assoc]
  simp only [ofRatio, guess, wider, Nat.mul_div_mul_right _ _ positive, roundHalfEven_mul positive]
  simp [zero]

/-- An integer of 53 digits at most is a significand, with its sign, times a power of two. -/
private theorem ofInt_eq_finite {n : ℤ} (small : n.natAbs < 2 ^ 53) :
    ∃ m e, ofInt n = .finite (decide (n < 0)) m e ∧ (signed (decide (n < 0)) m : ℚ) * 2 ^ e = n := by
  by_cases zero : n = 0
  · subst zero
    exact ⟨0, minExponent, rfl, by simp [signed]⟩
  have nonzero : n.natAbs ≠ 0 := Int.natAbs_ne_zero.2 zero
  have digits := (Nat.log2_lt nonzero).2 small
  have divides : 2 ^ (n.natAbs.log2 - 52) ∣ n.natAbs := by
    rw [show n.natAbs.log2 - 52 = 0 by omega, pow_zero]
    exact one_dvd _
  have same := value_ofRatio (decide (n < 0)) nonzero divides (by omega)
  have signs : ∀ num den, (∃ m e, ofRatio (decide (n < 0)) num den = .finite (decide (n < 0)) m e) ∨
      ofRatio (decide (n < 0)) num den = .infinite (decide (n < 0)) := by
    intro num den
    simp only [ofRatio]
    split_ifs <;> simp
  rw [ofInt]
  rcases signs n.natAbs 1 with ⟨m, e, made⟩ | made
  · refine ⟨m, e, made, ?_⟩
    rw [made, value] at same
    rw [WithTop.coe_injective (WithBot.coe_injective same), Nat.cast_natAbs, Int.cast_abs]
    by_cases below : n < 0
    · rw [if_pos (by simpa using below), abs_of_neg (by exact_mod_cast below), neg_neg]
    · rw [if_neg (by simpa using below), abs_of_nonneg (by exact_mod_cast not_lt.1 below)]
  · rw [made] at same
    cases below : decide (n < 0) <;> rw [below] at same <;> cases same

/-- Two numbers over one power of two, added. -/
private theorem aligned_add (a e b f : ℤ) :
    (((aligned a e b f).1 + (aligned a e b f).2 : ℤ) : ℚ) * 2 ^ min e f = a * 2 ^ e + b * 2 ^ f := by
  have scaledTo (x g : ℤ) (above : min e f ≤ g) :
      ((x * (Nat.pow 2 (g - min e f).toNat : ℕ) : ℤ) : ℚ) * 2 ^ min e f = x * 2 ^ g := by
    have lifted : ((g - min e f).toNat : ℤ) = g - min e f := Int.toNat_of_nonneg (by omega)
    push_cast [Nat.pow_eq]
    rw [← zpow_natCast, lifted, mul_assoc, ← zpow_add₀ two_ne_zero, sub_add_cancel]
  rw [Int.cast_add, add_mul]
  simp only [aligned]
  rw [scaledTo _ e (min_le_left e f), scaledTo _ f (min_le_right e f)]

/-- An integer that is given over a power of two is rounded as it is. -/
private theorem ofRatio_scaled {sum low c : ℤ} (total : (sum : ℚ) * 2 ^ low = c) :
    ofRatio (decide (sum < 0)) (scaled sum.natAbs 1 (-low)).1 (scaled sum.natAbs 1 (-low)).2 = ofInt c := by
  have power : (0 : ℚ) < 2 ^ low := zpow_pos two_pos low
  have sign : decide (sum < 0) = decide (c < 0) := by
    have same : (sum : ℚ) < 0 ↔ (c : ℚ) < 0 := by
      rw [← total]
      refine ⟨fun below => mul_neg_of_neg_of_pos below power, fun below => ?_⟩
      by_contra above
      exact absurd below (not_lt.2 (mul_nonneg (not_lt.1 above) power.le))
    exact decide_eq_decide.2 (by exact_mod_cast same)
  rw [ofInt, sign]
  by_cases whole : 0 ≤ -low
  · obtain ⟨k, shift⟩ := Int.eq_ofNat_of_zero_le whole
    have widened : sum = c * 2 ^ k := by
      have lifted : (sum : ℚ) = c * 2 ^ k := by
        rw [← total, mul_assoc, ← zpow_natCast, ← zpow_add₀ two_ne_zero, ← shift, add_neg_cancel, zpow_zero, mul_one]
      exact_mod_cast lifted
    have digits : sum.natAbs = c.natAbs * 2 ^ k := by
      rw [widened, Int.natAbs_mul, Int.natAbs_pow]
      rfl
    rw [scaled, if_pos whole, shift, Int.toNat_natCast, digits, one_mul, Nat.pow_eq]
    exact ofRatio_mul_pow _ _ k
  · obtain ⟨k, shift⟩ := Int.eq_ofNat_of_zero_le (show 0 ≤ low by omega)
    have widened : c = sum * 2 ^ k := by
      have lifted : (c : ℚ) = sum * 2 ^ k := by
        rw [← total, ← zpow_natCast, ← shift]
      exact_mod_cast lifted
    have digits : c.natAbs = sum.natAbs * 2 ^ k := by
      rw [widened, Int.natAbs_mul, Int.natAbs_pow]
      rfl
    rw [scaled, if_neg whole, neg_neg, digits, shift, Int.toNat_natCast, Nat.pow_eq]

/-- The sum of integers of 53 digits at most is rounded once. -/
theorem add_ofInt {a b : ℤ} (small : a.natAbs < 2 ^ 53) (smallToo : b.natAbs < 2 ^ 53) :
    (ofInt a).add (ofInt b) = ofInt (a + b) := by
  obtain ⟨m, e, first, product⟩ := ofInt_eq_finite small
  obtain ⟨n, f, second, productToo⟩ := ofInt_eq_finite smallToo
  have total := aligned_add (signed (decide (a < 0)) m) e (signed (decide (b < 0)) n) f
  rw [product, productToo, ← Int.cast_add a b] at total
  rw [first, second]
  simp only [add]
  split
  · next none =>
    rw [none, Int.cast_zero, zero_mul] at total
    have zero : a + b = 0 := by exact_mod_cast total.symm
    have signs : (decide (a < 0) && decide (b < 0)) = false := by
      by_cases below : a < 0
      · simp [show ¬b < 0 by omega]
      · simp [below]
    rw [zero, signs]
    rfl
  · exact ofRatio_scaled total

end ResourceApi.Double
