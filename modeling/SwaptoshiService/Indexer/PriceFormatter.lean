import Mathlib.Algebra.Order.Field.Power
import Mathlib.Tactic.NormNum
import Mathlib.Tactic.Positivity
import Mathlib.Tactic.Ring

/-!
# Prices of ticks and of square roots

A pool knows the price of token 0 in units of token 1 as a tick `t`, meaning `1.0001 ^ t`, or as the
square root of that number in units of `2 ^ (-96)`. Both count the smallest units of the tokens.
`getPriceAtTick` (`indexer/utils/tickFormatter.js`) and `decodePriceSqrt`
(`indexer/utils/priceFormatter.js`) turn them into prices of whole tokens.

They do so with **opposite signs**: `decodePriceSqrt` multiplies by `10 ^ (d₀ - d₁)`, as the change
of units asks for, and `getPriceAtTick` by `10 ^ (d₁ - d₀)`. `prices_agree_iff`: the two agree if
and only if the tokens have the same number of decimals.
-/

namespace SwaptoshiService

namespace PriceFormatter

/-- The rounding of `decimal.js`, to decimal places and to significant digits. -/
structure Rounding (K : Type) where
  toDecimalPlaces : ℕ → K → K
  toPrecision : ℕ → K → K

/-- Exact arithmetic. -/
def Rounding.exact {K : Type} : Rounding K := ⟨fun _ x => x, fun _ x => x⟩

/-- `getPriceAtTick(tick, token0Decimals, token1Decimals, inverted)`. Decimals that are `undefined`
are 8. -/
def getPriceAtTick {K : Type} [Field K] (round : Rounding K) (tick : ℤ)
    (token0Decimals token1Decimals : Option ℕ) (inverted : Bool) : K :=
  let token0Decimals := token0Decimals.getD 8
  let token1Decimals := token1Decimals.getD 8
  let price := (10001 / 10000) ^ tick * 10 ^ ((token1Decimals : ℤ) - token0Decimals)
  let price := if inverted then price ^ (-1 : ℤ) else price
  round.toDecimalPlaces (if inverted then token1Decimals else token0Decimals) price

/-- `decodePriceSqrt(sqrtRatioX96, decimalsToken0, decimalsToken1, inverse,
disableFiveSigPrevision)`. -/
def decodePriceSqrt {K : Type} [Field K] [LinearOrder K] (round : Rounding K) (sqrtRatioX96 : K)
    (decimalsToken0 decimalsToken1 : Option ℕ) (inverse disableFiveSigPrevision : Bool) : K :=
  let decimalsToken0 := decimalsToken0.getD 8
  let decimalsToken1 := decimalsToken1.getD 8
  let ratio := round.toPrecision 5 ((sqrtRatioX96 / 2 ^ 96) ^ 2)
  let ratio :=
    if decimalsToken1 < decimalsToken0 then ratio * 10 ^ (decimalsToken0 - decimalsToken1)
    else if decimalsToken0 < decimalsToken1 then ratio / 10 ^ (decimalsToken1 - decimalsToken0)
    else ratio
  let ratio := if inverse then ratio ^ (-1 : ℤ) else ratio
  if !disableFiveSigPrevision && ratio < 10 ^ 5 then round.toPrecision 5 ratio else ratio

/-- The price `p` of the smallest units as a price of whole tokens: of token 0 in token 1, or of
token 1 in token 0. -/
def wholePrice {K : Type} [Field K] (p : K) (d₀ d₁ : ℕ) (inverted : Bool) : K :=
  if inverted then (p * 10 ^ ((d₀ : ℤ) - d₁))⁻¹ else p * 10 ^ ((d₀ : ℤ) - d₁)

section Conversions

variable {K : Type} [Field K] {p s : K} {d₀ d₁ : ℕ} {t : ℤ} {inverted disable : Bool}

/-- With both numbers of decimals in each other's place. -/
theorem getPriceAtTick_exact : getPriceAtTick .exact t (some d₀) (some d₁) inverted =
    wholePrice ((10001 / 10000 : K) ^ t) d₁ d₀ inverted := by
  cases inverted <;> simp [getPriceAtTick, wholePrice, Rounding.exact]

variable [LinearOrder K]

theorem decodePriceSqrt_exact (hs : (s / 2 ^ 96) ^ 2 = p) :
    decodePriceSqrt .exact s (some d₀) (some d₁) inverted disable =
      wholePrice p d₀ d₁ inverted := by
  -- The three branches are one power, once its exponent may be negative.
  have hratio : (if d₁ < d₀ then p * 10 ^ (d₀ - d₁) else
      if d₀ < d₁ then p / 10 ^ (d₁ - d₀) else p) = p * 10 ^ ((d₀ : ℤ) - d₁) := by
    rcases lt_trichotomy d₁ d₀ with hlt | heq | hlt
    · rw [if_pos hlt, ← zpow_natCast, Nat.cast_sub hlt.le]
    · rw [if_neg heq.not_lt, if_neg heq.not_gt, heq, sub_self, zpow_zero, mul_one]
    · rw [if_neg hlt.not_gt, if_pos hlt, div_eq_mul_inv, ← zpow_natCast, ← zpow_neg,
        Nat.cast_sub hlt.le, neg_sub]
  simp only [decodePriceSqrt, Rounding.exact, hs, Option.getD_some, hratio, ite_self, zpow_neg,
    zpow_one, wholePrice]

variable [IsStrictOrderedRing K]

/-- Swapping the decimals changes the price, unless they are the same. -/
theorem wholePrice_swap_iff (hp : 0 < p) :
    wholePrice p d₁ d₀ inverted = wholePrice p d₀ d₁ inverted ↔ d₀ = d₁ := by
  have hfactor : p * 10 ^ ((d₁ : ℤ) - d₀) = p * 10 ^ ((d₀ : ℤ) - d₁) ↔ d₀ = d₁ := by
    rw [mul_right_inj' hp.ne', zpow_right_inj₀ (by norm_num) (by norm_num)]
    omega
  cases inverted with
  | false => exact hfactor
  | true =>
    simp only [wholePrice, if_true, inv_inj]
    exact hfactor

/-- **When the two conversions agree.** -/
theorem prices_agree_iff (hs : (s / 2 ^ 96) ^ 2 = (10001 / 10000 : K) ^ t) :
    (∀ inverted disable,
      getPriceAtTick .exact t (some d₀) (some d₁) inverted =
        wholePrice ((10001 / 10000 : K) ^ t) d₀ d₁ inverted ∧
      decodePriceSqrt .exact s (some d₀) (some d₁) inverted disable =
        wholePrice ((10001 / 10000 : K) ^ t) d₀ d₁ inverted) ↔ d₀ = d₁ := by
  have hp : (0 : K) < (10001 / 10000) ^ t := by positivity
  constructor
  · intro h
    -- One orientation is enough.
    have hprice := (h false false).1
    rw [getPriceAtTick_exact] at hprice
    exact (wholePrice_swap_iff hp).mp hprice
  · intro heq inverted disable
    refine ⟨?_, decodePriceSqrt_exact hs⟩
    rw [getPriceAtTick_exact]
    exact (wholePrice_swap_iff hp).mpr heq

end Conversions

/-- Two ticks up, for tokens with 6 decimals each. -/
theorem prices_agree_two_ticks :
    ((10001 / 10000 * 2 ^ 96 : ℚ) / 2 ^ 96) ^ 2 = (10001 / 10000) ^ (2 : ℤ) ∧
      ∀ inverted disable,
        getPriceAtTick .exact 2 (some 6) (some 6) inverted =
          wholePrice ((10001 / 10000 : ℚ) ^ (2 : ℤ)) 6 6 inverted ∧
        decodePriceSqrt .exact (10001 / 10000 * 2 ^ 96 : ℚ) (some 6) (some 6) inverted disable =
          wholePrice ((10001 / 10000 : ℚ) ^ (2 : ℤ)) 6 6 inverted :=
  have hs : ((10001 / 10000 * 2 ^ 96 : ℚ) / 2 ^ 96) ^ 2 = (10001 / 10000) ^ (2 : ℤ) := by
    norm_num
  ⟨hs, (prices_agree_iff hs).mpr rfl⟩

/-- At tick 0 a whole token with 6 decimals is worth a hundredth of one with 8. -/
theorem six_and_eight_decimals :
    ((2 ^ 96 : ℚ) / 2 ^ 96) ^ 2 = (10001 / 10000) ^ (0 : ℤ) ∧
      wholePrice ((10001 / 10000 : ℚ) ^ (0 : ℤ)) 6 8 false = 1 / 100 ∧
      decodePriceSqrt .exact (2 ^ 96 : ℚ) (some 6) (some 8) false true = 1 / 100 ∧
      getPriceAtTick .exact 0 (some 6) (some 8) false = (100 : ℚ) ∧
      getPriceAtTick .exact 0 (some 6) (some 8) false ≠
        wholePrice ((10001 / 10000 : ℚ) ^ (0 : ℤ)) 6 8 false := by
  have hprice : getPriceAtTick .exact 0 (some 6) (some 8) false = (100 : ℚ) := by
    norm_num [getPriceAtTick, Rounding.exact]
  have hwhole : wholePrice ((10001 / 10000 : ℚ) ^ (0 : ℤ)) 6 8 false = 1 / 100 := by
    norm_num [wholePrice]
  refine ⟨by norm_num, hwhole, ?_, hprice, ?_⟩
  · norm_num [decodePriceSqrt, Rounding.exact]
  · rw [hprice, hwhole]
    norm_num

end PriceFormatter

end SwaptoshiService
