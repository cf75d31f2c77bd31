import SwaptoshiService.DataService.ShortestRoute

/-!
# The price of a token

`getPrice(base, quote)` follows the path of a route and multiplies the average prices of the pairs
it passes. Here it is read in rational arithmetic (`exactColumns`): the price is the product of the
averages along the chosen route, be it found by `getRoute` or one of the two fixed ones between SWL
and KLY, it is one for a token in itself and zero without a route (`PricedAlongRoute`).

A price in US dollars is the price in KLY times the price of KLY (`QuotedInUsd`), with one
exception. `getPrice` compares `base` and `quote` **before** it replaces US dollars by KLY, so for
KLY itself it looks for a route from KLY back to KLY and multiplies the prices along this circle;
without a pool of KLY the price of KLY is zero. `quoted_price_iff` says when that does no harm.
-/

namespace SwaptoshiService

namespace PriceQuoter

open TradingPath (decodeFirstPool_path skipToken_path hasMultiplePools hasMultiplePools_iff)
open Route (hopsText)

variable {n : Network} {klyUSD : ℚ} {pools : List Pool} {a b base quote : Token}
  {hops : List (ℕ × Token)} {ts : List Token}

/-! ### Prices along a path -/

/-- The average price of a pair, weighted with the liquidities of its pools; zero without
liquidity. -/
def averagePrice (pools : List Pool) (a b : Token) : ℚ :=
  ((pools.filter fun p => p.token0 = a ∧ p.token1 = b).map
      fun p => p.price * (p.liquidity : ℚ)).sum /
    ((pools.filter fun p => p.token0 = a ∧ p.token1 = b).map fun p => (p.liquidity : ℚ)).sum

/-- The product of the average prices along a chain of tokens. -/
def chainPrice (pools : List Pool) : Token → List Token → ℚ
  | _, [] => 1
  | a, b :: ts => averagePrice pools a b * chainPrice pools b ts

theorem token_val_inj {t t' : Token} : t.val = t'.val ↔ t = t' := Subtype.ext_iff.symm

theorem getWeightedPrice_token (pools : List Pool) (a b : Token) :
    getWeightedPrice pools a.val b.val = .ok (averagePrice pools a b) := by
  have hrows : (pools.filter fun p => p.token0.val = a.val ∧ p.token1.val = b.val) =
      pools.filter fun p => p.token0 = a ∧ p.token1 = b := by
    simp only [token_val_inj]
  rw [getWeightedPrice, if_neg (not_not_intro a.property), if_neg (not_not_intro b.property), hrows]
  simp only
  split
  · next hzero => rw [averagePrice, hzero, div_zero]
  · rfl

/-- **The loop of `getPrice`** multiplies the averages of all hops, and ends. -/
theorem priceAlong_path (hne : hops ≠ []) (price : ℚ) :
    priceAlong pools (a.val ++ hopsText hops) price =
      .ok (price * chainPrice pools a (hops.map Prod.snd)) := by
  induction hops generalizing a price with
  | nil => exact absurd rfl hne
  | cons hop hops ih =>
    obtain ⟨fee, b⟩ := hop
    rw [priceAlong, decodeFirstPool_path]
    simp only [bind, Except.bind, getWeightedPrice_token]
    by_cases hmore : hops = []
    · have hlast : ¬ hasMultiplePools (a.val ++ hopsText ((fee, b) :: hops)) = true := by
        rw [hasMultiplePools_iff, hmore]
        simp
      rw [dif_neg hlast, hmore]
      simp [chainPrice, pure, Except.pure]
    · have hmultiple : hasMultiplePools (a.val ++ hopsText ((fee, b) :: hops)) = true := by
        have := List.length_pos_iff.mpr hmore
        rw [hasMultiplePools_iff, List.length_cons]
        omega
      rw [dif_pos hmultiple, skipToken_path, ih hmore, List.map_cons, chainPrice, mul_assoc]

/-! ### The chosen route -/

/-- Exact columns hold everything. -/
theorem walkRow_exactColumns (p : Pool) (es : List Pool) :
    ∃ row, walkRow exactColumns p es = .ok row := by
  induction es using List.reverseRecOn with
  | nil => exact ⟨firstRow p, rfl⟩
  | append_singleton es t ih =>
    obtain ⟨sp, hsp⟩ := ih
    exact ⟨_, walkRow_concat_ok_iff.mpr ⟨sp, hsp, rfl⟩⟩

/-- In exact arithmetic the query of `getPrice` always has an answer. -/
theorem exists_getRoute_exactColumns (pools : List Pool) (base quote : Token) :
    ∃ rows, getRoute exactColumns pools ⟨base, quote, maxRouteLength, 1⟩ 1 = .ok rows := by
  let q : RouteQuery := ⟨base, quote, maxRouteLength, 1⟩
  have hmax : q.maxRecursion = 5 := rfl
  have hfit : AllFit exactColumns pools q q.maxRecursion :=
    fun p es _ _ _ => walkRow_exactColumns p es
  obtain ⟨all, hall⟩ : ∃ all,
      unionAll exactColumns pools q cteMaxRecursionDepth (firstRows pools q) = .ok all := by
    refine exists_unionAll_ok levelOf_firstRows le_rfl (by omega) hfit fun p es b _ hle => ?_
    rw [cteMaxRecursionDepth]
    omega
  exact ⟨_, getRoute_ok_iff.mpr ⟨all, hall, rfl⟩⟩

theorem one_le_maxRouteLength : 1 ≤ maxRouteLength := by decide

/-- The tokens that `getPrice` goes through on its way from `base` to `quote`. -/
def IsChosenRoute (n : Network) (pools : List Pool) (base quote : Token) (ts : List Token) : Prop :=
  if base = n.swl.toToken ∧ quote = n.kly.toToken then ts = [n.swx.toToken, n.kly.toToken]
  else if base = n.kly.toToken ∧ quote = n.swl.toToken then ts = [n.swx.toToken, n.swl.toToken]
  else ∃ row es, getRoute exactColumns pools ⟨base, quote, maxRouteLength, 1⟩ 1 = .ok [row] ∧
    IsShortestRoute id pools ⟨base, quote, maxRouteLength, 1⟩ row es ∧ ts = es.map Pool.token1

/-- The two fixed paths. -/
theorem fixed_path (t t' t'' : HexToken) :
    t.val ++ "000064" ++ t'.val ++ "000bb8" ++ t''.val =
        t.toToken.val ++ hopsText [(100, t'.toToken), (3000, t''.toToken)] ∧
      t.val ++ "000bb8" ++ t'.val ++ "000064" ++ t''.val =
        t.toToken.val ++ hopsText [(3000, t'.toToken), (100, t''.toToken)] := by
  have hlow : feeHex 100 = "000064" := by decide +kernel
  have hmedium : feeHex 3000 = "000bb8" := by decide +kernel
  simp only [hopsText, hlow, hmedium, String.append_assoc, String.append_empty]
  exact ⟨rfl, rfl⟩

/-- The path of the chosen route. -/
theorem pricePath_of_chosen (h : IsChosenRoute n pools base quote ts) :
    ∃ hops, hops ≠ [] ∧ hops.map Prod.snd = ts ∧
      pricePath exactColumns n pools base quote = .ok (some (base.val ++ hopsText hops)) := by
  rw [IsChosenRoute] at h
  rw [pricePath]
  split at h
  · next hfixed =>
    refine ⟨[(100, n.swx.toToken), (3000, n.kly.toToken)], by simp, by simp [h], ?_⟩
    rw [if_pos hfixed, (fixed_path _ _ _).1, hfixed.1]
  split at h
  · next hne hfixed =>
    refine ⟨[(3000, n.swx.toToken), (100, n.swl.toToken)], by simp, by simp [h], ?_⟩
    rw [if_neg hne, if_pos hfixed, (fixed_path _ _ _).2, hfixed.1]
  · next hne hne' =>
    obtain ⟨row, es, hrun, hroute, rfl⟩ := h
    refine ⟨es.map fun p => (p.fee, p.token1), by simpa using hroute.ne_nil, by simp, ?_⟩
    rw [if_neg hne, if_neg hne', hrun]
    have hpath : row.path = base.val ++ hopsText (es.map fun p => (p.fee, p.token1)) :=
      hroute.path
    simp [bind, Except.bind, pure, Except.pure, hpath]

/-- Without a chosen route there is no path. -/
theorem pricePath_of_not_chosen (h : ∀ ts, ¬ IsChosenRoute n pools base quote ts) :
    pricePath exactColumns n pools base quote = .ok none := by
  have hne : ¬ (base = n.swl.toToken ∧ quote = n.kly.toToken) := fun hfixed =>
    h _ (by rw [IsChosenRoute, if_pos hfixed])
  have hne' : ¬ (base = n.kly.toToken ∧ quote = n.swl.toToken) := fun hfixed =>
    h _ (by rw [IsChosenRoute, if_neg hne, if_pos hfixed])
  obtain ⟨rows, hrows⟩ := exists_getRoute_exactColumns pools base quote
  have hnil : rows = [] := by
    by_contra hrow
    obtain ⟨row, rest, rfl⟩ := List.exists_cons_of_ne_nil hrow
    obtain ⟨hone, es, hes⟩ :=
      (getRoute_spec exactColumns_stores one_le_maxRouteLength hrows).2 row List.mem_cons_self
    rw [hone] at hrows
    exact h _ (by rw [IsChosenRoute, if_neg hne, if_neg hne']; exact ⟨row, es, hrows, hes, rfl⟩)
  rw [pricePath, if_neg hne, if_neg hne', hrows, hnil]
  rfl

/-- There is a route if it is one of the fixed ones, or if some pools of enough liquidity lead from
`base` to `quote`. -/
theorem exists_chosenRoute_iff : (∃ ts, IsChosenRoute n pools base quote ts) ↔
    (base = n.swl.toToken ∧ quote = n.kly.toToken) ∨
      (base = n.kly.toToken ∧ quote = n.swl.toToken) ∨
      ∃ es, Walk pools ⟨base, quote, maxRouteLength, 1⟩ base es quote ∧ es ≠ [] ∧
        es.length ≤ maxRouteLength := by
  by_cases hfixed : base = n.swl.toToken ∧ quote = n.kly.toToken
  · exact iff_of_true ⟨_, by rw [IsChosenRoute, if_pos hfixed]⟩ (.inl hfixed)
  by_cases hfixed' : base = n.kly.toToken ∧ quote = n.swl.toToken
  · exact iff_of_true ⟨_, by rw [IsChosenRoute, if_neg hfixed, if_pos hfixed']⟩
      (.inr (.inl hfixed'))
  simp only [IsChosenRoute, hfixed, hfixed', if_false, false_or]
  obtain ⟨rows, hrows⟩ := exists_getRoute_exactColumns pools base quote
  obtain ⟨hfound, hshortest⟩ := getRoute_spec exactColumns_stores one_le_maxRouteLength hrows
  refine Iff.trans ⟨?_, ?_⟩ hfound
  · rintro ⟨ts, row, es, hrun, -⟩
    rw [hrun] at hrows
    obtain rfl := Except.ok.inj hrows
    simp
  · intro hne
    obtain ⟨row, rest, rfl⟩ := List.exists_cons_of_ne_nil hne
    obtain ⟨hone, es, hes⟩ := hshortest row List.mem_cons_self
    exact ⟨_, row, es, by rw [hrows, hone], hes, rfl⟩

/-! ### The price -/

theorem getPrice_self (base : Token) : getPrice exactColumns n klyUSD pools base base = .ok 1 :=
  if_pos rfl

theorem getPrice_of_chosen (hne : base ≠ quote) (husd : quote ≠ usdToken)
    (hts : IsChosenRoute n pools base quote ts) :
    getPrice exactColumns n klyUSD pools base quote = .ok (chainPrice pools base ts) := by
  obtain ⟨hops, hhops, rfl, hpath⟩ := pricePath_of_chosen hts
  rw [getPrice, if_neg hne, if_neg husd, hpath]
  simp [bind, Except.bind, priceAlong_path hhops, pure, Except.pure, if_neg husd]

theorem getPrice_of_not_chosen (hne : base ≠ quote) (husd : quote ≠ usdToken)
    (hnone : ∀ ts, ¬ IsChosenRoute n pools base quote ts) :
    getPrice exactColumns n klyUSD pools base quote = .ok 0 := by
  rw [getPrice, if_neg hne, if_neg husd, pricePath_of_not_chosen hnone]
  rfl

/-- A price in US dollars goes over KLY, also from KLY. -/
theorem getPrice_usd_of_chosen (hne : base ≠ usdToken)
    (hts : IsChosenRoute n pools base n.kly.toToken ts) :
    getPrice exactColumns n klyUSD pools base usdToken =
      .ok (chainPrice pools base ts * klyUSD) := by
  obtain ⟨hops, hhops, rfl, hpath⟩ := pricePath_of_chosen hts
  rw [getPrice, if_neg hne, if_pos rfl, hpath]
  simp [bind, Except.bind, priceAlong_path hhops, pure, Except.pure]

theorem getPrice_usd_of_not_chosen (hne : base ≠ usdToken)
    (hnone : ∀ ts, ¬ IsChosenRoute n pools base n.kly.toToken ts) :
    getPrice exactColumns n klyUSD pools base usdToken = .ok 0 := by
  rw [getPrice, if_neg hne, if_pos rfl, pricePath_of_not_chosen hnone]
  rfl

/-- US dollars are not the token of any chain. -/
theorem toToken_ne_usdToken (t : HexToken) : t.toToken ≠ usdToken := by
  intro h
  have hX : 'X' ∈ t.val.toList := by
    rw [show t.val = usdToken.val from congrArg Subtype.val h]
    decide
  exact absurd (t.property.2 'X' hX) (by decide)

theorem toToken_injective : Function.Injective HexToken.toToken := fun t t' h =>
  Subtype.ext (show t.toToken.val = t'.toToken.val by rw [h])

/-- The price of a token in another is the product of the averages along the chosen route. -/
structure PricedAlongRoute (n : Network) (klyUSD : ℚ) (pools : List Pool)
    (base quote : HexToken) : Prop where
  same : base = quote →
    getPrice exactColumns n klyUSD pools base.toToken quote.toToken = .ok 1
  route : base ≠ quote → ∀ ts, IsChosenRoute n pools base.toToken quote.toToken ts →
    getPrice exactColumns n klyUSD pools base.toToken quote.toToken =
      .ok (chainPrice pools base.toToken ts)
  no_route : base ≠ quote → (∀ ts, ¬ IsChosenRoute n pools base.toToken quote.toToken ts) →
    getPrice exactColumns n klyUSD pools base.toToken quote.toToken = .ok 0

/-- The price of a token in US dollars is its price in KLY times the price of KLY. -/
def QuotedInUsd (n : Network) (klyUSD : ℚ) (pools : List Pool) (base : HexToken) : Prop :=
  ∃ price, getPrice exactColumns n klyUSD pools base.toToken n.kly.toToken = .ok price ∧
    getPrice exactColumns n klyUSD pools base.toToken usdToken = .ok (price * klyUSD)

theorem pricedAlongRoute (n : Network) (klyUSD : ℚ) (pools : List Pool) (base quote : HexToken) :
    PricedAlongRoute n klyUSD pools base quote where
  same h := h ▸ getPrice_self _
  route hne _ := getPrice_of_chosen (toToken_injective.ne hne) (toToken_ne_usdToken quote)
  no_route hne := getPrice_of_not_chosen (toToken_injective.ne hne) (toToken_ne_usdToken quote)

/-- The law holds for all tokens but KLY. -/
theorem quotedInUsd_of_ne {base : HexToken} (hne : base ≠ n.kly) :
    QuotedInUsd n klyUSD pools base := by
  have hne' := toToken_injective.ne hne
  have husd := toToken_ne_usdToken n.kly
  by_cases hroute : ∃ ts, IsChosenRoute n pools base.toToken n.kly.toToken ts
  · obtain ⟨ts, hts⟩ := hroute
    exact ⟨_, getPrice_of_chosen hne' husd hts,
      getPrice_usd_of_chosen (toToken_ne_usdToken base) hts⟩
  · push Not at hroute
    refine ⟨0, getPrice_of_not_chosen hne' husd hroute, ?_⟩
    rw [zero_mul]
    exact getPrice_usd_of_not_chosen (toToken_ne_usdToken base) hroute

/-- For KLY it takes a route from KLY to KLY along which nothing is won or lost. -/
theorem quotedInUsd_kly_iff (hpos : 0 < klyUSD) : QuotedInUsd n klyUSD pools n.kly ↔
    ∃ ts, IsChosenRoute n pools n.kly.toToken n.kly.toToken ts ∧
      chainPrice pools n.kly.toToken ts = 1 := by
  have husd := toToken_ne_usdToken n.kly
  have hlaw : QuotedInUsd n klyUSD pools n.kly ↔
      getPrice exactColumns n klyUSD pools n.kly.toToken usdToken = .ok klyUSD := by
    simp [QuotedInUsd, getPrice_self]
  rw [hlaw]
  by_cases hroute : ∃ ts, IsChosenRoute n pools n.kly.toToken n.kly.toToken ts
  · constructor
    · intro hprice
      obtain ⟨ts, hts⟩ := hroute
      rw [getPrice_usd_of_chosen husd hts, Except.ok.injEq] at hprice
      refine ⟨ts, hts, mul_right_cancel₀ hpos.ne' ?_⟩
      rw [hprice, one_mul]
    · rintro ⟨ts, hts, hone⟩
      rw [getPrice_usd_of_chosen husd hts, hone, one_mul]
  · refine iff_of_false ?_ fun ⟨ts, hts, _⟩ => hroute ⟨ts, hts⟩
    push Not at hroute
    rw [getPrice_usd_of_not_chosen husd hroute, Except.ok.injEq]
    exact hpos.ne

/-- **The laws of `getPrice`** hold for every base and quote exactly if the base is not KLY, or the
average prices along the route that is found from KLY back to KLY multiply to one. -/
theorem quoted_price_iff (n : Network) (klyUSD : ℚ) (hpos : 0 < klyUSD) (pools : List Pool)
    (base quote : HexToken) :
    (PricedAlongRoute n klyUSD pools base quote ∧ QuotedInUsd n klyUSD pools base) ↔
      (base ≠ n.kly ∨ ∃ ts, IsChosenRoute n pools n.kly.toToken n.kly.toToken ts ∧
        chainPrice pools n.kly.toToken ts = 1) := by
  rw [and_iff_right (pricedAlongRoute n klyUSD pools base quote)]
  by_cases hbase : base = n.kly
  · rw [hbase, quotedInUsd_kly_iff hpos]
    simp
  · exact iff_of_true (quotedInUsd_of_ne hbase) (.inl hbase)

/-- A token of an application. -/
def appToken : HexToken := ⟨"0166666600000000", by decide⟩

/-- The pools of a route from it over SWX to KLY. -/
def routedPools : List Pool :=
  [{ thinPool appToken.toToken testnet.swx.toToken with
      price := 2
      price_bounds := by norm_num
      price_decimal := by decide +kernel },
    { thinPool testnet.swx.toToken testnet.kly.toToken with
      price := 3
      price_bounds := by norm_num
      price_decimal := by decide +kernel }]

theorem quoted_price_appToken :
    (0 : ℚ) < 2 ∧ PricedAlongRoute testnet 2 routedPools appToken testnet.kly ∧
      QuotedInUsd testnet 2 routedPools appToken ∧
      (∃ ts, IsChosenRoute testnet routedPools appToken.toToken testnet.kly.toToken ts) ∧
      getPrice exactColumns testnet 2 routedPools appToken.toToken usdToken = .ok 12 := by
  obtain ⟨hpriced, husd⟩ := (quoted_price_iff testnet 2 (by norm_num) routedPools appToken
    testnet.kly).mpr (.inl (by decide))
  refine ⟨by norm_num, hpriced, husd, ?_, by decide +kernel⟩
  -- both pools have enough liquidity
  refine exists_chosenRoute_iff.mpr (.inr (.inr ⟨routedPools, ?_, by simp [routedPools], by decide⟩))
  simp [routedPools, Walk, IsWalk, RouteQuery.Admits, thinPool]

/-- Without a pool of KLY, KLY is worth nothing in US dollars. -/
theorem kly_usd_zero :
    getPrice exactColumns testnet 2 [] testnet.kly.toToken usdToken = .ok 0 ∧
      ¬ QuotedInUsd testnet 2 [] testnet.kly := by
  have hzero : getPrice exactColumns testnet 2 [] testnet.kly.toToken usdToken = .ok 0 := by
    decide +kernel
  refine ⟨hzero, ?_⟩
  rintro ⟨price, hprice, husd⟩
  rw [getPrice_self, Except.ok.injEq] at hprice
  rw [hzero, ← hprice, Except.ok.injEq] at husd
  norm_num at husd

end PriceQuoter

end SwaptoshiService
