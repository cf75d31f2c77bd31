import Mathlib.Data.List.Infix
import Mathlib.Data.List.Count
import SwaptoshiService.Lib.Buffer
import SwaptoshiService.Lib.Sorting

/-!
# Prices of target pairs

The market service (`market/shared/market/priceUpdater.js`) has prices from several sources. For
each target pair it takes the prices that there are for the pair, and computes others over a
currency between, from two prices of **different sources**; the codes of the prices are compared as
texts. What is found is sorted by the number of sources after each step, and `getMarketPrices`
answers with the first price of each pair.

Where the codes are of two currencies the texts say what the currencies are (`includes_code_iff`,
`endsWith_code_iff`, `endsWith_pair_iff`), and the prices of a pair are its direct prices, in the
order of the sources, with all that are computed after them (`calcTargetPairPrices_eq`). So a price
that is computed is answered only if no source has a direct one (`market_prices`).
-/

namespace SwaptoshiService

namespace Market

/-- A price; `from_` and `to_` are its fields `from` and `to`. -/
structure Price (ρ : Type) where
  code : String
  from_ : String
  to_ : String
  rate : ρ
  updateTimestamp : ℕ
  sources : List String
  deriving DecidableEq

/-- `text.includes(pattern)` -/
def includes (text pattern : String) : Bool := pattern.toList <:+: text.toList

/-- `text.endsWith(pattern)` -/
def endsWith (text pattern : String) : Bool := pattern.toList <:+ text.toList

/-- `text.split('_')[i]` -/
def part (text : String) (i : ℕ) : String := String.ofList ((text.toList.splitOn '_').getD i [])

section Code

variable {ρ : Type} (mul : ρ → ρ → ρ) (formatCalculatedRate : String → ρ → String)

/-- The prices of all sources; the code of a price begins with its source. -/
def sourcePrices (rawPricesBySource : List (String × Option (List (Price ρ)))) : List (Price ρ) :=
  rawPricesBySource.flatMap fun entry =>
    (entry.2.getD []).map fun item => { item with code := entry.1 ++ "_" ++ item.code }

/-- The price of a target pair from a price for it. -/
def directPrice (targetPair : String) (rps : Price ρ) : Price String :=
  { rps with
    code := targetPair
    rate := formatCalculatedRate (part targetPair 1) rps.rate }

/-- The price of a target pair from two prices. -/
def finalPrice (targetPair : String) (rps rpt : Price ρ) : Price String where
  code := targetPair
  from_ := part targetPair 0
  to_ := part targetPair 1
  rate := formatCalculatedRate (part targetPair 1) (mul rps.rate rpt.rate)
  updateTimestamp := min rps.updateTimestamp rpt.updateTimestamp
  sources := rps.sources ++ rpt.sources

/-- What a price whose code names the first currency of the pair adds to the prices of the pair. -/
def pricesFrom (all : List (Price ρ)) (targetPair : String) (rps : Price ρ) : List (Price String) :=
  if endsWith rps.code ("_" ++ targetPair) then
    [directPrice formatCalculatedRate targetPair rps]
  else
    let intermediateTarget := part rps.code 2
    ((all.filter fun p => endsWith p.code ("_" ++ part targetPair 1)).filter fun rpt =>
      includes rpt.code ("_" ++ intermediateTarget ++ "_")).flatMap fun rpt =>
        if rps.code ≠ rpt.code ∧ rps.sources.head? ≠ rpt.sources.head? then
          [finalPrice mul formatCalculatedRate targetPair rps rpt]
        else []

def fewerSources (a b : Price String) : Bool := a.sources.length ≤ b.sources.length

/-- `calcTargetPairPrices(rawPricesBySource)[targetPair]` -/
def calcTargetPairPrices (rawPricesBySource : List (String × Option (List (Price ρ))))
    (targetPair : String) : List (Price String) :=
  let all := sourcePrices rawPricesBySource
  (all.filter fun p => includes p.code ("_" ++ part targetPair 0 ++ "_")).foldl
    (fun finalPrices rps =>
      (finalPrices ++ pricesFrom mul formatCalculatedRate all targetPair rps).mergeSort
        fewerSources) []

/-- `getMarketPrices()`, from the prices of the pairs that are cached, in the order in which the
cache answers. -/
def getMarketPrices (pricesByPairs : List (List (Price String))) :
    Except String (List (Price String)) :=
  let data := pricesByPairs.filterMap List.head?
  if data = [] then .error "Service is not ready yet" else .ok data

end Code

/-! ### Codes as texts -/

section Texts

variable {s f t x y : List Char}

theorem separator_inj_right {α : Type} {a : α} {l l' r r' : List α} (hr : a ∉ r) (hr' : a ∉ r')
    (h : l ++ a :: r = l' ++ a :: r') : l = l' ∧ r = r' := by
  have hreverse : r.reverse ++ a :: l.reverse = r'.reverse ++ a :: l'.reverse := by
    simpa using congrArg List.reverse h
  obtain ⟨h₁, h₂⟩ := append_separator_inj (by simpa using hr) (by simpa using hr') hreverse
  exact ⟨List.reverse_injective h₂, List.reverse_injective h₁⟩

theorem isInfix_code_iff (hs : '_' ∉ s) (hf : '_' ∉ f) (ht : '_' ∉ t) (hx : '_' ∉ x) :
    '_' :: x ++ ['_'] <:+: s ++ '_' :: (f ++ '_' :: t) ↔ f = x := by
  constructor
  · rintro ⟨u, v, h⟩
    -- The code has two separators, and they are around `x`.
    have hcount := congrArg (List.count '_') h
    simp only [List.count_append, List.count_cons_self, List.count_nil,
      List.count_eq_zero.mpr hs, List.count_eq_zero.mpr hf, List.count_eq_zero.mpr ht,
      List.count_eq_zero.mpr hx] at hcount
    have hu : '_' ∉ u := List.count_eq_zero.mp (by omega)
    have h : u ++ '_' :: (x ++ '_' :: v) = s ++ '_' :: (f ++ '_' :: t) := by simpa using h
    obtain ⟨-, h⟩ := append_separator_inj hu hs h
    exact (append_separator_inj hx hf h).1.symm
  · rintro rfl
    exact ⟨s, t, by simp⟩

theorem isSuffix_code_iff (ht : '_' ∉ t) (hy : '_' ∉ y) :
    '_' :: y <:+ s ++ '_' :: t ↔ t = y := by
  constructor
  · rintro ⟨u, h⟩
    exact (separator_inj_right hy ht h).2.symm
  · rintro rfl
    exact ⟨s, rfl⟩

theorem isSuffix_pair_iff (hf : '_' ∉ f) (ht : '_' ∉ t) (hx : '_' ∉ x) (hy : '_' ∉ y) :
    '_' :: (x ++ '_' :: y) <:+ s ++ '_' :: (f ++ '_' :: t) ↔ f = x ∧ t = y := by
  constructor
  · rintro ⟨u, h⟩
    have h : (u ++ '_' :: x) ++ '_' :: y = (s ++ '_' :: f) ++ '_' :: t := by simpa using h
    obtain ⟨h, hty⟩ := separator_inj_right hy ht h
    exact ⟨(separator_inj_right hx hf h).2.symm, hty.symm⟩
  · rintro ⟨rfl, rfl⟩
    exact ⟨s, rfl⟩

end Texts

/-- A name without the separator of the codes. -/
def IsName (name : String) : Prop := '_' ∉ name.toList

instance (name : String) : Decidable (IsName name) :=
  inferInstanceAs (Decidable ('_' ∉ name.toList))

section Codes

variable {source fr to_ x y : String}

theorem toList_pair (x y : String) : (x ++ "_" ++ y).toList = x.toList ++ '_' :: y.toList := by simp

theorem toList_code (source fr to_ : String) :
    (source ++ "_" ++ (fr ++ "_" ++ to_)).toList =
      source.toList ++ '_' :: (fr.toList ++ '_' :: to_.toList) := by
  simp

theorem includes_code_iff (hsource : IsName source) (hfr : IsName fr) (hto : IsName to_)
    (hx : IsName x) :
    includes (source ++ "_" ++ (fr ++ "_" ++ to_)) ("_" ++ x ++ "_") = true ↔ fr = x := by
  rw [includes, decide_eq_true_eq, toList_code, String.ext_iff,
    ← isInfix_code_iff hsource hfr hto hx]
  simp

theorem endsWith_code_iff (hto : IsName to_) (hy : IsName y) :
    endsWith (source ++ "_" ++ (fr ++ "_" ++ to_)) ("_" ++ y) = true ↔ to_ = y := by
  rw [endsWith, decide_eq_true_eq, toList_code, String.ext_iff,
    ← isSuffix_code_iff (s := source.toList ++ '_' :: fr.toList) hto hy]
  simp

theorem endsWith_pair_iff (hfr : IsName fr) (hto : IsName to_) (hx : IsName x) (hy : IsName y) :
    endsWith (source ++ "_" ++ (fr ++ "_" ++ to_)) ("_" ++ (x ++ "_" ++ y)) = true ↔
      fr = x ∧ to_ = y := by
  rw [endsWith, decide_eq_true_eq, toList_code, String.ext_iff, String.ext_iff,
    ← isSuffix_pair_iff (s := source.toList) hfr hto hx hy]
  simp

theorem part_pair_zero (hx : IsName x) (hy : IsName y) : part (x ++ "_" ++ y) 0 = x := by
  rw [part, toList_pair, splitOn_eq_pair_iff.mpr ⟨rfl, hx, hy⟩]
  simp

theorem part_pair_one (hx : IsName x) (hy : IsName y) : part (x ++ "_" ++ y) 1 = y := by
  rw [part, toList_pair, splitOn_eq_pair_iff.mpr ⟨rfl, hx, hy⟩]
  simp

theorem part_code_two (hsource : IsName source) (hfr : IsName fr) (hto : IsName to_) :
    part (source ++ "_" ++ (fr ++ "_" ++ to_)) 2 = to_ := by
  rw [part, toList_code, List.splitOn_append_cons_self_of_not_mem hsource,
    splitOn_eq_pair_iff.mpr ⟨rfl, hfr, hto⟩]
  simp

end Codes

/-! ### Prices by their currencies -/

/-- A price as a source has it. -/
structure IsSourcePrice {ρ : Type} (source : String) (p : Price ρ) : Prop where
  code : p.code = p.from_ ++ "_" ++ p.to_
  isName_from : IsName p.from_
  isName_to : IsName p.to_
  sources : p.sources = [source]

/-- The prices of the sources as they have them; a source that is not reached has none. -/
structure AreSourcePrices {ρ : Type}
    (rawPricesBySource : List (String × Option (List (Price ρ)))) : Prop where
  isName : ∀ entry ∈ rawPricesBySource, IsName entry.1
  isSourcePrice : ∀ entry ∈ rawPricesBySource, ∀ p ∈ entry.2.getD [], IsSourcePrice entry.1 p

section Spec

variable {ρ : Type} (mul : ρ → ρ → ρ) (formatCalculatedRate : String → ρ → String)
  (rawPricesBySource : List (String × Option (List (Price ρ))))

/-- All prices, in the order of the sources. -/
def rawPrices : List (Price ρ) := rawPricesBySource.flatMap fun entry => entry.2.getD []

/-- The price of a pair that a source has. -/
def ownPrice (x y : String) (p : Price ρ) : Price String where
  code := x ++ "_" ++ y
  from_ := x
  to_ := y
  rate := formatCalculatedRate y p.rate
  updateTimestamp := p.updateTimestamp
  sources := p.sources

/-- The price of a pair that two prices make; it is as old as the older of them. -/
def crossPrice (x y : String) (p q : Price ρ) : Price String where
  code := x ++ "_" ++ y
  from_ := x
  to_ := y
  rate := formatCalculatedRate y (mul p.rate q.rate)
  updateTimestamp := min p.updateTimestamp q.updateTimestamp
  sources := p.sources ++ q.sources

/-- The prices that the sources have for a pair. -/
def directPrices (x y : String) : List (Price String) :=
  ((rawPrices rawPricesBySource).filter fun p => p.from_ = x ∧ p.to_ = y).map
    (ownPrice formatCalculatedRate x y)

/-- The prices of a pair that a price for its first currency makes with those of other sources. -/
def crossPricesOf (x y : String) (p : Price ρ) : List (Price String) :=
  ((rawPrices rawPricesBySource).filter fun q =>
    q.from_ = p.to_ ∧ q.to_ = y ∧ q.sources ≠ p.sources).map
      (crossPrice mul formatCalculatedRate x y p)

/-- The prices of a pair over a currency between, from two sources. -/
def crossPrices (x y : String) : List (Price String) :=
  ((rawPrices rawPricesBySource).filter fun p => p.from_ = x ∧ p.to_ ≠ y).flatMap
    (crossPricesOf mul formatCalculatedRate rawPricesBySource x y)

end Spec

/-! ### The code computes them -/

section Proof

variable {ρ : Type} {mul : ρ → ρ → ρ} {formatCalculatedRate : String → ρ → String}
  {rawPricesBySource : List (String × Option (List (Price ρ)))} {x y : String}

/-- The prices with the sources they are from. -/
private def named (rawPricesBySource : List (String × Option (List (Price ρ)))) :
    List (String × Price ρ) :=
  rawPricesBySource.flatMap fun entry => (entry.2.getD []).map fun item => (entry.1, item)

/-- The price that the code has for one of a source. -/
private def coded (e : String × Price ρ) : Price ρ := { e.2 with code := e.1 ++ "_" ++ e.2.code }

private theorem sourcePrices_eq_map_named :
    sourcePrices rawPricesBySource = (named rawPricesBySource).map coded := by
  rw [sourcePrices, named, List.map_flatMap]
  simp only [List.map_map]
  rfl

private theorem rawPrices_eq_map_named :
    rawPrices rawPricesBySource = (named rawPricesBySource).map Prod.snd := by
  rw [rawPrices, named, List.map_flatMap]
  simp

private theorem AreSourcePrices.of_mem_named (hraw : AreSourcePrices rawPricesBySource)
    {e : String × Price ρ} (he : e ∈ named rawPricesBySource) :
    IsName e.1 ∧ IsSourcePrice e.1 e.2 := by
  obtain ⟨entry, hentry, hmem⟩ := List.mem_flatMap.mp he
  obtain ⟨item, hitem, rfl⟩ := List.mem_map.mp hmem
  exact ⟨hraw.isName entry hentry, hraw.isSourcePrice entry hentry item hitem⟩

private theorem coded_code {e : String × Price ρ} (he : IsSourcePrice e.1 e.2) :
    (coded e).code = e.1 ++ "_" ++ (e.2.from_ ++ "_" ++ e.2.to_) := by
  rw [coded, he.code]

/-- The code names the first currency of the pair. -/
private theorem includes_coded (hx : IsName x) {e : String × Price ρ}
    (he : IsName e.1 ∧ IsSourcePrice e.1 e.2) :
    includes (coded e).code ("_" ++ x ++ "_") = decide (e.2.from_ = x) := by
  rw [coded_code he.2, Bool.eq_iff_iff, decide_eq_true_eq]
  exact includes_code_iff he.1 he.2.isName_from he.2.isName_to hx

/-- Prices of different sources have different codes. -/
private theorem distinct_iff {e e' : String × Price ρ} (he : IsName e.1 ∧ IsSourcePrice e.1 e.2)
    (he' : IsName e'.1 ∧ IsSourcePrice e'.1 e'.2) :
    ((coded e).code ≠ (coded e').code ∧
        (coded e).sources.head? ≠ (coded e').sources.head?) ↔ e'.2.sources ≠ e.2.sources := by
  have hsources : (coded e).sources.head? ≠ (coded e').sources.head? ↔ e.1 ≠ e'.1 := by
    rw [coded, coded, he.2.sources, he'.2.sources]
    simp
  rw [hsources, he.2.sources, he'.2.sources]
  constructor
  · rintro ⟨-, hne⟩ heq
    exact hne (List.singleton_inj.mp heq).symm
  · intro hne
    have hne : e.1 ≠ e'.1 := fun h => hne (by rw [h])
    refine ⟨fun hcode => hne (String.ext ?_), hne⟩
    rw [coded_code he.2, coded_code he'.2] at hcode
    have htext := congrArg String.toList hcode
    rw [toList_code, toList_code] at htext
    exact (append_separator_inj he.1 he'.1 htext).1

/-- What one price adds: itself if it is for the pair, otherwise what it makes with the prices of
other sources for the rest of the way. -/
private theorem pricesFrom_coded (hraw : AreSourcePrices rawPricesBySource) (hx : IsName x)
    (hy : IsName y) {e : String × Price ρ} (he : e ∈ named rawPricesBySource)
    (hfrom : e.2.from_ = x) :
    pricesFrom mul formatCalculatedRate (sourcePrices rawPricesBySource) (x ++ "_" ++ y) (coded e) =
      if e.2.to_ = y then [ownPrice formatCalculatedRate x y e.2]
      else crossPricesOf mul formatCalculatedRate rawPricesBySource x y e.2 := by
  have hsource := hraw.of_mem_named he
  have hpair : endsWith (coded e).code ("_" ++ (x ++ "_" ++ y)) = true ↔ e.2.to_ = y := by
    rw [coded_code hsource.2, endsWith_pair_iff hsource.2.isName_from hsource.2.isName_to hx hy]
    exact and_iff_right hfrom
  by_cases hto : e.2.to_ = y
  · rw [pricesFrom, if_pos (hpair.mpr hto), if_pos hto, directPrice, part_pair_one hx hy, coded,
      ownPrice, hfrom, hto]
  · have hbetween : part (coded e).code 2 = e.2.to_ := by
      rw [coded_code hsource.2,
        part_code_two hsource.1 hsource.2.isName_from hsource.2.isName_to]
    rw [pricesFrom, if_neg (fun h => hto (hpair.mp h)), if_neg hto, crossPricesOf]
    simp only [hbetween, part_pair_one hx hy]
    rw [sourcePrices_eq_map_named, rawPrices_eq_map_named, List.filter_map, List.filter_map,
      List.flatMap_map, List.filter_map, List.map_map, List.filter_filter]
    -- Both lists have what the filter leaves of the named prices.
    have hsplit : ∀ (l : List (String × Price ρ)), (∀ q ∈ l, q ∈ named rawPricesBySource) →
        (l.filter fun q => ((fun rpt : Price ρ =>
            includes rpt.code ("_" ++ e.2.to_ ++ "_")) ∘ coded) q &&
              ((fun p : Price ρ => endsWith p.code ("_" ++ y)) ∘ coded) q).flatMap (fun q =>
          if (coded e).code ≠ (coded q).code ∧
              (coded e).sources.head? ≠ (coded q).sources.head? then
            [finalPrice mul formatCalculatedRate (x ++ "_" ++ y) (coded e) (coded q)]
          else []) =
        (l.filter ((fun q : Price ρ => decide (q.from_ = e.2.to_ ∧ q.to_ = y ∧
            q.sources ≠ e.2.sources)) ∘ Prod.snd)).map fun q =>
          finalPrice mul formatCalculatedRate (x ++ "_" ++ y) (coded e) (coded q) := by
      intro l
      induction l with
      | nil => intro; rfl
      | cons q l ih =>
        intro hl
        have hq := hraw.of_mem_named (hl q List.mem_cons_self)
        have htail := ih fun q' hq' => hl q' (List.mem_cons_of_mem _ hq')
        have hends : endsWith (coded q).code ("_" ++ y) = decide (q.2.to_ = y) := by
          rw [coded_code hq.2, Bool.eq_iff_iff, decide_eq_true_eq]
          exact endsWith_code_iff hq.2.isName_to hy
        have hincludes := includes_coded hsource.2.isName_to hq
        have hdistinct := distinct_iff hsource hq
        rw [List.filter_cons, List.filter_cons]
        simp only [Function.comp_apply, hends, hincludes] at htail ⊢
        by_cases h₁ : q.2.from_ = e.2.to_
        · by_cases h₂ : q.2.to_ = y
          · by_cases h₃ : q.2.sources = e.2.sources
            · simp only [h₁, h₂, h₃, hdistinct, htail, List.flatMap_cons, decide_true,
                Bool.and_self, if_true, ne_eq, not_true_eq_false, and_false, decide_false,
                Bool.false_eq_true, if_false, List.nil_append]
            · simp only [h₁, h₂, h₃, hdistinct, htail, List.flatMap_cons, decide_true,
                Bool.and_self, if_true, ne_eq, not_false_eq_true, and_self, List.map_cons,
                List.singleton_append]
          · simp [h₁, h₂, htail]
        · simp [h₁, htail]
    refine (hsplit _ fun _ h => h).trans (List.map_congr_left fun q _ => ?_)
    rw [finalPrice, part_pair_zero hx hy, part_pair_one hx hy]
    rfl

private theorem flatMap_ite {α β : Type} (l : List α) (P : α → Prop) [DecidablePred P]
    (f g : α → List β) :
    l.flatMap (fun a => if P a then f a else []) = (l.filter fun a => P a).flatMap f ∧
      l.flatMap (fun a => if P a then [] else g a) = (l.filter fun a => ¬ P a).flatMap g := by
  induction l with
  | nil => exact ⟨rfl, rfl⟩
  | cons a l ih =>
    rw [List.filter_cons, List.filter_cons]
    by_cases h : P a <;> simp [h, ih]

private theorem foldl_fewerSources {γ : Type} (f : γ → List (Price String)) (steps : List γ) :
    steps.foldl (fun l c => (l ++ f c).mergeSort fewerSources) [] =
      (steps.flatMap f).mergeSort fewerSources :=
  @foldl_mergeSort (Price String) ℕ γ (fun m n => decide (m ≤ n)) (fun p => p.sources.length) _
    isTotalLe_le f steps

private theorem mergeSort_fewerSources {l : List (Price String)}
    (h : ∀ p ∈ l, p.sources.length = 1 ∨ p.sources.length = 2) :
    l.mergeSort fewerSources =
      l.filter (fun p => p.sources.length = 1) ++ l.filter fun p => p.sources.length = 2 :=
  @mergeSort_eq_append (Price String) ℕ (fun m n => decide (m ≤ n)) (fun p => p.sources.length) l _
    isTotalLe_le 1 2 (by decide) (by decide) h

variable (mul formatCalculatedRate x y) in
/-- The numbers of sources of what a price adds. -/
private theorem length_sources (hraw : AreSourcePrices rawPricesBySource) {e : String × Price ρ}
    (he : e ∈ named rawPricesBySource) :
    (ownPrice formatCalculatedRate x y e.2).sources.length = 1 ∧
      ∀ p ∈ crossPricesOf mul formatCalculatedRate rawPricesBySource x y e.2,
        p.sources.length = 2 := by
  refine ⟨by simp [ownPrice, (hraw.of_mem_named he).2.sources], fun p hp => ?_⟩
  obtain ⟨q, hq, rfl⟩ := List.mem_map.mp hp
  rw [rawPrices_eq_map_named] at hq
  obtain ⟨e', he', rfl⟩ := List.mem_map.mp (List.mem_filter.mp hq).1
  simp [crossPrice, (hraw.of_mem_named he).2.sources, (hraw.of_mem_named he').2.sources]

/-- The prices of a target pair: those that the sources have, in the order of the sources, and after
them all that two sources make. -/
theorem calcTargetPairPrices_eq (hraw : AreSourcePrices rawPricesBySource) (hx : IsName x)
    (hy : IsName y) :
    calcTargetPairPrices mul formatCalculatedRate rawPricesBySource (x ++ "_" ++ y) =
      directPrices formatCalculatedRate rawPricesBySource x y ++
        crossPrices mul formatCalculatedRate rawPricesBySource x y := by
  have hfold : calcTargetPairPrices mul formatCalculatedRate rawPricesBySource (x ++ "_" ++ y) =
      (((sourcePrices rawPricesBySource).filter fun p =>
        includes p.code ("_" ++ part (x ++ "_" ++ y) 0 ++ "_")).flatMap
          (pricesFrom mul formatCalculatedRate (sourcePrices rawPricesBySource)
            (x ++ "_" ++ y))).mergeSort fewerSources :=
    foldl_fewerSources _ _
  have hfrom : (sourcePrices rawPricesBySource).filter (fun p =>
      includes p.code ("_" ++ part (x ++ "_" ++ y) 0 ++ "_")) =
        ((named rawPricesBySource).filter fun e => e.2.from_ = x).map coded := by
    rw [sourcePrices_eq_map_named, List.filter_map, part_pair_zero hx hy]
    exact congrArg _ (List.filter_congr fun e he => includes_coded hx (hraw.of_mem_named he))
  have hflat : (((named rawPricesBySource).filter fun e => e.2.from_ = x).map coded).flatMap
      (pricesFrom mul formatCalculatedRate (sourcePrices rawPricesBySource) (x ++ "_" ++ y)) =
        ((named rawPricesBySource).filter fun e => e.2.from_ = x).flatMap fun e =>
          if e.2.to_ = y then [ownPrice formatCalculatedRate x y e.2]
          else crossPricesOf mul formatCalculatedRate rawPricesBySource x y e.2 := by
    rw [List.flatMap_map]
    refine List.flatMap_congr fun e he => ?_
    obtain ⟨hmem, hfrom⟩ := List.mem_filter.mp he
    exact pricesFrom_coded hraw hx hy hmem (of_decide_eq_true hfrom)
  -- Own prices have one source and crossed ones two, so the sort puts the own ones first.
  have hown : ∀ e ∈ (named rawPricesBySource).filter fun e => e.2.from_ = x,
      (if e.2.to_ = y then [ownPrice formatCalculatedRate x y e.2]
        else crossPricesOf mul formatCalculatedRate rawPricesBySource x y e.2).filter
          (fun p => p.sources.length = 1) =
        if e.2.to_ = y then [ownPrice formatCalculatedRate x y e.2] else [] := by
    intro e he
    obtain ⟨hone, htwo⟩ := length_sources mul formatCalculatedRate x y hraw
      (List.mem_filter.mp he).1
    split_ifs
    · simp [hone]
    · exact List.filter_eq_nil_iff.mpr fun p hp => by simp [htwo p hp]
  have hcross : ∀ e ∈ (named rawPricesBySource).filter fun e => e.2.from_ = x,
      (if e.2.to_ = y then [ownPrice formatCalculatedRate x y e.2]
        else crossPricesOf mul formatCalculatedRate rawPricesBySource x y e.2).filter
          (fun p => p.sources.length = 2) =
        if e.2.to_ = y then [] else
          crossPricesOf mul formatCalculatedRate rawPricesBySource x y e.2 := by
    intro e he
    obtain ⟨hone, htwo⟩ := length_sources mul formatCalculatedRate x y hraw
      (List.mem_filter.mp he).1
    split_ifs
    · simp [hone]
    · exact List.filter_eq_self.mpr fun p hp => by simp [htwo p hp]
  rw [hfold, hfrom, hflat, mergeSort_fewerSources, List.filter_flatMap, List.filter_flatMap,
    List.flatMap_congr hown, List.flatMap_congr hcross, (flatMap_ite _ _ _ fun _ => []).1,
    (flatMap_ite _ _ (fun _ => []) _).2, List.filter_filter, List.filter_filter]
  · rw [directPrices, crossPrices, rawPrices_eq_map_named, List.filter_map, List.filter_map,
      List.map_map, List.flatMap_map]
    congr 1
    · rw [← List.map_eq_flatMap]
      refine congrArg (List.map _) (List.filter_congr fun e _ => ?_)
      simp [Bool.and_comm]
    · refine congrArg (List.flatMap _) (List.filter_congr fun e _ => ?_)
      simp [Bool.and_comm]
  · intro p hp
    obtain ⟨e, he, hmem⟩ := List.mem_flatMap.mp hp
    obtain ⟨hone, htwo⟩ := length_sources mul formatCalculatedRate x y hraw
      (List.mem_filter.mp he).1
    split_ifs at hmem
    · exact Or.inl (List.mem_singleton.mp hmem ▸ hone)
    · exact Or.inr (htwo p hmem)

/-- The answer has a price for each pair that has one, in the order in which the cache answers, and
it is one that a source has unless no source has any. -/
theorem getMarketPrices_eq_ok_iff {pairs : List ((String × String) ×
      List (String × Option (List (Price ρ))))}
    (hpairs : ∀ e ∈ pairs, IsName e.1.1 ∧ IsName e.1.2 ∧ AreSourcePrices e.2)
    {data : List (Price String)} :
    getMarketPrices (pairs.map fun e =>
        calcTargetPairPrices mul formatCalculatedRate e.2 (e.1.1 ++ "_" ++ e.1.2)) = .ok data ↔
      data ≠ [] ∧ data = pairs.filterMap fun e =>
        (directPrices formatCalculatedRate e.2 e.1.1 e.1.2).head?.or
          (crossPrices mul formatCalculatedRate e.2 e.1.1 e.1.2).head? := by
  have hdata : (pairs.map fun e => calcTargetPairPrices mul formatCalculatedRate e.2
      (e.1.1 ++ "_" ++ e.1.2)).filterMap List.head? = pairs.filterMap fun e =>
        (directPrices formatCalculatedRate e.2 e.1.1 e.1.2).head?.or
          (crossPrices mul formatCalculatedRate e.2 e.1.1 e.1.2).head? := by
    rw [List.filterMap_map]
    refine List.filterMap_congr fun e he => ?_
    obtain ⟨hx, hy, hraw⟩ := hpairs e he
    rw [Function.comp_apply, calcTargetPairPrices_eq hraw hx hy, List.head?_append]
  rw [getMarketPrices, hdata]
  split_ifs with h
  · exact ⟨nofun, fun ⟨hne, heq⟩ => absurd (heq.trans h) hne⟩
  · rw [Except.ok.injEq]
    exact ⟨fun heq => ⟨heq ▸ h, heq.symm⟩, fun hdata => hdata.2.symm⟩

/-- **Market prices.** The prices of each target pair are those that the sources have, in the order
of the sources, and after them all that two sources make; and the prices answered are the first of
each pair. -/
theorem market_prices (mul : ρ → ρ → ρ) (formatCalculatedRate : String → ρ → String)
    (pairs : List ((String × String) × List (String × Option (List (Price ρ)))))
    (hpairs : ∀ e ∈ pairs, IsName e.1.1 ∧ IsName e.1.2 ∧ AreSourcePrices e.2) :
    (∀ e ∈ pairs, calcTargetPairPrices mul formatCalculatedRate e.2 (e.1.1 ++ "_" ++ e.1.2) =
      directPrices formatCalculatedRate e.2 e.1.1 e.1.2 ++
        crossPrices mul formatCalculatedRate e.2 e.1.1 e.1.2) ∧
    ∀ data, getMarketPrices (pairs.map fun e =>
        calcTargetPairPrices mul formatCalculatedRate e.2 (e.1.1 ++ "_" ++ e.1.2)) = .ok data ↔
      data ≠ [] ∧ data = pairs.filterMap fun e =>
        (directPrices formatCalculatedRate e.2 e.1.1 e.1.2).head?.or
          (crossPrices mul formatCalculatedRate e.2 e.1.1 e.1.2).head? :=
  ⟨fun e he => calcTargetPairPrices_eq (hpairs e he).2.2 (hpairs e he).1 (hpairs e he).2.1,
    fun _ => getMarketPrices_eq_ok_iff hpairs⟩

/-- A price of a coin in a first source, and one of what it is in there in a second. -/
private def twoSources : List (String × Option (List (Price ℕ))) :=
  [("bitrue", some [⟨"KLY_BTC", "KLY", "BTC", 2, 10, ["bitrue"]⟩]),
   ("binance", some [⟨"BTC_EUR", "BTC", "EUR", 3, 12, ["binance"]⟩]), ("exchangeratesapi", none)]

/-- The price over the coin between is the only one. -/
theorem market_prices_twoSources :
    getMarketPrices ([(("KLY", "EUR"), twoSources)].map fun e =>
        calcTargetPairPrices (· * ·) (fun _ n => toString n ++ ".0000") e.2
          (e.1.1 ++ "_" ++ e.1.2)) =
      .ok [⟨"KLY_EUR", "KLY", "EUR", "6.0000", 10, ["bitrue", "binance"]⟩] := by
  refine ((market_prices (· * ·) (fun _ n => toString n ++ ".0000") [(("KLY", "EUR"), twoSources)]
    (List.forall_mem_singleton.mpr ⟨by decide, by decide, ?_, ?_⟩)).2 _).mpr
      ⟨List.cons_ne_nil _ _, ?_⟩
  · simp only [twoSources, List.forall_mem_cons]
    decide
  · simp only [twoSources, List.forall_mem_cons, Option.getD_some]
    exact ⟨⟨⟨by decide, by decide, by decide, rfl⟩, List.forall_mem_nil _⟩,
      ⟨⟨by decide, by decide, by decide, rfl⟩, List.forall_mem_nil _⟩,
      List.forall_mem_nil _, List.forall_mem_nil _⟩
  · decide

end Proof

end Market

end SwaptoshiService
