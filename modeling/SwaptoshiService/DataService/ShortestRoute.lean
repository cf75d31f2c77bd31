import Mathlib.Algebra.BigOperators.Ring.List
import SwaptoshiService.DataService.PriceQuoter
import SwaptoshiService.Lib.Except
import SwaptoshiService.Lib.Walk

/-!
# The route that `getRoute` finds

Every pool is stored in both directions, so the recursive query of `getRoute` walks a graph full of
cycles, without remembering what it has visited: after `k` iterations it holds the rows of **all**
walks of `k` pools (`LevelOf`). What it returns is simple nevertheless, because a shortest walk is.

`shortest_route` describes the answer, and when there is none because a value of some walk, be it on
the way to the target or not, does not fit its column.
-/

namespace SwaptoshiService

namespace PriceQuoter

variable {columns : RouteColumns} {pools : List Pool} {q : RouteQuery}

/-! ### Walks -/

/-- A chain of pools that the query may use. -/
def Walk (pools : List Pool) (q : RouteQuery) (a : Token) (es : List Pool) (b : Token) : Prop :=
  IsWalk Pool.token0 Pool.token1 (q.Admits pools) a es b

/-- The path of a chain of pools. -/
def walkPath (a : Token) (es : List Pool) : String :=
  a.val ++ Route.hopsText (es.map fun p => (p.fee, p.token1))

/-- The product of the prices, rounded after each factor. -/
def roundedProduct (round : ℚ → ℚ) : List Pool → ℚ
  | [] => 1
  | p :: es => es.foldl (fun price t => round (price * t.price)) p.price

/-- The sum of the liquidities. -/
def walkLiquidity (es : List Pool) : ℕ := (es.map Pool.liquidity).sum

/-- The row of a walk. -/
def walkRow (columns : RouteColumns) (p : Pool) (es : List Pool) : Except String PathRow :=
  es.foldlM (nextRow columns) (firstRow p)

/-- What a column stores is the number rounded, the sum and the text. -/
structure RouteColumns.Stores (columns : RouteColumns) (round : ℚ → ℚ) : Prop where
  price : ∀ x y, columns.totalPrice x = some y → y = round x
  liquidity : ∀ n m, columns.totalLiquidity n = some m → m = n
  path : ∀ s s', columns.path s = some s' → s' = s

theorem mysqlColumns_stores : mysqlColumns.Stores toDecimal where
  price x y h := by
    simp only [mysqlColumns] at h
    split at h
    · exact (Option.some.inj h).symm
    · exact absurd h (by simp)
  liquidity n m h := by
    simp only [mysqlColumns] at h
    split at h
    · exact (Option.some.inj h).symm
    · exact absurd h (by simp)
  path s s' h := by
    simp only [mysqlColumns] at h
    split at h
    · exact (Option.some.inj h).symm
    · exact absurd h (by simp)

theorem exactColumns_stores : exactColumns.Stores id where
  price _ _ h := (Option.some.inj h).symm
  liquidity _ _ h := (Option.some.inj h).symm
  path _ _ h := (Option.some.inj h).symm

/-! ### The row of a walk -/

section Rows

variable {a b : Token} {p t : Pool} {es : List Pool} {sp row : PathRow}

theorem fit_eq_ok_iff {α : Type} {column : String} {o : Option α} {x : α} :
    fit column o = .ok x ↔ o = some x := by
  cases o with
  | none => simp [fit]
  | some y => simp [fit]

theorem nextRow_ok_iff : nextRow columns sp t = .ok row ↔
    columns.totalPrice (sp.totalPrice * t.price) = some row.totalPrice ∧
    columns.totalLiquidity (sp.totalLiquidity + t.liquidity) = some row.totalLiquidity ∧
    columns.path (sp.path ++ feeHex t.fee ++ t.token1.val) = some row.path ∧
    row.node = sp.nextNode ∧ row.nextNode = t.token1 ∧ row.depth = sp.depth + 1 := by
  constructor
  · intro h
    obtain ⟨x, hprice, h⟩ := bind_eq_ok_iff.mp h
    obtain ⟨m, hliquidity, h⟩ := bind_eq_ok_iff.mp h
    obtain ⟨s, hpath, h⟩ := bind_eq_ok_iff.mp h
    obtain rfl := pure_eq_ok_iff.mp h
    exact ⟨fit_eq_ok_iff.mp hprice, fit_eq_ok_iff.mp hliquidity, fit_eq_ok_iff.mp hpath,
      rfl, rfl, rfl⟩
  · rintro ⟨hprice, hliquidity, hpath, hnode, hnext, hdepth⟩
    rw [nextRow, hprice, hliquidity, hpath]
    obtain ⟨node, nextNode, totalPrice, totalLiquidity, depth, path⟩ := row
    subst hnode hnext hdepth
    rfl

theorem walkRow_concat_ok_iff : walkRow columns p (es ++ [t]) = .ok row ↔
    ∃ sp, walkRow columns p es = .ok sp ∧ nextRow columns sp t = .ok row := by
  rw [walkRow, List.foldlM_append, bind_eq_ok_iff]
  simp only [List.foldlM_cons, List.foldlM_nil, bind_pure, walkRow]

theorem walkRow_depth (h : walkRow columns p es = .ok row) : row.depth = es.length + 1 := by
  induction es using List.reverseRecOn generalizing row with
  | nil =>
    obtain rfl := Except.ok.inj h
    rfl
  | append_singleton es t ih =>
    obtain ⟨sp, hsp, hrow⟩ := walkRow_concat_ok_iff.mp h
    rw [(nextRow_ok_iff.mp hrow).2.2.2.2.2, ih hsp, List.length_append, List.length_singleton]

/-- The row ends where the walk ends. -/
theorem walkRow_nextNode (hw : Walk pools q a (p :: es) b) (h : walkRow columns p es = .ok row) :
    row.nextNode = b := by
  rcases List.eq_nil_or_concat es with rfl | ⟨es, t, rfl⟩
  · obtain rfl := Except.ok.inj h
    exact hw.2.2
  · rw [List.concat_eq_append] at hw h
    obtain ⟨sp, -, hrow⟩ := walkRow_concat_ok_iff.mp h
    have hlast := IsWalk.concat_iff.mp (List.cons_append (a := p) ▸ hw)
    rw [(nextRow_ok_iff.mp hrow).2.2.2.2.1, hlast.2.2]

theorem hopsText_append (hops hops' : List (ℕ × Token)) :
    Route.hopsText (hops ++ hops') = Route.hopsText hops ++ Route.hopsText hops' := by
  induction hops with
  | nil => simp [Route.hopsText]
  | cons hop hops ih => simp only [List.cons_append, Route.hopsText, ih, String.append_assoc]

theorem roundedProduct_concat (round : ℚ → ℚ) (p : Pool) (es : List Pool) (t : Pool) :
    roundedProduct round (p :: (es ++ [t])) = round (roundedProduct round (p :: es) * t.price) := by
  rw [roundedProduct, List.foldl_append]
  rfl

theorem walkLiquidity_concat (es : List Pool) (t : Pool) :
    walkLiquidity (es ++ [t]) = walkLiquidity es + t.liquidity := by
  rw [walkLiquidity, List.map_append, List.sum_append, List.map_singleton, List.sum_singleton]
  rfl

theorem walkPath_concat (a : Token) (es : List Pool) (t : Pool) :
    walkPath a (es ++ [t]) = walkPath a es ++ feeHex t.fee ++ t.token1.val := by
  rw [walkPath, List.map_append, hopsText_append]
  simp [walkPath, Route.hopsText, String.append_assoc]

theorem length_walkPath (a : Token) (es : List Pool) :
    (walkPath a es).length = 16 + 22 * es.length := by
  rw [walkPath, TradingPath.length_path, List.length_map]

/-- What the columns of the row hold. -/
theorem walkRow_columns {round : ℚ → ℚ} (hstores : columns.Stores round)
    (h : walkRow columns p es = .ok row) :
    row.totalPrice = roundedProduct round (p :: es) ∧
      row.totalLiquidity = walkLiquidity (p :: es) ∧ row.path = walkPath p.token0 (p :: es) := by
  induction es using List.reverseRecOn generalizing row with
  | nil =>
    obtain rfl := Except.ok.inj h
    refine ⟨rfl, by simp [walkLiquidity, firstRow], ?_⟩
    simp [walkPath, Route.hopsText, firstRow, String.append_assoc]
  | append_singleton es t ih =>
    obtain ⟨sp, hsp, hrow⟩ := walkRow_concat_ok_iff.mp h
    obtain ⟨hprice, hliquidity, hpath⟩ := ih hsp
    obtain ⟨hprice', hliquidity', hpath', -⟩ := nextRow_ok_iff.mp hrow
    refine ⟨?_, ?_, ?_⟩
    · rw [hstores.price _ _ hprice', hprice, roundedProduct_concat]
    · rw [hstores.liquidity _ _ hliquidity', hliquidity, ← List.cons_append, walkLiquidity_concat]
    · rw [hstores.path _ _ hpath', hpath, ← List.cons_append, walkPath_concat]

/-- A walk whose row is stored has stored rows all along. -/
theorem walkRow_prefix {es' : List Pool} (h : walkRow columns p (es ++ es') = .ok row) :
    ∃ row', walkRow columns p es = .ok row' := by
  induction es' using List.reverseRecOn generalizing row with
  | nil => exact ⟨row, by rwa [List.append_nil] at h⟩
  | append_singleton es' t ih =>
    rw [← List.append_assoc] at h
    obtain ⟨sp, hsp, -⟩ := walkRow_concat_ok_iff.mp h
    exact ih hsp

end Rows

/-! ### The iterations -/

section Iterations

variable {k fuel : ℕ} {level next rows : List PathRow} {row : PathRow}

/-- The rows are those of all walks of `k` pools. -/
def LevelOf (columns : RouteColumns) (pools : List Pool) (q : RouteQuery) (k : ℕ)
    (level : List PathRow) : Prop :=
  ∀ row, row ∈ level ↔ ∃ p es b, es.length + 1 = k ∧ Walk pools q q.source (p :: es) b ∧
    walkRow columns p es = .ok row

/-- The rows of all walks of at most `k` pools can be stored. -/
def AllFit (columns : RouteColumns) (pools : List Pool) (q : RouteQuery) (k : ℕ) : Prop :=
  ∀ p es b, Walk pools q q.source (p :: es) b → es.length + 1 ≤ k →
    ∃ row, walkRow columns p es = .ok row

theorem levelOf_firstRows : LevelOf columns pools q 1 (firstRows pools q) := by
  intro row
  simp only [firstRows, List.mem_map, List.mem_filter, decide_eq_true_eq]
  constructor
  · rintro ⟨p, ⟨hp, hsrc, hliq⟩, rfl⟩
    exact ⟨p, [], p.token1, rfl, ⟨⟨hp, hliq⟩, hsrc, rfl⟩, rfl⟩
  · rintro ⟨p, es, b, hlength, ⟨⟨hp, hliq⟩, hsrc, -⟩, hrow⟩
    obtain rfl : es = [] := List.length_eq_zero_iff.mp (by omega)
    exact ⟨p, ⟨hp, hsrc, hliq⟩, Except.ok.inj hrow⟩

theorem allFit_one : AllFit columns pools q 1 := by
  intro p es b _ hlength
  obtain rfl : es = [] := List.length_eq_zero_iff.mp (by omega)
  exact ⟨firstRow p, rfl⟩

theorem mem_joinedPairs {sp : PathRow} {t : Pool} : (sp, t) ∈ joinedPairs pools q level ↔
    sp ∈ level ∧ q.Admits pools t ∧ t.token0 = sp.nextNode ∧ sp.depth < q.maxRecursion := by
  simp only [joinedPairs, List.mem_flatMap, List.mem_map, List.mem_filter, decide_eq_true_eq,
    Prod.mk.injEq]
  constructor
  · rintro ⟨t', ht', sp', ⟨hsp', hjoin, hdepth, hliq⟩, rfl, rfl⟩
    exact ⟨hsp', ⟨ht', hliq⟩, hjoin, hdepth⟩
  · rintro ⟨hsp, ⟨ht, hliq⟩, hjoin, hdepth⟩
    exact ⟨t, ht, sp, ⟨hsp, hjoin, hdepth, hliq⟩, rfl, rfl⟩

/-- Every row of a level and every pool that continues it make a longer walk. -/
theorem LevelOf.extend (hlevel : LevelOf columns pools q k level) {sp : PathRow} {t : Pool}
    (hpair : (sp, t) ∈ joinedPairs pools q level) :
    ∃ p es, es.length + 1 = k ∧ walkRow columns p es = .ok sp ∧
      Walk pools q q.source (p :: (es ++ [t])) t.token1 := by
  obtain ⟨hsp, hadmits, hjoin, -⟩ := mem_joinedPairs.mp hpair
  obtain ⟨p, es, b, hlength, hwalk, hrow⟩ := (hlevel sp).mp hsp
  refine ⟨p, es, hlength, hrow, ?_⟩
  rw [← List.cons_append]
  refine IsWalk.concat_iff.mpr ⟨?_, hadmits, rfl⟩
  rw [hjoin, walkRow_nextNode hwalk hrow]
  exact hwalk

/-- A walk of `k + 1` pools is found by the `JOIN`. -/
theorem LevelOf.joined (hlevel : LevelOf columns pools q k level) (hk : k < q.maxRecursion)
    {p t : Pool} {es : List Pool} {b : Token} {sp : PathRow}
    (hwalk : Walk pools q q.source (p :: (es ++ [t])) b) (hlength : es.length + 1 = k)
    (hsp : walkRow columns p es = .ok sp) : (sp, t) ∈ joinedPairs pools q level := by
  rw [← List.cons_append] at hwalk
  obtain ⟨hprev, hadmits, -⟩ := IsWalk.concat_iff.mp hwalk
  refine mem_joinedPairs.mpr ⟨(hlevel sp).mpr ⟨p, es, _, hlength, hprev, hsp⟩, hadmits,
    (walkRow_nextNode hprev hsp).symm, ?_⟩
  rw [walkRow_depth hsp, hlength]
  exact hk

/-- **One iteration.** -/
theorem LevelOf.step (hlevel : LevelOf columns pools q k level) (hpos : 1 ≤ k)
    (hk : k < q.maxRecursion) (hjoin : joinRows columns pools q level = .ok next) :
    LevelOf columns pools q (k + 1) next := by
  obtain ⟨hfwd, hbwd⟩ := mapM_eq_ok hjoin
  intro row
  constructor
  · intro hrow
    obtain ⟨⟨sp, t⟩, hpair, hnext⟩ := hbwd row hrow
    obtain ⟨p, es, hlength, hsp, hwalk⟩ := hlevel.extend hpair
    refine ⟨p, es ++ [t], t.token1, ?_, hwalk, walkRow_concat_ok_iff.mpr ⟨sp, hsp, hnext⟩⟩
    rw [List.length_append, List.length_singleton, hlength]
  · rintro ⟨p, es, b, hlength, hwalk, hrow⟩
    obtain ⟨es, t, rfl⟩ : ∃ es' t, es = es' ++ [t] := by
      rcases List.eq_nil_or_concat es with rfl | ⟨es', t, rfl⟩
      · simp at hlength
        omega
      · exact ⟨es', t, List.concat_eq_append⟩
    obtain ⟨sp, hsp, hnext⟩ := walkRow_concat_ok_iff.mp hrow
    have hlength' : es.length + 1 = k := by
      rw [List.length_append, List.length_singleton] at hlength
      omega
    obtain ⟨row', hrow', hnext'⟩ := hfwd (sp, t) (hlevel.joined hk hwalk hlength' hsp)
    rwa [Except.ok.inj (hnext.symm.trans hnext')]

/-- The recursion ends with the last depth. -/
theorem LevelOf.joinRows_last (hlevel : LevelOf columns pools q k level)
    (hk : q.maxRecursion ≤ k) : joinRows columns pools q level = .ok [] := by
  have hnone : joinedPairs pools q level = [] := by
    refine List.eq_nil_iff_forall_not_mem.mpr fun pair hpair => ?_
    obtain ⟨hsp, -, -, hdepth⟩ := mem_joinedPairs.mp hpair
    obtain ⟨p, es, b, hlength, -, hrow⟩ := (hlevel _).mp hsp
    rw [walkRow_depth hrow] at hdepth
    omega
  rw [joinRows, hnone]
  rfl

theorem unionAll_nil : unionAll columns pools q fuel [] = .ok [] := by
  cases fuel <;> rfl

/-- A longer walk passes through every level. -/
theorem exists_walk_of_length {p : Pool} {es : List Pool} {b : Token}
    (hwalk : Walk pools q q.source (p :: es) b) (hpos : 1 ≤ k) (hk : k ≤ es.length + 1) :
    ∃ es' rest b', es = es' ++ rest ∧ es'.length + 1 = k ∧
      Walk pools q q.source (p :: es') b' := by
  have hsplit : p :: es = (p :: es.take (k - 1)) ++ es.drop (k - 1) := by
    rw [List.cons_append, List.take_append_drop]
  have hwalk' : Walk pools q q.source ((p :: es.take (k - 1)) ++ es.drop (k - 1)) b := by
    rwa [← hsplit]
  obtain ⟨b', hb', -⟩ := IsWalk.append_iff.mp hwalk'
  refine ⟨es.take (k - 1), es.drop (k - 1), b', (List.take_append_drop _ _).symm, ?_, hb'⟩
  rw [List.length_take]
  omega

/-- Without a row at some depth there is none at any greater one. -/
theorem LevelOf.no_row_beyond (hlevel : LevelOf columns pools q k []) (hpos : 1 ≤ k) {p : Pool}
    {es : List Pool} {b : Token} (hwalk : Walk pools q q.source (p :: es) b)
    (hk : k ≤ es.length + 1) : walkRow columns p es ≠ .ok row := by
  intro hrow
  obtain ⟨es', rest, b', rfl, hlength, hwalk'⟩ := exists_walk_of_length hwalk hpos hk
  obtain ⟨row', hrow'⟩ := walkRow_prefix hrow
  exact List.not_mem_nil ((hlevel row').mpr ⟨p, es', b', hlength, hwalk', hrow'⟩)

/-- What a query that succeeds has done. -/
theorem unionAll_ok_cases (hrun : unionAll columns pools q fuel level = .ok rows) :
    (level = [] ∧ rows = []) ∨ ∃ m next rest, fuel = m + 1 ∧
      joinRows columns pools q level = .ok next ∧ unionAll columns pools q m next = .ok rest ∧
      rows = level ++ rest := by
  by_cases hnil : level = []
  · rw [hnil, unionAll_nil] at hrun
    exact .inl ⟨hnil, (Except.ok.inj hrun).symm⟩
  have hne : ¬ level.isEmpty = true := fun h => hnil (List.isEmpty_iff.mp h)
  cases fuel with
  | zero =>
    rw [unionAll, if_neg hne] at hrun
    exact absurd hrun (by simp)
  | succ m =>
    rw [unionAll, if_neg hne] at hrun
    obtain ⟨next, hjoin, hrun⟩ := bind_eq_ok_iff.mp hrun
    obtain ⟨rest, hrest, hrun⟩ := bind_eq_ok_iff.mp hrun
    exact .inr ⟨m, next, rest, rfl, hjoin, hrest, (pure_eq_ok_iff.mp hrun).symm⟩

/-- **The rows of the whole query**: those of all walks of at most `maxRecursion` pools. -/
theorem mem_unionAll (hlevel : LevelOf columns pools q k level) (hpos : 1 ≤ k)
    (hk : k ≤ q.maxRecursion) (hrun : unionAll columns pools q fuel level = .ok rows) :
    row ∈ rows ↔ ∃ p es b, k ≤ es.length + 1 ∧ es.length + 1 ≤ q.maxRecursion ∧
      Walk pools q q.source (p :: es) b ∧ walkRow columns p es = .ok row := by
  induction fuel using Nat.strong_induction_on generalizing k level rows with
  | _ fuel ih =>
  rcases unionAll_ok_cases hrun with ⟨rfl, rfl⟩ | ⟨m, next, rest, rfl, hjoin, hrest, rfl⟩
  · simp only [List.not_mem_nil, false_iff]
    rintro ⟨p, es, b, hge, -, hwalk, hrow⟩
    exact hlevel.no_row_beyond hpos hwalk hge hrow
  rw [List.mem_append, hlevel row]
  rcases hk.lt_or_eq with hlt | heq
  · rw [ih m (by omega) (hlevel.step hpos hlt hjoin) (by omega) hlt hrest]
    constructor
    · rintro (⟨p, es, b, hlength, hwalk, hrow⟩ | ⟨p, es, b, hge, hle, hwalk, hrow⟩)
      · exact ⟨p, es, b, by omega, by omega, hwalk, hrow⟩
      · exact ⟨p, es, b, by omega, hle, hwalk, hrow⟩
    · rintro ⟨p, es, b, hge, hle, hwalk, hrow⟩
      rcases hge.eq_or_lt with heq | hlt'
      · exact .inl ⟨p, es, b, heq.symm, hwalk, hrow⟩
      · exact .inr ⟨p, es, b, hlt', hle, hwalk, hrow⟩
  · -- the last depth: the `JOIN` finds nothing more
    rw [hlevel.joinRows_last heq.ge] at hjoin
    obtain rfl := Except.ok.inj hjoin
    rw [unionAll_nil] at hrest
    obtain rfl := Except.ok.inj hrest
    simp only [List.not_mem_nil, or_false]
    constructor
    · rintro ⟨p, es, b, hlength, hwalk, hrow⟩
      exact ⟨p, es, b, by omega, by omega, hwalk, hrow⟩
    · rintro ⟨p, es, b, hge, hle, hwalk, hrow⟩
      exact ⟨p, es, b, by omega, hwalk, hrow⟩

/-- The query succeeds only if every row fits. -/
theorem allFit_of_unionAll (hlevel : LevelOf columns pools q k level) (hpos : 1 ≤ k)
    (hk : k ≤ q.maxRecursion) (hfit : AllFit columns pools q k)
    (hrun : unionAll columns pools q fuel level = .ok rows) :
    AllFit columns pools q q.maxRecursion := by
  induction fuel using Nat.strong_induction_on generalizing k level rows with
  | _ fuel ih =>
  rcases unionAll_ok_cases hrun with ⟨rfl, rfl⟩ | ⟨m, next, rest, rfl, hjoin, hrest, rfl⟩
  · intro p es b hwalk _
    by_cases hle : es.length + 1 ≤ k
    · exact hfit p es b hwalk hle
    · obtain ⟨es', rest, b', -, hlength, hwalk'⟩ :=
        exists_walk_of_length hwalk hpos (by omega)
      obtain ⟨row', hrow'⟩ := hfit p es' b' hwalk' hlength.le
      exact absurd hrow' (hlevel.no_row_beyond hpos hwalk' hlength.ge)
  rcases hk.lt_or_eq with hlt | heq
  · refine ih m (by omega) (hlevel.step hpos hlt hjoin) (by omega) hlt ?_ hrest
    intro p es b hwalk hle
    rcases hle.lt_or_eq with hle | heq
    · exact hfit p es b hwalk (by omega)
    obtain ⟨es, t, rfl⟩ : ∃ es' t, es = es' ++ [t] := by
      rcases List.eq_nil_or_concat es with rfl | ⟨es', t, rfl⟩
      · simp only [List.length_nil] at heq
        omega
      · exact ⟨es', t, List.concat_eq_append⟩
    have hlength : es.length + 1 = k := by
      rw [List.length_append, List.length_singleton] at heq
      omega
    have hwalk' := hwalk
    rw [← List.cons_append] at hwalk'
    obtain ⟨sp, hsp⟩ := hfit p es _ (IsWalk.concat_iff.mp hwalk').1 hlength.le
    obtain ⟨row, -, hnext⟩ := (mapM_eq_ok hjoin).1 (sp, t) (hlevel.joined hlt hwalk hlength hsp)
    exact ⟨row, walkRow_concat_ok_iff.mpr ⟨sp, hsp, hnext⟩⟩
  · rw [← heq]
    exact hfit

/-- If every row fits and no walk is longer than the recursion may go, the query succeeds. -/
theorem exists_unionAll_ok (hlevel : LevelOf columns pools q k level) (hpos : 1 ≤ k)
    (hk : k ≤ q.maxRecursion) (hfit : AllFit columns pools q q.maxRecursion)
    (hdepth : ∀ p es b, Walk pools q q.source (p :: es) b → es.length + 1 ≤ q.maxRecursion →
      es.length + 1 < k + fuel) :
    ∃ rows, unionAll columns pools q fuel level = .ok rows := by
  induction fuel generalizing k level with
  | zero =>
    have hnil : level = [] := by
      refine List.eq_nil_iff_forall_not_mem.mpr fun row hrow => ?_
      obtain ⟨p, es, b, hlength, hwalk, -⟩ := (hlevel row).mp hrow
      have := hdepth p es b hwalk (by omega)
      omega
    exact ⟨[], by rw [hnil, unionAll_nil]⟩
  | succ fuel ih =>
    by_cases hnil : level = []
    · exact ⟨[], by rw [hnil, unionAll_nil]⟩
    have hne : ¬ level.isEmpty = true := fun h => hnil (List.isEmpty_iff.mp h)
    obtain ⟨next, rest, hjoin, hrest⟩ : ∃ next rest, joinRows columns pools q level = .ok next ∧
        unionAll columns pools q fuel next = .ok rest := by
      -- Below the limit every pair of a walk and a pool fits, at the limit no row is joined.
      rcases hk.lt_or_eq with hlt | heq
      · obtain ⟨next, hjoin⟩ : ∃ next, joinRows columns pools q level = .ok next := by
          refine exists_mapM_eq_ok fun pair hpair => ?_
          obtain ⟨p, es, hlength, hsp, hwalk⟩ := hlevel.extend hpair
          obtain ⟨row, hrow⟩ := hfit p _ _ hwalk (by
            rw [List.length_append, List.length_singleton]
            omega)
          obtain ⟨sp, hsp', hnext⟩ := walkRow_concat_ok_iff.mp hrow
          rw [Except.ok.inj (hsp.symm.trans hsp')]
          exact ⟨row, hnext⟩
        obtain ⟨rest, hrest⟩ :=
          ih (hlevel.step hpos hlt hjoin) (by omega) hlt fun p es b hwalk hle => by
            have := hdepth p es b hwalk hle
            omega
        exact ⟨next, rest, hjoin, hrest⟩
      · exact ⟨[], [], hlevel.joinRows_last heq.ge, unionAll_nil⟩
    refine ⟨level ++ rest, ?_⟩
    rw [unionAll, if_neg hne]
    exact bind_eq_ok_iff.mpr ⟨next, hjoin, bind_eq_ok_iff.mpr ⟨rest, hrest, rfl⟩⟩

end Iterations

/-! ### What fits -/

section Fits

variable {p t : Pool} {es : List Pool} {sp : PathRow} {k : ℕ}

/-- What the columns of the query can hold: a path of 765 characters, a price of 42 digits before
the point, a liquidity of 40 digits. -/
def Fits (es : List Pool) : Prop :=
  16 + 22 * es.length ≤ 765 ∧
    (-10 ^ 42 < roundedProduct toDecimal es ∧ roundedProduct toDecimal es < 10 ^ 42) ∧
    walkLiquidity es < 10 ^ 40

theorem fits_singleton (p : Pool) : Fits [p] :=
  ⟨by simp, p.price_bounds, by simpa [walkLiquidity] using p.liquidity_lt⟩

theorem nextRow_fits_iff (hsp : walkRow mysqlColumns p es = .ok sp) :
    (∃ row, nextRow mysqlColumns sp t = .ok row) ↔ Fits (p :: (es ++ [t])) := by
  obtain ⟨hprice, hliquidity, hpath⟩ := walkRow_columns mysqlColumns_stores hsp
  have hlength : (sp.path ++ feeHex t.fee ++ t.token1.val).length =
      16 + 22 * (p :: (es ++ [t])).length := by
    rw [hpath, ← walkPath_concat, length_walkPath, List.cons_append]
  rw [Fits, roundedProduct_concat, ← List.cons_append, walkLiquidity_concat, List.cons_append,
    ← hlength, ← hprice, ← hliquidity]
  constructor
  · rintro ⟨row, hrow⟩
    obtain ⟨hprice', hliquidity', hpath', -⟩ := nextRow_ok_iff.mp hrow
    simp only [mysqlColumns, Option.ite_none_right_eq_some] at hprice' hliquidity' hpath'
    exact ⟨hpath'.1, hprice'.1, hliquidity'.1⟩
  · rintro ⟨hpath', hprice', hliquidity'⟩
    exact ⟨⟨_, _, _, _, _, _⟩, nextRow_ok_iff.mpr
      ⟨if_pos hprice', if_pos hliquidity', if_pos hpath', rfl, rfl, rfl⟩⟩

/-- A row is stored as far as every step to it fits. -/
theorem walkRow_fits_iff : (∃ row, walkRow mysqlColumns p es = .ok row) ↔
    ∀ es', es' <+: es → Fits (p :: es') := by
  induction es using List.reverseRecOn with
  | nil =>
    refine iff_of_true ⟨firstRow p, rfl⟩ fun es' hes' => ?_
    rw [List.prefix_nil.mp hes']
    exact fits_singleton p
  | append_singleton es t ih =>
    constructor
    · rintro ⟨row, hrow⟩ es' hes'
      obtain ⟨sp, hsp, hnext⟩ := walkRow_concat_ok_iff.mp hrow
      rcases List.prefix_concat_iff.mp hes' with rfl | hes'
      · exact (nextRow_fits_iff hsp).mp ⟨row, hnext⟩
      · exact ih.mp ⟨sp, hsp⟩ es' hes'
    · intro hfits
      obtain ⟨sp, hsp⟩ := ih.mpr fun es' hes' => hfits es' (hes'.trans (List.prefix_append _ _))
      obtain ⟨row, hrow⟩ := (nextRow_fits_iff hsp).mpr (hfits _ List.prefix_rfl)
      exact ⟨row, walkRow_concat_ok_iff.mpr ⟨sp, hsp, hrow⟩⟩

theorem allFit_mysql_iff : AllFit mysqlColumns pools q k ↔
    ∀ es b, Walk pools q q.source es b → es ≠ [] → es.length ≤ k → Fits es := by
  constructor
  · intro hfit es b hwalk hne hlength
    obtain ⟨p, es, rfl⟩ := List.exists_cons_of_ne_nil hne
    exact walkRow_fits_iff.mp (hfit p es b hwalk hlength) es List.prefix_rfl
  · intro hfits p es b hwalk hlength
    refine walkRow_fits_iff.mpr fun es' hes' => ?_
    obtain ⟨rest, rfl⟩ := hes'
    obtain ⟨b', hb', -⟩ := IsWalk.append_iff.mp (List.cons_append (a := p) ▸ hwalk)
    refine hfits (p :: es') b' hb' (List.cons_ne_nil _ _) ?_
    rw [List.length_append] at hlength
    rw [List.length_cons]
    omega

end Fits

/-! ### The answer -/

section Answer

variable {round : ℚ → ℚ} {all : List PathRow} {rows : List RouteRow} {row : RouteRow}
  {es : List Pool}

/-- The walk is what a row of the answer says, and no walk to the target goes before it. -/
structure IsShortestRoute (round : ℚ → ℚ) (pools : List Pool) (q : RouteQuery) (row : RouteRow)
    (es : List Pool) : Prop where
  walk : Walk pools q q.source es q.target
  ne_nil : es ≠ []
  depth : row.depth = es.length
  depth_le : es.length ≤ q.maxRecursion
  path : row.path = walkPath q.source es
  totalPrice : row.totalPrice = roundedProduct round es
  least_depth : ∀ es', Walk pools q q.source es' q.target → es' ≠ [] → es.length ≤ es'.length
  least_price : ∀ es', Walk pools q q.source es' q.target → es'.length = es.length →
    row.totalPrice ≤ roundedProduct round es'

/-- A shortest route between two tokens visits none of them twice. -/
theorem IsShortestRoute.nodup (h : IsShortestRoute round pools q row es)
    (hne : q.source ≠ q.target) : (visited Pool.token1 q.source es).Nodup := by
  refine IsWalk.nodup_visited h.walk fun es' hes' => h.least_depth es' hes' ?_
  rintro rfl
  exact hne hes'

theorem getRoute_ok_iff : getRoute columns pools q 1 = .ok rows ↔
    ∃ all, unionAll columns pools q cteMaxRecursionDepth (firstRows pools q) = .ok all ∧
      rows = ((selectedRows q all).take 1).map PathRow.toRouteRow := by
  simp only [getRoute, bind_eq_ok_iff, pure_eq_ok_iff, @eq_comm _ rows]

theorem mem_selectedRows {r : PathRow} : r ∈ selectedRows q all ↔
    r ∈ all ∧ r.nextNode = q.target ∧ q.minLiquidity ≤ r.totalLiquidity := by
  rw [selectedRows, List.mem_insertionSort, List.mem_filter, decide_eq_true_eq]

/-- The first of the selected rows has the least key. -/
theorem sortKey_head_le {r r' : PathRow} {rest : List PathRow}
    (h : selectedRows q all = r :: rest) (hr' : r' ∈ selectedRows q all) :
    r.sortKey ≤ r'.sortKey := by
  let before : PathRow → PathRow → Prop := fun r r' => r.sortKey ≤ r'.sortKey
  have : Std.Total before := ⟨fun r r' => le_total r.sortKey r'.sortKey⟩
  have : IsTrans PathRow before := ⟨fun _ _ _ h h' => le_trans h h'⟩
  have hsorted : (selectedRows q all).Pairwise before := List.pairwise_insertionSort before _
  rw [h] at hsorted hr'
  rcases List.mem_cons.mp hr' with rfl | hr'
  · exact le_rfl
  · exact (List.pairwise_cons.mp hsorted).1 r' hr'

/-- Less depth goes first, and at the same depth the lower price. -/
theorem sortKey_le {r r' : PathRow} (h : r.sortKey ≤ r'.sortKey) :
    r.depth ≤ r'.depth ∧ (r'.depth = r.depth → r.totalPrice ≤ r'.totalPrice) := by
  rcases Prod.Lex.toLex_le_toLex.mp h with hlt | ⟨heq, hprice⟩
  · exact ⟨hlt.le, fun heq => absurd heq hlt.ne'⟩
  · refine ⟨heq.le, fun _ => ?_⟩
    rcases Prod.Lex.toLex_le_toLex.mp hprice with hlt | ⟨heq, -⟩
    · exact hlt.le
    · exact heq.le

/-- The first pool alone has the liquidity that is asked for. -/
theorem minLiquidity_le_walkLiquidity {a b : Token} {p : Pool}
    (hwalk : Walk pools q a (p :: es) b) : q.minLiquidity ≤ walkLiquidity (p :: es) := by
  have hle : p.liquidity ≤ walkLiquidity (p :: es) := by
    rw [walkLiquidity, List.map_cons, List.sum_cons]
    omega
  exact hwalk.1.2.trans (by exact_mod_cast hle)

/-- The selected rows are those of the walks to the target. -/
theorem mem_selectedRows_iff_walk {r : PathRow} (hstores : columns.Stores round)
    (hmax : 1 ≤ q.maxRecursion)
    (hall : unionAll columns pools q cteMaxRecursionDepth (firstRows pools q) = .ok all) :
    r ∈ selectedRows q all ↔ ∃ p es, Walk pools q q.source (p :: es) q.target ∧
      es.length + 1 ≤ q.maxRecursion ∧ walkRow columns p es = .ok r := by
  rw [mem_selectedRows, mem_unionAll levelOf_firstRows le_rfl hmax hall]
  constructor
  · rintro ⟨⟨p, es, b, -, hle, hwalk, hrow⟩, htarget, -⟩
    obtain rfl : b = q.target := (walkRow_nextNode hwalk hrow).symm.trans htarget
    exact ⟨p, es, hwalk, hle, hrow⟩
  · rintro ⟨p, es, hwalk, hle, hrow⟩
    refine ⟨⟨p, es, _, by omega, hle, hwalk, hrow⟩, walkRow_nextNode hwalk hrow, ?_⟩
    rw [(walkRow_columns hstores hrow).2.1]
    exact minLiquidity_le_walkLiquidity hwalk

/-- **What `getRoute` answers** with the limit one, in any arithmetic. -/
theorem getRoute_spec (hstores : columns.Stores round) (hmax : 1 ≤ q.maxRecursion)
    (hrun : getRoute columns pools q 1 = .ok rows) :
    (rows ≠ [] ↔ ∃ es, Walk pools q q.source es q.target ∧ es ≠ [] ∧
      es.length ≤ q.maxRecursion) ∧
    ∀ row ∈ rows, rows = [row] ∧ ∃ es, IsShortestRoute round pools q row es := by
  obtain ⟨all, hall, rfl⟩ := getRoute_ok_iff.mp hrun
  have hfit := allFit_of_unionAll levelOf_firstRows le_rfl hmax allFit_one hall
  have hmem := fun r => mem_selectedRows_iff_walk (r := r) hstores hmax hall
  cases hsel : selectedRows q all with
  | nil =>
    refine ⟨iff_of_false (by simp) ?_, by simp⟩
    rintro ⟨es, hwalk, hne, hle⟩
    obtain ⟨p, es, rfl⟩ := List.exists_cons_of_ne_nil hne
    obtain ⟨r, hr⟩ := hfit p es _ hwalk hle
    have hselected := (hmem r).mpr ⟨p, es, hwalk, hle, hr⟩
    rw [hsel] at hselected
    exact List.not_mem_nil hselected
  | cons r rest =>
    obtain ⟨p, es, hwalk, hle, hrow⟩ := (hmem r).mp (hsel ▸ List.mem_cons_self)
    obtain ⟨hprice, -, hpath⟩ := walkRow_columns hstores hrow
    have hdepth := walkRow_depth hrow
    -- a walk to the target that is not longer has a row, which does not go before `r`
    have hfirst : ∀ es', Walk pools q q.source es' q.target → es' ≠ [] →
        es'.length ≤ es.length + 1 → es.length + 1 ≤ es'.length ∧
          (es'.length = es.length + 1 → r.totalPrice ≤ roundedProduct round es') := by
      intro es' hwalk' hne hle'
      obtain ⟨p', es', rfl⟩ := List.exists_cons_of_ne_nil hne
      obtain ⟨r', hr'⟩ := hfit p' es' _ hwalk' (hle'.trans hle)
      have hkey := sortKey_le (sortKey_head_le hsel
        ((hmem r').mpr ⟨p', es', hwalk', hle'.trans hle, hr'⟩))
      rw [hdepth, walkRow_depth hr', (walkRow_columns hstores hr').1] at hkey
      exact hkey
    refine ⟨iff_of_true (by simp) ⟨p :: es, hwalk, List.cons_ne_nil _ _, hle⟩,
      fun row hmemRow => ?_⟩
    obtain rfl : row = r.toRouteRow := by simpa using hmemRow
    refine ⟨rfl, p :: es, hwalk, List.cons_ne_nil _ _, hdepth, hle, ?_, hprice, ?_, ?_⟩
    · rw [← hwalk.2.1]
      exact hpath
    · intro es' hwalk' hne
      by_contra hlt
      rw [List.length_cons] at hlt
      have := (hfirst es' hwalk' hne (by omega)).1
      omega
    · intro es' hwalk' heq
      have hne : es' ≠ [] := by
        rintro rfl
        simp at heq
      exact (hfirst es' hwalk' hne heq.le).2 heq

/-- The query succeeds exactly if the rows of all walks fit; these walks are far shorter than the
recursion may go. -/
theorem getRoute_mysql_ok_iff (hmax : 1 ≤ q.maxRecursion) :
    (∃ rows, getRoute mysqlColumns pools q 1 = .ok rows) ↔
      AllFit mysqlColumns pools q q.maxRecursion := by
  constructor
  · rintro ⟨rows, hrows⟩
    obtain ⟨all, hall, -⟩ := getRoute_ok_iff.mp hrows
    exact allFit_of_unionAll levelOf_firstRows le_rfl hmax allFit_one hall
  · intro hfit
    obtain ⟨all, hall⟩ : ∃ all,
        unionAll mysqlColumns pools q cteMaxRecursionDepth (firstRows pools q) = .ok all := by
      refine exists_unionAll_ok levelOf_firstRows le_rfl hmax hfit fun p es b hwalk hle => ?_
      have hlength := (allFit_mysql_iff.mp hfit (p :: es) b hwalk (List.cons_ne_nil _ _) hle).1
      rw [List.length_cons] at hlength
      rw [cteMaxRecursionDepth]
      omega
    exact ⟨_, getRoute_ok_iff.mpr ⟨all, hall, rfl⟩⟩

theorem getRoute_mysql_error_iff (hmax : 1 ≤ q.maxRecursion) :
    (∃ e, getRoute mysqlColumns pools q 1 = .error e) ↔
      ∃ es b, Walk pools q q.source es b ∧ es ≠ [] ∧ es.length ≤ q.maxRecursion ∧ ¬ Fits es := by
  have hok : (∃ rows, getRoute mysqlColumns pools q 1 = .ok rows) ↔ _ :=
    (getRoute_mysql_ok_iff hmax).trans allFit_mysql_iff
  cases hrun : getRoute mysqlColumns pools q 1 with
  | ok rows =>
    refine iff_of_false (by simp) ?_
    rintro ⟨es, b, hwalk, hes, hle, hfits⟩
    exact hfits (hok.mp ⟨rows, hrun⟩ es b hwalk hes hle)
  | error e =>
    refine iff_of_true ⟨e, rfl⟩ ?_
    by_contra hnone
    push Not at hnone
    obtain ⟨rows, hrows⟩ := hok.mpr hnone
    rw [hrun] at hrows
    exact absurd hrows (by simp)

/-- Back and forth over a pool there are walks of every length. -/
theorem exists_walk_back_and_forth {p p' : Pool} (hp : q.Admits pools p) (hp' : q.Admits pools p')
    (hforth : p'.token0 = p.token1) (hback : p'.token1 = p.token0) (n : ℕ) :
    (∃ es b, Walk pools q p.token0 es b ∧ es.length = n) ∧
      ∃ es b, Walk pools q p.token1 es b ∧ es.length = n := by
  induction n with
  | zero => exact ⟨⟨[], _, rfl, rfl⟩, ⟨[], _, rfl, rfl⟩⟩
  | succ n ih =>
    obtain ⟨⟨es, b, hwalk, hlength⟩, es', b', hwalk', hlength'⟩ := ih
    refine ⟨⟨p :: es', b', ⟨hp, rfl, hwalk'⟩, by rw [List.length_cons, hlength']⟩,
      p' :: es, b, ⟨hp', hforth, ?_⟩, by rw [List.length_cons, hlength]⟩
    rw [hback]
    exact hwalk

/-- **No route of more than 34 pools.** As soon as the source has a pool, stored in both directions
as all pools are, a recursion of 35 hops outgrows the column `path`. -/
theorem getRoute_fails_of_two_way {p p' : Pool} (hp : q.Admits pools p) (hp' : q.Admits pools p')
    (hsource : p.token0 = q.source) (hforth : p'.token0 = p.token1) (hback : p'.token1 = p.token0)
    (hmax : 35 ≤ q.maxRecursion) : ∃ e, getRoute mysqlColumns pools q 1 = .error e := by
  obtain ⟨⟨es, b, hwalk, hlength⟩, -⟩ := exists_walk_back_and_forth hp hp' hforth hback 35
  rw [hsource] at hwalk
  refine (getRoute_mysql_error_iff (by omega)).mpr ⟨es, b, hwalk, ?_, by omega, fun hfits => ?_⟩
  · rintro rfl
    simp at hlength
  · have := hfits.1
    omega

/-- **A shortest route.** The query fails exactly when some walk from the source, of no more than
`maxRecursion` pools, outgrows a column. Otherwise it finds a route if there is one, and what it
returns is a shortest one without a token visited twice, with the least price of this length;
prices are rounded to eight decimals after every hop. -/
theorem shortest_route (pools : List Pool) (q : RouteQuery) (hne : q.source ≠ q.target)
    (hmax : 1 ≤ q.maxRecursion) :
    ((∃ e, getRoute mysqlColumns pools q 1 = .error e) ↔
      ∃ es b, Walk pools q q.source es b ∧ es ≠ [] ∧ es.length ≤ q.maxRecursion ∧ ¬ Fits es) ∧
    ∀ rows, getRoute mysqlColumns pools q 1 = .ok rows →
      (rows ≠ [] ↔ ∃ es, Walk pools q q.source es q.target ∧ es.length ≤ q.maxRecursion) ∧
      ∀ row ∈ rows, rows = [row] ∧ ∃ es, IsShortestRoute toDecimal pools q row es ∧
        (visited Pool.token1 q.source es).Nodup := by
  refine ⟨getRoute_mysql_error_iff hmax, fun rows hrun => ?_⟩
  obtain ⟨hfound, hshortest⟩ := getRoute_spec mysqlColumns_stores hmax hrun
  refine ⟨hfound.trans ⟨?_, ?_⟩, fun row hrow => ?_⟩
  · rintro ⟨es, hwalk, -, hle⟩
    exact ⟨es, hwalk, hle⟩
  · rintro ⟨es, hwalk, hle⟩
    refine ⟨es, hwalk, ?_, hle⟩
    rintro rfl
    exact hne hwalk
  · obtain ⟨hrows, es, hes⟩ := hshortest row hrow
    exact ⟨hrows, es, hes, hes.nodup hne⟩

/-- The test network. -/
def testnet : Network := ⟨"01", by decide, isHexDigit_of_all (by decide)⟩

/-- A pool with the lowest price that its column holds. -/
def thinPool (token0 token1 : Token) : Pool where
  token0 := token0
  token1 := token1
  fee := 100
  liquidity := 1
  price := 1 / 10 ^ 8
  fee_lt := by decide
  liquidity_lt := by norm_num
  price_bounds := by norm_num
  price_decimal := by decide +kernel

/-- The pools of a route from KLY over SWX to SWL. -/
def thinPools : List Pool :=
  [thinPool testnet.kly.toToken testnet.swx.toToken,
    thinPool testnet.swx.toToken testnet.swl.toToken]

theorem shortest_route_kly_swl :
    testnet.kly.toToken ≠ testnet.swl.toToken ∧ 1 ≤ 5 ∧
      ∃ row es, getRoute mysqlColumns thinPools
          ⟨testnet.kly.toToken, testnet.swl.toToken, 5, 1⟩ 1 = .ok [row] ∧
        row.totalPrice = 0 ∧ IsShortestRoute toDecimal thinPools
          ⟨testnet.kly.toToken, testnet.swl.toToken, 5, 1⟩ row es := by
  have hrun : getRoute mysqlColumns thinPools ⟨testnet.kly.toToken, testnet.swl.toToken, 5, 1⟩ 1 =
      .ok [⟨0, "0100000000000000" ++ "000064" ++ "0155555500000000" ++ "000064" ++
        "0155555500000001", 2, 2⟩] := by decide +kernel
  obtain ⟨-, es, hes, -⟩ := ((shortest_route thinPools
    ⟨testnet.kly.toToken, testnet.swl.toToken, 5, 1⟩ (by decide) (by decide)).2 _ hrun).2 _
    List.mem_cons_self
  exact ⟨by decide, by decide, _, es, hrun, rfl, hes⟩

/-- Neither is the price of a route the product of the prices, nor is there always an answer. -/
theorem route_price_and_failure :
    (¬ ∀ (pools : List Pool) (q : RouteQuery), q.source ≠ q.target → 1 ≤ q.maxRecursion →
      ∀ rows, getRoute mysqlColumns pools q 1 = .ok rows → ∀ row ∈ rows,
        ∃ es, Walk pools q q.source es q.target ∧ row.totalPrice = (es.map Pool.price).prod) ∧
    ¬ ∀ (pools : List Pool) (q : RouteQuery), q.source ≠ q.target → 1 ≤ q.maxRecursion →
      ∃ rows, getRoute mysqlColumns pools q 1 = .ok rows := by
  constructor
  · intro h
    obtain ⟨row, hrun, hzero⟩ : ∃ row : RouteRow, getRoute mysqlColumns thinPools
        ⟨testnet.kly.toToken, testnet.swl.toToken, 5, 1⟩ 1 = .ok [row] ∧ row.totalPrice = 0 :=
      ⟨⟨0, "0100000000000000" ++ "000064" ++ "0155555500000000" ++ "000064" ++
        "0155555500000001", 2, 2⟩, by decide +kernel, rfl⟩
    obtain ⟨es, hwalk, hprice⟩ := h _ _ (by decide) (by decide) _ hrun row List.mem_cons_self
    -- a product of prices is zero only with a factor zero
    rw [hzero, eq_comm, List.prod_eq_zero_iff, List.mem_map] at hprice
    obtain ⟨p, hp, hzero'⟩ := hprice
    have hthin : ∀ p ∈ thinPools, p.price = 1 / 10 ^ 8 := by simp [thinPools, thinPool]
    rw [hthin p (hwalk.mem hp).1] at hzero'
    norm_num at hzero'
  · intro h
    let q : RouteQuery := ⟨testnet.kly.toToken, testnet.swl.toToken, 35, 1⟩
    let p := thinPool testnet.kly.toToken testnet.swx.toToken
    let p' := thinPool testnet.swx.toToken testnet.kly.toToken
    obtain ⟨rows, hrows⟩ := h [p, p'] q (by decide) (by decide)
    have hp : q.Admits [p, p'] p := ⟨by simp, le_rfl⟩
    have hp' : q.Admits [p, p'] p' := ⟨by simp, le_rfl⟩
    obtain ⟨e, he⟩ := getRoute_fails_of_two_way hp hp' rfl rfl rfl le_rfl
    rw [hrows] at he
    exact absurd he (by simp)

end Answer

end PriceQuoter

end SwaptoshiService
