import Mathlib.Algebra.Order.Field.Rat
import Mathlib.Data.List.Sort
import Mathlib.Data.Prod.Lex
import SwaptoshiService.Framework.Number
import SwaptoshiService.Indexer.TradingPath

/-!
# The price quoter

`dataService/dex/priceQuoter.js` prices one token in another: `getRoute` searches the table `pool`
for a chain of pools with a recursive query, `getWeightedPrice` averages the prices of all pools of
a pair, and `getPrice` multiplies the averages along the route.

The columns of a recursive query have the types of its **first** `SELECT`, so what the recursion
adds is stored with these types: `totalPrice` is a `decimal(50, 8)`, `totalLiquidity` a
`decimal(40, 0)`, and `path` holds the 765 characters that three texts of 255 can have. A product
is rounded to eight decimals at every hop, and a value that does not fit ends the query with an
error. `RouteColumns` collects these conversions; `exactColumns` is the query in exact arithmetic.
-/

namespace SwaptoshiService

namespace PriceQuoter

/-! ### The table -/

/-- A row of the table `pool`, as far as the queries read it, with values that its columns hold. -/
structure Pool where
  token0 : Token
  token1 : Token
  fee : ℕ
  liquidity : ℕ
  price : ℚ
  fee_lt : fee < 2 ^ 24
  liquidity_lt : liquidity < 10 ^ 40
  price_bounds : -10 ^ 42 < price ∧ price < 10 ^ 42
  price_decimal : toDecimal price = price

/-- How the columns of the recursive query store a value; `none` is the error of a value that does
not fit. -/
structure RouteColumns where
  totalPrice : ℚ → Option ℚ
  totalLiquidity : ℕ → Option ℕ
  path : String → Option String

/-- The types of the first `SELECT`. -/
def mysqlColumns : RouteColumns where
  totalPrice q :=
    if -10 ^ 42 < toDecimal q ∧ toDecimal q < 10 ^ 42 then some (toDecimal q) else none
  totalLiquidity n := if n < 10 ^ 40 then some n else none
  path s := if s.length ≤ 765 then some s else none

/-- Exact numbers and texts of any length. -/
def exactColumns : RouteColumns := ⟨some, some, some⟩

/-! ### `getRoute` -/

/-- A row of `ShortestPath`. -/
structure PathRow where
  node : Token
  nextNode : Token
  totalPrice : ℚ
  totalLiquidity : ℕ
  depth : ℕ
  path : String

/-- The row that the first `SELECT` makes of a pool. -/
def firstRow (p : Pool) : PathRow where
  node := p.token0
  nextNode := p.token1
  totalPrice := p.price
  totalLiquidity := p.liquidity
  depth := 1
  path := p.token0.val ++ feeHex p.fee ++ p.token1.val

/-- A value that has to fit into a column. -/
def fit {α : Type} (column : String) : Option α → Except String α
  | some a => .ok a
  | none => .error ("Data too long or out of range for column " ++ column)

/-- The row that the second `SELECT` makes of a row and a pool. -/
def nextRow (columns : RouteColumns) (sp : PathRow) (t : Pool) : Except String PathRow := do
  let totalPrice ← fit "totalPrice" (columns.totalPrice (sp.totalPrice * t.price))
  let totalLiquidity ←
    fit "totalLiquidity" (columns.totalLiquidity (sp.totalLiquidity + t.liquidity))
  let path ← fit "path" (columns.path (sp.path ++ feeHex t.fee ++ t.token1.val))
  return ⟨sp.nextNode, t.token1, totalPrice, totalLiquidity, sp.depth + 1, path⟩

/-- The arguments of `getRoute` that the query is built from. -/
structure RouteQuery where
  source : Token
  target : Token
  maxRecursion : ℕ
  minLiquidity : ℚ

/-- The pools that a query may use. -/
def RouteQuery.Admits (q : RouteQuery) (pools : List Pool) (p : Pool) : Prop :=
  p ∈ pools ∧ q.minLiquidity ≤ p.liquidity

/-- The rows of the first `SELECT`. -/
def firstRows (pools : List Pool) (q : RouteQuery) : List PathRow :=
  (pools.filter fun p => p.token0 = q.source ∧ q.minLiquidity ≤ p.liquidity).map firstRow

/-- The pairs that the `JOIN` of the second `SELECT` finds for the rows of the last iteration. -/
def joinedPairs (pools : List Pool) (q : RouteQuery) (level : List PathRow) :
    List (PathRow × Pool) :=
  pools.flatMap fun t =>
    (level.filter fun sp => t.token0 = sp.nextNode ∧ sp.depth < q.maxRecursion ∧
      q.minLiquidity ≤ t.liquidity).map fun sp => (sp, t)

/-- The second `SELECT`, on the rows of the last iteration. -/
def joinRows (columns : RouteColumns) (pools : List Pool) (q : RouteQuery) (level : List PathRow) :
    Except String (List PathRow) :=
  (joinedPairs pools q level).mapM fun pair => nextRow columns pair.1 pair.2

/-- `cte_max_recursion_depth`, which is not changed. -/
def cteMaxRecursionDepth : ℕ := 1000

/-- `UNION ALL`: iterate until an iteration finds nothing. -/
def unionAll (columns : RouteColumns) (pools : List Pool) (q : RouteQuery) :
    ℕ → List PathRow → Except String (List PathRow)
  | 0, level =>
    if level.isEmpty then .ok []
    else .error "Recursive query aborted after 1001 iterations."
  | fuel + 1, level =>
    if level.isEmpty then .ok []
    else do
      let next ← joinRows columns pools q level
      let rest ← unionAll columns pools q fuel next
      return level ++ rest

/-- `depth ASC, totalPrice ASC, totalLiquidity DESC`. -/
def PathRow.sortKey (r : PathRow) : ℕ ×ₗ ℚ ×ₗ ℤ :=
  toLex (r.depth, toLex (r.totalPrice, -(r.totalLiquidity : ℤ)))

/-- A row of the answer. -/
structure RouteRow where
  totalPrice : ℚ
  path : String
  depth : ℕ
  totalLiquidity : ℕ
  deriving DecidableEq, Repr

/-- The columns that are selected at last. -/
def PathRow.toRouteRow (r : PathRow) : RouteRow := ⟨r.totalPrice, r.path, r.depth, r.totalLiquidity⟩

/-- The rows that the last `SELECT` keeps, in order. -/
def selectedRows (q : RouteQuery) (rows : List PathRow) : List PathRow :=
  (rows.filter fun r => r.nextNode = q.target ∧ q.minLiquidity ≤ r.totalLiquidity).insertionSort
    fun r r' => r.sortKey ≤ r'.sortKey

/-- `getRoute(from, to, maxRecursion, limit, minLiquidity)`. -/
def getRoute (columns : RouteColumns) (pools : List Pool) (q : RouteQuery) (limit : ℕ) :
    Except String (List RouteRow) := do
  let rows ← unionAll columns pools q cteMaxRecursionDepth (firstRows pools q)
  return ((selectedRows q rows).take limit).map PathRow.toRouteRow

/-! ### `getWeightedPrice` and `getPrice` -/

/-- `getWeightedPrice(token0, token1)` in rational arithmetic; without liquidity the query answers
`NULL`. -/
def getWeightedPrice (pools : List Pool) (token0 token1 : String) : Except String ℚ :=
  if token0.length ≠ 16 then .error "invalid token0"
  else if token1.length ≠ 16 then .error "invalid token1"
  else
    let rows := pools.filter fun p => p.token0.val = token0 ∧ p.token1.val = token1
    let liquidity : ℚ := (rows.map fun p => (p.liquidity : ℚ)).sum
    let weighted : ℚ := (rows.map fun p => p.price * (p.liquidity : ℚ)).sum
    .ok (if liquidity = 0 then 0 else weighted / liquidity)

/-- `usdTokenId`. -/
def usdToken : Token := ⟨"XUSDUSDUSDUSDUSD", by decide⟩

/-- The tokens that the service knows by name, on a network. -/
structure Network where
  /-- The first byte of the identifier of the main chain. -/
  networkID : String
  length_networkID : networkID.length = 2
  hexDigits : ∀ c ∈ networkID.toList, IsHexDigit c

namespace Network

private theorem isTokenID_append (n : Network) {s : String} (hs : s.length = 14)
    (hdigits : ∀ c ∈ s.toList, IsHexDigit c) : IsTokenID (n.networkID ++ s) := by
  refine ⟨by rw [String.length_append, n.length_networkID, hs], fun c hc => ?_⟩
  rw [String.toList_append, List.mem_append] at hc
  exact hc.elim (n.hexDigits c) (hdigits c)

/-- `getKLYTokenID()`. -/
def kly (n : Network) : HexToken :=
  ⟨n.networkID ++ "00000000000000", n.isTokenID_append (by decide) (isHexDigit_of_all (by decide))⟩

/-- `getSWXTokenID()`. -/
def swx (n : Network) : HexToken :=
  ⟨n.networkID ++ "55555500000000", n.isTokenID_append (by decide) (isHexDigit_of_all (by decide))⟩

/-- `getSWLTokenID()`. -/
def swl (n : Network) : HexToken :=
  ⟨n.networkID ++ "55555500000001", n.isTokenID_append (by decide) (isHexDigit_of_all (by decide))⟩

end Network

/-- `config.dex.maxRouteLength`; any other value comes from the environment as a text, which
`getRoute` rejects. -/
def maxRouteLength : ℕ := 5

/-- The loop of `getPrice` over the pools of a path. -/
def priceAlong (pools : List Pool) (path : String) (price : ℚ) : Except String ℚ := do
  let (tokenIn, tokenOut, _) ← TradingPath.decodeFirstPool path
  let weightedPrice ← getWeightedPrice pools tokenIn tokenOut
  if _ : TradingPath.hasMultiplePools path = true then
    priceAlong pools (TradingPath.skipToken path) (price * weightedPrice)
  else return price * weightedPrice
termination_by path.length
decreasing_by exact TradingPath.length_skipToken_lt ‹_›

/-- The path that `getPrice` follows from `base`; `none` when there is no route. -/
def pricePath (columns : RouteColumns) (n : Network) (pools : List Pool) (base quote : Token) :
    Except String (Option String) :=
  if base = n.swl.toToken ∧ quote = n.kly.toToken then
    .ok (some (n.swl.val ++ "000064" ++ n.swx.val ++ "000bb8" ++ n.kly.val))
  else if base = n.kly.toToken ∧ quote = n.swl.toToken then
    .ok (some (n.kly.val ++ "000bb8" ++ n.swx.val ++ "000064" ++ n.swl.val))
  else do
    let route ← getRoute columns pools ⟨base, quote, maxRouteLength, 1⟩ 1
    return route.head?.map RouteRow.path

/-- `getPrice(base, quote)`; `klyUSD` is what `getKLYUSDPrice()` answers. -/
def getPrice (columns : RouteColumns) (n : Network) (klyUSD : ℚ) (pools : List Pool)
    (base quote : Token) : Except String ℚ :=
  if base = quote then .ok 1
  else do
    match ← pricePath columns n pools base (if quote = usdToken then n.kly.toToken else quote) with
    | none => return 0
    | some path =>
      let price ← priceAlong pools path 1
      return if quote = usdToken then price * klyUSD else price

end PriceQuoter

end SwaptoshiService
