import SwaptoshiService.DataService.DexTables
import SwaptoshiService.Lib.SqlTemplate

/-!
# User texts in statements

`getPools`, `getPositions`, `getDEXTokens` and `quoteSwapMethod` put the text that is searched for
into their statements as it is, between `'%` and `%'`. The statements are those of the source, white
space apart; the other values in them come as texts that are words, numbers or hexadecimal IDs, and
`changeWindow` is taken to be the name of a column.

`userText_iff`: a text cannot change the statement, and finds what contains it, if and only if it
has no quote, no backslash and no wildcard. A text that is empty, or blank where it is trimmed, is
no condition at all.
-/

namespace SwaptoshiService

namespace DexQuery

open SqlLexer

/-! ### Values in statements -/

/-- `AND v.time >= value`, if it is given. -/
def timeBound (condition : Code) : Option Value → Option Code :=
  Option.map fun v => condition ++ Code.value v ' ' (by decide)

/-- Code that may be left out. -/
def withCode (x : Code) : Option Code → Code
  | none => x
  | some y => x ++ y

/-- The window of a statement, without the values that are not given. -/
structure StatementWindow where
  start : Option Value
  «end» : Option Value

def since : Code := .ofString "AND v.time >= " false rfl (by decide)

def upTo : Code := .ofString "AND v.time <= " false rfl (by decide)

/-- `WHERE 1 = 1` and the bounds. -/
def withWindow (x : Code) (w : StatementWindow) : Code :=
  withCode (withCode x (timeBound since w.start)) (timeBound upTo w.end)

/-- What comes last in a statement: the column and the direction, and `limit` and `offset` unless
all rows are asked for. -/
structure Ending where
  sortBy : Value
  sortOrder : Value
  page : Option (Value × Value)

def limitWord : Code := .ofString "LIMIT " false rfl (by decide)

def offsetWord : Code := .ofString "OFFSET " false rfl (by decide)

def orderWords : Code := .ofString "ORDER BY " false rfl (by decide)

def semicolon : Code := .ofString ";" false rfl (by decide)

/-- `LIMIT limit OFFSET offset;` -/
def pageCode : Option (Value × Value) → Code
  | none => semicolon
  | some (limit, offset) => limitWord ++ Code.value limit ' ' (by decide) ++ offsetWord ++
      Code.value offset ';' (by decide)

/-- `ORDER BY sortBy sortOrder LIMIT limit OFFSET offset;` -/
def Ending.code (e : Ending) : Code :=
  orderWords ++ Code.value e.sortBy ' ' (by decide) ++ Code.value e.sortOrder ' ' (by decide) ++
    pageCode e.page

/-- The literal `'_'`. -/
def underscore : Part := .quoted ⟨['_'], List.forall_mem_singleton.mpr (by decide)⟩

/-! ### Positions -/

set_option maxRecDepth 20000 in
def positionsSelect : Code := .ofString "
  SELECT
    pool.poolAddress,
    pool.tick AS poolTick,
    pool.fee,
    t0.tokenId AS token0,
    t0.symbol AS token0Symbol,
    t0.logo AS token0Logo,
    t0.decimal AS token0Decimal,
    t1.tokenId AS token1,
    t1.symbol AS token1Symbol,
    t1.logo AS token1Logo,
    t1.decimal AS token1Decimal,
    pos.tokenId,
    pos.owner,
    pos.collectionId,
    pos.tickLower,
    pos.tickUpper,
    pos.liquidity,
    pos.tokenURI,
    CASE WHEN pos.liquidity = 0 THEN 0 WHEN pos.tickLower < pool.tick AND pool.tick < pos.tickUpper
      THEN 2 ELSE 1 END AS status
  FROM position pos
    LEFT JOIN pool ON pool.inverted = false AND pool.collectionId = pos.collectionId
    LEFT JOIN registered_dex_token t0 ON t0.tokenId = pool.token0
    LEFT JOIN registered_dex_token t1 ON t1.tokenId = pool.token1
  " false rfl (by decide +kernel)

def wherePoolAddress : Code := .ofString "WHERE pool.poolAddress LIKE " true rfl (by decide)

def orPositionId : Code := .ofString " OR pos.tokenId LIKE " true rfl (by decide)

def orOwner : Code := .ofString " OR pos.owner LIKE " true rfl (by decide)

/-- The statement of `getPositions`. -/
def positionsStatement (ending : Ending) : Search where
  without := ⟨positionsSelect ++ ending.code, [], rfl⟩
  «with» := ⟨positionsSelect ++ wherePoolAddress,
    [(.term, orPositionId), (.term, orOwner), (.term, ending.code)], rfl⟩
  holes_without := rfl
  holes_with := Template.holes_pos List.mem_cons_self

/-! ### Pools -/

set_option maxRecDepth 20000 in
def poolsSwapCount : Code := .ofString "
  WITH token_volume AS (
    SELECT
      t.tokenId,
      t.symbol,
      t.decimal,
      t.logo,
      v.height,
      v.index,
      COUNT(DISTINCT CONCAT(v.height, " false rfl (by decide +kernel)

set_option maxRecDepth 20000 in
def poolsVolume : Code := .ofString ", v.index)) AS swapCount,
      SUM(CASE WHEN p.token0 = t.tokenId THEN ABS(v.amount0) ELSE ABS(v.amount1) END) /
        POWER(10, t.decimal) AS volume,
      SUM(CASE WHEN p.token0 = t.tokenId THEN v.feeGrowth0 ELSE v.feeGrowth1 END) /
        POWER(10, t.decimal) AS feeGrowth,
      (CASE WHEN t.tokenId = " false rfl (by decide +kernel)

def poolsPrice : Code := .ofString " THEN 1 ELSE lp.current END) AS price,
      COALESCE((CASE WHEN t.tokenId = " false rfl (by decide +kernel)

def timesPrice : Code := .ofString " THEN 1 ELSE lp.current END) * " false rfl (by decide)

set_option maxRecDepth 20000 in
def poolsFrom : Code := .ofString " 0) AS priceUSD
    FROM
      registered_dex_token t
      JOIN pool p ON p.inverted = false
      AND (t.tokenId = p.token0 OR t.tokenId = p.token1)
      LEFT JOIN volume v ON p.poolAddress = v.poolAddress
      LEFT JOIN last_price lp ON t.tokenId = lp.tokenId
    WHERE
      1 = 1 " false rfl (by decide +kernel)

set_option maxRecDepth 20000 in
def poolsSelect : Code := .ofString "
    GROUP BY
      t.tokenId
  ),
  token_tvl AS (
    SELECT
      tvl.tokenId,
      SUM(amount) / POWER(10, t.decimal) as amount
    FROM tvl
    LEFT JOIN registered_dex_token t ON t.tokenId = tvl.tokenId
    GROUP BY tokenId
  )
  SELECT
    pool.poolAddress,
    token0,
    vol0.decimal AS token0Decimal,
    vol0.symbol AS token0Symbol,
    vol0.logo AS token0Logo,
    token1,
    vol1.decimal AS token1Decimal,
    vol1.symbol AS token1Symbol,
    vol1.logo AS token1Logo,
    fee,
    liquidity,
    pool.price,
    tick,
    vol0.feeGrowth AS feeGrowth0,
    vol0.feeGrowth * vol0.priceUSD AS feeGrowth0USD,
    vol1.feeGrowth AS feeGrowth1,
    vol1.feeGrowth * vol1.priceUSD AS feeGrowth1USD,
    vol0.price AS token0Price,
    vol0.price * vol0.priceUSD AS token0PriceUSD,
    vol1.price AS token1Price,
    vol1.price * vol0.priceUSD AS token1PriceUSD,
    vol0.volume AS volumeToken0,
    vol0.volume * vol0.priceUSD AS volumeToken0USD,
    vol1.volume AS volumeToken1,
    vol1.volume * vol1.priceUSD AS volumeToken1USD,
    COUNT(DISTINCT CONCAT(v.height, " false rfl (by decide +kernel)

set_option maxRecDepth 20000 in
def poolsWhere : Code := .ofString ", v.index)) AS swapCount,
    tvl0.amount AS totalTvlToken0,
    tvl0.amount * vol0.priceUSD AS totalTvlToken0USD,
    tvl1.amount AS totalTvlToken1,
    tvl1.amount * vol1.priceUSD AS totalTvlToken1USD,
    pos.positionCount
  FROM pool
    LEFT JOIN token_volume AS vol0 ON pool.token0 = vol0.tokenId
    LEFT JOIN token_volume AS vol1 ON pool.token1 = vol1.tokenId
    LEFT JOIN volume AS v ON v.poolAddress = pool.poolAddress
    LEFT JOIN token_tvl AS tvl0 ON pool.token0 = tvl0.tokenId
    LEFT JOIN token_tvl AS tvl1 ON pool.token1 = tvl1.tokenId
    LEFT JOIN (
      SELECT
        collectionId,
        COUNT(collectionId) AS positionCount
      FROM position
      GROUP BY
        collectionId
    ) AS pos ON pool.collectionId = pos.collectionId
  WHERE
    inverted = false
    " false rfl (by decide +kernel)

def andPoolAddress : Code := .ofString "AND ( pool.poolAddress LIKE " true rfl (by decide)

def orToken0 : Code := .ofString " OR pool.token0 LIKE " true rfl (by decide)

def orToken1 : Code := .ofString " OR pool.token1 LIKE " true rfl (by decide)

def orFee : Code := .ofString " OR pool.fee LIKE " true rfl (by decide)

def endParenthesis : Code := .ofString " ) " false rfl (by decide)

def groupByPool : Code := .ofString "GROUP BY pool.poolAddress " false rfl (by decide)

/-- The values that are put into the statements of pools and tokens. -/
structure StatementPrices where
  klyTokenId : Quoted
  /-- `klyusdprice.current` -/
  current : Value
  window : StatementWindow

/-- The literals up to the condition, with the code after them. -/
def poolsLiterals (x : StatementPrices) (condition : Code) : List (Part × Code) :=
  [(underscore, poolsVolume), (.quoted x.klyTokenId, poolsPrice),
    (.quoted x.klyTokenId, withWindow (timesPrice ++ Code.value x.current ',' (by decide) ++
      poolsFrom) x.window ++ poolsSelect),
    (underscore, poolsWhere ++ condition)]

/-- The statement of `getPools`. -/
def poolsStatement (x : StatementPrices) (ending : Ending) : Search where
  without := ⟨poolsSwapCount, poolsLiterals x (groupByPool ++ ending.code), rfl⟩
  «with» := ⟨poolsSwapCount, poolsLiterals x andPoolAddress ++ [(.term, orToken0), (.term, orToken1),
    (.term, orFee), (.term, endParenthesis ++ groupByPool ++ ending.code)], rfl⟩
  holes_without := rfl
  holes_with := Template.holes_pos (List.mem_append_right _ List.mem_cons_self)

/-! ### Tokens -/

set_option maxRecDepth 20000 in
def compactSelect : Code := .ofString "
  SELECT *
  FROM (
    SELECT
      COALESCE(tm.tokenID, tf.tokenID) AS tokenId,
      COALESCE(rdt.symbol, tf.symbol) AS symbol,
      COALESCE(tm.tokenName, tf.tokenName) AS tokenName,
      COALESCE(rdt.logo, tf.logoSvg) AS logo,
      COALESCE(rdt.decimal, tf.decimal) AS `decimal`
    FROM registered_dex_token AS rdt
    LEFT JOIN token_metadata AS tm ON rdt.tokenId = tm.tokenID
    LEFT JOIN token_factory AS tf ON rdt.tokenId = tf.tokenID
  ) AS v
  " false rfl (by decide +kernel)

def whereTokenName : Code := .ofString "WHERE v.tokenName LIKE " true rfl (by decide)

def orTokenId : Code := .ofString " OR v.tokenId LIKE " true rfl (by decide)

def orSymbol : Code := .ofString " OR v.symbol LIKE " true rfl (by decide)

/-- The statement of `getDEXTokens` with `compact`. -/
def compactStatement (page : Option (Value × Value)) : Search where
  without := ⟨compactSelect ++ pageCode page, [], rfl⟩
  «with» := ⟨compactSelect ++ whereTokenName,
    [(.term, orTokenId), (.term, orSymbol), (.term, pageCode page)], rfl⟩
  holes_without := rfl
  holes_with := Template.holes_pos List.mem_cons_self

set_option maxRecDepth 20000 in
def tokensSelect : Code := .ofString "
  SELECT
    *
  FROM
    (
      SELECT
        ROW_NUMBER() OVER (ORDER BY totalTvlUSD DESC) AS rank,
        tokenId,
        symbol,
        tokenName,
        logo,
        `decimal`,
        COALESCE(volume, 0) AS volume,
        COALESCE(volumeUSD, 0) AS volumeUSD,
        COALESCE(feeGrowth, 0) AS feeGrowth,
        COALESCE(feeGrowthUSD, 0) AS feeGrowthUSD,
        COALESCE(swapCount, 0) AS swapCount,
        poolCount,
        totalTvl,
        totalTvlUSD,
        price,
        priceUSD,
        priceChange,
        priceChangeUSD
      FROM (
        SELECT
          rdt.tokenId,
          COALESCE(rdt.symbol, tf.symbol) AS symbol,
          COALESCE(tm.tokenName, tf.tokenName) AS tokenName,
          COALESCE(rdt.logo, tf.logoSvg) AS logo,
          COALESCE(rdt.decimal, tf.decimal) AS `decimal`,
          vol.volume AS volume,
          vol.volume * pr.priceUSD AS volumeUSD,
          vol.feeGrowth AS feeGrowth,
          vol.feeGrowth * pr.priceUSD AS feeGrowthUSD,
          vol.swapCount AS swapCount,
          COUNT(pool.poolAddress) AS poolCount,
          COALESCE(vl.amount, 0) AS totalTvl,
          COALESCE(vl.amount * pr.priceUSD, 0) AS totalTvlUSD,
          COALESCE(CASE WHEN rdt.tokenId = " false rfl (by decide +kernel)

set_option maxRecDepth 20000 in
def tokensPrice : Code := .ofString " THEN 1 ELSE lp.current END, 0) AS price,
          pr.priceUSD AS priceUSD,
          COALESCE((lp.current - lp." false rfl (by decide)

def tokensPriceChange : Code := .ofString " / lp." false rfl (by decide)

def tokensChangeCase : Code := .ofString "* 100, 0) AS priceChange,
          CASE WHEN rdt.tokenId = " false rfl (by decide)

def thenChange : Code := .ofString " THEN COALESCE((lp.current - lp." false rfl (by decide)

def elseChange : Code := .ofString "* 100, 0) ELSE COALESCE(((lp.current * " false rfl (by decide)

def minusBefore : Code := .ofString " - (lp." false rfl (by decide)

def timesSign : Code := .ofString "* " false rfl (by decide)

def dividedBefore : Code := .ofString ") / (lp." false rfl (by decide)

set_option maxRecDepth 20000 in
def tokensJoinPrices : Code := .ofString " * 100, 0) END AS priceChangeUSD
        FROM
          registered_dex_token rdt
          LEFT JOIN (
            SELECT
              t.tokenId,
              COALESCE((CASE WHEN t.tokenId = " false rfl (by decide +kernel)

set_option maxRecDepth 20000 in
def tokensJoinVolume : Code := .ofString " 0) AS priceUSD
            FROM
              registered_dex_token t
              LEFT JOIN last_price lp ON t.tokenId = lp.tokenId
          ) AS pr ON rdt.tokenId = pr.tokenId
          LEFT JOIN (
            SELECT
              t.tokenId,
              v.height,
              v.index,
              COUNT(DISTINCT CONCAT(v.height, " false rfl (by decide +kernel)

set_option maxRecDepth 20000 in
def tokensVolume : Code := .ofString ", v.index)) AS swapCount,
              SUM(CASE WHEN p.token0 = t.tokenId THEN ABS(v.amount0) ELSE ABS(v.amount1) END) /
                POWER(10, t.decimal) AS volume,
              SUM(CASE WHEN p.token0 = t.tokenId THEN v.feeGrowth0 ELSE v.feeGrowth1 END) /
                POWER(10, t.decimal) AS feeGrowth
            FROM
              registered_dex_token t
              JOIN pool p ON p.inverted = false
              AND (t.tokenId = p.token0 OR t.tokenId = p.token1)
              LEFT JOIN volume v ON p.poolAddress = v.poolAddress
            WHERE
              1 = 1 " false rfl (by decide +kernel)

set_option maxRecDepth 20000 in
def tokensGroups : Code := .ofString "
            GROUP BY
              t.tokenId
          ) AS vol ON rdt.tokenId = vol.tokenId
          LEFT JOIN token_metadata AS tm ON rdt.tokenId = tm.tokenID
          LEFT JOIN token_factory AS tf ON rdt.tokenId = tf.tokenID
          LEFT JOIN (
            SELECT
              tvl.tokenId,
              SUM(amount) / POWER(10, t.decimal) as amount
            FROM
              tvl
            LEFT JOIN registered_dex_token t ON t.tokenId = tvl.tokenId
            GROUP BY
              tokenId
            ) AS vl ON vl.tokenId = rdt.tokenId
          LEFT JOIN last_price lp ON rdt.tokenId = lp.tokenId
          LEFT JOIN pool ON pool.token0 = rdt.tokenId
        GROUP BY
          rdt.tokenId
      ) vv
    ) v
  " false rfl (by decide +kernel)

/-- The prices of a time ago in the statement of tokens. -/
structure StatementChange where
  changeWindow : Value
  /-- `klyusdprice.current || 1` -/
  current : Value
  /-- `klyusdprice[changeWindow] || 1` -/
  before : Value

/-- `(lp.current - lp.changeWindow) / lp.changeWindow`, from the name of the first column on. -/
def changeCode (x : StatementChange) : Code :=
  Code.value x.changeWindow ')' (by decide) ++ tokensPriceChange ++
    Code.value x.changeWindow ' ' (by decide)

/-- `((lp.current * current) - (lp.changeWindow * before)) / (lp.changeWindow * before)`, from the
first price on. -/
def changeUSDCode (x : StatementChange) : Code :=
  Code.value x.current ')' (by decide) ++ minusBefore ++ Code.value x.changeWindow ' ' (by decide) ++
    timesSign ++ Code.value x.before ')' (by decide) ++ dividedBefore ++
    Code.value x.changeWindow ' ' (by decide) ++ timesSign ++ Code.value x.before ')' (by decide)

/-- The literals up to the condition, with the code after them. -/
def tokensLiterals (x : StatementPrices) (change : StatementChange) (condition : Code) :
    List (Part × Code) :=
  [(.quoted x.klyTokenId, tokensPrice ++ changeCode change ++ tokensChangeCase),
    (.quoted x.klyTokenId, thenChange ++ changeCode change ++ elseChange ++ changeUSDCode change ++
      tokensJoinPrices),
    (.quoted x.klyTokenId, timesPrice ++ Code.value x.current ',' (by decide) ++ tokensJoinVolume),
    (underscore, withWindow tokensVolume x.window ++ tokensGroups ++ condition)]

/-- The statement of `getDEXTokens` without `compact`. -/
def tokensStatement (x : StatementPrices) (change : StatementChange) (ending : Ending) : Search where
  without := ⟨tokensSelect, tokensLiterals x change ending.code, rfl⟩
  «with» := ⟨tokensSelect, tokensLiterals x change whereTokenName ++
    [(.term, orTokenId), (.term, orSymbol), (.term, ending.code)], rfl⟩
  holes_without := rfl
  holes_with := Template.holes_pos (List.mem_append_right _ List.mem_cons_self)

/-! ### Quotes -/

set_option maxRecDepth 20000 in
def quoteSelect : Code :=
  .ofString "SELECT tokenId FROM registered_dex_token t WHERE tokenId LIKE " true rfl (by decide)

def orTokenSymbol : Code := .ofString " OR symbol LIKE " true rfl (by decide)

def limitOne : Code := .ofString " LIMIT 1 " false rfl (by decide)

/-- The statement of `quoteSwapMethod` for one of its texts. -/
def quoteStatement : Template :=
  ⟨quoteSelect, [(.term, orTokenSymbol), (.term, limitOne)], rfl⟩

/-! ### Requests with texts -/

/-- The values of all statements, the texts that are searched for apart. -/
structure StatementValues where
  prices : StatementPrices
  change : StatementChange
  ending : Ending

/-- The statements with a text that is searched for. -/
def searches (x : StatementValues) : List Search :=
  [poolsStatement x.prices x.ending, positionsStatement x.ending, compactStatement x.ending.page,
    tokensStatement x.prices x.change x.ending]

/-- The text that is searched for, and the statement. -/
def searchSent (q : Search) (search : Option String) : List (List Char × List Char) :=
  [((searchTerm search).toList, q.text (searchTerm search).toList)]

/-- `params.base && params.quote` -/
def swapAsked (base quote : Option String) : Bool := base.getD "" ≠ "" && quote.getD "" ≠ ""

/-- The texts of `quoteSwapMethod` and their statements, if both are given. -/
def quoteSent (base quote : Option String) : List (List Char × List Char) :=
  if swapAsked base quote then
    [base, quote].map fun text =>
      ((text.getD "").toList, quoteStatement.text (text.getD "").toList)
  else []

/-- What two requests send has the same tokens, and finds what contains the texts, as the collation
of the tables compares characters. -/
def TextsSafe (collation : Like.Collation) (sent sent' : List (List Char × List Char)) : Prop :=
  List.Forall₂ (fun x x' => SameTokens x.2 x'.2 ∧ LiteralRight collation x.1 x.2 ∧
    LiteralRight collation x'.1 x'.2) sent sent'

section Texts

variable {collation : Like.Collation} {search search' base quote base' quote' : Option String}

theorem searchSent_safe_iff (q : Search) :
    TextsSafe collation (searchSent q search) (searchSent q search') ↔
      Plain (searchTerm search).toList ∧ Plain (searchTerm search').toList ∧
        (searchTerm search = "" ↔ searchTerm search' = "") := by
  rw [TextsSafe, searchSent, searchSent, List.forall₂_cons, and_iff_left List.Forall₂.nil,
    q.safe_iff, String.toList_eq_nil_iff, String.toList_eq_nil_iff]

/-- The statement of a text, in two requests. -/
theorem quoteStatement_safe_iff (s s' : List Char) :
    (SameTokens (quoteStatement.text s) (quoteStatement.text s') ∧
      LiteralRight collation s (quoteStatement.text s) ∧
      LiteralRight collation s' (quoteStatement.text s')) ↔
        Plain s ∧ Plain s' := by
  have hholes : 0 < quoteStatement.holes := Template.holes_pos List.mem_cons_self
  rw [Template.literalRight_iff, Template.literalRight_iff, imp_iff_right hholes,
    imp_iff_right hholes]
  refine and_iff_right_of_imp fun ⟨hs, hs'⟩ => ?_
  rw [SameTokens, Template.lex_text _ hs, Template.lex_text _ hs', Template.shape_tokens]

theorem quoteSent_safe_iff : TextsSafe collation (quoteSent base quote) (quoteSent base' quote') ↔
    swapAsked base quote = swapAsked base' quote' ∧ (swapAsked base quote = true →
      ∀ text ∈ [base, base', quote, quote'], Plain (text.getD "").toList) := by
  rw [TextsSafe, quoteSent, quoteSent]
  cases swapAsked base quote <;> cases swapAsked base' quote'
  · exact iff_of_true .nil ⟨rfl, fun h => absurd h Bool.false_ne_true⟩
  · exact iff_of_false (fun h => by cases h) fun h => absurd h.1 Bool.false_ne_true
  · exact iff_of_false (fun h => by cases h) fun h => absurd h.1.symm Bool.false_ne_true
  · rw [if_pos rfl, if_pos rfl, imp_iff_right rfl, and_iff_right rfl]
    simp only [List.map_cons, List.map_nil, List.forall₂_cons, List.Forall₂.nil, and_true,
      quoteStatement_safe_iff, List.forall_mem_cons, List.not_mem_nil, false_imp_iff,
      implies_true, and_assoc]

end Texts

/-- **User texts cannot change the statements**, and find what contains them in the collation of the
tables, if and only if they have no quote, no backslash and no wildcard, and the same ones are given
in both requests. -/
theorem userText_iff (collation : Like.Collation) (x : StatementValues)
    (search search' base quote base' quote' : Option String) :
    ((∀ q ∈ searches x, TextsSafe collation (searchSent q search) (searchSent q search')) ∧
        TextsSafe collation (quoteSent base quote) (quoteSent base' quote')) ↔
      (Plain (searchTerm search).toList ∧ Plain (searchTerm search').toList ∧
          (searchTerm search = "" ↔ searchTerm search' = "")) ∧
        swapAsked base quote = swapAsked base' quote' ∧ (swapAsked base quote = true →
          ∀ text ∈ [base, base', quote, quote'], Plain (text.getD "").toList) := by
  rw [quoteSent_safe_iff]
  refine and_congr_left' ⟨fun h => ?_, fun h q _ => (searchSent_safe_iff q).mpr h⟩
  exact (searchSent_safe_iff _).mp (h _ List.mem_cons_self)

/-- A text with a quote changes the statement of positions. -/
theorem userText_quote : ¬ ∀ (x : StatementValues) (search search' : Option String),
    ∀ q ∈ searches x,
      TextsSafe .ignoreCase (searchSent q search) (searchSent q search') := by
  intro h
  let one : Value := ⟨false, ['1'], by decide, List.forall_mem_singleton.mpr (by decide)⟩
  let kly : Quoted := ⟨['0'], List.forall_mem_singleton.mpr (by decide)⟩
  let x : StatementValues := ⟨⟨kly, one, ⟨none, none⟩⟩, ⟨one, one, one⟩, one, one, none⟩
  have hplain := ((searchSent_safe_iff _).mp (h x (some "a'b") (some "a") _ List.mem_cons_self)).1
  exact absurd hplain (by decide)

end DexQuery

end SwaptoshiService
