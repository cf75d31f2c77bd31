import SwaptoshiService.DataService.RangeParam

/-!
# What a range parameter selects

A range `from:to` may be open on either side. `normalizeRangeParam` reads **the first two parts** of
the text and drops what comes after a second colon, and it reads a side of blanks, and the two sides
of `:`, as zero.

`isRight_iff` says when a text with a colon is turned down only if it is no range, and selects the
numbers of the range otherwise: when its first two parts are turned down, since one is no number or
the first one is greater, or there are just two, not both empty and none of them blank.
-/

namespace SwaptoshiService

namespace RangeParam

open QueryBuilder

/-! ### Ranges -/

/-- A side of a range: it is open, or a number. -/
def IsSide (cs : List Char) : Prop := cs = [] ∨ (trim cs ≠ [] ∧ numberOf cs ≠ none)

/-- The text is the range `fromStr:toStr`. -/
structure IsRange (s : String) (fromStr toStr : List Char) : Prop where
  text : s.toList = fromStr ++ ':' :: toStr
  noColon : ':' ∉ fromStr ∧ ':' ∉ toStr
  side : IsSide fromStr ∧ IsSide toStr
  ordered : ∀ lower upper, fromStr ≠ [] → toStr ≠ [] → numberOf fromStr = some lower →
    numberOf toStr = some upper → lower ≤ upper

/-- The number is between the sides, as far as they are not open. -/
def IsBetween (fromStr toStr : List Char) (x : JsNumber) : Prop :=
  (fromStr ≠ [] → ∀ lower, numberOf fromStr = some lower → lower ≤ x) ∧
    (toStr ≠ [] → ∀ upper, numberOf toStr = some upper → x ≤ upper)

section Filter

variable {O : Type}

/-- The new parameters filter by the range, by an entry after those that are there, and the other
parameters are as they were. -/
structure FiltersBy (params params' : ParamsObject O) (property : String)
    (fromStr toStr : List Char) : Prop where
  entry : ∃ entry, propBetweensOf params' = propBetweensOf params ++ [entry] ∧
    ∀ (row : Sql.Row String JsNumber) x, row property = some x →
      (Sql.All (propBetween numberOps entry) row ↔ IsBetween fromStr toStr x)
  others : ∀ key, key ≠ property → key ≠ "propBetweens" → params'.lookup key = params.lookup key

/-- The text is turned down if it is no range, and is a filter by the range that it is. -/
def IsRight (params : ParamsObject O) (property s : String) : Prop :=
  match normalizeRangeParam params property with
  | .error _ => ∀ fromStr toStr, ¬ IsRange s fromStr toStr
  | .ok params' => ∃ fromStr toStr, IsRange s fromStr toStr ∧
      FiltersBy params params' property fromStr toStr

/-- The first two parts are turned down: one is no number, or they are in the wrong order. -/
def Rejected (fromStr toStr : List Char) : Prop :=
  numberOf fromStr = none ∨ numberOf toStr = none ∨
    (fromStr ≠ [] ∧ toStr ≠ [] ∧ ∃ lower upper, numberOf fromStr = some lower ∧
      numberOf toStr = some upper ∧ upper < lower)

/-- Two parts, not both empty, and neither of blanks. -/
def WellCut (fromStr toStr : List Char) (rest : List (List Char)) : Prop :=
  rest = [] ∧ ¬ (fromStr = [] ∧ toStr = []) ∧ (fromStr = [] ∨ trim fromStr ≠ []) ∧
    (toStr = [] ∨ trim toStr ≠ [])

variable {params : ParamsObject O} {property s : String} {fromStr toStr : List Char}
  {rest : List (List Char)}

theorem IsRange.splitOn (h : IsRange s fromStr toStr) :
    s.toList.splitOn ':' = [fromStr, toStr] :=
  splitOn_eq_pair_iff.mpr ⟨h.text, h.noColon⟩

/-- No range is turned down. -/
theorem IsRange.not_rejected (h : IsRange s fromStr toStr) : ¬ Rejected fromStr toStr := by
  have hside : ∀ cs, IsSide cs → numberOf cs ≠ none := by
    rintro cs (rfl | ⟨-, hnumber⟩)
    · decide
    · exact hnumber
  rintro (hfrom | hto | ⟨hfrom, hto, lower, upper, hlower, hupper, hlt⟩)
  · exact hside _ h.side.1 hfrom
  · exact hside _ h.side.2 hto
  · exact absurd (h.ordered lower upper hfrom hto hlower hupper) hlt.not_ge

/-! ### What the code does -/

theorem normalizeRangeParam_of_rejected (hparam : params.lookup property = some (.text s))
    (hsplit : s.toList.splitOn ':' = fromStr :: toStr :: rest) (h : Rejected fromStr toStr) :
    ∃ message, normalizeRangeParam params property = .error message := by
  rw [normalizeRangeParam, hparam]
  simp only [hsplit]
  rcases h with hfrom | hto | ⟨hfrom, hto, lower, upper, hlower, hupper, hlt⟩
  · exact ⟨_, by rw [hfrom]⟩
  · rw [hto]
    cases numberOf fromStr <;> exact ⟨_, rfl⟩
  · rw [hlower, hupper]
    exact ⟨_, if_pos ⟨hfrom, hto, hlt⟩⟩

theorem normalizeRangeParam_of_not_rejected (hparam : params.lookup property = some (.text s))
    (hsplit : s.toList.splitOn ':' = fromStr :: toStr :: rest) (h : ¬ Rejected fromStr toStr) :
    ∃ lower upper, numberOf fromStr = some lower ∧ numberOf toStr = some upper ∧
      normalizeRangeParam params property = .ok ((params.erase property).insert "propBetweens"
        (.propBetweens (propBetweensOf params ++
          [rangeEntry property fromStr toStr lower upper]))) := by
  obtain ⟨lower, hlower⟩ := Option.ne_none_iff_exists'.mp fun hfrom => h (.inl hfrom)
  obtain ⟨upper, hupper⟩ := Option.ne_none_iff_exists'.mp fun hto => h (.inr (.inl hto))
  have hnot : ¬ (fromStr ≠ [] ∧ toStr ≠ [] ∧ upper < lower) := fun hlt =>
    h (.inr (.inr ⟨hlt.1, hlt.2.1, lower, upper, hlower, hupper, hlt.2.2⟩))
  refine ⟨lower, upper, hlower, hupper, ?_⟩
  rw [normalizeRangeParam, hparam]
  simp only [hsplit, hlower, hupper]
  rw [if_neg hnot]

theorem not_rejected_of_le {lower upper : JsNumber} (hlower : numberOf fromStr = some lower)
    (hupper : numberOf toStr = some upper) (hle : fromStr ≠ [] → toStr ≠ [] → lower ≤ upper) :
    ¬ Rejected fromStr toStr := by
  rintro (hfrom | hto | ⟨hfrom, hto, lower', upper', hlower', hupper', hlt⟩)
  · exact absurd (hlower.symm.trans hfrom) nofun
  · exact absurd (hupper.symm.trans hto) nofun
  · obtain rfl := Option.some.inj (hlower.symm.trans hlower')
    obtain rfl := Option.some.inj (hupper.symm.trans hupper')
    exact absurd (hle hfrom hto) hlt.not_ge

/-- What the new entry selects. -/
theorem all_rangeEntry {lower upper : JsNumber} {row : Sql.Row String JsNumber} {x : JsNumber}
    (hrow : row property = some x) :
    Sql.All (propBetween numberOps (rangeEntry property fromStr toStr lower upper)) row ↔
      (fromStr ≠ [] → lower ≤ x) ∧ (toStr ≠ [] ∨ fromStr = [] → x ≤ upper) := by
  rw [rangeEntry]
  split_ifs with hfrom hto
  · simp [Sql.All, propBetween, Sql.compare, hrow, numberOps, hfrom]
  · simp [Sql.All, propBetween, Sql.compare, hrow, numberOps, hfrom, hto]
  · simp [Sql.All, propBetween, Sql.compare, hrow, numberOps, hfrom, hto, fromTo]

/-! ### When the text is what it says -/

theorem isRange_of_wellCut (hsplit : s.toList.splitOn ':' = fromStr :: toStr :: rest)
    (h : ¬ Rejected fromStr toStr) (hcut : WellCut fromStr toStr rest) :
    IsRange s fromStr toStr := by
  obtain ⟨rfl, -, hfrom, hto⟩ := hcut
  obtain ⟨htext, hcolons⟩ := splitOn_eq_pair_iff.mp hsplit
  -- A side that is not empty is not blank either, and then it is a number.
  refine ⟨htext, hcolons, ⟨?_, ?_⟩, fun lower upper hne hne' hlower hupper => ?_⟩
  · exact hfrom.imp_right fun hne => ⟨hne, fun hnone => h (.inl hnone)⟩
  · exact hto.imp_right fun hne => ⟨hne, fun hnone => h (.inr (.inl hnone))⟩
  · exact not_lt.mp fun hlt => h (.inr (.inr ⟨hne, hne', lower, upper, hlower, hupper, hlt⟩))

theorem IsRange.wellCut (h : IsRange s fromStr toStr) (hne : ¬ (fromStr = [] ∧ toStr = [])) :
    WellCut fromStr toStr [] :=
  ⟨rfl, hne, h.side.1.imp_right And.left, h.side.2.imp_right And.left⟩

/-- **The texts that are read as what they say.** -/
theorem isRight_iff (hparam : params.lookup property = some (.text s))
    (hsplit : s.toList.splitOn ':' = fromStr :: toStr :: rest) :
    IsRight params property s ↔ Rejected fromStr toStr ∨ WellCut fromStr toStr rest := by
  -- A range has just these two parts.
  have hparts : ∀ fromStr' toStr', IsRange s fromStr' toStr' →
      fromStr' = fromStr ∧ toStr' = toStr ∧ rest = [] := by
    intro fromStr' toStr' h
    have heq := h.splitOn.symm.trans hsplit
    simp only [List.cons.injEq] at heq
    exact ⟨heq.1, heq.2.1, heq.2.2.symm⟩
  rw [IsRight]
  by_cases hrejected : Rejected fromStr toStr
  · -- What is turned down is no range.
    obtain ⟨message, herror⟩ := normalizeRangeParam_of_rejected hparam hsplit hrejected
    rw [herror]
    refine iff_of_true (fun fromStr' toStr' h => ?_) (.inl hrejected)
    obtain ⟨rfl, rfl, -⟩ := hparts _ _ h
    exact h.not_rejected hrejected
  obtain ⟨lower, upper, hlower, hupper, hok⟩ :=
    normalizeRangeParam_of_not_rejected hparam hsplit hrejected
  rw [hok, or_iff_right hrejected]
  have hentries : propBetweensOf ((params.erase property).insert "propBetweens"
      (.propBetweens (propBetweensOf params ++
        [rangeEntry property fromStr toStr lower upper]))) =
      propBetweensOf params ++ [rangeEntry property fromStr toStr lower upper] := by
    rw [propBetweensOf, AList.lookup_insert]
  constructor
  · rintro ⟨fromStr', toStr', hrange, hfilters⟩
    obtain ⟨rfl, rfl, rfl⟩ := hparts _ _ hrange
    refine hrange.wellCut ?_
    rintro ⟨rfl, rfl⟩
    -- Without sides every number is selected, but the code has the bound zero.
    obtain ⟨entry, hentry, hselects⟩ := hfilters.entry
    rw [hentries, List.append_cancel_left_eq, List.singleton_inj] at hentry
    have hone := (hselects (fun _ => some (JsNumber.ofRat 1)) _ rfl).mpr ⟨nofun, nofun⟩
    rw [← hentry, all_rangeEntry rfl] at hone
    have hzero : upper = JsNumber.ofRat 0 := Option.some.inj (hupper.symm.trans rfl)
    have hle := hone.2 (.inr rfl)
    rw [hzero, JsNumber.ofRat_le] at hle
    norm_num at hle
  · intro hcut
    refine ⟨fromStr, toStr, isRange_of_wellCut hsplit hrejected hcut, ?_, ?_⟩
    · refine ⟨_, hentries, fun row x hrow => ?_⟩
      rw [all_rangeEntry hrow, IsBetween]
      have hne := hcut.2.1
      simp only [hlower, hupper, Option.some.injEq, forall_eq']
      grind
    · intro key hproperty hbetweens
      rw [AList.lookup_insert_ne hbetweens, AList.lookup_erase_ne hproperty]

end Filter

/-- **When a range parameter is right**: of its parts the first two are turned down, or it has two
parts, not both of them empty and none of blanks. -/
theorem rangeParam_iff {O : Type} {params : ParamsObject O} {property s : String}
    (hparam : params.lookup property = some (.text s)) (hcolon : ':' ∈ s.toList) :
    IsRight params property s ↔
      ∃ fromStr toStr rest, s.toList.splitOn ':' = fromStr :: toStr :: rest ∧
        (Rejected fromStr toStr ∨ WellCut fromStr toStr rest) := by
  obtain ⟨fromStr, toStr, rest, hsplit⟩ := exists_splitOn_of_mem hcolon
  rw [isRight_iff hparam hsplit]
  constructor
  · exact fun h => ⟨fromStr, toStr, rest, hsplit, h⟩
  · rintro ⟨fromStr', toStr', rest', hsplit', h⟩
    rw [hsplit] at hsplit'
    simp only [List.cons.injEq] at hsplit'
    obtain ⟨rfl, rfl, rfl⟩ := hsplit'
    exact h

/-- A request for the blocks of some heights. -/
def heightParam (s : String) : ParamsObject Unit := AList.singleton "height" (.text s)

/-- Twenty is the last height. -/
theorem isRight_upTo : IsRight (heightParam ":20") "height" ":20" := by
  have hcolon : ':' ∈ ":20".toList := by decide
  refine (rangeParam_iff rfl hcolon).mpr ⟨[], "20".toList, [], by decide +kernel, .inr ?_⟩
  exact ⟨rfl, fun h => absurd h.2 (by decide), .inl rfl, .inr (by decide)⟩

/-- A colon alone selects no positive number, what follows a second colon is dropped, and a side of
blanks becomes the bound zero. -/
theorem not_isRight :
    ¬ IsRight (heightParam ":") "height" ":" ∧
      ¬ IsRight (heightParam "1:2:3") "height" "1:2:3" ∧
      ¬ IsRight (heightParam " :5") "height" " :5" := by
  refine ⟨?_, ?_, ?_⟩
  · have hsplit : ":".toList.splitOn ':' = [[], []] := by decide +kernel
    rw [isRight_iff rfl hsplit]
    rintro (h | h)
    · exact not_rejected_of_le rfl rfl (fun h => absurd rfl h) h
    · exact h.2.1 ⟨rfl, rfl⟩
  · have hsplit : "1:2:3".toList.splitOn ':' = ["1".toList, "2".toList, "3".toList] := by
      decide +kernel
    have hlower : numberOf "1".toList = some (JsNumber.ofRat 1) := by decide +kernel
    have hupper : numberOf "2".toList = some (JsNumber.ofRat 2) := by decide +kernel
    rw [isRight_iff rfl hsplit]
    rintro (h | h)
    · refine not_rejected_of_le hlower hupper (fun _ _ => ?_) h
      rw [JsNumber.ofRat_le]
      norm_num
    · exact absurd h.1 (by simp)
  · have hsplit : " :5".toList.splitOn ':' = [" ".toList, "5".toList] := by decide +kernel
    have hlower : numberOf " ".toList = some (JsNumber.ofRat 0) := by decide +kernel
    have hupper : numberOf "5".toList = some (JsNumber.ofRat 5) := by decide +kernel
    rw [isRight_iff rfl hsplit]
    rintro (h | h)
    · refine not_rejected_of_le hlower hupper (fun _ _ => ?_) h
      rw [JsNumber.ofRat_le]
      norm_num
    · rcases h.2.2.1 with hempty | hblank
      · exact absurd hempty (by decide)
      · exact hblank (by decide)

end RangeParam

end SwaptoshiService
