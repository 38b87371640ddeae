import AgentHub.Context.Truncation

/-!
# Observations of tools

What a run tells the model about a tool result, within a bound on its tokens. A successful result
that does not fit is cut: where its data has a list of results, to the first of them that fit, and
otherwise to a preview of its JSON text. The number of results left out is added to what was kept
after the last of them was measured.

## Main definitions

* `ToolResult`, `boundedToolResult`: results and their observations
* `observationTokens`: the tokens of an observation
* `IsProjected`: a whole observation, a cut list, or the longest preview
* `RoomForCount`: the number of results left out fits beside those kept

## Main results

* `boundedItems_spec`: the results that are kept
* `observationTokens_list_mono`, `observationTokens_preview_mono`: more does not count less
* `observation_bounded_iff`: an observation is within the bound exactly with room for the number
-/

namespace AgentHub.RuntimeProjection

open Lib Transcript Truncation
open Context (PythonError)

/-! ## Results -/

inductive ToolResultStatus
  | success | error
  deriving DecidableEq, Repr

/-- A tool result. The data is a JSON value. -/
structure ToolResult where
  status : ToolResultStatus
  data : Json
  errorCode : Option Text
  safeMessage : Option Text
  /-- The decision on an approval and its execution, which the constructor takes together only. -/
  approval : Option (Text × Text)

def textMember (key : String) (value : Text) : Text × Json := (Text.ofString key, .str value)

def truncatedMember : Text × Json := (Text.ofString "truncated", .bool true)

namespace ToolResult

variable (result : ToolResult)

def approvalFacts : JsonObject :=
  match result.approval with
  | none => []
  | some (decision, execution) =>
    [textMember "approval_decision" decision, textMember "approval_execution" execution]

/-- The first members of every observation. -/
def heading (status : String) : JsonObject :=
  [textMember "status" (Text.ofString status), textMember "trust" (Text.ofString "UNTRUSTED")]

/-- The whole observation of a successful result. -/
def payload : JsonObject :=
  heading "SUCCESS" ++ result.approvalFacts ++ [(Text.ofString "data", result.data)]

/-- The whole observation of a failed result. -/
def errorPayload : JsonObject :=
  heading "ERROR" ++ result.approvalFacts ++
    [(Text.ofString "error_code", ofOption result.errorCode),
      (Text.ofString "message", ofOption result.safeMessage)]

/-- The observation of a failed result without its message. -/
def errorMarker : JsonObject :=
  heading "ERROR" ++
    [(Text.ofString "error_code", ofOption result.errorCode), truncatedMember] ++
    result.approvalFacts

/-- The observation of a result that is no JSON. -/
def unserializable : JsonObject :=
  heading "ERROR" ++ result.approvalFacts ++
    [textMember "error_code" (Text.ofString "TOOL_RESULT_NOT_SERIALIZABLE"),
      textMember "message" (Text.ofString "The tool returned unsupported data.")]

/-- The observation of a successful result without its data. -/
def marker : JsonObject := heading "SUCCESS" ++ [truncatedMember] ++ result.approvalFacts

/-- The observation of a successful result with other data. -/
def projection (data : JsonObject) : JsonObject :=
  heading "SUCCESS" ++
    [truncatedMember, (Text.ofString "data", .obj (truncatedMember :: data))] ++
    result.approvalFacts

/-- With some of the results. -/
def listed (results : List Json) : JsonObject :=
  result.projection [(Text.ofString "results", .arr results)]

/-- With a preview of the data. -/
def previewed (preview : Text) : JsonObject :=
  result.projection [textMember "preview" preview]

/-- The list of results in the data, if there is one. -/
def innerResults : Option (List Json) :=
  match result.data with
  | .obj kvs =>
    match Json.get? kvs (Text.ofString "results") with
    | some (.arr items) => some items
    | _ => none
  | _ => none

/-- The results kept, and how many there are of the others. -/
def kept (items bounded : List Json) : JsonObject :=
  let dropped := items.length - bounded.length
  result.listed bounded ++
    if dropped ≠ 0 then [(Text.ofString "dropped_results", .int dropped)] else []

end ToolResult

/-! ## Bounds -/

/-- The results from the front for as long as what was kept with the next one passes. -/
def boundedItems (passes : List Json → Bool) : List Json → List Json → List Json
  | bounded, [] => bounded
  | bounded, item :: items =>
    if passes (bounded ++ [item]) then boundedItems passes (bounded ++ [item]) items else bounded

section Bounded

variable (isWide : CodePoint → Bool)

/-- The tokens of an observation, which `ApproxTokenEstimator` counts in its JSON text. -/
def observationTokens (observation : JsonObject) : ℤ :=
  approxTokens isWide ((Json.obj observation).sorted.render compact)

/-- The longest preview that fits, or no data. -/
def previewResult (result : ToolResult) (encodedData : Text) (maxToolResultTokens : ℤ) :
    JsonObject :=
  let fits (n : ℕ) : Bool :=
    observationTokens isWide (result.previewed (encodedData.take n)) ≤ maxToolResultTokens
  -- the numbers up to `high` are those before `high + 1`
  let best := searchBest fits 0 (encodedData.length + 1) 0
  if fits best then result.previewed (encodedData.take best) else result.marker

/-- What a successful result is cut to. -/
def cutResult (result : ToolResult) (encodedData : Text) (maxToolResultTokens : ℤ) : JsonObject :=
  let items := result.innerResults.getD []
  let bounded := boundedItems
    (fun items => observationTokens isWide (result.listed items) ≤ maxToolResultTokens) [] items
  if bounded.isEmpty = false then result.kept items bounded
  else previewResult isWide result encodedData maxToolResultTokens

/-- `_bounded_tool_result` -/
def boundedToolResult (result : ToolResult) (maxToolResultTokens : ℤ) :
    Except PythonError JsonObject := do
  raiseIf (maxToolResultTokens < 0)
    (.valueError "max_tool_result_tokens must be a non-negative integer")
  match result.status with
  | .error =>
    if observationTokens isWide result.errorPayload ≤ maxToolResultTokens then
      .ok result.errorPayload
    else .ok result.errorMarker
  | .success =>
    match result.data.dumps compact with
    | none => .ok result.unserializable
    | some encodedData =>
      if observationTokens isWide result.payload ≤ maxToolResultTokens then .ok result.payload
      else .ok (cutResult isWide result encodedData maxToolResultTokens)

end Bounded

/-! ## The results that are kept -/

/-- **The results that are kept**: those from the front that pass, up to the first that does not. -/
theorem boundedItems_spec (passes : List Json → Bool) (bounded items : List Json) :
    ∃ k ≤ items.length, boundedItems passes bounded items = bounded ++ items.take k ∧
      (∀ j, 0 < j → j ≤ k → passes (bounded ++ items.take j) = true) ∧
      (k < items.length → passes (bounded ++ items.take (k + 1)) = false) := by
  induction items generalizing bounded with
  | nil => exact ⟨0, le_rfl, by simp [boundedItems], fun j hj hk => by omega, nofun⟩
  | cons item items ih =>
    rw [boundedItems]
    split_ifs with hpasses
    · obtain ⟨k, hk, heq, hbelow, hnext⟩ := ih (bounded ++ [item])
      refine ⟨k + 1, by simpa using hk, by simp [heq], fun j hj hjk => ?_, fun hlt => ?_⟩
      · obtain ⟨j, rfl⟩ := Nat.exists_eq_succ_of_ne_zero hj.ne'
        rcases Nat.eq_zero_or_pos j with rfl | hpos
        · simpa using hpasses
        · simpa using hbelow j hpos (by omega)
      · simpa using hnext (by simpa using hlt)
    · exact ⟨0, Nat.zero_le _, by simp, fun j hj hk => by omega,
        fun _ => by simpa using hpasses⟩

/-! ## More does not count less -/

section Monotone

variable {isWide : CodePoint → Bool} (result : ToolResult)

theorem observationTokens_eq (observation : JsonObject) :
    observationTokens isWide observation =
      languageAware isWide ((Json.obj observation).sorted.render compact) :=
  approxTokens_eq isWide _

/-- An observation with shorter data. -/
theorem observationTokens_projection_mono {key : Text} {v w : Json}
    (h : NoLonger (eighths isWide) (v.sorted.render compact) (w.sorted.render compact)) :
    observationTokens isWide (result.projection [(key, v)]) ≤
      observationTokens isWide (result.projection [(key, w)]) := by
  have hsame (kvs : JsonObject) : SortedNoLonger (eighths isWide) compact kvs kvs :=
    List.forall₂_same.mpr fun _ _ => ⟨rfl, .refl _⟩
  have hdata : NoLonger (eighths isWide)
      ((Json.obj (truncatedMember :: [(key, v)])).sorted.render compact)
      ((Json.obj (truncatedMember :: [(key, w)])).sorted.render compact) :=
    noLonger_sorted_obj (.cons ⟨rfl, .refl _⟩ (.cons ⟨rfl, h⟩ .nil))
  rw [observationTokens_eq, observationTokens_eq]
  refine languageAware_mono isWide (noLonger_sorted_obj ?_).size_le
  refine List.rel_append (List.rel_append (hsame _) ?_) (hsame _)
  exact .cons ⟨rfl, .refl _⟩ (.cons ⟨rfl, hdata⟩ .nil)

/-- **More results do not count less.** -/
theorem observationTokens_list_mono {items : List Json} {m n : ℕ} (h : m ≤ n) :
    observationTokens isWide (result.listed (items.take m)) ≤
      observationTokens isWide (result.listed (items.take n)) :=
  observationTokens_projection_mono result
    (noLonger_sorted_arr (List.take_prefix_take_left h).sublist)

/-- **A longer preview does not count less**, escapes included. -/
theorem observationTokens_preview_mono {text : Text} {m n : ℕ} (h : m ≤ n) :
    observationTokens isWide (result.previewed (text.take m)) ≤
      observationTokens isWide (result.previewed (text.take n)) :=
  observationTokens_projection_mono result (noLonger_quote (List.take_prefix_take_left h))

end Monotone

/-! ## Within the bound -/

section Main

variable (isWide : CodePoint → Bool) (result : ToolResult) (maxToolResultTokens : ℤ)

/-- An observation of a successful result, whose data has the given text: the whole one, with some
of the results from the front, with the longest preview that fits, or without data where no preview
does. -/
def IsProjected (encodedData : Text) (observation : JsonObject) : Prop :=
  let previewFits (n : ℕ) : Prop :=
    observationTokens isWide (result.previewed (encodedData.take n)) ≤ maxToolResultTokens
  observation = result.payload ∨
    (∃ items bounded, result.innerResults = some items ∧ bounded ≠ [] ∧ bounded <+: items ∧
      observation = result.kept items bounded) ∨
    (∃ n, observation = result.previewed (encodedData.take n) ∧
      IsGreatest {n | n ≤ encodedData.length ∧ previewFits n} n) ∨
    observation = result.marker ∧ ∀ n ≤ encodedData.length, ¬ previewFits n

/-- Where the list of results is cut, the number of those left out fits beside those kept. -/
def RoomForCount : Prop :=
  ∀ items, result.innerResults = some items → ∀ k, 0 < k → k < items.length →
    observationTokens isWide (result.listed (items.take k)) ≤ maxToolResultTokens →
    maxToolResultTokens < observationTokens isWide (result.listed (items.take (k + 1))) →
    observationTokens isWide (result.listed (items.take k) ++
      [(Text.ofString "dropped_results", .int (items.length - k : ℕ))]) ≤ maxToolResultTokens

variable {isWide result maxToolResultTokens}

/-- The results kept, where some of them are left out. -/
theorem kept_take {items : List Json} {k : ℕ} (hk : k < items.length) :
    result.kept items (items.take k) = result.listed (items.take k) ++
      [(Text.ofString "dropped_results", .int (items.length - k : ℕ))] := by
  have hlength : (items.take k).length = k := List.length_take_of_le hk.le
  have hne : items.length - k ≠ 0 := by omega
  simp only [ToolResult.kept, hlength, hne, ne_eq, not_false_eq_true, if_true]

/-- **The longest preview**, which fits, or no data where none does. -/
theorem previewResult_spec (encodedData : Text)
    (hmarker : observationTokens isWide result.marker ≤ maxToolResultTokens) :
    observationTokens isWide (previewResult isWide result encodedData maxToolResultTokens) ≤
        maxToolResultTokens ∧
      IsProjected isWide result maxToolResultTokens encodedData
        (previewResult isWide result encodedData maxToolResultTokens) := by
  obtain ⟨fits, hfits⟩ : ∃ fits : ℕ → Bool, fits = fun n => decide (observationTokens isWide
    (result.previewed (encodedData.take n)) ≤ maxToolResultTokens) := ⟨_, rfl⟩
  have hfits_iff (n : ℕ) : fits n = true ↔ observationTokens isWide
      (result.previewed (encodedData.take n)) ≤ maxToolResultTokens := by
    rw [hfits, decide_eq_true_eq]
  have hdown (m n : ℕ) (hmn : m ≤ n) (hn : fits n = true) : fits m = true := by
    rw [hfits_iff] at hn ⊢
    exact (observationTokens_preview_mono result hmn).trans hn
  unfold previewResult
  rw [← hfits]
  dsimp only
  rcases searchBest_zero hdown encodedData.length with hgreatest | ⟨hzero, hnone⟩
  · rw [if_pos hgreatest.1.2]
    refine ⟨(hfits_iff _).mp hgreatest.1.2, .inr (.inr (.inl ⟨_, rfl, ?_⟩))⟩
    simpa only [hfits_iff] using hgreatest
  · have hbest := hnone 0 (Nat.zero_le _)
    rw [hzero, hbest, if_neg (by simp)]
    refine ⟨hmarker, .inr (.inr (.inr ⟨rfl, fun n hn hle => ?_⟩))⟩
    exact Bool.false_ne_true ((hnone n hn).symm.trans ((hfits_iff n).mpr hle))

/-- There is room for the number where the list is cut. -/
theorem roomForCount_iff {items : List Json} (hitems : result.innerResults = some items) {k : ℕ}
    (hbelow : ∀ j, 0 < j → j ≤ k →
      observationTokens isWide (result.listed (items.take j)) ≤ maxToolResultTokens)
    (hnext : k < items.length →
      maxToolResultTokens < observationTokens isWide (result.listed (items.take (k + 1)))) :
    RoomForCount isWide result maxToolResultTokens ↔ (0 < k → k < items.length →
      observationTokens isWide (result.listed (items.take k) ++
        [(Text.ofString "dropped_results", .int (items.length - k : ℕ))]) ≤
          maxToolResultTokens) := by
  constructor
  · exact fun h hpos hk => h items hitems k hpos hk (hbelow k hpos le_rfl) (hnext hk)
  · intro h items' hitems' j hpos hj hfits hover
    obtain rfl := Option.some.inj (hitems.symm.trans hitems')
    -- the list is cut at one place only, because more results do not count less
    obtain rfl : j = k := by
      rcases Nat.lt_trichotomy j k with hlt | heq | hgt
      · exact absurd (hbelow (j + 1) (Nat.succ_pos j) hlt) (not_le.mpr hover)
      · exact heq
      · have hnext' := hnext (hgt.trans hj)
        have hfits' : observationTokens isWide (result.listed (items.take (k + 1))) ≤
            maxToolResultTokens :=
          (observationTokens_list_mono result (Nat.succ_le_of_lt hgt)).trans hfits
        exact absurd hfits' (not_le.mpr hnext')
    exact h hpos hj

/-- **A cut observation**: the results from the front, the longest preview, or no data. Only the
number of results left out may exceed the bound. -/
theorem cutResult_spec (encodedData : Text)
    (hmarker : observationTokens isWide result.marker ≤ maxToolResultTokens) :
    IsProjected isWide result maxToolResultTokens encodedData
        (cutResult isWide result encodedData maxToolResultTokens) ∧
      (observationTokens isWide (cutResult isWide result encodedData maxToolResultTokens) ≤
        maxToolResultTokens ↔ RoomForCount isWide result maxToolResultTokens) := by
  obtain ⟨hfits, hprojected⟩ := previewResult_spec encodedData hmarker
  unfold cutResult
  dsimp only
  cases hitems : result.innerResults with
  | none =>
    -- without a list there is nothing to count
    refine ⟨hprojected, iff_of_true hfits fun items hsome => ?_⟩
    cases hitems.symm.trans hsome
  | some items =>
    obtain ⟨k, hk, hbounded, hbelow, hnext⟩ := boundedItems_spec
      (fun items => decide (observationTokens isWide (result.listed items) ≤ maxToolResultTokens))
      [] items
    simp only [List.nil_append, decide_eq_true_eq] at hbounded hbelow
    simp only [List.nil_append, decide_eq_false_iff_not, not_le] at hnext
    rw [roomForCount_iff hitems hbelow hnext, Option.getD_some, hbounded]
    rcases Nat.eq_zero_or_pos k with rfl | hpos
    · exact ⟨hprojected, iff_of_true hfits fun h => absurd h (lt_irrefl 0)⟩
    · have hne : items.take k ≠ [] := by
        rw [ne_eq, List.take_eq_nil_iff, not_or]
        exact ⟨hpos.ne', fun hnil => by simp [hnil] at hk; omega⟩
      rw [if_pos (by simpa using hne)]
      refine ⟨.inr (.inl ⟨items, _, hitems, hne, List.take_prefix k items, rfl⟩), ?_⟩
      rcases Nat.lt_or_ge k items.length with hlt | hge
      · rw [kept_take hlt]
        exact ⟨fun h _ _ => h, fun h => h hpos hlt⟩
      · -- every result was kept, and nothing is added
        refine iff_of_true ?_ fun _ hlt => absurd hlt (Nat.not_lt.mpr hge)
        have hall : result.kept items (items.take k) = result.listed (items.take k) := by
          simp [ToolResult.kept, List.take_of_length_le hge]
        rw [hall]
        exact hbelow k hpos le_rfl

/-- **When an observation is within its bound.** Of every successful result that is JSON, and every
bound that the observation without data meets: the observation is within the bound and cut as
described exactly where the whole one fits, or the number of results left out fits beside those that
are kept. -/
theorem observation_bounded_iff (isWide : CodePoint → Bool) (result : ToolResult)
    (maxToolResultTokens : ℤ) {encodedData : Text} (hstatus : result.status = .success)
    (hdata : result.data.dumps compact = some encodedData)
    (hmarker : observationTokens isWide result.marker ≤ maxToolResultTokens) :
    (∃ observation, boundedToolResult isWide result maxToolResultTokens = .ok observation ∧
      observationTokens isWide observation ≤ maxToolResultTokens ∧
      IsProjected isWide result maxToolResultTokens encodedData observation) ↔
    observationTokens isWide result.payload ≤ maxToolResultTokens ∨
      RoomForCount isWide result maxToolResultTokens := by
  have hnonneg : ¬ maxToolResultTokens < 0 := by
    have hzero := languageAware_nonneg isWide ((Json.obj result.marker).sorted.render compact)
    rw [← observationTokens_eq] at hzero
    omega
  have hreturns : boundedToolResult isWide result maxToolResultTokens =
      .ok (if observationTokens isWide result.payload ≤ maxToolResultTokens then result.payload
        else cutResult isWide result encodedData maxToolResultTokens) := by
    unfold boundedToolResult
    simp only [raiseIf, if_neg hnonneg, ok_bind, hstatus, hdata]
    split_ifs <;> rfl
  obtain ⟨hprojected, hbounded⟩ := cutResult_spec encodedData hmarker
  rw [hreturns]
  simp only [Except.ok.injEq, exists_eq_left']
  by_cases hwhole : observationTokens isWide result.payload ≤ maxToolResultTokens
  · rw [if_pos hwhole]
    exact iff_of_true ⟨hwhole, .inl rfl⟩ (.inl hwhole)
  · rw [if_neg hwhole, hbounded, or_iff_right hwhole]
    exact and_iff_left hprojected

/-- Pages that a search found. -/
def pages : List Json :=
  ["Returns within 30 days", "Refunds by bank transfer", "Shipping costs", "Opening hours"].map
    fun title => .obj [textMember "title" (Text.ofString title)]

def foundPages : ToolResult where
  status := .success
  data := .obj [(Text.ofString "results", .arr pages)]
  errorCode := none
  safeMessage := none
  approval := none

/-- Of four pages, two fit into 44 tokens, and the number of the others makes it 47. -/
theorem observation_exceeds_bound :
    foundPages.status = .success ∧ (foundPages.data.dumps compact).isSome = true ∧
      observationTokens (fun _ => false) foundPages.marker ≤ 44 ∧
      ∃ observation, boundedToolResult (fun _ => false) foundPages 44 = .ok observation ∧
        observationTokens (fun _ => false) observation = 47 := by
  have hcut : ((boundedToolResult (fun _ => false) foundPages 44).toOption.map
      (observationTokens (fun _ => false))) = some 47 := by decide +kernel
  obtain ⟨observation, hobservation, htokens⟩ := Option.map_eq_some_iff.mp hcut
  exact ⟨rfl, by decide +kernel, by decide +kernel, observation,
    toOption_eq_some hobservation, htokens⟩

/-- Into 40 tokens one of the pages fits, with the number of the others. -/
theorem observation_bounded_found_pages :
    ∃ encodedData observation, foundPages.data.dumps compact = some encodedData ∧
      boundedToolResult (fun _ => false) foundPages 40 = .ok observation ∧
      observationTokens (fun _ => false) observation ≤ 40 ∧
      IsProjected (fun _ => false) foundPages 40 encodedData observation := by
  have hsome : (foundPages.data.dumps compact).isSome = true := by decide +kernel
  obtain ⟨encodedData, hdata⟩ := Option.isSome_iff_exists.mp hsome
  have hbelow : ∀ j, 0 < j → j ≤ 1 → observationTokens (fun _ => false)
      (foundPages.listed (pages.take j)) ≤ 40 := by
    intro j hpos hle
    obtain rfl : j = 1 := by omega
    decide +kernel
  have hroom : RoomForCount (fun _ => false) foundPages 40 :=
    (roomForCount_iff rfl hbelow fun _ => by decide +kernel).mpr fun _ _ => by decide +kernel
  obtain ⟨observation, hobservation⟩ := (observation_bounded_iff (fun _ => false) foundPages 40
    rfl hdata (by decide +kernel)).mpr (.inr hroom)
  exact ⟨encodedData, observation, hdata, hobservation⟩

end Main

end AgentHub.RuntimeProjection
