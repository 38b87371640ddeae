import AgentHub.Lib.Checks
import AgentHub.Lib.Quantize
import AgentHub.Lib.Table
import AgentHub.Lib.Text
import Mathlib.Algebra.BigOperators.Group.List.Basic
import Mathlib.Data.List.Perm.Basic

/-!
# Pricing model calls

The calls of a case are priced by the snapshots of the models in its plan. Every call must be a
successful generation with known usage by a model of the plan, and all prices must be in one
currency. The exact costs are added and rounded once.

Prices and amounts are exact rationals. What the standard library knows of letters is a parameter.

## Main definitions

* `priceAttempt`: the cost of one call
* `priceModelAttempts`: the price of all calls
* `priceAggregateUsage`: the price of usage by one model
* `exactCost`, `exactSum`: what the calls cost before rounding

## Main results

* `priceAttempt_eq_ok`: the calls that have a price
* `exists_accounted`, `Accounted.eq_totalOf`: when a price is available, and what it is
* `totalOf_eq_priceAggregateUsage`: calls of one model
* `attempt_pricing_exact`: permutations, one model, and rounding
-/

namespace AgentHub.Pricing

open Lib

/-! ## The code -/

/-- `str.isalpha` and `str.upper`. -/
structure Letters where
  isAlpha : Text → Bool
  upper : Text → Text

/-- `ModelCallAttempt` -/
structure ModelCallAttempt where
  source : Option Text
  provider : Option Text
  model : Option Text
  inputTokens : Option ℤ := none
  outputTokens : Option ℤ := none
  totalTokens : Option ℤ := none
  cachedTokens : Option ℤ := none
  attemptStatus : Option Text := none

/-- `PricingSnapshot`: prices of a million tokens. -/
structure PricingSnapshot where
  currency : Text
  inputPrice : ℚ
  outputPrice : ℚ
  cachedInputPrice : Option ℚ

/-- A provider and a model. -/
abbrev Identity := Text × Text

/-- The model that a call used. -/
def ModelCallAttempt.identity (attempt : ModelCallAttempt) : Identity :=
  (attempt.provider.getD [], attempt.model.getD [])

/-- `ResolvedModelExecutionPlan`, with what pricing reads of it. -/
structure ModelPlan where
  primary : Identity
  fallbacks : List Identity

def ModelPlan.chain (plan : ModelPlan) : List Identity := plan.primary :: plan.fallbacks

/-- `PricingComputation` -/
structure PricingComputation where
  amount : Option ℚ
  currency : Option Text
  unavailableReason : Option String := none
  deriving DecidableEq

def unavailable (reason : String) : PricingComputation := ⟨none, none, some reason⟩

/-- The places that are kept of an amount. -/
def amountPlaces : ℕ := 8

/-- `_token_count`, where `none` is a `ValueError`. -/
def tokenCount (value : ℤ) : Option ℤ := if value < 0 then none else some value

/-- The price of cached input; without one it costs what other input does. -/
def cachedPrice (snapshot : PricingSnapshot) : ℚ :=
  snapshot.cachedInputPrice.getD snapshot.inputPrice

/-- The cost of token counts, before rounding. -/
def costOf (snapshot : PricingSnapshot) (input output cached : ℤ) : ℚ :=
  ((input - cached : ℤ) : ℚ) / 1000000 * snapshot.inputPrice +
    (cached : ℚ) / 1000000 * cachedPrice snapshot +
    (output : ℚ) / 1000000 * snapshot.outputPrice

section Code

variable (letters : Letters)

/-- `_currency`, where `none` is a `ValueError`. -/
def currencyOf (value : Text) : Option Text :=
  if value.length ≠ 3 ∨ letters.isAlpha value = false then none else some (letters.upper value)

/-- `price_aggregate_usage` -/
def priceAggregateUsage (snapshot : PricingSnapshot)
    (inputTokens outputTokens cachedTokens : Option ℤ) : PricingComputation :=
  match inputTokens, outputTokens, cachedTokens with
  | some input, some output, some cached =>
    match tokenCount input, tokenCount output, tokenCount cached with
    | some inputValue, some outputValue, some cachedValue =>
      if cachedValue > inputValue then unavailable "CACHED_USAGE_INVALID"
      else
        match currencyOf letters snapshot.currency with
        | some currency =>
          ⟨some (quantize amountPlaces (costOf snapshot inputValue outputValue cachedValue)),
            some currency, none⟩
        | none => unavailable "PRICING_SNAPSHOT_INVALID"
    | _, _, _ => unavailable "PRICING_SNAPSHOT_INVALID"
  | _, _, _ => unavailable "AGGREGATE_USAGE_UNKNOWN"

/-- The cached tokens of a call. They may be left out where cached input has no price of its own. -/
def cachedUsage (attempt : ModelCallAttempt) (snapshot : PricingSnapshot) : Option ℤ :=
  match attempt.cachedTokens with
  | some cached => tokenCount cached
  | none => if snapshot.cachedInputPrice.isSome then none else some 0

/-- `_attempt_usage`: input, output and cached tokens. -/
def attemptUsage (attempt : ModelCallAttempt) (snapshot : PricingSnapshot) :
    Option (ℤ × ℤ × ℤ) := do
  let inputValue ← attempt.inputTokens.bind tokenCount
  let outputValue ← attempt.outputTokens.bind tokenCount
  guard (∀ total ∈ attempt.totalTokens, tokenCount total = some (inputValue + outputValue))
  let cachedValue ← cachedUsage attempt snapshot
  guard (cachedValue ≤ inputValue)
  some (inputValue, outputValue, cachedValue)

/-- The exact cost of one call and its currency, or the reason that it has no price. -/
def priceAttempt (byIdentity : List (Identity × PricingSnapshot)) (attempt : ModelCallAttempt) :
    Except String (ℚ × Text) := do
  raiseIf (attempt.source ≠ some (Text.ofString "generation")) "AUXILIARY_MODEL_UNPRICED"
  raiseIf (attempt.attemptStatus ≠ some (Text.ofString "SUCCEEDED")) "MODEL_ATTEMPT_FAILED"
  raiseIf (attempt.provider.getD [] = [] ∨ attempt.model.getD [] = []) "MODEL_IDENTITY_UNKNOWN"
  match byIdentity.lookup attempt.identity with
  | none => .error "MODEL_PRICE_UNMATCHED"
  | some snapshot =>
    match attemptUsage attempt snapshot with
    | none => .error "ATTEMPT_USAGE_UNKNOWN"
    | some (inputValue, outputValue, cachedValue) =>
      match currencyOf letters snapshot.currency with
      | none => .error "PRICING_SNAPSHOT_INVALID"
      | some currency => .ok (costOf snapshot inputValue outputValue cachedValue, currency)

/-- The sum of the costs, where there is one currency. -/
def totalOf (priced : List (ℚ × Text)) : PricingComputation :=
  match (priced.map Prod.snd).dedup with
  | [currency] => ⟨some (quantize amountPlaces (priced.map Prod.fst).sum), some currency, none⟩
  | _ => unavailable "MIXED_CURRENCIES"

/-- `price_model_attempts` -/
def priceModelAttempts (attempts : List ModelCallAttempt) (plan : ModelPlan)
    (snapshots : List PricingSnapshot) (collectionComplete : Bool) : PricingComputation :=
  if collectionComplete = false then unavailable "ATTEMPT_COLLECTION_INCOMPLETE"
  else if attempts = [] then unavailable "MODEL_ATTEMPTS_MISSING"
  else if snapshots.length ≠ plan.chain.length then unavailable "PRICING_CHAIN_INCOMPLETE"
  else if ¬ plan.chain.Nodup then unavailable "PRICING_CHAIN_AMBIGUOUS"
  else
    match attempts.mapM (priceAttempt letters (plan.chain.zip snapshots)) with
    | .error reason => unavailable reason
    | .ok priced => totalOf priced

end Code

/-! ## Exact costs -/

section Exact

/-- What one call costs by a snapshot. -/
def exactCost (snapshot : PricingSnapshot) (attempt : ModelCallAttempt) : ℚ :=
  costOf snapshot (attempt.inputTokens.getD 0) (attempt.outputTokens.getD 0)
    (attempt.cachedTokens.getD 0)

/-- **What the calls cost**, each by the snapshot of its model. -/
def exactSum (plan : ModelPlan) (snapshots : List PricingSnapshot)
    (attempts : List ModelCallAttempt) : ℚ :=
  (attempts.map fun attempt =>
    ((plan.chain.zip snapshots).lookup attempt.identity).elim 0 (exactCost · attempt)).sum

/-- The tokens of all calls. -/
def totalTokens (count : ModelCallAttempt → Option ℤ) (attempts : List ModelCallAttempt) : ℤ :=
  (attempts.map fun attempt => (count attempt).getD 0).sum

end Exact

/-! ## Calls that have a price -/

section Calls

variable {letters : Letters} {byIdentity : List (Identity × PricingSnapshot)}

theorem tokenCount_eq_some {value count : ℤ} :
    tokenCount value = some count ↔ 0 ≤ value ∧ count = value := by
  rw [tokenCount]
  split_ifs with h
  · simp [h]
  · simp [not_lt.mp h, eq_comm]

variable {attempt : ModelCallAttempt} {snapshot : PricingSnapshot}

theorem cachedUsage_eq_some {cached : ℤ} (h : cachedUsage attempt snapshot = some cached) :
    attempt.cachedTokens.getD 0 = cached ∧ 0 ≤ cached := by
  rw [cachedUsage] at h
  split at h
  · next hreported =>
    obtain ⟨hnonneg, rfl⟩ := tokenCount_eq_some.mp h
    exact ⟨by rw [hreported]; rfl, hnonneg⟩
  · next hmissing =>
    obtain ⟨-, h⟩ := Option.ite_none_left_eq_some.mp h
    obtain rfl := Option.some.inj h
    exact ⟨by rw [hmissing]; rfl, le_rfl⟩

/-- The usage that is priced: the counts that were reported. -/
structure Reported (attempt : ModelCallAttempt) : Prop where
  output_nonneg : 0 ≤ attempt.outputTokens.getD 0
  cached_nonneg : 0 ≤ attempt.cachedTokens.getD 0
  cached_le : attempt.cachedTokens.getD 0 ≤ attempt.inputTokens.getD 0

theorem attemptUsage_eq_some {input output cached : ℤ}
    (h : attemptUsage attempt snapshot = some (input, output, cached)) :
    Reported attempt ∧ input = attempt.inputTokens.getD 0 ∧
      output = attempt.outputTokens.getD 0 ∧ cached = attempt.cachedTokens.getD 0 := by
  simp only [attemptUsage, Option.bind_eq_bind, Option.bind_eq_some_iff, tokenCount_eq_some,
    Option.guard_eq_some', exists_const, Option.some.injEq, Prod.mk.injEq] at h
  obtain ⟨_, ⟨_, hinput, -, rfl⟩, _, ⟨_, houtput, hnonneg, rfl⟩, -, _, hcached, hle, rfl, rfl,
    rfl⟩ := h
  obtain ⟨rfl, hcached_nonneg⟩ := cachedUsage_eq_some hcached
  refine ⟨⟨?_, hcached_nonneg, ?_⟩, ?_, ?_, rfl⟩
  · rwa [houtput]
  · rwa [hinput]
  · rw [hinput]
    rfl
  · rw [houtput]
    rfl

/-- **A call has a price** where its usage is reported and its model has a snapshot; the price is
its exact cost. -/
theorem priceAttempt_eq_ok {cost : ℚ} {currency : Text}
    (h : priceAttempt letters byIdentity attempt = .ok (cost, currency)) :
    Reported attempt ∧ ∃ snapshot, byIdentity.lookup attempt.identity = some snapshot ∧
      currencyOf letters snapshot.currency = some currency ∧ cost = exactCost snapshot attempt := by
  simp only [priceAttempt, bind_eq_ok, raiseIf_eq_ok, exists_const] at h
  obtain ⟨-, -, -, h⟩ := h
  split at h
  · cases h
  · next snapshot hsnapshot =>
    split at h
    · cases h
    · next input output cached husage =>
      split at h
      · cases h
      · next currency hcurrency =>
        obtain ⟨rfl, rfl⟩ := ok_pair_inj h
        obtain ⟨hreported, rfl, rfl, rfl⟩ := attemptUsage_eq_some husage
        exact ⟨hreported, snapshot, hsnapshot, hcurrency, rfl⟩

/-- The calls with their prices. -/
theorem priced_of_mapM {attempts : List ModelCallAttempt} {priced : List (ℚ × Text)}
    (h : attempts.mapM (priceAttempt letters byIdentity) = .ok priced) :
    priced.map Prod.fst = attempts.map fun attempt =>
      (byIdentity.lookup attempt.identity).elim 0 (exactCost · attempt) := by
  have hpriced := mapM_eq_ok_iff.mp h
  clear h
  induction hpriced with
  | nil => rfl
  | @cons attempt price attempts priced hprice _ ih =>
    obtain ⟨-, snapshot, hsnapshot, -, hcost⟩ := priceAttempt_eq_ok hprice
    rw [List.map_cons, List.map_cons, ih, hsnapshot, hcost]
    rfl

end Calls

/-! ## The price of all calls -/

section Prices

variable {letters : Letters} {attempts attempts' : List ModelCallAttempt} {plan : ModelPlan}
  {snapshots : List PricingSnapshot} {complete : Bool} {priced : List (ℚ × Text)} {amount : ℚ}

theorem totalOf_amount_eq_some (h : (totalOf priced).amount = some amount) :
    ∃ currency, (priced.map Prod.snd).dedup = [currency] ∧
      amount = quantize amountPlaces (priced.map Prod.fst).sum ∧
      totalOf priced = ⟨some amount, some currency, none⟩ := by
  rw [totalOf] at h ⊢
  split at h
  · next currency hcurrency =>
    obtain rfl := Option.some.inj h
    exact ⟨currency, hcurrency, rfl, rfl⟩
  · cases h

/-- The order of the prices does not matter. -/
theorem totalOf_perm {priced' : List (ℚ × Text)} (h : priced'.Perm priced) :
    totalOf priced' = totalOf priced := by
  have hsum : (priced'.map Prod.fst).sum = (priced.map Prod.fst).sum := (h.map _).sum_eq
  have hcurrencies : (priced'.map Prod.snd).dedup.Perm (priced.map Prod.snd).dedup :=
    (h.map Prod.snd).dedup
  rw [totalOf, totalOf, hsum]
  -- a list of one currency has no other order
  generalize (priced'.map Prod.snd).dedup = currencies' at hcurrencies ⊢
  generalize (priced.map Prod.snd).dedup = currencies at hcurrencies ⊢
  have hlength := hcurrencies.length_eq
  match currencies, currencies' with
  | [], [] => rfl
  | [currency], [currency'] => rw [List.perm_singleton.mp hcurrencies]
  | _ :: _ :: _, _ :: _ :: _ => rfl
  | [], _ :: _ => simp at hlength
  | [_], [] => simp at hlength
  | [_], _ :: _ :: _ => simp at hlength
  | _ :: _ :: _, [] => simp at hlength
  | _ :: _ :: _, [_] => simp at hlength

/-- The accounting is complete, and every call has its price. -/
structure Accounted (letters : Letters) (attempts : List ModelCallAttempt) (plan : ModelPlan)
    (snapshots : List PricingSnapshot) (complete : Bool) (priced : List (ℚ × Text)) : Prop where
  complete_eq : complete ≠ false
  attempts_ne : attempts ≠ []
  length_eq : ¬ snapshots.length ≠ plan.chain.length
  nodup : ¬ ¬ plan.chain.Nodup
  priced_eq : attempts.mapM (priceAttempt letters (plan.chain.zip snapshots)) = .ok priced

theorem Accounted.eq_totalOf (h : Accounted letters attempts plan snapshots complete priced) :
    priceModelAttempts letters attempts plan snapshots complete = totalOf priced := by
  rw [priceModelAttempts, if_neg h.complete_eq, if_neg h.attempts_ne, if_neg h.length_eq,
    if_neg h.nodup, h.priced_eq]

theorem accounted_or_unavailable (letters : Letters) (attempts : List ModelCallAttempt)
    (plan : ModelPlan) (snapshots : List PricingSnapshot) (complete : Bool) :
    (∃ priced, Accounted letters attempts plan snapshots complete priced) ∨
      ∃ reason, priceModelAttempts letters attempts plan snapshots complete =
        unavailable reason := by
  rw [priceModelAttempts]
  split
  · exact .inr ⟨_, rfl⟩
  split
  · exact .inr ⟨_, rfl⟩
  split
  · exact .inr ⟨_, rfl⟩
  split
  · exact .inr ⟨_, rfl⟩
  split
  · exact .inr ⟨_, rfl⟩
  · next hcomplete hattempts hlength hnodup _ priced hpriced =>
    exact .inl ⟨priced, hcomplete, hattempts, hlength, hnodup, hpriced⟩

/-- **When a price is available.** -/
theorem exists_accounted
    (h : (priceModelAttempts letters attempts plan snapshots complete).amount = some amount) :
    ∃ priced, Accounted letters attempts plan snapshots complete priced := by
  refine (accounted_or_unavailable letters attempts plan snapshots complete).resolve_right ?_
  rintro ⟨reason, hreason⟩
  rw [hreason] at h
  cases h

/-- Without an amount there is no currency. -/
theorem currency_eq_none
    (h : (priceModelAttempts letters attempts plan snapshots complete).amount = none) :
    (priceModelAttempts letters attempts plan snapshots complete).currency = none := by
  rcases accounted_or_unavailable letters attempts plan snapshots complete with
    ⟨priced, haccounted⟩ | ⟨reason, hreason⟩
  · rw [haccounted.eq_totalOf, totalOf] at h ⊢
    split at h
    · cases h
    · rfl
  · rw [hreason]
    rfl

/-- What all calls report holds of their sums. -/
theorem totalTokens_le {f g : ModelCallAttempt → Option ℤ}
    (h : ∀ attempt ∈ attempts, (f attempt).getD 0 ≤ (g attempt).getD 0) :
    totalTokens f attempts ≤ totalTokens g attempts :=
  List.sum_le_sum h

theorem totalTokens_nonneg {f : ModelCallAttempt → Option ℤ}
    (h : ∀ attempt ∈ attempts, 0 ≤ (f attempt).getD 0) : 0 ≤ totalTokens f attempts := by
  refine List.sum_nonneg fun count hcount => ?_
  obtain ⟨attempt, hattempt, rfl⟩ := List.mem_map.mp hcount
  exact h attempt hattempt

/-- **Costs by one snapshot add up.** -/
theorem sum_exactCost (snapshot : PricingSnapshot) (attempts : List ModelCallAttempt) :
    (attempts.map (exactCost snapshot)).sum =
      costOf snapshot (totalTokens ModelCallAttempt.inputTokens attempts)
        (totalTokens ModelCallAttempt.outputTokens attempts)
        (totalTokens ModelCallAttempt.cachedTokens attempts) := by
  induction attempts with
  | nil => simp [totalTokens, costOf]
  | cons attempt attempts ih =>
    rw [List.map_cons, List.sum_cons, ih]
    simp only [totalTokens, List.map_cons, List.sum_cons, exactCost, costOf]
    push_cast
    ring

/-- A permutation of calls that have a price has the same price. -/
theorem priceModelAttempts_perm_of_some (hperm : attempts'.Perm attempts)
    (h : (priceModelAttempts letters attempts plan snapshots complete).amount = some amount) :
    priceModelAttempts letters attempts' plan snapshots complete =
      priceModelAttempts letters attempts plan snapshots complete := by
  obtain ⟨priced, haccounted⟩ := exists_accounted h
  obtain ⟨priced', hpriced', hperm'⟩ :=
    List.perm_comp_forall₂ hperm (mapM_eq_ok_iff.mp haccounted.priced_eq)
  have haccounted' : Accounted letters attempts' plan snapshots complete priced' :=
    { haccounted with
      attempts_ne := fun hnil => haccounted.attempts_ne (List.perm_nil.mp (hnil ▸ hperm).symm)
      priced_eq := mapM_eq_ok_iff.mpr hpriced' }
  rw [haccounted'.eq_totalOf, haccounted.eq_totalOf, totalOf_perm hperm']

theorem priceModelAttempts_perm (hperm : attempts'.Perm attempts) :
    (priceModelAttempts letters attempts' plan snapshots complete).amount =
        (priceModelAttempts letters attempts plan snapshots complete).amount ∧
      (priceModelAttempts letters attempts' plan snapshots complete).currency =
        (priceModelAttempts letters attempts plan snapshots complete).currency := by
  cases h : (priceModelAttempts letters attempts plan snapshots complete).amount with
  | some amount => rw [priceModelAttempts_perm_of_some hperm h, h]; exact ⟨rfl, rfl⟩
  | none =>
    cases h' : (priceModelAttempts letters attempts' plan snapshots complete).amount with
    | some amount =>
      rw [priceModelAttempts_perm_of_some hperm.symm h', h'] at h
      cases h
    | none => exact ⟨rfl, by rw [currency_eq_none h, currency_eq_none h']⟩

theorem priceAggregateUsage_eq {snapshot : PricingSnapshot} {input output cached : ℤ}
    {currency : Text} (houtput : 0 ≤ output) (hcached : 0 ≤ cached) (hle : cached ≤ input)
    (hcurrency : currencyOf letters snapshot.currency = some currency) :
    priceAggregateUsage letters snapshot (some input) (some output) (some cached) =
      ⟨some (quantize amountPlaces (costOf snapshot input output cached)), some currency,
        none⟩ := by
  have htokens {value : ℤ} (h : 0 ≤ value) : tokenCount value = some value :=
    tokenCount_eq_some.mpr ⟨h, rfl⟩
  simp only [priceAggregateUsage, htokens (hcached.trans hle), htokens houtput, htokens hcached,
    if_neg (not_lt.mpr hle), hcurrency]

/-- **Calls of one model** cost what their summed usage costs. -/
theorem totalOf_eq_priceAggregateUsage {byIdentity : List (Identity × PricingSnapshot)}
    {identity : Identity} {currency : Text}
    (hpriced : attempts.mapM (priceAttempt letters byIdentity) = .ok priced)
    (hone : ∀ attempt ∈ attempts, attempt.identity = identity)
    (hcurrency : (priced.map Prod.snd).dedup = [currency]) :
    ∃ snapshot, byIdentity.lookup identity = some snapshot ∧
      totalOf priced = priceAggregateUsage letters snapshot
        (some (totalTokens ModelCallAttempt.inputTokens attempts))
        (some (totalTokens ModelCallAttempt.outputTokens attempts))
        (some (totalTokens ModelCallAttempt.cachedTokens attempts)) := by
  have hreported : ∀ attempt ∈ attempts, Reported attempt := by
    intro attempt hattempt
    obtain ⟨price, -, hprice⟩ := Pairing.exists_right (mapM_eq_ok_iff.mp hpriced) hattempt
    exact (priceAttempt_eq_ok hprice).1
  have hmem : currency ∈ priced.map Prod.snd := by
    rw [← List.mem_dedup, hcurrency]
    exact List.mem_singleton_self currency
  obtain ⟨price, hprice, rfl⟩ := List.mem_map.mp hmem
  obtain ⟨attempt, hattempt, hok⟩ := exists_of_mem_mapM hpriced hprice
  obtain ⟨-, snapshot, hsnapshot, hsnapshotCurrency, -⟩ := priceAttempt_eq_ok hok
  rw [hone attempt hattempt] at hsnapshot
  refine ⟨snapshot, hsnapshot, ?_⟩
  have hcosts : priced.map Prod.fst = attempts.map (exactCost snapshot) := by
    rw [priced_of_mapM hpriced]
    refine List.map_congr_left fun attempt hattempt => ?_
    rw [hone attempt hattempt, hsnapshot]
    rfl
  rw [priceAggregateUsage_eq (totalTokens_nonneg fun a ha => (hreported a ha).output_nonneg)
    (totalTokens_nonneg fun a ha => (hreported a ha).cached_nonneg)
    (totalTokens_le fun a ha => (hreported a ha).cached_le) hsnapshotCurrency, totalOf, hcurrency,
    hcosts, sum_exactCost]

/-- **Pricing is exact.** The order of the calls does not matter; calls of one model that report
their cached tokens cost what their summed usage costs; and an amount differs from the exact sum by
at most half of its last place. -/
theorem attempt_pricing_exact (letters : Letters) (attempts : List ModelCallAttempt)
    (plan : ModelPlan) (snapshots : List PricingSnapshot) (complete : Bool) :
    (∀ attempts' : List ModelCallAttempt, attempts'.Perm attempts →
      (priceModelAttempts letters attempts' plan snapshots complete).amount =
          (priceModelAttempts letters attempts plan snapshots complete).amount ∧
        (priceModelAttempts letters attempts' plan snapshots complete).currency =
          (priceModelAttempts letters attempts plan snapshots complete).currency) ∧
    ∀ amount, (priceModelAttempts letters attempts plan snapshots complete).amount = some amount →
      (∀ identity, (∀ attempt ∈ attempts, attempt.identity = identity ∧
          attempt.cachedTokens.isSome = true) →
        ∃ snapshot, (plan.chain.zip snapshots).lookup identity = some snapshot ∧
          priceModelAttempts letters attempts plan snapshots complete =
            priceAggregateUsage letters snapshot
              (some (totalTokens ModelCallAttempt.inputTokens attempts))
              (some (totalTokens ModelCallAttempt.outputTokens attempts))
              (some (totalTokens ModelCallAttempt.cachedTokens attempts))) ∧
      |amount - exactSum plan snapshots attempts| ≤ 1 / 2 / 10 ^ amountPlaces := by
  refine ⟨fun _ => priceModelAttempts_perm, fun amount hamount => ?_⟩
  obtain ⟨priced, haccounted⟩ := exists_accounted hamount
  have hcosts := priced_of_mapM haccounted.priced_eq
  rw [haccounted.eq_totalOf] at hamount ⊢
  obtain ⟨currency, hcurrency, rfl, htotal⟩ := totalOf_amount_eq_some hamount
  constructor
  · intro identity hone
    exact totalOf_eq_priceAggregateUsage haccounted.priced_eq (fun a ha => (hone a ha).1) hcurrency
  · rw [hcosts]
    exact abs_quantize_sub_le amountPlaces _

end Prices

end AgentHub.Pricing
