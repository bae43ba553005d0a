/-
  What a run costs: one formula over the usage that each adapter makes of its wire record.

  The formula prices the tokens of a usage bucket by bucket.  It is right for buckets that share no
  token, which is what Anthropic reports; OpenAI and Gemini count the cached tokens of a prompt
  among the prompt's.

    1. `computeCost`            — the formula.
    2. `bill`                   — every token once, at the rate of its class.
    3. `charged_openAI`, `charged_gemini`, `charged_anthropic` — what is charged beyond that.
    4. **`charged_once_iff`**   — so these are the records that are charged right.

  Rates and costs are rational numbers; the rounding of the sum is left out.
-/
import Mathlib.Algebra.Order.Field.Rat
import Mathlib.Tactic.Ring
import Mathlib.Tactic.NormNum

namespace NexusCode.Billing

/-! ## The formula -/

/-- `Usage`. -/
structure Usage where
  inputTokens : Nat
  outputTokens : Nat
  cacheReadTokens : Option Nat := none
  cacheWriteTokens : Option Nat := none
  reasoningTokens : Option Nat := none
  reportedCostUsd : Option ℚ := none
  costUsd : Option ℚ := none

/-- `Pricing`; the schema lets no rate be negative. -/
structure Pricing where
  inputPerMTok : ℚ
  outputPerMTok : ℚ
  cacheReadPerMTok : Option ℚ := none
  cacheWritePerMTok : Option ℚ := none
  reasoningPerMTok : Option ℚ := none
  input_nonneg : 0 ≤ inputPerMTok
  output_nonneg : 0 ≤ outputPerMTok
  rates_nonneg : ∀ rate ∈ [cacheReadPerMTok, cacheWritePerMTok, reasoningPerMTok], 0 ≤ rate.getD 0

/-- `m(n, rate)`. -/
def perMillion (n : Option Nat) (rate : Option ℚ) : ℚ := (n.getD 0 : Nat) * rate.getD 0 / 1000000

/-- `computeCost(u, p)`. -/
def computeCost (u : Usage) (p : Pricing) : ℚ :=
  match u.reportedCostUsd with
  | some cost => cost
  | none =>
    perMillion (some u.inputTokens) (some p.inputPerMTok) +
    perMillion (some u.outputTokens) (some p.outputPerMTok) +
    perMillion u.cacheReadTokens (some (p.cacheReadPerMTok.getD p.inputPerMTok)) +
    perMillion u.cacheWriteTokens (some (p.cacheWritePerMTok.getD p.inputPerMTok)) +
    perMillion u.reasoningTokens p.reasoningPerMTok

/-! ## The wire records -/

namespace OpenAI

/-- `CompletionUsage`, where the prompt's tokens include the cached ones and the completion's the
    reasoning. -/
structure CompletionUsage where
  prompt_tokens : Option Nat := none
  completion_tokens : Option Nat := none
  cached_tokens : Option Nat := none
  reasoning_tokens : Option Nat := none
  cached_le : cached_tokens.getD 0 ≤ prompt_tokens.getD 0
  reasoning_le : reasoning_tokens.getD 0 ≤ completion_tokens.getD 0

/-- A count that is not zero. -/
def truthy (n : Option Nat) : Option Nat := n.filter (· ≠ 0)

/-- `usageFrom(u)`. -/
def usageFrom (u : CompletionUsage) : Usage where
  inputTokens := u.prompt_tokens.getD 0
  outputTokens := u.completion_tokens.getD 0
  reasoningTokens := truthy u.reasoning_tokens
  cacheReadTokens := truthy u.cached_tokens

end OpenAI

namespace Gemini

/-- `usageMetadata`, where the prompt's tokens include the cached ones and the thoughts are not
    among the candidates'. -/
structure UsageMetadata where
  promptTokenCount : Option Nat := none
  candidatesTokenCount : Option Nat := none
  thoughtsTokenCount : Option Nat := none
  cachedContentTokenCount : Option Nat := none
  cached_le : cachedContentTokenCount.getD 0 ≤ promptTokenCount.getD 0

/-- `mapUsage(u)`. -/
def mapUsage (u : UsageMetadata) : Usage where
  inputTokens := u.promptTokenCount.getD 0
  outputTokens := u.candidatesTokenCount.getD 0
  reasoningTokens := u.thoughtsTokenCount
  cacheReadTokens := u.cachedContentTokenCount

end Gemini

namespace Anthropic

/-- `WidenedUsage`, where the input's tokens are those neither read from the cache nor written. -/
structure WidenedUsage where
  input_tokens : Option Nat := none
  output_tokens : Option Nat := none
  cache_read_input_tokens : Option Nat := none
  cache_creation_input_tokens : Option Nat := none

/-- `mapUsage(u)`. -/
def mapUsage (u : WidenedUsage) : Usage where
  inputTokens := u.input_tokens.getD 0
  outputTokens := u.output_tokens.getD 0
  cacheReadTokens := u.cache_read_input_tokens
  cacheWriteTokens := u.cache_creation_input_tokens

end Anthropic

/-! ## Every token once -/

/-- The classes of tokens. -/
inductive TokenClass where
  | input
  | output
  | cacheRead
  | cacheWrite
  | reasoning
deriving DecidableEq

/-- The rate of a class: cache tokens fall back to the input's, reasoning to the output's. -/
def Pricing.rate (p : Pricing) : TokenClass → ℚ
  | .input => p.inputPerMTok
  | .output => p.outputPerMTok
  | .cacheRead => p.cacheReadPerMTok.getD p.inputPerMTok
  | .cacheWrite => p.cacheWritePerMTok.getD p.inputPerMTok
  | .reasoning => p.reasoningPerMTok.getD p.outputPerMTok

/-- Every token once, at the rate of its class. -/
def bill (p : Pricing) (tokens : TokenClass → Nat) : ℚ :=
  (([.input, .output, .cacheRead, .cacheWrite, .reasoning] : List TokenClass).map fun c =>
    tokens c * p.rate c / 1000000).sum

/-- The tokens of an OpenAI record, each in one class. -/
def OpenAI.CompletionUsage.tokens (u : OpenAI.CompletionUsage) : TokenClass → Nat
  | .input => u.prompt_tokens.getD 0 - u.cached_tokens.getD 0
  | .output => u.completion_tokens.getD 0 - u.reasoning_tokens.getD 0
  | .cacheRead => u.cached_tokens.getD 0
  | .cacheWrite => 0
  | .reasoning => u.reasoning_tokens.getD 0

/-- The tokens of a Gemini record, each in one class. -/
def Gemini.UsageMetadata.tokens (u : Gemini.UsageMetadata) : TokenClass → Nat
  | .input => u.promptTokenCount.getD 0 - u.cachedContentTokenCount.getD 0
  | .output => u.candidatesTokenCount.getD 0
  | .cacheRead => u.cachedContentTokenCount.getD 0
  | .cacheWrite => 0
  | .reasoning => u.thoughtsTokenCount.getD 0

/-- The tokens of an Anthropic record, each in one class. -/
def Anthropic.WidenedUsage.tokens (u : Anthropic.WidenedUsage) : TokenClass → Nat
  | .input => u.input_tokens.getD 0
  | .output => u.output_tokens.getD 0
  | .cacheRead => u.cache_read_input_tokens.getD 0
  | .cacheWrite => u.cache_creation_input_tokens.getD 0
  | .reasoning => 0

theorem bill_eq (p : Pricing) (tokens : TokenClass → Nat) : bill p tokens =
    (tokens .input * p.inputPerMTok + tokens .output * p.outputPerMTok +
      tokens .cacheRead * p.rate .cacheRead + tokens .cacheWrite * p.rate .cacheWrite +
      tokens .reasoning * p.rate .reasoning) / 1000000 := by
  unfold bill
  simp only [List.map_cons, List.map_nil, List.sum_cons, List.sum_nil]
  show _ / _ + (_ / _ + (_ / _ + (_ / _ + (_ / _ + 0)))) = _
  unfold Pricing.rate
  ring

theorem computeCost_eq {u : Usage} (h : u.reportedCostUsd = none) (p : Pricing) :
    computeCost u p =
      (u.inputTokens * p.inputPerMTok + u.outputTokens * p.outputPerMTok +
        (u.cacheReadTokens.getD 0 : Nat) * p.rate .cacheRead +
        (u.cacheWriteTokens.getD 0 : Nat) * p.rate .cacheWrite +
        (u.reasoningTokens.getD 0 : Nat) * p.reasoningPerMTok.getD 0) / 1000000 := by
  unfold computeCost
  rw [h]
  unfold perMillion Pricing.rate
  dsimp only [Option.getD_some]
  ring

theorem OpenAI.truthy_getD (n : Option Nat) : (OpenAI.truthy n).getD 0 = n.getD 0 := by
  cases n with
  | none => rfl
  | some n =>
    cases n with
    | zero => rfl
    | succ n => rfl

/-- **Anthropic's records** are charged right. -/
theorem charged_anthropic (u : Anthropic.WidenedUsage) (p : Pricing) :
    computeCost (Anthropic.mapUsage u) p = bill p u.tokens := by
  rw [computeCost_eq rfl, bill_eq]
  simp only [Anthropic.mapUsage, Anthropic.WidenedUsage.tokens, Option.getD_none, Nat.cast_zero,
    zero_mul]

/-- The rate of reasoning, beyond what the formula charges for it. -/
theorem reasoning_rate (p : Pricing) : p.rate .reasoning =
    p.reasoningPerMTok.getD 0 + if p.reasoningPerMTok.isSome then 0 else p.outputPerMTok := by
  show p.reasoningPerMTok.getD p.outputPerMTok = _
  cases p.reasoningPerMTok with
  | none => exact (zero_add _).symm
  | some rate => exact (add_zero _).symm

/-- **OpenAI's records** are charged the cached tokens at the input rate once more, and reasoning
    that has a rate of its own at the output rate. -/
theorem charged_openAI (u : OpenAI.CompletionUsage) (p : Pricing) :
    computeCost (OpenAI.usageFrom u) p = bill p u.tokens +
      ((u.cached_tokens.getD 0 : Nat) * p.inputPerMTok +
        (u.reasoning_tokens.getD 0 : Nat) *
          if p.reasoningPerMTok.isSome then p.outputPerMTok else 0) / 1000000 := by
  have hinput : (u.tokens .input : ℚ) =
      (u.prompt_tokens.getD 0 : Nat) - (u.cached_tokens.getD 0 : Nat) := Nat.cast_sub u.cached_le
  have houtput : (u.tokens .output : ℚ) =
      (u.completion_tokens.getD 0 : Nat) - (u.reasoning_tokens.getD 0 : Nat) :=
    Nat.cast_sub u.reasoning_le
  rw [computeCost_eq rfl, bill_eq, hinput, houtput, reasoning_rate]
  simp only [OpenAI.usageFrom, OpenAI.truthy_getD, OpenAI.CompletionUsage.tokens, Option.getD_none,
    Nat.cast_zero, zero_mul]
  cases p.reasoningPerMTok.isSome with
  | true =>
    rw [if_pos rfl, if_pos rfl]
    ring
  | false =>
    rw [if_neg Bool.false_ne_true, if_neg Bool.false_ne_true]
    ring

/-- **Gemini's records** are charged the cached tokens at the input rate once more, and thoughts
    nothing unless they have a rate of their own. -/
theorem charged_gemini (u : Gemini.UsageMetadata) (p : Pricing) :
    computeCost (Gemini.mapUsage u) p = bill p u.tokens +
      ((u.cachedContentTokenCount.getD 0 : Nat) * p.inputPerMTok -
        (u.thoughtsTokenCount.getD 0 : Nat) *
          if p.reasoningPerMTok.isSome then 0 else p.outputPerMTok) / 1000000 := by
  have hinput : (u.tokens .input : ℚ) =
      (u.promptTokenCount.getD 0 : Nat) - (u.cachedContentTokenCount.getD 0 : Nat) :=
    Nat.cast_sub u.cached_le
  rw [computeCost_eq rfl, bill_eq, hinput, reasoning_rate]
  simp only [Gemini.mapUsage, Gemini.UsageMetadata.tokens, Option.getD_none, Nat.cast_zero, zero_mul]
  ring

theorem add_million_iff {a b : ℚ} : a + b / 1000000 = a ↔ b = 0 := by
  rw [add_eq_left, div_eq_zero_iff]
  exact or_iff_left (by norm_num)

/-- **Every token is charged once**, at the rate of its class: always where Anthropic reports it;
    where OpenAI does, if nothing was cached or input is free, and there was no reasoning, or it has
    no rate of its own, or output is free; where Gemini does, if what the cached tokens cost as
    input comes to what the thoughts without a rate should. -/
theorem charged_once_iff (p : Pricing) :
    (∀ u, computeCost (Anthropic.mapUsage u) p = bill p u.tokens) ∧
    (∀ u, computeCost (OpenAI.usageFrom u) p = bill p u.tokens ↔
      (u.cached_tokens.getD 0 = 0 ∨ p.inputPerMTok = 0) ∧
        (u.reasoning_tokens.getD 0 = 0 ∨ p.reasoningPerMTok = none ∨ p.outputPerMTok = 0)) ∧
    (∀ u, computeCost (Gemini.mapUsage u) p = bill p u.tokens ↔
      (u.cachedContentTokenCount.getD 0 : Nat) * p.inputPerMTok =
        (u.thoughtsTokenCount.getD 0 : Nat) *
          if p.reasoningPerMTok.isSome then 0 else p.outputPerMTok) := by
  refine ⟨fun u => charged_anthropic u p, fun u => ?_, fun u => ?_⟩
  · have hrate : 0 ≤ if p.reasoningPerMTok.isSome then p.outputPerMTok else 0 := by
      split
      · exact p.output_nonneg
      · exact le_rfl
    have hfree : (if p.reasoningPerMTok.isSome then p.outputPerMTok else 0) = 0 ↔
        p.reasoningPerMTok = none ∨ p.outputPerMTok = 0 := by
      cases p.reasoningPerMTok with
      | none => exact ⟨fun _ => .inl rfl, fun _ => rfl⟩
      | some rate => exact ⟨.inr, fun h => h.resolve_left nofun⟩
    rw [charged_openAI, add_million_iff, add_eq_zero_iff_of_nonneg
      (mul_nonneg (Nat.cast_nonneg _) p.input_nonneg) (mul_nonneg (Nat.cast_nonneg _) hrate),
      mul_eq_zero, mul_eq_zero, Nat.cast_eq_zero, Nat.cast_eq_zero, hfree]
  · rw [charged_gemini, add_million_iff, sub_eq_zero]

/-- Ten tokens of a prompt, of which four were cached: ten are charged as input and four as read
    from the cache. -/
theorem cached_twice : ¬ ∀ p : Pricing,
    (∀ u, computeCost (Anthropic.mapUsage u) p = bill p u.tokens) ∧
    (∀ u, computeCost (OpenAI.usageFrom u) p = bill p u.tokens) ∧
    (∀ u, computeCost (Gemini.mapUsage u) p = bill p u.tokens) := by
  intro hclaim
  let p : Pricing :=
    { inputPerMTok := 3, outputPerMTok := 15
      input_nonneg := by norm_num, output_nonneg := by norm_num
      rates_nonneg := by simp }
  obtain ⟨-, hopenAI, -⟩ := hclaim p
  have hcost := hopenAI
    { prompt_tokens := some 10, completion_tokens := some 1, cached_tokens := some 4
      cached_le := by decide, reasoning_le := by decide }
  rw [charged_openAI, add_million_iff] at hcost
  norm_num [p] at hcost

end NexusCode.Billing
