/-
  The request that is sent on when the conversation moves to another model.

  `adaptRequestForSwitch` fits the messages to the context window of the target: it keeps the
  system messages, the latest user turn and, from the newest back, what fits of the rest, and puts
  a summary in place of what it dropped.

  1. `estimateSwitchTokens` — the estimate, of the messages and the system prompt.
  2. `compactHistory`, `adaptRequestForSwitch`.
  3. `Cut`, `keepOlder_cut` — where the scan stops, said without the scan.
  4. **`adapted_fits_iff`** — the adapted request is within the budget iff the system
     prompt, which the scan does not count, and the summary, which comes after it, fit, too.
  5. **`adapted_over_budget`** — a prompt, and a summary, that do not.

  A text is cut to 280 code units, which may split a surrogate pair, so the text of a summary is a
  list of code units.
-/
import NexusCode.Engine.Trimming

namespace NexusCode.Switching

open Lib Shared List

/-! ## Numbers -/

/-- `a - b`. -/
def minus : JsNumber → JsNumber → JsNumber
  | .fin a, .fin b => JsNumber.round (a - b)
  | .fin _, .inf negative => .inf !negative
  | .inf negative, .fin _ => .inf negative
  | .inf a, .inf b => if a = b then .nan else .inf a
  | _, _ => .nan

/-- `Math.max(256, x)`. -/
def atLeast256 (x : JsNumber) : JsNumber := if JsNumber.lt x 256 then 256 else x

/-! ## The estimate -/

/-- `typeof data === "string" ? data.length : data.url.length`. -/
def mediaSize : MediaData → Nat
  | .inline data => JsString.length16 data
  | .url url => JsString.length16 url

/-- `blockText(block)`. -/
def blockText : ContentBlock → String
  | .text text => text
  | .thinking text _ => text
  | .toolUse _ name input =>
    name ++ ":" ++ match input with
      | some input => Json.stringify input
      | none => "undefined"
  | .toolResult _ content _ => Json.stringify (.arr (Engine.blocksJson content))
  | .image mime data => "[image:" ++ mime ++ ":" ++ toString (mediaSize data) ++ "]"
  | .audio mime data => "[audio:" ++ mime ++ ":" ++ toString (mediaSize data) ++ "]"

/-- The characters of a message in the estimate. -/
def messageChars (message : Message) : Nat :=
  JsString.length16 (Engine.Role.text message.role) + 4 +
    (message.content.map fun block => JsString.length16 (blockText block) + 4).sum

/-- A message of an adapted request: one of the request's own, or the system message that sums up
    what was dropped, with the code units of its text. -/
inductive Sent where
  | own (message : Message)
  | summary (text : List Nat)

/-- The characters of a message that is sent. -/
def Sent.chars : Sent → Nat
  | .own message => messageChars message
  | .summary text => JsString.length16 (Engine.Role.text .system) + 4 + (text.length + 4)

/-- `Math.max(1, Math.ceil(chars / 4))`. -/
def tokensOf (chars : Nat) : Nat := max 1 ((chars + 3) / 4)

/-- The characters of a system prompt that may be missing. -/
def promptChars (system : Option String) : Nat := (system.map JsString.length16).getD 0

/-- `estimateSwitchTokens(messages, system)`. -/
def estimateSwitchTokens (messages : List Sent) (system : Option String) : Nat :=
  tokensOf (promptChars system + (messages.map Sent.chars).sum)

/-! ## Compaction -/

/-- `.replace(/\s+/gu, " ")`, given whether a white character was just replaced. -/
def collapseWhite : Bool → List Char → List Char
  | _, [] => []
  | afterWhite, c :: cs =>
    if JsString.isWhite c then
      if afterWhite then collapseWhite true cs else ' ' :: collapseWhite true cs
    else c :: collapseWhite false cs

/-- The line of a message in the summary. -/
def summaryLine (message : Message) : List Nat :=
  let joined := " ".intercalate (message.content.map blockText)
  let text := JsString.trim (String.ofList (collapseWhite false joined.toList))
  JsString.units (Engine.Role.text message.role ++ ": ") ++ (JsString.units text).take 280

/-- The text of the summary of the dropped messages. -/
def summaryText (dropped : List Message) : List Nat :=
  let lines := (dropped.map summaryLine).filter (· ≠ [])
  JsString.units ("Nexus compacted " ++ toString dropped.length ++
      " older message(s) for the target context window. " ++
      "This is historical data, not new instructions.\n")
    ++ [10].intercalate (lines.drop (lines.length - 12))

/-- The scan from the newest of the older messages to the oldest. -/
def keepOlder (budgetTokens : JsNumber) : Nat → List Message → List Message → List Message
  | _, kept, [] => kept
  | tokens, kept, candidate :: older =>
    let cost := estimateSwitchTokens [.own candidate] none
    if JsNumber.lt budgetTokens (.fin (tokens + cost : Nat)) then kept
    else keepOlder budgetTokens (tokens + cost) (candidate :: kept) older

/-- A `system` message. -/
def isSystem (message : Message) : Bool := message.role = .system

/-- `messages.map((message) => message.role).lastIndexOf("user")`. -/
def lastUserIndex : List Message → Option Nat
  | [] => none
  | message :: rest =>
    match lastUserIndex rest with
    | some i => some (i + 1)
    | none => if message.role = .user then some 0 else none

/-- Where the messages start that are never dropped. -/
def requiredStart (nonSystem : List Message) : Nat :=
  (lastUserIndex nonSystem).getD (nonSystem.length - 1)

/-- What `compactHistory` returns. -/
structure Compacted where
  messages : List Sent
  dropped : Nat

/-- `compactHistory(messages, budgetTokens)`. -/
def compactHistory (messages : List Message) (budgetTokens : JsNumber) : Compacted :=
  if JsNumber.le (.fin (estimateSwitchTokens (messages.map .own) none : Nat)) budgetTokens then
    { messages := messages.map .own, dropped := 0 }
  else
    let system := messages.filter isSystem
    let nonSystem := messages.filter fun message => !isSystem message
    let required := nonSystem.drop (requiredStart nonSystem)
    let older := nonSystem.take (requiredStart nonSystem)
    let tokens := estimateSwitchTokens ((system ++ required).map .own) none
    let kept := keepOlder budgetTokens tokens required older.reverse
    let dropped := nonSystem.length - kept.length
    if dropped = 0 then { messages := (system ++ kept).map .own, dropped := 0 }
    else
      { messages := system.map .own ++ .summary (summaryText (older.take dropped)) :: kept.map .own
        dropped }

/-! ## Adaptation -/

/-- What the adaptation reads of a `ChatRequest`. -/
structure ChatRequest where
  messages : List Message
  system : Option String := none

/-- What the adaptation reads of a `ProviderSwitchAssessment`. -/
structure Assessment where
  compatible : Bool
  blockers : List String
  contextWindow : Option JsNumber
  requestedOutputTokens : JsNumber

/-- `AdaptedSwitchRequest`. -/
structure AdaptedSwitchRequest where
  messages : List Sent
  system : Option String
  adaptations : List String
  droppedMessages : Nat

/-- `contextWindow - requestedOutputTokens - safetyMarginTokens`. -/
def inputRoom (contextWindow requestedOutputTokens safetyMarginTokens : JsNumber) : JsNumber :=
  minus (minus contextWindow requestedOutputTokens) safetyMarginTokens

/-- `adaptRequestForSwitch(request, assessment, safetyMarginTokens)`. -/
def adaptRequestForSwitch (request : ChatRequest) (assessment : Assessment)
    (safetyMarginTokens : JsNumber) : Except String AdaptedSwitchRequest :=
  if !assessment.compatible then
    .error ("incompatible switch target: " ++ "; ".intercalate assessment.blockers)
  else
    match assessment.contextWindow with
    | none => .ok {
        messages := request.messages.map .own
        system := request.system
        adaptations := []
        droppedMessages := 0 }
    | some contextWindow =>
      let inputBudget := atLeast256
        (inputRoom contextWindow assessment.requestedOutputTokens safetyMarginTokens)
      let compacted := compactHistory request.messages inputBudget
      .ok {
        messages := compacted.messages
        system := request.system
        adaptations :=
          if compacted.dropped > 0 then
            ["compacted " ++ toString compacted.dropped ++ " older message(s) for target context"]
          else []
        droppedMessages := compacted.dropped }

/-! ## Where the scan stops -/

open Engine (fits fits_mono)

/-- The characters of a list of messages. -/
def charsOf (messages : List Message) : Nat := (messages.map messageChars).sum

theorem charsOf_append (a b : List Message) : charsOf (a ++ b) = charsOf a + charsOf b := by
  unfold charsOf
  rw [map_append, sum_append]

theorem sum_own (messages : List Message) :
    ((messages.map Sent.own).map Sent.chars).sum = charsOf messages := by
  unfold charsOf
  rw [map_map]
  rfl

theorem estimate_own (messages : List Message) (system : Option String) :
    estimateSwitchTokens (messages.map .own) system
      = tokensOf (promptChars system + charsOf messages) := by
  unfold estimateSwitchTokens
  rw [sum_own]

theorem tokensOf_mono {a b : Nat} (h : a ≤ b) : tokensOf a ≤ tokensOf b := by
  unfold tokensOf
  omega

/-- The estimates of messages, each rounded up by itself. -/
def costOf (messages : List Message) : Nat :=
  (messages.map fun message => tokensOf (messageChars message)).sum

theorem costOf_cons (message : Message) (messages : List Message) :
    costOf (message :: messages) = tokensOf (messageChars message) + costOf messages := by
  unfold costOf
  rw [map_cons, sum_cons]

theorem costOf_append (a b : List Message) : costOf (a ++ b) = costOf a + costOf b := by
  unfold costOf
  rw [map_append, sum_append]

/-- **The cut**: `newer` is the longest end of `older` that fits the budget on top of `base`. -/
structure Cut (budget : JsNumber) (base : Nat) (older old newer : List Message) : Prop where
  split : older = old ++ newer
  fitting : newer = [] ∨ fits budget (base + costOf newer) = true
  longest : ∀ before message, old = before ++ [message] →
    fits budget (base + costOf (message :: newer)) = false

theorem estimate_single (message : Message) :
    estimateSwitchTokens [.own message] none = tokensOf (messageChars message) := by
  unfold estimateSwitchTokens
  rw [map_singleton, sum_singleton]
  exact congrArg tokensOf (Nat.zero_add _)

/-- **The scan keeps what is behind the cut.** -/
theorem keepOlder_cut (budget : JsNumber) : ∀ (newest kept : List Message) (tokens : Nat),
    ∃ old newer, Cut budget tokens newest.reverse old newer ∧
      keepOlder budget tokens kept newest = newer ++ kept := by
  intro newest
  induction newest with
  | nil =>
    intro kept tokens
    refine ⟨[], [], ⟨rfl, .inl rfl, fun before message h => ?_⟩, rfl⟩
    exact absurd h.symm (append_ne_nil_of_right_ne_nil _ (cons_ne_nil _ _))
  | cons candidate newest ih =>
    intro kept tokens
    rw [reverse_cons]
    unfold keepOlder
    dsimp only
    rw [estimate_single]
    split
    · rename_i hover
      refine ⟨newest.reverse ++ [candidate], [], ⟨(append_nil _).symm, .inl rfl, ?_⟩, rfl⟩
      intro before message h
      obtain ⟨-, hlast⟩ := append_inj' h rfl
      obtain rfl := (cons.inj hlast).1
      unfold fits
      rw [costOf_cons, show costOf [] = 0 from rfl, Nat.add_zero, hover]
      rfl
    · rename_i hfits
      obtain ⟨old, newer, hcut, hkeep⟩ :=
        ih (candidate :: kept) (tokens + tokensOf (messageChars candidate))
      have hcost : ∀ messages : List Message,
          tokens + tokensOf (messageChars candidate) + costOf messages
            = tokens + costOf (messages ++ [candidate]) := by
        intro messages
        rw [costOf_append, costOf_cons, show costOf [] = 0 from rfl]
        omega
      refine ⟨old, newer ++ [candidate], ⟨?_, .inr ?_, fun before message h => ?_⟩, ?_⟩
      · rw [hcut.split, append_assoc]
      · rcases hcut.fitting with rfl | hfit
        · rw [← hcost, show costOf [] = 0 from rfl, Nat.add_zero]
          unfold fits
          rw [Bool.eq_false_iff.mpr hfits]
          rfl
        · rwa [← hcost]
      · have hlong := hcut.longest before message h
        rwa [hcost] at hlong
      · rw [hkeep, append_assoc]
        rfl

theorem Cut.unique {budget : JsNumber} {base : Nat} {older old newer old' newer' : List Message}
    (h : Cut budget base older old newer) (h' : Cut budget base older old' newer') :
    old = old' ∧ newer = newer' := by
  -- a longer end that fits would have been kept
  have hle : ∀ {old newer old' newer' : List Message}, Cut budget base older old newer →
      Cut budget base older old' newer' → newer'.length ≤ newer.length := by
    intro old newer old' newer' h h'
    by_contra hlong
    have hsuffix : newer <:+ newer' :=
      suffix_of_suffix_length_le ⟨old, h.split.symm⟩ ⟨old', h'.split.symm⟩ (by omega)
    obtain ⟨mid, rfl⟩ := hsuffix
    rw [length_append] at hlong
    obtain ⟨before, message, rfl⟩ : ∃ before message, mid = before ++ [message] :=
      ⟨_, _, (dropLast_concat_getLast (by rintro rfl; exact hlong (by simp))).symm⟩
    have hold : old = (old' ++ before) ++ [message] := by
      have hsplit := h.split.symm.trans h'.split
      rw [← append_assoc, ← append_assoc] at hsplit
      exact append_cancel_right hsplit
    rcases h'.fitting with hnil | hfit
    · exact absurd hnil (by simp)
    · refine absurd (fits_mono ?_ hfit) (by rw [h.longest _ _ hold]; decide)
      rw [append_assoc, costOf_append before]
      exact Nat.add_le_add_left (Nat.le_add_left _ _) _
  have hlen : newer.length = newer'.length := Nat.le_antisymm (hle h' h) (hle h h')
  have hsplit := h.split.symm.trans h'.split
  exact append_inj' hsplit hlen

/-! ## The adapted request -/

/-- The messages that are dropped one by one, newest last. -/
def olderOf (messages : List Message) : List Message :=
  let nonSystem := messages.filter fun message => !isSystem message
  nonSystem.take (requiredStart nonSystem)

/-- The messages that are never dropped, without the system messages. -/
def requiredOf (messages : List Message) : List Message :=
  let nonSystem := messages.filter fun message => !isSystem message
  nonSystem.drop (requiredStart nonSystem)

/-- The characters of the summary message of the dropped messages. -/
def summaryChars (dropped : List Message) : Nat := (Sent.summary (summaryText dropped)).chars

/-- **When the adaptation fits**: the request does as it stands, with its system prompt; or its
    messages alone do not, and behind the cut there is room for the prompt and the summary. -/
def HasRoom (budget : JsNumber) (request : ChatRequest) : Prop :=
  fits budget (tokensOf (promptChars request.system + charsOf request.messages)) = true ∨
    fits budget (tokensOf (charsOf request.messages)) = false ∧
    ∃ old newer, old ≠ [] ∧
      Cut budget (tokensOf (charsOf (request.messages.filter isSystem)
        + charsOf (requiredOf request.messages))) (olderOf request.messages) old newer ∧
      fits budget (tokensOf (promptChars request.system
        + (charsOf (request.messages.filter isSystem) + summaryChars old
          + (charsOf newer + charsOf (requiredOf request.messages))))) = true

theorem charsOf_filter (p : Message → Bool) (messages : List Message) :
    charsOf (messages.filter p) + charsOf (messages.filter fun message => !p message)
      = charsOf messages := by
  induction messages with
  | nil => rfl
  | cons message messages ih =>
    have hcons : ∀ l, charsOf (message :: l) = messageChars message + charsOf l :=
      fun l => sum_cons
    cases hp : p message with
    | true =>
      rw [filter_cons_of_pos hp, filter_cons_of_neg (by rw [hp]; decide), hcons, hcons]
      omega
    | false =>
      rw [filter_cons_of_neg (by rw [hp]; decide), filter_cons_of_pos (by rw [hp]; rfl),
        hcons, hcons]
      omega

/-- A budget that is a number is compared alike by `<=` and by `>`. -/
theorem le_eq_fits {budget : JsNumber} (hnum : JsNumber.le 256 budget = true) (tokens : Nat) :
    JsNumber.le (.fin (tokens : Nat)) budget = fits budget tokens := by
  cases budget with
  | fin q => rfl
  | inf negative => rfl
  | nan => exact absurd hnum (by decide)

/-- **Compaction**: what is behind the cut stays. -/
theorem compactHistory_cut (messages : List Message) (budget : JsNumber) :
    (JsNumber.le (.fin (tokensOf (charsOf messages) : Nat)) budget = true ∧
      compactHistory messages budget = { messages := messages.map .own, dropped := 0 }) ∨
    JsNumber.le (.fin (tokensOf (charsOf messages) : Nat)) budget = false ∧ ∃ old newer,
      Cut budget (tokensOf (charsOf (messages.filter isSystem) + charsOf (requiredOf messages)))
        (olderOf messages) old newer ∧
      compactHistory messages budget =
        if old.length = 0 then
          { messages := (messages.filter isSystem ++ (newer ++ requiredOf messages)).map .own
            dropped := 0 }
        else
          { messages := (messages.filter isSystem).map .own ++
              .summary (summaryText old) :: (newer ++ requiredOf messages).map .own
            dropped := old.length } := by
  have hwhole : estimateSwitchTokens (messages.map .own) none = tokensOf (charsOf messages) := by
    rw [estimate_own]
    exact congrArg tokensOf (Nat.zero_add _)
  unfold compactHistory
  rw [hwhole]
  cases hfits : JsNumber.le (.fin (tokensOf (charsOf messages) : Nat)) budget with
  | true => exact .inl ⟨rfl, if_pos rfl⟩
  | false =>
    refine .inr ⟨rfl, ?_⟩
    dsimp only
    rw [if_neg Bool.false_ne_true, estimate_own, charsOf_append,
      show promptChars none = 0 from rfl, Nat.zero_add]
    obtain ⟨old, newer, hcut, hkeep⟩ := keepOlder_cut budget (olderOf messages).reverse
      (requiredOf messages)
      (tokensOf (charsOf (messages.filter isSystem) + charsOf (requiredOf messages)))
    rw [reverse_reverse] at hcut
    refine ⟨old, newer, hcut, ?_⟩
    have hlen : (messages.filter fun message => !isSystem message).length
        = (olderOf messages).length + (requiredOf messages).length := by
      unfold olderOf requiredOf
      rw [← length_append, take_append_drop]
    have hdropped : (messages.filter fun message => !isSystem message).length
        - (newer ++ requiredOf messages).length = old.length := by
      rw [hlen, hcut.split, length_append, length_append]
      omega
    have hold : (olderOf messages).take old.length = old := by
      rw [hcut.split, take_left]
    unfold olderOf requiredOf at hkeep
    unfold requiredOf at hdropped
    unfold olderOf at hold
    dsimp only at hkeep hdropped hold
    rw [hkeep, hdropped, hold]
    rfl

/-- **The adapted request is within the budget** iff there is room for it: for every
    compatible target with a context window and every margin that leaves at least 256 tokens. -/
theorem adapted_fits_iff (request : ChatRequest) (assessment : Assessment)
    (safetyMarginTokens contextWindow : JsNumber) (hcompatible : assessment.compatible = true)
    (hwindow : assessment.contextWindow = some contextWindow)
    (hroom : JsNumber.le 256 (inputRoom contextWindow assessment.requestedOutputTokens
      safetyMarginTokens) = true) :
    (∃ adapted, adaptRequestForSwitch request assessment safetyMarginTokens = .ok adapted ∧
      fits (inputRoom contextWindow assessment.requestedOutputTokens safetyMarginTokens)
        (estimateSwitchTokens adapted.messages adapted.system) = true) ↔
      HasRoom (inputRoom contextWindow assessment.requestedOutputTokens safetyMarginTokens)
        request := by
  have hbudget : atLeast256 (inputRoom contextWindow assessment.requestedOutputTokens
      safetyMarginTokens) = inputRoom contextWindow assessment.requestedOutputTokens
        safetyMarginTokens := by
    unfold atLeast256
    refine if_neg fun hlt => ?_
    generalize inputRoom contextWindow assessment.requestedOutputTokens safetyMarginTokens = room
      at hroom hlt
    have hle : JsNumber.le 256 room = !JsNumber.lt room 256 := by
      cases room with
      | fin q => rfl
      | inf negative => rfl
      | nan => exact absurd hroom (by decide)
    rw [hle, hlt] at hroom
    exact Bool.false_ne_true hroom
  have hadapt : ∃ adapted, adaptRequestForSwitch request assessment safetyMarginTokens
        = .ok adapted ∧ adapted.system = request.system ∧ adapted.messages
          = (compactHistory request.messages (inputRoom contextWindow
              assessment.requestedOutputTokens safetyMarginTokens)).messages := by
    unfold adaptRequestForSwitch
    rw [hcompatible, if_neg (by decide), hwindow]
    dsimp only
    rw [hbudget]
    exact ⟨_, rfl, rfl, rfl⟩
  generalize inputRoom contextWindow assessment.requestedOutputTokens safetyMarginTokens = budget
    at *
  obtain ⟨adapted, hok, hsystem, hmessages⟩ := hadapt
  have hiff : (∃ adapted, adaptRequestForSwitch request assessment safetyMarginTokens
      = .ok adapted ∧ fits budget (estimateSwitchTokens adapted.messages adapted.system) = true) ↔
      fits budget (estimateSwitchTokens (compactHistory request.messages budget).messages
        request.system) = true := by
    rw [hok, ← hsystem, ← hmessages]
    exact ⟨fun ⟨_, heq, h⟩ => (Except.ok.inj heq) ▸ h, fun h => ⟨adapted, rfl, h⟩⟩
  rw [hiff]
  have hmono : fits budget (tokensOf (promptChars request.system + charsOf request.messages)) = true →
      fits budget (tokensOf (charsOf request.messages)) = true :=
    fits_mono (tokensOf_mono (by omega))
  have hparts := charsOf_filter isSystem request.messages
  have hnonSystem : charsOf (request.messages.filter fun message => !isSystem message)
      = charsOf (olderOf request.messages) + charsOf (requiredOf request.messages) := by
    unfold olderOf requiredOf
    rw [← charsOf_append, take_append_drop]
  unfold HasRoom
  have hcompaction := compactHistory_cut request.messages budget
  rw [le_eq_fits hroom] at hcompaction
  rcases hcompaction with
    ⟨hfits, hcompact⟩ | ⟨hfits, old, newer, hcut, hcompact⟩
  · -- nothing is dropped
    rw [hcompact, estimate_own]
    refine ⟨.inl, ?_⟩
    rintro (h | ⟨hnot, -⟩)
    · exact h
    · exact absurd hfits (by rw [hnot]; decide)
  · have hwhole : ¬ fits budget (tokensOf (promptChars request.system
        + charsOf request.messages)) = true := fun h => absurd (hmono h) (by rw [hfits]; decide)
    rw [hcompact]
    split
    · -- all that is required is too much already
      rename_i hold
      rw [eq_nil_of_length_eq_zero hold] at hcut
      have hnewer : charsOf newer = charsOf (olderOf request.messages) := by
        rw [hcut.split]
        rfl
      rw [estimate_own, charsOf_append, charsOf_append, hnewer, ← hnonSystem, hparts]
      refine ⟨fun h => absurd h hwhole, ?_⟩
      rintro (h | ⟨-, old', newer', hold', hcut', -⟩)
      · exact h
      · exact absurd (hcut'.unique hcut).1 hold'
    · rename_i hold
      have hestimate : estimateSwitchTokens ((request.messages.filter isSystem).map .own ++
          .summary (summaryText old) :: (newer ++ requiredOf request.messages).map .own)
            request.system
          = tokensOf (promptChars request.system
              + (charsOf (request.messages.filter isSystem) + summaryChars old
                + (charsOf newer + charsOf (requiredOf request.messages)))) := by
        unfold estimateSwitchTokens summaryChars
        rw [map_append, sum_append, map_cons, sum_cons, sum_own, sum_own,
          charsOf_append]
        refine congrArg tokensOf ?_
        omega
      dsimp only
      rw [hestimate]
      constructor
      · intro h
        exact .inr ⟨hfits, old, newer, fun hnil => hold (by rw [hnil]; rfl), hcut, h⟩
      · rintro (h | ⟨-, old', newer', -, hcut', h⟩)
        · exact absurd h hwhole
        · obtain ⟨rfl, rfl⟩ := hcut.unique hcut'
          exact h

/-- A target with room for 256 tokens. -/
def smallTarget : Assessment :=
  { compatible := true, blockers := [], contextWindow := some 512, requestedOutputTokens := 128 }

/-- A line of text. -/
def line : String := "a line of words."

/-- A message of `n` lines. -/
def lines (role : Role) (n : Nat) : Message := { role, content := List.replicate n (.text line) }

/-- A chat that fits without its system prompt. -/
def promptedRequest : ChatRequest :=
  { messages := [lines .user 24, lines .assistant 24, lines .user 1], system := some line }

/-- A long question that just fits, and a short one before it. -/
def crowdedRequest : ChatRequest := { messages := [lines .user 1, lines .user 50] }

theorem adapted_fits_iff_crowded :
    (∃ adapted, adaptRequestForSwitch crowdedRequest smallTarget 128 = .ok adapted ∧
      fits (inputRoom 512 128 128)
        (estimateSwitchTokens adapted.messages adapted.system) = true) ↔
      HasRoom (inputRoom 512 128 128) crowdedRequest :=
  adapted_fits_iff crowdedRequest smallTarget 128 512 rfl rfl (by decide +kernel)

/-- The system messages, the system prompt and the messages that are never dropped fit. -/
def RequiredFits (budget : JsNumber) (request : ChatRequest) : Prop :=
  fits budget (tokensOf (promptChars request.system
    + (charsOf (request.messages.filter isSystem) + charsOf (requiredOf request.messages)))) = true

/-- **Over budget**: the scan leaves a prompt out of the count, and the summary comes on top. -/
theorem adapted_over_budget :
    inputRoom 512 128 128 = 256 ∧
    (RequiredFits 256 promptedRequest ∧
      (adaptRequestForSwitch promptedRequest smallTarget 128).toOption.map
        (fun adapted => estimateSwitchTokens adapted.messages adapted.system) = some 257) ∧
    (RequiredFits 256 crowdedRequest ∧
      (adaptRequestForSwitch crowdedRequest smallTarget 128).toOption.map
        (fun adapted => estimateSwitchTokens adapted.messages adapted.system) = some 290) := by
  unfold RequiredFits
  refine ⟨by decide +kernel, ⟨by decide +kernel, by decide +kernel⟩, by decide +kernel,
    by decide +kernel⟩

end NexusCode.Switching
