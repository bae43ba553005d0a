/-
  The context engine: it collects chunks, drops the weaker copies of a text, compresses oversized
  chunks, orders what is left and trims it to the budget, and renders the static lanes as the
  cacheable prefix.

    * `dedupe_winners` — the deduplication keeps the strongest copy of each text;
    * `pack_included`  — the trimming goes through the candidates until the rest fits, and what is
      included is everything whose id was not trimmed.
-/
import NexusCode.Context.Lanes

namespace NexusCode.Context

open Lib List

/-- What the engine reports of a chunk it left out. -/
structure DroppedChunk where
  id : String
  sourceId : String
  lane : ContextLane
  tokens : Nat
  duplicate : Bool

/-- The report of a dropped chunk: `"duplicate"` or `"budget"`. -/
def ResolvedChunk.drop (c : ResolvedChunk) (duplicate : Bool) : DroppedChunk :=
  ⟨c.id, c.sourceId, c.lane, c.tokens, duplicate⟩

/-- What one call of `assemble` is given besides its options. -/
structure Request where
  sources : List ContextSource
  userMessage : String

/-! ## Deduplication -/

/-- `.replace(/\s+/g, " ")`; `inRun` says that the last character was white. -/
def collapse : Bool → List Char → List Char
  | _, [] => []
  | inRun, c :: cs =>
    if JsString.isWhite c then (if inRun then [] else [' ']) ++ collapse true cs
    else c :: collapse false cs

variable (host : Host) (o : AssembleOptions)

/-- `normalizeKey(text)`. -/
def normalizeKey (text : String) : String :=
  host.toLowerCase (String.ofList (collapse false (JsString.trim text).toList))

/-- `byStrength`. -/
def byStrength (chunks : List ResolvedChunk) : List ResolvedChunk :=
  sortBy (compareStrength host o) chunks

/-- The loop of `dedupe`, with the keys seen so far: the winners and the duplicates. -/
def dedupeLoop (seen : List String) : List ResolvedChunk → List ResolvedChunk × List ResolvedChunk
  | [] => ([], [])
  | c :: rest =>
    let key := normalizeKey host c.text
    if key = "" then
      (c :: (dedupeLoop seen rest).1, (dedupeLoop seen rest).2)
    else if key ∈ seen then
      ((dedupeLoop seen rest).1, c :: (dedupeLoop seen rest).2)
    else
      (c :: (dedupeLoop (key :: seen) rest).1, (dedupeLoop (key :: seen) rest).2)

/-- `dedupe(chunks, priorityWeight, dropped)`: the winners and what is dropped. -/
def dedupe (chunks : List ResolvedChunk) : List ResolvedChunk × List DroppedChunk :=
  let r := dedupeLoop host [] (byStrength host o chunks)
  (r.1, r.2.map (·.drop true))

/-! ## Compression and order -/

/-- The compression of one chunk: a chunk that is not pinned and exceeds the cap. -/
def compressChunk (c : ResolvedChunk) : ResolvedChunk :=
  match o.maxChunkTokens with
  | none => c
  | some cap =>
    if c.pinned || (JsNumber.fin c.tokens).le cap then c
    else
      let r := o.compress c.text cap
      if r.summarized then { c with text := r.text, tokens := r.tokens } else c

/-- `orderChunks(chunks, priorityWeight)`. -/
def orderChunks (chunks : List ResolvedChunk) : List ResolvedChunk :=
  sortBy (compareOrder host o) chunks

/-! ## Packing -/

/-- `total > budget`. -/
def exceeds (budget : JsNumber) (total : Nat) : Bool := budget.lt (.fin total)

/-- The sum of the tokens. -/
def tokensOf (chunks : List ResolvedChunk) : Nat := total (·.tokens) chunks

/-- The loop over the trim candidates: those whose ids are marked. -/
def trimLoop (budget : JsNumber) : Nat → List ResolvedChunk → List ResolvedChunk
  | _, [] => []
  | load, c :: rest =>
    if exceeds budget load then c :: trimLoop budget (load - c.tokens) rest else []

/-- The candidates, the least valuable first. -/
def trimCandidates (ordered : List ResolvedChunk) : List ResolvedChunk :=
  sortBy (compareTrim host o) (ordered.filter fun c => !c.pinned)

/-- `PackResult`. -/
structure PackResult where
  included : List ResolvedChunk
  packDropped : List DroppedChunk
  realTokens : Nat
  overBudget : Bool

/-- `pack(ordered, budget, fixedTokens, priorityWeight)`. -/
def pack (ordered : List ResolvedChunk) (budget : JsNumber) (fixedTokens : Nat) : PackResult :=
  let load := fixedTokens + tokensOf ordered
  let trimmed :=
    if exceeds budget load then trimLoop budget load (trimCandidates host o ordered) else []
  let dropIds := trimmed.map (·.id)
  let included := ordered.filter fun c => c.id ∉ dropIds
  let realTokens := fixedTokens + tokensOf included
  { included
    packDropped := trimmed.map (·.drop false)
    realTokens
    overBudget := exceeds budget realTokens }

/-! ## Rendering and the whole call -/

/-- `renderStatic(chunks)`. -/
def renderStatic (chunks : List ResolvedChunk) : String :=
  "\n\n".intercalate (staticLanes.filterMap fun lane =>
    let laneChunks := chunks.filter (·.lane = lane)
    if laneChunks.isEmpty then none
    else some ("# " ++ laneTitle lane ++ "\n" ++ "\n\n".intercalate (laneChunks.map (·.text))))

/-- The result of `assemble`, with what its report says of the chunks. -/
structure AssembleResult where
  system : String
  included : List ResolvedChunk
  dropped : List DroppedChunk
  nominalTokens : Nat
  realTokens : Nat
  overBudget : Bool

/-- The chunks that are packed: the winners of the deduplication, compressed and in order. -/
def ordered (chunks : List ResolvedChunk) : List ResolvedChunk :=
  orderChunks host o ((dedupe host o chunks).1.map (compressChunk o))

/-- `assemble(opts)`. -/
def assemble (q : Request) : AssembleResult :=
  let resolved := collect o q.sources
  let userMessageTokens := o.estimate q.userMessage
  let packed := pack host o (ordered host o resolved) o.budgetTokens userMessageTokens
  { system := renderStatic (packed.included.filter fun c => isStatic c.lane)
    included := packed.included
    dropped := (dedupe host o resolved).2 ++ packed.packDropped
    nominalTokens := total (·.rawTokens) resolved + userMessageTokens
    realTokens := packed.realTokens
    overBudget := packed.overBudget }

/-! ## The deduplication -/

/-- Copies of one text: the same key, which is not blank. -/
def isCopy (a b : ResolvedChunk) : Bool :=
  normalizeKey host a.text = normalizeKey host b.text ∧ normalizeKey host a.text ≠ ""

variable {host o}

theorem isCopy_iff {a b : ResolvedChunk} : isCopy host a b = true ↔
    normalizeKey host a.text = normalizeKey host b.text ∧ normalizeKey host a.text ≠ "" :=
  decide_eq_true_iff

theorem isCopy_symm (a b : ResolvedChunk) : isCopy host a b = isCopy host b a := by
  rw [Bool.eq_iff_iff, isCopy_iff, isCopy_iff]
  constructor
  · rintro ⟨h, hne⟩
    exact ⟨h.symm, h ▸ hne⟩
  · rintro ⟨h, hne⟩
    exact ⟨h.symm, h ▸ hne⟩

theorem isCopy_trans (a b c : ResolvedChunk) (hab : isCopy host a b = true)
    (hbc : isCopy host b c = true) : isCopy host a c = true := by
  rw [isCopy_iff] at hab hbc ⊢
  exact ⟨hab.1.trans hbc.1, hab.2⟩

theorem isCopy_self {a : ResolvedChunk} (h : normalizeKey host a.text ≠ "") :
    isCopy host a a = true :=
  isCopy_iff.mpr ⟨rfl, h⟩

/-- The loop keeps the first copies of the keys that were not seen before. -/
theorem dedupeLoop_winners : ∀ (l : List ResolvedChunk) (seen : List String), "" ∉ seen →
    (dedupeLoop host seen l).1 =
      (firsts (isCopy host) l).filter fun c => normalizeKey host c.text ∉ seen
  | [], _, _ => rfl
  | c :: rest, seen, hseen => by
    rw [dedupeLoop, firsts, filter_cons]
    by_cases hblank : normalizeKey host c.text = ""
    · have hkeep : decide (normalizeKey host c.text ∉ seen) = true :=
        decide_eq_true (hblank ▸ hseen)
      have hnone : ∀ b, isCopy host c b = false := fun b => by
        rw [← Bool.not_eq_true, isCopy_iff]
        exact fun h => h.2 hblank
      rw [if_pos hblank, if_pos hkeep, dedupeLoop_winners rest seen hseen, filter_filter]
      refine congrArg (c :: ·) (filter_congr fun b _ => ?_)
      rw [hnone b]
      exact (Bool.and_true _).symm
    · rw [if_neg hblank]
      by_cases hmem : normalizeKey host c.text ∈ seen
      · have hdrop : ¬ decide (normalizeKey host c.text ∉ seen) = true := by
          rw [decide_eq_true_iff]
          exact fun h => h hmem
        rw [if_pos hmem, if_neg hdrop, dedupeLoop_winners rest seen hseen, filter_filter]
        refine filter_congr fun b _ => ?_
        rw [Bool.eq_iff_iff, Bool.and_eq_true, decide_eq_true_iff, Bool.not_eq_true',
          ← Bool.not_eq_true, isCopy_iff]
        exact ⟨fun h => ⟨h, fun heq => h (heq.1 ▸ hmem)⟩, And.left⟩
      · have hkeep : decide (normalizeKey host c.text ∉ seen) = true := decide_eq_true hmem
        have hseen' : "" ∉ normalizeKey host c.text :: seen := by
          rw [mem_cons, not_or]
          exact ⟨fun h => hblank h.symm, hseen⟩
        rw [if_neg hmem, if_pos hkeep, dedupeLoop_winners rest _ hseen', filter_filter]
        refine congrArg (c :: ·) (filter_congr fun b _ => ?_)
        rw [Bool.eq_iff_iff, Bool.and_eq_true, decide_eq_true_iff, decide_eq_true_iff,
          Bool.not_eq_true', ← Bool.not_eq_true, isCopy_iff, mem_cons, not_or]
        constructor
        · rintro ⟨hne, hnot⟩
          exact ⟨hnot, fun heq => hne heq.1.symm⟩
        · rintro ⟨hnot, hcopy⟩
          exact ⟨fun heq => hcopy ⟨heq.symm, hblank⟩, hnot⟩

/-- **The winners are the strongest copies**, and the chunks without a text. -/
theorem dedupe_winners (chunks : List ResolvedChunk) :
    (dedupe host o chunks).1 = firsts (isCopy host) (byStrength host o chunks) := by
  rw [dedupe, dedupeLoop_winners _ _ not_mem_nil]
  exact filter_eq_self.mpr fun _ _ => rfl

theorem dedupeLoop_perm : ∀ (l : List ResolvedChunk) (seen : List String),
    ((dedupeLoop host seen l).1 ++ (dedupeLoop host seen l).2).Perm l
  | [], _ => List.Perm.refl _
  | c :: rest, seen => by
    rw [dedupeLoop]
    split
    · exact (dedupeLoop_perm rest seen).cons c
    · split
      · exact perm_middle.trans ((dedupeLoop_perm rest seen).cons c)
      · exact (dedupeLoop_perm rest _).cons c

/-! ## Compression -/

theorem compressChunk_cases (c : ResolvedChunk) :
    compressChunk o c = c ∨ c.pinned = false ∧
      ∃ text tokens, compressChunk o c = { c with text, tokens } := by
  unfold compressChunk
  split
  · exact .inl rfl
  · split
    · exact .inl rfl
    · rename_i h
      rw [Bool.or_eq_true, not_or, Bool.not_eq_true] at h
      dsimp only
      split
      · exact .inr ⟨h.1, _, _, rfl⟩
      · exact .inl rfl

/-- Compression only changes the text and the number of tokens. -/
theorem compressChunk_same (c : ResolvedChunk) :
    (compressChunk o c).id = c.id ∧ (compressChunk o c).sourceId = c.sourceId ∧
      (compressChunk o c).lane = c.lane ∧ (compressChunk o c).pinned = c.pinned := by
  rcases @compressChunk_cases o c with h | ⟨_, text, tokens, h⟩ <;> rw [h] <;>
    exact ⟨rfl, rfl, rfl, rfl⟩

theorem compressChunk_pinned {c : ResolvedChunk} (h : c.pinned = true) : compressChunk o c = c := by
  rcases @compressChunk_cases o c with hc | ⟨hc, _⟩
  · exact hc
  · rw [h] at hc
    nomatch hc

/-! ## The trimming -/

theorem exceeds_mono {budget : JsNumber} (m n : Nat) (h : m ≤ n)
    (hm : exceeds budget m = true) : exceeds budget n = true := by
  unfold exceeds at hm ⊢
  cases budget with
  | fin q =>
    exact decide_eq_true (lt_of_lt_of_le (of_decide_eq_true hm) (Nat.cast_le.mpr h))
  | inf negative => exact hm
  | nan => exact hm

theorem trimLoop_eq_cut {budget : JsNumber} : ∀ (load : Nat) (l : List ResolvedChunk),
    trimLoop budget load l = (cut (·.tokens) (exceeds budget) load l).1
  | _, [] => rfl
  | load, c :: rest => by
    rw [trimLoop, cut]
    split
    · exact congrArg (c :: ·) (trimLoop_eq_cut _ rest)
    · rfl

/-- The test before the loop is the one that the loop makes first. -/
theorem trimmed_eq_cut (budget : JsNumber) (load : Nat) (l : List ResolvedChunk) :
    (if exceeds budget load then trimLoop budget load l else []) =
      (cut (·.tokens) (exceeds budget) load l).1 := by
  split
  · exact trimLoop_eq_cut load l
  · rename_i h
    cases l with
    | nil => rfl
    | cons c rest => rw [cut, if_neg h]

/-- The candidates that the trimming marks, and those it spares. -/
def trimming (host : Host) (o : AssembleOptions) (chunks : List ResolvedChunk) (fixed : Nat) :
    List ResolvedChunk × List ResolvedChunk :=
  cut (·.tokens) (exceeds o.budgetTokens) (fixed + tokensOf chunks) (trimCandidates host o chunks)

/-- **What is included** is everything whose id is not that of a trimmed candidate. -/
theorem pack_included (chunks : List ResolvedChunk) (fixed : Nat) :
    (pack host o chunks o.budgetTokens fixed).included = chunks.filter fun c =>
      c.id ∉ (trimming host o chunks fixed).1.map (·.id) := by
  unfold pack trimming
  dsimp only
  rw [trimmed_eq_cut]

theorem pack_dropped (chunks : List ResolvedChunk) (fixed : Nat) :
    (pack host o chunks o.budgetTokens fixed).packDropped =
      (trimming host o chunks fixed).1.map (·.drop false) := by
  unfold pack trimming
  dsimp only
  rw [trimmed_eq_cut]

/-- The chunks that are packed are the pinned ones, the trimmed ones and the spared ones. -/
theorem trimming_perm (chunks : List ResolvedChunk) (fixed : Nat) :
    chunks.Perm ((chunks.filter (·.pinned)) ++
      ((trimming host o chunks fixed).1 ++ (trimming host o chunks fixed).2)) := by
  have happend : (trimming host o chunks fixed).1 ++ (trimming host o chunks fixed).2 =
      trimCandidates host o chunks := cut_append _ _
  rw [happend]
  refine (filter_append_perm (·.pinned) chunks).symm.trans ?_
  exact (sortBy_perm _).symm.append_left _

theorem load_after (chunks : List ResolvedChunk) (fixed : Nat) :
    fixed + tokensOf chunks - tokensOf (trimming host o chunks fixed).1 =
      fixed + (tokensOf (chunks.filter (·.pinned)) +
        tokensOf (trimming host o chunks fixed).2) := by
  have hload := total_perm (·.tokens) (@trimming_perm host o chunks fixed)
  rw [total_append, total_append] at hload
  unfold tokensOf
  omega

end NexusCode.Context
