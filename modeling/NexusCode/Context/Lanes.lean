/-
  Lanes, and the chunks of context that are placed in them.

  The static lanes come before the volatile ones.  A chunk is resolved when its defaults are filled
  in; three comparators order resolved chunks: by strength for the deduplication, by lane for the
  assembly, and from the least valuable on for the trimming.

  Numbers are rationals, and `Host.round` is what a double operation makes of the exact result;
  token counts are natural numbers.
-/
import NexusCode.Lib.JsonValue

namespace NexusCode.Context

open Lib

/-! ## Lanes -/

/-- `ContextLane`. -/
inductive ContextLane where
  | system
  | tools
  | memory
  | conventions
  | repoMap
  | env
  | retrieved
  | git
  | history
  | terminal
  | task
deriving DecidableEq

/-- `ContextKind`. -/
inductive ContextKind where
  | static
  | volatile
deriving DecidableEq

/-- `CONTEXT_LANES`. -/
def contextLanes : List ContextLane :=
  [.system, .tools, .memory, .conventions, .repoMap, .env,
    .retrieved, .git, .history, .terminal, .task]

/-- `laneIndex(lane)`. -/
def laneIndex : ContextLane → Nat
  | .system => 0
  | .tools => 1
  | .memory => 2
  | .conventions => 3
  | .repoMap => 4
  | .env => 5
  | .retrieved => 6
  | .git => 7
  | .history => 8
  | .terminal => 9
  | .task => 10

/-- `laneKind(lane)`. -/
def laneKind : ContextLane → ContextKind
  | .system | .tools | .memory | .conventions | .repoMap | .env => .static
  | .retrieved | .git | .history | .terminal | .task => .volatile

/-- `laneTitle(lane)`. -/
def laneTitle : ContextLane → String
  | .system => "System"
  | .tools => "Tools"
  | .memory => "Memory"
  | .conventions => "Project Conventions"
  | .repoMap => "Project Files"
  | .env => "Environment"
  | .retrieved => "Retrieved"
  | .git => "Working Changes"
  | .history => "Conversation"
  | .terminal => "Terminal Output"
  | .task => "Current Task"

/-- `isStatic(lane)`. -/
def isStatic (lane : ContextLane) : Bool := laneKind lane = .static

/-- `STATIC_LANES`. -/
def staticLanes : List ContextLane := contextLanes.filter isStatic

theorem laneIndex_inj {a b : ContextLane} (h : laneIndex a = laneIndex b) : a = b := by
  cases a <;> cases b <;> first | rfl | nomatch h

theorem laneIndex_lt_of_static {a b : ContextLane} (ha : isStatic a = true)
    (hb : isStatic b = false) : laneIndex a < laneIndex b := by
  revert ha hb
  cases a <;> cases b <;> decide

theorem mem_staticLanes_iff (lane : ContextLane) :
    lane ∈ staticLanes ↔ isStatic lane = true := by
  cases lane <;> decide

/-! ## Chunks -/

/-- What the language provides: the rounding of a double operation, and `toLowerCase`. -/
structure Host where
  round : Rat → Rat
  toLowerCase : String → String

/-- `CompressResult`. -/
structure CompressResult where
  text : String
  tokens : Nat
  summarized : Bool

/-- `ContextChunk`: a chunk as a source gave it. -/
structure ContextChunk where
  id : String
  sourceId : Option String := none
  lane : ContextLane
  text : String
  tokens : Option Nat := none
  relevance : Option JsNumber := none
  priority : Option Rat := none
  pinned : Option Bool := none
  createdAt : Option Rat := none

/-- A source, with the chunks its `collect` gave; none if it failed or timed out. -/
structure ContextSource where
  id : String
  priority : Rat
  chunks : List ContextChunk

/-- `AssembleOptions`, with the defaults filled in. -/
structure AssembleOptions where
  budgetTokens : JsNumber
  now : Rat
  estimate : String → Nat
  compress : String → JsNumber → CompressResult
  maxChunkTokens : Option JsNumber := none
  priorityWeight : Rat := 1

/-- `ResolvedChunk`. -/
structure ResolvedChunk where
  id : String
  sourceId : String
  lane : ContextLane
  text : String
  tokens : Nat
  rawTokens : Nat
  relevance : Rat
  priority : Rat
  pinned : Bool
  createdAt : Rat
deriving DecidableEq

/-- `clamp01(n)`. -/
def clamp01 : JsNumber → Rat
  | .nan => 0
  | .inf negative => if negative then 0 else 1
  | .fin q => max 0 (min 1 q)

/-- `resolveChunk(chunk, src, index, now, estimate)`. -/
def resolveChunk (o : AssembleOptions) (src : ContextSource) (chunk : ContextChunk)
    (index : Nat) : ResolvedChunk where
  id := chunk.id
  sourceId := chunk.sourceId.getD src.id
  lane := chunk.lane
  text := chunk.text
  tokens := chunk.tokens.getD (o.estimate chunk.text)
  rawTokens := chunk.tokens.getD (o.estimate chunk.text)
  relevance := clamp01 (chunk.relevance.getD (.fin (1 / 2)))
  priority := chunk.priority.getD src.priority
  pinned := chunk.pinned.getD false
  createdAt := chunk.createdAt.getD (o.now + index)

/-- The chunks of all sources, resolved. -/
def collect (o : AssembleOptions) (sources : List ContextSource) : List ResolvedChunk :=
  sources.flatMap fun src => src.chunks.zipIdx.map fun c => resolveChunk o src c.1 c.2

/-- `score(c, priorityWeight)`. -/
def score (host : Host) (o : AssembleOptions) (c : ResolvedChunk) : Rat :=
  host.round (host.round (c.priority * o.priorityWeight) + c.relevance)

/-! ## Orders -/

/-- `a < b ? -1 : a > b ? 1 : 0`. -/
def compareIds (a b : ResolvedChunk) : Rat :=
  if JsString.ltUnits a.id b.id then -1 else if JsString.ltUnits b.id a.id then 1 else 0

theorem compareIds_lawful : Lawful compareIds := Json.compareKeys_lawful ResolvedChunk.id

variable (host : Host) (o : AssembleOptions)

/-- The comparator of the deduplication: highest score, then lane, then id. -/
def compareStrength (a b : ResolvedChunk) : Rat :=
  orNext (score host o b - score host o a)
    (orNext ((laneIndex a.lane : Rat) - laneIndex b.lane) (compareIds a b))

/-- `a.lane === "history" || a.lane === "task"`. -/
def isChronological (lane : ContextLane) : Bool := lane = .history ∨ lane = .task

/-- The comparator of the assembly: by lane, and inside a lane by time or by strength. -/
def compareOrder (a b : ResolvedChunk) : Rat :=
  orNext ((laneIndex a.lane : Rat) - laneIndex b.lane)
    (if isChronological a.lane then orNext (a.createdAt - b.createdAt) (compareIds a b)
    else orNext (score host o b - score host o a) (compareIds a b))

/-- The comparator of the trimming: most volatile lane, then lowest relevance, then lowest score. -/
def compareTrim (a b : ResolvedChunk) : Rat :=
  orNext ((laneIndex b.lane : Rat) - laneIndex a.lane)
    (orNext (a.relevance - b.relevance)
      (orNext (score host o a - score host o b) (compareIds a b)))

theorem sub_eq_neg_sub (x y : Rat) : y - x = -x - -y := by
  rw [sub_neg_eq_add, neg_add_eq_sub]

theorem compareStrength_lawful : Lawful (compareStrength host o) := by
  have h := (compareIds_lawful.next (k := fun c => (laneIndex c.lane : Rat))).next
    (k := fun c => -score host o c)
  simp only [← sub_eq_neg_sub] at h
  exact h

theorem compareTrim_lawful : Lawful (compareTrim host o) := by
  have h := ((compareIds_lawful.next (k := score host o)).next
    (k := fun c => c.relevance)).next (k := fun c => -(laneIndex c.lane : Rat))
  simp only [← sub_eq_neg_sub] at h
  exact h

theorem compareOrder_lawful : Lawful (compareOrder host o) := by
  have htime : Lawful fun a b : ResolvedChunk =>
      orNext (a.createdAt - b.createdAt) (compareIds a b) := compareIds_lawful.next
  have hstrength : Lawful fun a b : ResolvedChunk =>
      orNext (score host o b - score host o a) (compareIds a b) := by
    have h := compareIds_lawful.next (k := fun c => -score host o c)
    simp only [← sub_eq_neg_sub] at h
    exact h
  have hlane : ∀ a b : ResolvedChunk, (laneIndex a.lane : Rat) = laneIndex b.lane →
      a.lane = b.lane := fun a b h => laneIndex_inj (Nat.cast_injective h)
  refine Lawful.lex (fun a b hab => ?_) fun a b c hab hbc => ?_
  · rw [hlane a b hab]
    cases isChronological b.lane with
    | true => exact htime.total a b
    | false => exact hstrength.total a b
  · rw [hlane a b hab, hlane b c hbc]
    cases isChronological c.lane with
    | true => exact htime.trans a b c
    | false => exact hstrength.trans a b c

end NexusCode.Context
