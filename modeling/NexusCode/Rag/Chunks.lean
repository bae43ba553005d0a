/-
  Documents and their chunks.

  A text is cut into overlapping windows by position (`chunkText`), and each window becomes a chunk
  under the id of its document and its number (`chunkDocument`).  Positions count UTF-16 code units;
  a window may end inside a surrogate pair, so the text of a chunk is a list of code units.

  What the index needs of it: no two documents share an id of a chunk (`chunkId_inj`).
-/
import NexusCode.Lib.JsMap
import NexusCode.Lib.JsonNumber

namespace NexusCode.Rag

open Lib List

/-- The UTF-16 code units of a text. -/
abbrev Text := List Nat

/-- Free-form metadata. -/
abbrev Meta := JsMap String Json

/-- `RagDocument`. -/
structure RagDocument where
  id : String
  text : String
  source : Option String := none
  lang : Option String := none
  docMeta : Option Meta := none

/-- A half-open range of positions. -/
structure Span where
  start : Nat
  stop : Nat

/-- `Chunk`. -/
structure Chunk where
  id : String
  docId : String
  index : Nat
  text : Text
  span : Span
  source : Option String
  lang : Option String
  chunkMeta : Option Meta

/-- `ChunkOptions`, with integers for the two sizes. -/
structure ChunkOptions where
  chunkSize : Option Int := none
  overlap : Option Int := none
  respectWordBoundaries : Option Bool := none

/-- Why a call was aborted. -/
inductive IndexError where
  | chunkSize (got : Int)
  | dims (id : String) (expected got : Nat)
  | embedder

/-! ## Cutting a text -/

/-- `/\s/.test(text[i])`. -/
def isWhitespaceAt (text : Text) (i : Nat) : Bool :=
  match text[i]? with
  | some u => JsString.isWhite (Char.ofNat u)
  | none => false

/-- `lastWhitespace(text, from, to)`: the loop with `n` positions left above `from`. -/
def lastWhitespace (text : Text) (start stop : Nat) : Nat → Nat
  | 0 => stop
  | n + 1 => if isWhitespaceAt text (start + n + 1) then start + n + 2
      else lastWhitespace text start stop n

/-- The end of the window that starts at `start`. -/
def windowEnd (text : Text) (chunkSize : Nat) (respect : Bool) (start : Nat) : Nat :=
  let stop := min (start + chunkSize) text.length
  if respect && decide (stop < text.length) then
    let ws := lastWhitespace text start stop (stop - start - 1)
    if start + chunkSize / 2 < ws then ws else stop
  else stop

/-- The `while` loop of `chunkText`; the stride is `chunkSize - overlap`. -/
def windows (text : Text) {chunkSize overlap : Nat} (hstride : overlap < chunkSize)
    (respect : Bool) (start : Nat) : List Span :=
  if start < text.length then
    let stop := windowEnd text chunkSize respect start
    if text.length ≤ stop then [⟨start, stop⟩]
    else ⟨start, stop⟩ ::
      windows text hstride respect (max (start + (chunkSize - overlap)) (stop - overlap))
  else []
termination_by text.length - start
decreasing_by omega

/-- `chunkText(text, options)`. -/
def chunkText (text : Text) (options : ChunkOptions) : Except IndexError (List Span) :=
  let chunkSize := options.chunkSize.getD 800
  let respect := options.respectWordBoundaries.getD true
  if h : chunkSize ≤ 0 then .error (.chunkSize chunkSize)
  else
    let overlap := (max 0 (min (options.overlap.getD 100) (chunkSize - 1))).toNat
    have hstride : overlap < chunkSize.toNat := by omega
    if text.length = 0 then .ok []
    else if (text.length : Int) ≤ chunkSize then .ok [⟨0, text.length⟩]
    else .ok (windows text hstride respect 0)

/-! ## Chunks -/

/-- `${doc.id}#${index}`. -/
def chunkId (docId : String) (index : Nat) : String := docId ++ "#" ++ toString index

/-- The chunk of one span. -/
def chunkOf (doc : RagDocument) (index : Nat) (span : Span) : Chunk where
  id := chunkId doc.id index
  docId := doc.id
  index := index
  text := ((JsString.units doc.text).take span.stop).drop span.start
  span := span
  source := doc.source
  lang := doc.lang
  chunkMeta := doc.docMeta

/-- `chunkDocument(doc, options)`. -/
def chunkDocument (doc : RagDocument) (options : ChunkOptions) : Except IndexError (List Chunk) :=
  (chunkText (JsString.units doc.text) options).map fun spans => spans.mapIdx (chunkOf doc)

theorem toList_chunkId (docId : String) (index : Nat) :
    (chunkId docId index).toList = docId.toList ++ '#' :: Nat.toDigits 10 index := by
  unfold chunkId
  rw [String.toList_append, String.toList_append, append_assoc]
  refine congrArg (docId.toList ++ ·) ?_
  show ['#'] ++ (Nat.repr index).toList = _
  rw [Nat.toList_repr]
  rfl

theorem hash_notMem_toDigits (n : Nat) : '#' ∉ Nat.toDigits 10 n := fun h =>
  absurd (Nat.isDigit_of_mem_toDigits (by decide) (by decide) h) (by decide)

theorem cut_at {α : Type} {c : α} : ∀ {a b r r' : List α}, c ∉ a → c ∉ b →
    a ++ c :: r = b ++ c :: r' → a = b ∧ r = r'
  | [], [], _, _, _, _, h => ⟨rfl, (cons.inj h).2⟩
  | [], _ :: _, _, _, _, hb, h =>
    absurd ((cons.inj h).1 ▸ mem_cons_self) hb
  | _ :: _, [], _, _, ha, _, h =>
    absurd ((cons.inj h).1 ▸ mem_cons_self) ha
  | x :: a, y :: b, r, r', ha, hb, h => by
    obtain ⟨rfl, htail⟩ := cons.inj h
    obtain ⟨hab, hr⟩ := cut_at (fun hc => ha (mem_cons_of_mem _ hc))
      (fun hc => hb (mem_cons_of_mem _ hc)) htail
    exact ⟨congrArg (x :: ·) hab, hr⟩

/-- **Chunk ids are unambiguous**: the last `#` parts the document from the number. -/
theorem chunkId_inj {d d' : String} {i i' : Nat} (h : chunkId d i = chunkId d' i') :
    d = d' ∧ i = i' := by
  have hlist := congrArg (fun s => s.toList.reverse) h
  simp only [toList_chunkId, reverse_append, reverse_cons, append_assoc,
    singleton_append] at hlist
  obtain ⟨hdigits, hdoc⟩ := cut_at (by rw [mem_reverse]; exact hash_notMem_toDigits i)
    (by rw [mem_reverse]; exact hash_notMem_toDigits i') hlist
  constructor
  · exact String.toList_injective (reverse_injective hdoc)
  · have hvalue := congrArg Json.decimal (reverse_injective hdigits)
    rwa [Json.decimal_toDigits, Json.decimal_toDigits] at hvalue

end NexusCode.Rag
