/-
  The vector store and the keyword index.

  The store is a map from the ids of the chunks to what is stored of them, in the order in which
  the ids were first set.  `mem_setAll` and `mem_deleteByDoc` say what it holds after its two
  mutations, and `bm25` is rebuilt from the whole list of its chunks at a time.
-/
import NexusCode.Lib.Outcome
import NexusCode.Rag.Chunks

namespace NexusCode.Rag

open Lib List

/-- `VectorItem`; a stored entry is one, with the norm of its vector beside it. -/
structure VectorItem where
  id : String
  vector : List JsNumber
  chunk : Chunk

/-- `InMemoryVectorStore.items`. -/
abbrev VectorStore := JsMap String VectorItem

/-- A call that threw, and the store it left. -/
structure Aborted where
  error : IndexError
  store : VectorStore

/-- An embedder that keeps to its interface: every vector has the announced length, and a text has
    one vector whatever batch it comes in. -/
structure Embedder where
  dims : Nat
  vectorOf : Text → List JsNumber
  length_vectorOf : ∀ text, (vectorOf text).length = dims

namespace VectorStore

/-- `add(items)`. -/
def add (dims : Nat) : VectorStore → List VectorItem → Except Aborted VectorStore
  | s, [] => .ok s
  | s, it :: items =>
    if it.vector.length ≠ dims then .error ⟨.dims it.id dims it.vector.length, s⟩
    else add dims (s.set it.id it) items

/-- `delete(ids)`, with the number of ids that were there. -/
def deleteIds : VectorStore → List String → Nat × VectorStore
  | s, [] => (0, s)
  | s, id :: ids =>
    let (n, s') := deleteIds (s.delete id) ids
    (if (s.get? id).isSome then n + 1 else n, s')

/-- `deleteByDoc(docId)`. -/
def deleteByDoc (s : VectorStore) (docId : String) : Nat × VectorStore :=
  deleteIds s ((s.values.filter fun e => e.chunk.docId == docId).map (·.id))

/-- `chunks()`. -/
def chunks (s : VectorStore) : List Chunk := s.values.map (·.chunk)

/-- Every entry stands under its own id. -/
def Keyed (s : VectorStore) : Prop := ∀ k e, s.get? k = some e → e.id = k

theorem add_eq {dims : Nat} : ∀ {items : List VectorItem} (s : VectorStore),
    (∀ it ∈ items, it.vector.length = dims) → add dims s items = .ok (JsMap.setAll (·.id) s items)
  | [], _, _ => rfl
  | it :: items, s, h => by
    rw [add, if_neg (not_not_intro (h it mem_cons_self))]
    exact add_eq _ fun it' hit' => h it' (mem_cons_of_mem _ hit')

theorem keyed_empty : Keyed JsMap.empty := fun _ _ => nofun

theorem Keyed.get? {s : VectorStore} (hs : s.Keyed) (e : VectorItem) :
    JsMap.get? s e.id = some e ↔ e ∈ s.values := by
  rw [JsMap.mem_values]
  constructor
  · exact fun h => ⟨e.id, h⟩
  · rintro ⟨k, hk⟩
    rwa [hs k e hk]

theorem Keyed.setAll : ∀ {items : List VectorItem} {s : VectorStore}, s.Keyed →
    Keyed (JsMap.setAll (·.id) s items)
  | [], _, hs => hs
  | it :: items, s, hs => by
    refine setAll (s := s.set it.id it) fun k e he => ?_
    rw [JsMap.get?_set] at he
    split at he
    · rename_i hk
      rw [← Option.some.inj he, hk]
    · exact hs k e he

/-- What the store holds after items with distinct ids were added. -/
theorem Keyed.mem_setAll {s : VectorStore} (hs : s.Keyed) {items : List VectorItem}
    (hnodup : (items.map (·.id)).Nodup) (e : VectorItem) :
    e ∈ (JsMap.setAll (·.id) s items).values ↔
      e ∈ items ∨ e ∈ s.values ∧ e.id ∉ items.map (·.id) := by
  rw [← hs.setAll.get?, ← hs.get?]
  by_cases hmem : e.id ∈ items.map (·.id)
  · rw [iff_false_intro (fun h : _ ∧ e.id ∉ items.map (·.id) => h.2 hmem), or_false]
    obtain ⟨it, hit, hid⟩ := mem_map.mp hmem
    have hget := JsMap.get?_setAll_of_mem s hnodup hit
    rw [hid] at hget
    rw [hget]
    constructor
    · exact fun h => Option.some.inj h ▸ hit
    · intro he
      exact congrArg some (inj_on_of_nodup_map hnodup hit he hid)
  · rw [JsMap.get?_setAll_of_notMem s hmem, and_iff_left hmem, or_iff_right]
    exact fun he => hmem (mem_map_of_mem he)

theorem get?_deleteIds (k : String) : ∀ (ids : List String) (s : VectorStore),
    (deleteIds s ids).2.get? k = if k ∈ ids then none else s.get? k
  | [], _ => rfl
  | id :: ids, s => by
    show (deleteIds (s.delete id) ids).2.get? k = _
    rw [get?_deleteIds k ids, JsMap.get?_delete]
    grind

theorem deleteIds_pos {ids : List String} {s : VectorStore} :
    0 < (deleteIds s ids).1 ↔ ∃ id ∈ ids, (s.get? id).isSome := by
  induction ids generalizing s with
  | nil => simp [deleteIds]
  | cons id ids ih =>
    show 0 < (if (s.get? id).isSome then (deleteIds (s.delete id) ids).1 + 1
      else (deleteIds (s.delete id) ids).1) ↔ _
    by_cases hid : (s.get? id).isSome
    · rw [if_pos hid]
      exact iff_of_true (by omega) ⟨id, mem_cons_self, hid⟩
    · rw [if_neg hid, ih]
      constructor
      · rintro ⟨k, hk, hsome⟩
        rw [JsMap.get?_delete] at hsome
        split at hsome
        · nomatch hsome
        · exact ⟨k, mem_cons_of_mem _ hk, hsome⟩
      · rintro ⟨k, hk, hsome⟩
        have hne : id ≠ k := fun h => hid (h ▸ hsome)
        refine ⟨k, (mem_cons.mp hk).resolve_left (Ne.symm hne), ?_⟩
        rwa [JsMap.get?_delete, if_neg hne]

theorem Keyed.get?_deleteByDoc {s : VectorStore} (hs : s.Keyed) (d k : String) (e : VectorItem) :
    JsMap.get? (s.deleteByDoc d).2 k = some e ↔ s.get? k = some e ∧ e.chunk.docId ≠ d := by
  unfold deleteByDoc
  rw [get?_deleteIds]
  by_cases hk : k ∈ (s.values.filter fun e => e.chunk.docId == d).map (·.id)
  · rw [if_pos hk]
    refine iff_of_false nofun ?_
    rintro ⟨he, hne⟩
    obtain ⟨e', he', hid⟩ := mem_map.mp hk
    obtain ⟨hmem, hdoc⟩ := mem_filter.mp he'
    have hget := (hs.get? e').mpr hmem
    rw [hid, he] at hget
    exact hne (Option.some.inj hget ▸ beq_iff_eq.mp hdoc)
  · rw [if_neg hk, and_iff_left_of_imp]
    intro he hdoc
    refine hk (mem_map.mpr ⟨e, mem_filter.mpr ⟨?_, beq_iff_eq.mpr hdoc⟩, hs k e he⟩)
    exact (JsMap.mem_values s e).mpr ⟨k, he⟩

theorem Keyed.deleteByDoc {s : VectorStore} (hs : s.Keyed) (d : String) :
    Keyed (s.deleteByDoc d).2 :=
  fun k e he => hs k e ((hs.get?_deleteByDoc d k e).mp he).1

theorem Keyed.mem_deleteByDoc {s : VectorStore} (hs : s.Keyed) (d : String) (e : VectorItem) :
    e ∈ (s.deleteByDoc d).2.values ↔ e ∈ s.values ∧ e.chunk.docId ≠ d := by
  rw [← (hs.deleteByDoc d).get?, hs.get?_deleteByDoc, hs.get?]

theorem Keyed.deleteByDoc_pos {s : VectorStore} (hs : s.Keyed) (d : String) :
    0 < (s.deleteByDoc d).1 ↔ ∃ e ∈ s.values, e.chunk.docId = d := by
  unfold VectorStore.deleteByDoc
  rw [deleteIds_pos]
  constructor
  · rintro ⟨id, hid, -⟩
    obtain ⟨e, he, -⟩ := mem_map.mp hid
    obtain ⟨hmem, hdoc⟩ := mem_filter.mp he
    exact ⟨e, hmem, beq_iff_eq.mp hdoc⟩
  · rintro ⟨e, he, hdoc⟩
    refine ⟨e.id, mem_map_of_mem (mem_filter.mpr ⟨he, beq_iff_eq.mpr hdoc⟩), ?_⟩
    rw [(hs.get? e).mpr he]
    rfl

end VectorStore

/-! ## The keyword index -/

/-- `[a-z0-9]`. -/
def isWordUnit (u : Nat) : Bool := (97 ≤ u && u ≤ 122) || (48 ≤ u && u ≤ 57)

/-- `tokenize(text)`: the runs of at least two word characters of the text in lower case. -/
def tokenize (toLowerCase : Text → Text) (text : Text) : List Text :=
  ((toLowerCase text).splitOnP fun u => !isWordUnit u).filter fun word => 2 ≤ word.length

/-- `Posting`. -/
structure Posting where
  id : String
  tf : JsMap Text Nat
  length : Nat

/-- The fields of `Bm25Index` that `scoreAll` reads, the constants `k1` and `b` apart. -/
structure Bm25Index where
  postings : List Posting := []
  df : JsMap Text Nat := JsMap.empty
  avgdl : Rat := 0

/-- `map.set(t, (map.get(t) ?? 0) + 1)`. -/
def countUp (counts : JsMap Text Nat) (t : Text) : JsMap Text Nat :=
  counts.set t ((counts.get? t).getD 0 + 1)

/-- The posting of one chunk. -/
def postingOf (toLowerCase : Text → Text) (chunk : Chunk) : Posting where
  id := chunk.id
  tf := (tokenize toLowerCase chunk.text).foldl countUp JsMap.empty
  length := (tokenize toLowerCase chunk.text).length

/-- `rebuild(chunks)`. -/
def Bm25Index.rebuild (toLowerCase : Text → Text) (chunks : List Chunk) : Bm25Index :=
  let postings := chunks.map (postingOf toLowerCase)
  { postings := postings
    df := postings.foldl (fun df posting => posting.tf.keys.foldl countUp df) JsMap.empty
    avgdl := if 0 < postings.length then
        mkRat ((postings.map (·.length)).sum : Nat) postings.length
      else 0 }

end NexusCode.Rag
