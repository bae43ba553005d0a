/-
  The index over a vector store: full and incremental indexing.

  `index` deletes, cuts, embeds and stores document by document, in batches that cross the borders
  of the documents; `incrementalIndex` gives it the documents whose content hash is not the one in
  the store.  An embed call may throw at any time, and the store stays as it is then.

  * `Held`         — what a store holds in the middle of a run of `index`;
  * `indexAll_ends` — what `index` leaves when it returns (`Held` of all the documents) and when it
                     throws (`Broken`: of some first chunks only).
-/
import NexusCode.Rag.Store

namespace NexusCode.Rag

open Lib List

/-- The functions of other packages the index calls. -/
structure Host where
  redactSecrets : Text → Text
  sha256 : String → String
  toLowerCase : Text → Text

/-- `RagIndexOptions`; the store is the one in memory. -/
structure RagIndexOptions where
  embedder : Embedder
  chunk : ChunkOptions := {}
  redactSecrets : Option Bool := none
  batchSize : Option JsNumber := none

/-- `this.batchSize`. -/
def RagIndexOptions.limit (opts : RagIndexOptions) : JsNumber :=
  match opts.batchSize with
  | some n => if JsNumber.lt 0 n then n else 128
  | none => 128

/-- The fields of `RagIndex` that change. -/
structure RagIndex where
  store : VectorStore := JsMap.empty
  bm25 : Bm25Index := {}
  bm25Dirty : Bool := true

/-- The local variables of `index`, with the number of embed calls made. -/
structure Indexing where
  store : VectorStore
  allChunks : List Chunk := []
  pending : List Chunk := []
  embeds : Nat := 0

section Definitions

variable (host : Host) (opts : RagIndexOptions) (fails : Nat → Bool)

/-- What is stored of a chunk. -/
def itemOf (chunk : Chunk) : VectorItem := ⟨chunk.id, opts.embedder.vectorOf chunk.text, chunk⟩

/-- `flush()`. -/
def flush (s : Indexing) : Except Aborted Indexing :=
  if s.pending.isEmpty then .ok s
  else if fails s.embeds then .error ⟨.embedder, s.store⟩
  else (s.store.add opts.embedder.dims (s.pending.map (itemOf opts))).map fun store =>
    { s with store, pending := [], embeds := s.embeds + 1 }

/-- One turn of the inner loop. -/
def push (s : Indexing) (chunk : Chunk) : Except Aborted Indexing :=
  let s := { s with allChunks := s.allChunks ++ [chunk], pending := s.pending ++ [chunk] }
  if JsNumber.le opts.limit (.fin s.pending.length) then flush opts fails s else .ok s

/-- The redaction of a chunk, in place. -/
def redacted (chunk : Chunk) : Chunk :=
  if opts.redactSecrets.getD true then { chunk with text := host.redactSecrets chunk.text }
  else chunk

/-- One turn of the outer loop. -/
def indexDoc (s : Indexing) (doc : RagDocument) : Except Aborted Indexing :=
  let store := (s.store.deleteByDoc doc.id).2
  match chunkDocument doc opts.chunk with
  | .error e => .error ⟨e, store⟩
  | .ok chunks => (chunks.map (redacted host opts)).foldlM (push opts fails) { s with store }

/-- The loops of `index` and the last `flush`. -/
def indexAll (store : VectorStore) (docs : List RagDocument) : Except Aborted Indexing :=
  (docs.foldlM (indexDoc host opts fails) { store }).bind (flush opts fails)

/-- `index(documents)`. -/
def index (ix : RagIndex) (docs : List RagDocument) : Except Aborted (List Chunk × RagIndex) :=
  (indexAll host opts fails ix.store docs).map fun s =>
    (s.allChunks, { ix with store := s.store, bm25Dirty := true })

/-- `DOC_HASH_META`. -/
def docHashMeta : String := "__contentHash"

/-- `chunk.meta?.[DOC_HASH_META]`, when it is a string. -/
def contentHash (chunk : Chunk) : Option String :=
  match chunk.chunkMeta.bind (·.get? docHashMeta) with
  | some (.str h) => some h
  | _ => none

/-- One turn of the loop that reads the hashes. -/
def readHash (stored : JsMap String String) (chunk : Chunk) : JsMap String String :=
  if (stored.get? chunk.docId).isSome then stored
  else match contentHash chunk with
    | some h => stored.set chunk.docId h
    | none => stored

/-- `storedHash`. -/
def storedHash (chunks : List Chunk) : JsMap String String := chunks.foldl readHash JsMap.empty

/-- The document with its hash in the metadata. -/
def stamp (doc : RagDocument) : RagDocument :=
  { doc with
    docMeta := some ((doc.docMeta.getD JsMap.empty).set docHashMeta (.str (host.sha256 doc.text))) }

/-- `storedHash.get(doc.id) === hash`. -/
def isUnchanged (stored : JsMap String String) (doc : RagDocument) : Bool :=
  stored.get? doc.id == some (host.sha256 doc.text)

/-- `remove(docId)`. -/
def remove (ix : RagIndex) (docId : String) : Nat × RagIndex :=
  let (n, store) := ix.store.deleteByDoc docId
  (n, { ix with store, bm25Dirty := ix.bm25Dirty || decide (0 < n) })

/-- The loop of `prune` over the stored documents. -/
def pruneAll (seen : List String) : RagIndex → List String → List String × RagIndex
  | ix, [] => ([], ix)
  | ix, docId :: rest =>
    if docId ∈ seen then pruneAll seen ix rest
    else
      let (n, ix') := remove ix docId
      let (removed, ix'') := pruneAll seen ix' rest
      (if 0 < n then docId :: removed else removed, ix'')

/-- `IncrementalIndexResult`. -/
structure IncrementalIndexResult where
  indexed : List String
  skipped : List String
  removed : List String

/-- `incrementalIndex(documents, opts)`: what it returns or throws, and the index it leaves. -/
def incrementalIndex (ix : RagIndex) (docs : List RagDocument) (prune : Bool) :
    Except IndexError IncrementalIndexResult × RagIndex :=
  let stored := storedHash ix.store.chunks
  let skipped := docs.filter (isUnchanged host stored)
  let changed := docs.filter fun doc => !isUnchanged host stored doc
  let (removed, ix) :=
    if prune then pruneAll (docs.map (·.id)) ix stored.keys else ([], ix)
  let result := ⟨changed.map (·.id), skipped.map (·.id), removed⟩
  if changed.isEmpty then (.ok result, ix)
  else match index host opts fails ix (changed.map (stamp host)) with
    | .ok (_, ix) => (.ok result, ix)
    | .error aborted => (.error aborted.error, { ix with store := aborted.store })

/-- `ensureBm25()`, with which every query starts. -/
def ensureBm25 (ix : RagIndex) : RagIndex :=
  if ix.bm25Dirty then
    { ix with bm25 := Bm25Index.rebuild host.toLowerCase ix.store.chunks, bm25Dirty := false }
  else ix

/-- The chunks of a document as they are embedded and stored. -/
def chunksOf (doc : RagDocument) : List Chunk :=
  match chunkDocument doc opts.chunk with
  | .ok chunks => chunks.map (redacted host opts)
  | .error _ => []

end Definitions

/-! ## Chunks of documents -/

variable {host : Host} {opts : RagIndexOptions} {fails : Nat → Bool}

/-- The chunk sizes are such that every document is cut. -/
def Cuts (opts : RagIndexOptions) : Prop := 0 < opts.chunk.chunkSize.getD 800

theorem chunkText_ok (hcuts : Cuts opts) (text : Text) :
    ∃ spans, chunkText text opts.chunk = .ok spans := by
  unfold chunkText
  rw [dif_neg (not_le.mpr hcuts)]
  dsimp only
  split_ifs
  · exact ⟨_, rfl⟩
  · exact ⟨_, rfl⟩
  · exact ⟨_, rfl⟩

theorem chunkDocument_ok (hcuts : Cuts opts) (doc : RagDocument) :
    ∃ chunks, chunkDocument doc opts.chunk = .ok chunks := by
  obtain ⟨spans, hspans⟩ := chunkText_ok hcuts (JsString.units doc.text)
  unfold chunkDocument
  rw [hspans]
  exact ⟨_, rfl⟩

theorem cuts_of_ok {doc : RagDocument} {chunks : List Chunk}
    (h : chunkDocument doc opts.chunk = .ok chunks) : Cuts opts := by
  by_contra hbad
  unfold chunkDocument chunkText at h
  rw [dif_pos (not_lt.mp hbad)] at h
  nomatch h

theorem cuts_of_mem {doc : RagDocument} {c : Chunk} (h : c ∈ chunksOf host opts doc) :
    Cuts opts := by
  unfold chunksOf at h
  cases hc : chunkDocument doc opts.chunk with
  | error e =>
    rw [hc] at h
    nomatch h
  | ok chunks => exact cuts_of_ok hc

@[simp] theorem redacted_id (c : Chunk) : (redacted host opts c).id = c.id := by
  unfold redacted
  split <;> rfl

@[simp] theorem redacted_docId (c : Chunk) : (redacted host opts c).docId = c.docId := by
  unfold redacted
  split <;> rfl

@[simp] theorem redacted_index (c : Chunk) : (redacted host opts c).index = c.index := by
  unfold redacted
  split <;> rfl

@[simp] theorem redacted_chunkMeta (c : Chunk) :
    (redacted host opts c).chunkMeta = c.chunkMeta := by
  unfold redacted
  split <;> rfl

/-- The spans of a document, none if it cannot be cut. -/
def spansOf (opts : RagIndexOptions) (text : String) : List Span :=
  match chunkText (JsString.units text) opts.chunk with
  | .ok spans => spans
  | .error _ => []

theorem chunksOf_eq (doc : RagDocument) :
    chunksOf host opts doc =
      (spansOf opts doc.text).mapIdx fun i span => redacted host opts (chunkOf doc i span) := by
  unfold chunksOf spansOf chunkDocument
  cases chunkText (JsString.units doc.text) opts.chunk with
  | error e => rfl
  | ok spans =>
    show (spans.mapIdx (chunkOf doc)).map (redacted host opts) = _
    refine ext_getElem? fun i => ?_
    rw [List.getElem?_map, List.getElem?_mapIdx, List.getElem?_mapIdx, Option.map_map]
    rfl

theorem getElem?_chunksOf {doc : RagDocument} {i : Nat} {c : Chunk}
    (h : (chunksOf host opts doc)[i]? = some c) : c.id = chunkId doc.id i ∧ c.docId = doc.id ∧
      c.index = i ∧ c.chunkMeta = doc.docMeta := by
  rw [chunksOf_eq, List.getElem?_mapIdx] at h
  obtain ⟨span, -, rfl⟩ := Option.map_eq_some_iff.mp h
  simp [chunkOf]

theorem mem_chunksOf {doc : RagDocument} {c : Chunk} (h : c ∈ chunksOf host opts doc) :
    c.id = chunkId c.docId c.index ∧ c.docId = doc.id ∧ c.chunkMeta = doc.docMeta := by
  obtain ⟨i, hi⟩ := mem_iff_getElem?.mp h
  obtain ⟨hid, hdoc, hindex, hmeta⟩ := getElem?_chunksOf hi
  refine ⟨?_, hdoc, hmeta⟩
  rw [hid, hdoc, hindex]

/-- The ids of the chunks are the first numbers of the document. -/
theorem chunksOf_ids (doc : RagDocument) : (chunksOf host opts doc).map (·.id) =
    (List.range (spansOf opts doc.text).length).map (chunkId doc.id) := by
  rw [chunksOf_eq]
  refine ext_getElem? fun i => ?_
  rw [List.getElem?_map, List.getElem?_mapIdx, List.getElem?_map]
  by_cases hi : i < (spansOf opts doc.text).length
  · rw [List.getElem?_eq_getElem hi, List.getElem?_range hi]
    simp [chunkOf]
  · rw [List.getElem?_eq_none (not_lt.mp hi),
      List.getElem?_eq_none (by rw [length_range]; exact not_lt.mp hi)]
    rfl

theorem nodup_chunksOf (doc : RagDocument) : ((chunksOf host opts doc).map (·.id)).Nodup := by
  rw [chunksOf_ids]
  exact List.Nodup.map (fun _ _ h => (chunkId_inj h).2) nodup_range

/-- What a query reads of a stored chunk. -/
def view (e : VectorItem) : String × Text × List JsNumber := (e.id, e.chunk.text, e.vector)

/-- **The metadata does not matter** for ids, texts and vectors. -/
theorem view_chunksOf {doc doc' : RagDocument} (hid : doc.id = doc'.id)
    (htext : doc.text = doc'.text) :
    (chunksOf host opts doc).map (fun c => view (itemOf opts c)) =
      (chunksOf host opts doc').map (fun c => view (itemOf opts c)) := by
  rw [chunksOf_eq, chunksOf_eq, htext]
  refine ext_getElem? fun i => ?_
  simp only [List.getElem?_map, List.getElem?_mapIdx, Option.map_map]
  refine Option.map_congr fun span _ => ?_
  unfold view itemOf redacted chunkOf
  dsimp only [Function.comp_apply]
  split <;> simp only [hid, htext]

/-! ## What a store holds in the middle of `index` -/

/-- The store holds these chunks, and of what it held before the documents that are not gone. -/
structure Held (opts : RagIndexOptions) (S : VectorStore) (gone : List String)
    (flushed : List Chunk) (s : VectorStore) : Prop where
  keyed : s.Keyed
  mem : ∀ e, e ∈ s.values ↔
    e ∈ flushed.map (itemOf opts) ∨ e ∈ S.values ∧ e.chunk.docId ∉ gone

/-- Every entry has the id of its document and its number. -/
def Labelled (S : VectorStore) : Prop :=
  ∀ e ∈ S.values, e.id = chunkId e.chunk.docId e.chunk.index

/-- In the middle of a run: of the chunks `A` made so far some are flushed, the others pending. -/
structure Progress (opts : RagIndexOptions) (S : VectorStore) (gone : List String)
    (A : List Chunk) (s : Indexing) : Prop where
  all : s.allChunks = A
  held : ∃ flushed, A = flushed ++ s.pending ∧ Held opts S gone flushed s.store

/-- Chunks of documents that are gone from the old store, no id twice. -/
structure Fresh (gone : List String) (A : List Chunk) : Prop where
  nodup : (A.map (·.id)).Nodup
  labelled : ∀ c ∈ A, c.id = chunkId c.docId c.index ∧ c.docId ∈ gone

/-- Where a throwing run leaves the store: with some first chunks of the documents, and without
    the old chunks of some first documents. -/
structure Broken (host : Host) (opts : RagIndexOptions) (fails : Nat → Bool) (S : VectorStore)
    (docs : List RagDocument) (a : Aborted) : Prop where
  cause : (∃ n, fails n = true) ∨ ¬ Cuts opts
  held : ∃ gone flushed, (∀ id ∈ gone, id ∈ docs.map (·.id)) ∧
    (∀ c ∈ flushed, c.docId ∈ gone ∧ ∃ doc ∈ docs, c ∈ chunksOf host opts doc) ∧
    Held opts S gone flushed a.store

variable {S : VectorStore} {gone : List String} {A : List Chunk}

theorem flush_ends (hS : Labelled S) (hA : Fresh gone A) {s : Indexing}
    (hs : Progress opts S gone A s) :
    Ends (fun s' => Progress opts S gone A s' ∧ s'.pending = [])
      (fun a => (∃ n, fails n = true) ∧ ∃ flushed, flushed <+: A ∧
        Held opts S gone flushed a.store) (flush opts fails s) := by
  obtain ⟨flushed, hsplit, hheld⟩ := hs.held
  unfold flush
  split_ifs with hnone hfails
  · exact ⟨hs, List.isEmpty_iff.mp hnone⟩
  · exact ⟨⟨s.embeds, hfails⟩, flushed, ⟨s.pending, hsplit.symm⟩, hheld⟩
  · rw [VectorStore.add_eq _ fun it hit => by
      obtain ⟨c, -, rfl⟩ := mem_map.mp hit
      exact opts.embedder.length_vectorOf c.text]
    have hids : (s.pending.map (itemOf opts)).map (·.id) = s.pending.map (·.id) := by
      rw [map_map]
      rfl
    have hnodup := hA.nodup
    rw [hsplit, map_append] at hnodup
    refine ⟨⟨hs.all, A, (append_nil A).symm, hheld.keyed.setAll, fun e => ?_⟩, rfl⟩
    rw [hheld.keyed.mem_setAll (by rw [hids]; exact hnodup.of_append_right), hheld.mem, hsplit,
      map_append, mem_append, hids]
    constructor
    · rintro (hnew | ⟨hold | hrest, -⟩)
      · exact .inl (.inr hnew)
      · exact .inl (.inl hold)
      · exact .inr hrest
    · rintro ((hold | hnew) | hrest)
      · -- what was flushed has other ids than what is pending
        refine .inr ⟨.inl hold, fun hmem => ?_⟩
        obtain ⟨c, hc, rfl⟩ := mem_map.mp hold
        exact disjoint_of_nodup_append hnodup (mem_map_of_mem hc) hmem
      · exact .inl hnew
      · -- and so has what is left of the old store
        refine .inr ⟨.inr hrest, fun hmem => ?_⟩
        obtain ⟨c, hc, hid⟩ := mem_map.mp hmem
        obtain ⟨hlabel, hgone⟩ := hA.labelled c (by rw [hsplit]; exact mem_append_right _ hc)
        rw [hlabel, hS e hrest.1] at hid
        exact hrest.2 ((chunkId_inj hid).1 ▸ hgone)

theorem push_ends (hS : Labelled S) {c : Chunk} (hA : Fresh gone (A ++ [c])) {s : Indexing}
    (hs : Progress opts S gone A s) :
    Ends (Progress opts S gone (A ++ [c]))
      (fun a => (∃ n, fails n = true) ∧ ∃ flushed, flushed <+: A ++ [c] ∧
        Held opts S gone flushed a.store) (push opts fails s c) := by
  obtain ⟨flushed, hsplit, hheld⟩ := hs.held
  have hs' : Progress opts S gone (A ++ [c])
      { s with allChunks := s.allChunks ++ [c], pending := s.pending ++ [c] } :=
    ⟨by rw [hs.all], flushed, by rw [hsplit, append_assoc], hheld⟩
  unfold push
  dsimp only
  split_ifs
  · exact (flush_ends hS hA hs').mono (fun _ h => h.1) fun _ h => h
  · exact hs'

theorem Fresh.of_append {A B : List Chunk} (h : Fresh gone (A ++ B)) : Fresh gone A where
  nodup := by
    have := h.nodup
    rw [map_append] at this
    exact this.of_append_left
  labelled := fun c hc => h.labelled c (mem_append_left _ hc)

theorem Progress.delete {s : Indexing} (hs : Progress opts S gone A s) {d : String}
    (hd : ∀ c ∈ A, c.docId ≠ d) :
    Progress opts S (gone ++ [d]) A { s with store := (s.store.deleteByDoc d).2 } := by
  obtain ⟨flushed, hsplit, hheld⟩ := hs.held
  refine ⟨hs.all, flushed, hsplit, hheld.keyed.deleteByDoc d, fun e => ?_⟩
  rw [hheld.keyed.mem_deleteByDoc, hheld.mem, mem_append, mem_singleton]
  constructor
  · rintro ⟨hflushed | ⟨hold, hgone⟩, hne⟩
    · exact .inl hflushed
    · exact .inr ⟨hold, fun h => h.elim hgone hne⟩
  · rintro (hflushed | ⟨hold, hgone⟩)
    · refine ⟨.inl hflushed, ?_⟩
      obtain ⟨c, hc, rfl⟩ := mem_map.mp hflushed
      exact hd c (by rw [hsplit]; exact mem_append_left _ hc)
    · exact ⟨.inr ⟨hold, fun h => hgone (.inl h)⟩, fun h => hgone (.inr h)⟩

theorem fresh_chunks {docs : List RagDocument} (hdocs : (docs.map (·.id)).Nodup) :
    Fresh (docs.map (·.id)) (docs.flatMap (chunksOf host opts)) := by
  constructor
  · rw [map_flatMap, nodup_flatMap]
    refine ⟨fun doc _ => nodup_chunksOf doc, ?_⟩
    refine (pairwise_map.mp hdocs).imp fun {doc doc'} hne => ?_
    intro id hid hid'
    obtain ⟨c, hc, rfl⟩ := mem_map.mp hid
    obtain ⟨c', hc', heq⟩ := mem_map.mp hid'
    obtain ⟨hlabel, hdoc, -⟩ := mem_chunksOf hc
    obtain ⟨hlabel', hdoc', -⟩ := mem_chunksOf hc'
    rw [hlabel, hlabel'] at heq
    exact hne (hdoc ▸ hdoc' ▸ (chunkId_inj heq).1.symm)
  · intro c hc
    obtain ⟨doc, hdoc, hmem⟩ := mem_flatMap.mp hc
    obtain ⟨hlabel, hid, -⟩ := mem_chunksOf hmem
    exact ⟨hlabel, hid ▸ mem_map_of_mem hdoc⟩

theorem indexDoc_ends (hS : Labelled S) {docs : List RagDocument} {doc : RagDocument}
    {pre : List RagDocument} (hpre : pre ++ [doc] <+: docs) (hdocs : (docs.map (·.id)).Nodup)
    {s : Indexing} (hs : Progress opts S (pre.map (·.id)) (pre.flatMap (chunksOf host opts)) s) :
    Ends (Progress opts S ((pre ++ [doc]).map (·.id))
        ((pre ++ [doc]).flatMap (chunksOf host opts)))
      (Broken host opts fails S docs) (indexDoc host opts fails s doc) := by
  have hnodup : ((pre ++ [doc]).map (·.id)).Nodup :=
    hdocs.sublist (hpre.sublist.map _)
  have hfresh := @fresh_chunks host opts (pre ++ [doc]) hnodup
  have hdelete : Progress opts S ((pre ++ [doc]).map (·.id)) (pre.flatMap (chunksOf host opts))
      { s with store := (s.store.deleteByDoc doc.id).2 } := by
    rw [map_append]
    refine hs.delete fun c hc hid => ?_
    obtain ⟨doc', hdoc', hmem⟩ := mem_flatMap.mp hc
    rw [map_append] at hnodup
    refine disjoint_of_nodup_append hnodup (mem_map_of_mem hdoc') ?_
    rw [← (mem_chunksOf hmem).2.1, hid]
    exact mem_singleton.mpr rfl
  have hbroken : ∀ (a : Aborted) (flushed : List Chunk), ((∃ n, fails n = true) ∨ ¬ Cuts opts) →
      flushed <+: (pre ++ [doc]).flatMap (chunksOf host opts) →
      Held opts S ((pre ++ [doc]).map (·.id)) flushed a.store →
      Broken host opts fails S docs a := by
    intro a flushed hcause hflushed hheld
    refine ⟨hcause, _, flushed, fun id hid => ?_, fun c hc => ?_, hheld⟩
    · exact map_subset _ hpre.subset hid
    · have hmem := hflushed.subset hc
      obtain ⟨doc', hdoc', hmem'⟩ := mem_flatMap.mp hmem
      exact ⟨(hfresh.labelled c hmem).2, doc', hpre.subset hdoc', hmem'⟩
  rw [flatMap_append, flatMap_singleton] at hfresh hbroken ⊢
  unfold indexDoc
  dsimp only
  cases hchunks : chunkDocument doc opts.chunk with
  | error e =>
    obtain ⟨flushed, hsplit, hheld⟩ := hdelete.held
    refine hbroken _ flushed (Or.inr fun hcuts => ?_) ?_ hheld
    · obtain ⟨chunks, hok⟩ := chunkDocument_ok hcuts doc
      rw [hchunks] at hok
      nomatch hok
    · exact List.IsPrefix.trans ⟨_, hsplit.symm⟩ (prefix_append _ _)
  | ok chunks =>
    have hof : chunksOf host opts doc = chunks.map (redacted host opts) := by
      unfold chunksOf
      rw [hchunks]
    rw [hof] at hfresh hbroken ⊢
    refine Ends.foldlM (fun done s => Progress opts S ((pre ++ [doc]).map (·.id))
      (pre.flatMap (chunksOf host opts) ++ done) s) ?_ (by rw [append_nil]; exact hdelete)
    intro done c post s' hsplit hs'
    have hassoc : pre.flatMap (chunksOf host opts) ++ chunks.map (redacted host opts) =
        (pre.flatMap (chunksOf host opts) ++ done) ++ [c] ++ post := by
      rw [hsplit, append_assoc, append_assoc]
      rfl
    rw [hassoc] at hfresh hbroken
    rw [← append_assoc]
    refine (push_ends hS hfresh.of_append hs').mono (fun _ h => h) ?_
    rintro a ⟨hfails, flushed, hflushed, hheld⟩
    exact hbroken a flushed (Or.inl hfails) (hflushed.trans (prefix_append _ _)) hheld

/-- **What `index` leaves.**  The documents are in the store with all their chunks when it returns;
    some first chunks are when it throws. -/
theorem indexAll_ends (hS : Labelled S) (hkeyed : S.Keyed) {docs : List RagDocument}
    (hdocs : (docs.map (·.id)).Nodup) :
    Ends (fun s => s.allChunks = docs.flatMap (chunksOf host opts) ∧
        Held opts S (docs.map (·.id)) (docs.flatMap (chunksOf host opts)) s.store)
      (Broken host opts fails S docs) (indexAll host opts fails S docs) := by
  have hstart : Progress opts S [] [] { store := S } := by
    refine ⟨rfl, [], rfl, hkeyed, fun e => ?_⟩
    simp
  unfold indexAll
  refine Ends.bind (Ends.foldlM (fun pre s =>
    Progress opts S (pre.map (·.id)) (pre.flatMap (chunksOf host opts)) s) ?_ hstart) ?_
  · intro pre doc post s hsplit hs
    exact indexDoc_ends hS ⟨post, by rw [hsplit, append_assoc]; rfl⟩ hdocs hs
  · intro s hs
    refine (flush_ends hS (fresh_chunks hdocs) hs).mono ?_ ?_
    · rintro s' ⟨hs', hpending⟩
      obtain ⟨flushed, hsplit, hheld⟩ := hs'.held
      rw [hpending, append_nil] at hsplit
      exact ⟨hs'.all, hsplit ▸ hheld⟩
    · rintro a ⟨hfails, flushed, hflushed, hheld⟩
      refine ⟨.inl hfails, _, flushed, fun _ h => h, fun c hc => ?_, hheld⟩
      have hmem := hflushed.subset hc
      exact ⟨((fresh_chunks hdocs).labelled c hmem).2, mem_flatMap.mp hmem⟩

end NexusCode.Rag
