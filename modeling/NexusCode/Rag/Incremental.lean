/-
  Incremental indexing, one call at a time.

  A call is told by the hashes in the store which documents it may skip.  Every entry is one of a
  document whose hash it carries (`Stamped`), however many calls threw (`incremental_stamped`), and
  a call that returns leaves the new chunks of what it embedded and the old entries of what it
  skipped (`returned_store`).
-/
import NexusCode.Rag.Index

namespace NexusCode.Rag

open Lib List Bool

variable {host : Host} {opts : RagIndexOptions}

/-! ## What the hashes say -/

theorem get?_readHash_self (m : JsMap String String) (c : Chunk) :
    (readHash m c).get? c.docId = (m.get? c.docId).or (contentHash c) := by
  unfold readHash
  cases hm : m.get? c.docId with
  | some h => simp [hm]
  | none =>
    cases contentHash c with
    | none => simp [hm]
    | some h => simp

theorem get?_readHash_of_ne (m : JsMap String String) {c : Chunk} {d : String} (h : c.docId ≠ d) :
    (readHash m c).get? d = m.get? d := by
  unfold readHash
  split
  · rfl
  · split
    · exact JsMap.get?_set_of_ne _ _ h
    · rfl

/-- The hash read for a document is that of its first chunk that has one. -/
theorem get?_readHashes (d : String) : ∀ (cs : List Chunk) (m : JsMap String String),
    (cs.foldl readHash m).get? d = (m.get? d).or
      ((cs.find? fun c => c.docId == d && (contentHash c).isSome).bind contentHash)
  | [], m => by simp
  | c :: cs, m => by
    rw [foldl_cons, get?_readHashes d cs, List.find?_cons]
    by_cases hc : c.docId = d
    · subst hc
      rw [get?_readHash_self, beq_self_eq_true, Bool.true_and]
      cases hh : contentHash c with
      | none => simp
      | some h => cases m.get? c.docId <;> simp [hh]
    · rw [get?_readHash_of_ne m hc, beq_false_of_ne hc]
      rfl

/-- Every entry belongs to a document whose hash it carries, and the entries of one document agree
    on the hash. -/
structure Stamped (host : Host) (opts : RagIndexOptions) (s : VectorStore) : Prop where
  keyed : s.Keyed
  made : ∀ e ∈ s.values, ∃ doc, e ∈ (chunksOf host opts (stamp host doc)).map (itemOf opts)
  agreed : ∀ e ∈ s.values, ∀ e' ∈ s.values, e.chunk.docId = e'.chunk.docId →
    contentHash e.chunk = contentHash e'.chunk

theorem contentHash_stamp {doc : RagDocument} {c : Chunk}
    (h : c.chunkMeta = (stamp host doc).docMeta) : contentHash c = some (host.sha256 doc.text) := by
  unfold contentHash
  rw [h]
  simp [stamp]

theorem mem_stamped {doc : RagDocument} {e : VectorItem}
    (h : e ∈ (chunksOf host opts (stamp host doc)).map (itemOf opts)) :
    e.chunk.docId = doc.id ∧ e.id = chunkId e.chunk.docId e.chunk.index ∧
      contentHash e.chunk = some (host.sha256 doc.text) := by
  obtain ⟨c, hc, rfl⟩ := mem_map.mp h
  obtain ⟨hid, hdoc, hmeta⟩ := mem_chunksOf hc
  exact ⟨hdoc, hid, contentHash_stamp hmeta⟩

theorem stamped_empty : Stamped host opts JsMap.empty :=
  ⟨VectorStore.keyed_empty, fun _ => nofun, fun _ => nofun⟩

namespace Stamped

variable {S : VectorStore}

theorem labelled (hS : Stamped host opts S) : Labelled S := by
  intro e he
  obtain ⟨doc, hdoc⟩ := hS.made e he
  exact (mem_stamped hdoc).2.1

theorem get?_storedHash (hS : Stamped host opts S) (d h : String) :
    (storedHash S.chunks).get? d = some h ↔
      ∃ e ∈ S.values, e.chunk.docId = d ∧ contentHash e.chunk = some h := by
  unfold storedHash
  rw [get?_readHashes, JsMap.get?_empty, Option.none_or, Option.bind_eq_some_iff]
  constructor
  · rintro ⟨c, hc, hh⟩
    obtain ⟨e, he, rfl⟩ := mem_map.mp (mem_of_find?_eq_some hc)
    have hfound := List.find?_some hc
    rw [and_eq_true, beq_iff_eq] at hfound
    exact ⟨e, he, hfound.1, hh⟩
  · rintro ⟨e, he, hdoc, hh⟩
    have hmem : e.chunk ∈ S.chunks := mem_map_of_mem he
    cases hfind : S.chunks.find? fun c => c.docId == d && (contentHash c).isSome with
    | none =>
      have := List.find?_eq_none.mp hfind e.chunk hmem
      rw [hdoc, hh] at this
      simp at this
    | some c =>
      refine ⟨c, rfl, ?_⟩
      obtain ⟨e', he', rfl⟩ := mem_map.mp (mem_of_find?_eq_some hfind)
      have hfound := List.find?_some hfind
      rw [and_eq_true, beq_iff_eq] at hfound
      rw [← hh]
      exact hS.agreed e' he' e he (hfound.1.trans hdoc.symm)

theorem mem_keys (hS : Stamped host opts S) (d : String) :
    d ∈ (storedHash S.chunks).keys ↔ ∃ e ∈ S.values, e.chunk.docId = d := by
  rw [JsMap.mem_keys]
  constructor
  · rintro ⟨h, hget⟩
    obtain ⟨e, he, hdoc, -⟩ := (hS.get?_storedHash d h).mp hget
    exact ⟨e, he, hdoc⟩
  · rintro ⟨e, he, hdoc⟩
    obtain ⟨doc, hmade⟩ := hS.made e he
    exact ⟨_, (hS.get?_storedHash d _).mpr ⟨e, he, hdoc, (mem_stamped hmade).2.2⟩⟩

theorem isUnchanged_iff (hS : Stamped host opts S) (doc : RagDocument) :
    isUnchanged host (storedHash S.chunks) doc = true ↔
      ∃ e ∈ S.values, e.chunk.docId = doc.id ∧
        contentHash e.chunk = some (host.sha256 doc.text) := by
  unfold isUnchanged
  rw [beq_iff_eq]
  exact hS.get?_storedHash doc.id _

theorem of_subset (hS : Stamped host opts S) {s : VectorStore} (hkeyed : s.Keyed)
    (hsub : ∀ e ∈ s.values, e ∈ S.values) : Stamped host opts s :=
  ⟨hkeyed, fun e he => hS.made e (hsub e he),
    fun e he e' he' => hS.agreed e (hsub e he) e' (hsub e' he')⟩

/-- **In the middle of a run of `index`** over stamped documents. -/
theorem of_held (hS : Stamped host opts S) {docs : List RagDocument}
    (hdocs : (docs.map (·.id)).Nodup) {gone : List String} {flushed : List Chunk}
    (hflushed : ∀ c ∈ flushed, c.docId ∈ gone ∧
      ∃ doc ∈ docs, c ∈ chunksOf host opts (stamp host doc))
    {s : VectorStore} (hs : Held opts S gone flushed s) : Stamped host opts s := by
  have hcases : ∀ e ∈ s.values, (e ∈ S.values ∧ e.chunk.docId ∉ gone) ∨
      e.chunk.docId ∈ gone ∧ ∃ doc ∈ docs,
        e ∈ (chunksOf host opts (stamp host doc)).map (itemOf opts) := by
    intro e he
    rcases (hs.mem e).mp he with hnew | hold
    · obtain ⟨c, hc, rfl⟩ := mem_map.mp hnew
      obtain ⟨hgone, doc, hdoc, hmem⟩ := hflushed c hc
      exact .inr ⟨hgone, doc, hdoc, mem_map_of_mem hmem⟩
    · exact .inl hold
  refine ⟨hs.keyed, fun e he => ?_, fun e he e' he' hsame => ?_⟩
  · rcases hcases e he with ⟨hold, -⟩ | ⟨-, doc, -, hmade⟩
    · exact hS.made e hold
    · exact ⟨doc, hmade⟩
  · rcases hcases e he with ⟨hold, hkept⟩ | ⟨hgone, doc, hdoc, hmade⟩ <;>
      rcases hcases e' he' with ⟨hold', hkept'⟩ | ⟨hgone', doc', hdoc', hmade'⟩
    · exact hS.agreed e hold e' hold' hsame
    · exact absurd (hsame ▸ hgone') hkept
    · exact absurd (hsame ▸ hgone) hkept'
    · obtain ⟨hid, -, hhash⟩ := mem_stamped hmade
      obtain ⟨hid', -, hhash'⟩ := mem_stamped hmade'
      have heq : doc = doc' :=
        inj_on_of_nodup_map hdocs hdoc hdoc' (hid.symm.trans (hsame.trans hid'))
      rw [hhash, hhash', heq]

end Stamped

/-! ## Pruning -/

theorem remove_store (ix : RagIndex) (d : String) :
    (remove ix d).2.store = (ix.store.deleteByDoc d).2 := rfl

theorem remove_dirty (ix : RagIndex) (d : String) :
    (remove ix d).2.bm25Dirty = (ix.bm25Dirty || decide (0 < (ix.store.deleteByDoc d).1)) := rfl

theorem pruneAll_of_mem {seen : List String} {d : String} (ix : RagIndex) (keys : List String)
    (h : d ∈ seen) : pruneAll seen ix (d :: keys) = pruneAll seen ix keys := by
  rw [pruneAll, if_pos h]

theorem pruneAll_of_notMem {seen : List String} {d : String} (ix : RagIndex) (keys : List String)
    (h : d ∉ seen) :
    (pruneAll seen ix (d :: keys)).2 = (pruneAll seen (remove ix d).2 keys).2 := by
  rw [pruneAll, if_neg h]

theorem pruneAll_idle {seen : List String} (ix : RagIndex) : ∀ {keys : List String},
    (∀ d ∈ keys, d ∈ seen) → pruneAll seen ix keys = ([], ix)
  | [], _ => rfl
  | d :: keys, h => by
    rw [pruneAll_of_mem ix keys (h d mem_cons_self)]
    exact pruneAll_idle ix fun d' hd' => h d' (mem_cons_of_mem _ hd')

theorem pruneAll_store {seen : List String} : ∀ {keys : List String} {ix : RagIndex},
    ix.store.Keyed → (pruneAll seen ix keys).2.store.Keyed ∧
      ∀ e, e ∈ (pruneAll seen ix keys).2.store.values ↔
        e ∈ ix.store.values ∧ (e.chunk.docId ∈ keys → e.chunk.docId ∈ seen)
  | [], ix, h => ⟨h, fun e => by simp [pruneAll]⟩
  | d :: keys, ix, h => by
    by_cases hd : d ∈ seen
    · rw [pruneAll_of_mem ix keys hd]
      obtain ⟨hkeyed, hmem⟩ := @pruneAll_store seen keys _ h
      refine ⟨hkeyed, fun e => (hmem e).trans ?_⟩
      grind
    · rw [pruneAll_of_notMem ix keys hd]
      have hremove : (remove ix d).2.store.Keyed := h.deleteByDoc d
      obtain ⟨hkeyed, hmem⟩ := @pruneAll_store seen keys _ hremove
      refine ⟨hkeyed, fun e => (hmem e).trans ?_⟩
      rw [remove_store, h.mem_deleteByDoc]
      grind

theorem pruneAll_bm25 {seen : List String} : ∀ {keys : List String} {ix : RagIndex},
    (pruneAll seen ix keys).2.bm25 = ix.bm25 ∧
      (ix.bm25Dirty = true → (pruneAll seen ix keys).2.bm25Dirty = true)
  | [], ix => ⟨rfl, fun h => h⟩
  | d :: keys, ix => by
    by_cases hd : d ∈ seen
    · rw [pruneAll_of_mem ix keys hd]
      exact pruneAll_bm25
    · rw [pruneAll_of_notMem ix keys hd]
      obtain ⟨hbm25, hdirty⟩ := @pruneAll_bm25 seen keys (remove ix d).2
      refine ⟨hbm25, fun h => hdirty ?_⟩
      rw [remove_dirty, h, Bool.true_or]

/-- **Pruning marks the keyword index** when it finds anything to remove. -/
theorem pruneAll_dirty {seen : List String} : ∀ {keys : List String} {ix : RagIndex},
    ix.store.Keyed → (∃ d ∈ keys, d ∉ seen ∧ ∃ e ∈ ix.store.values, e.chunk.docId = d) →
      (pruneAll seen ix keys).2.bm25Dirty = true
  | [], _, _, ⟨_, h, _⟩ => nomatch h
  | d :: keys, ix, hkeyed, ⟨d', hd', hseen, e, he, hdoc⟩ => by
    by_cases hd : d ∈ seen
    · rw [pruneAll_of_mem ix keys hd]
      refine pruneAll_dirty hkeyed ⟨d', ?_, hseen, e, he, hdoc⟩
      exact (mem_cons.mp hd').resolve_left fun heq => hseen (heq ▸ hd)
    · rw [pruneAll_of_notMem ix keys hd]
      by_cases heq : d' = d
      · refine pruneAll_bm25.2 ?_
        rw [remove_dirty, (decide_eq_true ((hkeyed.deleteByDoc_pos d).mpr ⟨e, he, hdoc.trans heq⟩)),
          Bool.or_true]
      · refine pruneAll_dirty (hkeyed.deleteByDoc d) ⟨d', ?_, hseen, e, ?_, hdoc⟩
        · exact (mem_cons.mp hd').resolve_left heq
        · exact (hkeyed.mem_deleteByDoc d e).mpr ⟨he, fun h => heq (hdoc.symm.trans h)⟩

/-! ## One call -/

section Call

variable (host : Host) (ix : RagIndex) (docs : List RagDocument)

/-- The documents a call embeds. -/
def changedDocs : List RagDocument :=
  docs.filter fun doc => !isUnchanged host (storedHash ix.store.chunks) doc

/-- The index after pruning. -/
def prunedIndex : RagIndex :=
  (pruneAll (docs.map (·.id)) ix (storedHash ix.store.chunks).keys).2

/-- Nothing is to be embedded and nothing to be removed. -/
def Idle : Prop :=
  (∀ doc ∈ docs, isUnchanged host (storedHash ix.store.chunks) doc = true) ∧
    ∀ id ∈ (storedHash ix.store.chunks).keys, id ∈ docs.map (·.id)

end Call

variable {fails : Nat → Bool} {ix : RagIndex} {docs : List RagDocument}

/-- **What a call does**: it has nothing to embed, or `index` returns, or `index` throws. -/
theorem incremental_cases :
    (changedDocs host ix docs = [] ∧
      (∃ result, (incrementalIndex host opts fails ix docs true).1 = .ok result) ∧
      (incrementalIndex host opts fails ix docs true).2 = prunedIndex ix docs) ∨
    (changedDocs host ix docs ≠ [] ∧
      (∃ result, (incrementalIndex host opts fails ix docs true).1 = .ok result) ∧
      ∃ s, indexAll host opts fails (prunedIndex ix docs).store
          ((changedDocs host ix docs).map (stamp host)) = .ok s ∧
        (incrementalIndex host opts fails ix docs true).2 =
          { prunedIndex ix docs with store := s.store, bm25Dirty := true }) ∨
    ((∃ error, (incrementalIndex host opts fails ix docs true).1 = .error error) ∧
      ∃ a, indexAll host opts fails (prunedIndex ix docs).store
          ((changedDocs host ix docs).map (stamp host)) = .error a ∧
        (incrementalIndex host opts fails ix docs true).2 =
          { prunedIndex ix docs with store := a.store }) := by
  have hrun : incrementalIndex host opts fails ix docs true =
      if (changedDocs host ix docs).isEmpty then
        (.ok ⟨(changedDocs host ix docs).map (·.id),
          (docs.filter (isUnchanged host (storedHash ix.store.chunks))).map (·.id),
          (pruneAll (docs.map (·.id)) ix (storedHash ix.store.chunks).keys).1⟩,
          prunedIndex ix docs)
      else _ := rfl
  rw [hrun]
  by_cases hnone : changedDocs host ix docs = []
  · rw [if_pos (List.isEmpty_iff.mpr hnone)]
    exact .inl ⟨hnone, ⟨_, rfl⟩, rfl⟩
  · rw [if_neg (fun h => hnone (List.isEmpty_iff.mp h))]
    cases hindex : indexAll host opts fails (prunedIndex ix docs).store
        ((changedDocs host ix docs).map (stamp host)) with
    | ok s =>
      have hreturns := congrArg (Except.map fun s : Indexing =>
        (s.allChunks, { prunedIndex ix docs with store := s.store, bm25Dirty := true })) hindex
      change index host opts fails _ _ = _ at hreturns
      erw [hreturns]
      exact .inr (.inl ⟨hnone, ⟨_, rfl⟩, s, rfl, rfl⟩)
    | error a =>
      have hthrows := congrArg (Except.map fun s : Indexing =>
        (s.allChunks, { prunedIndex ix docs with store := s.store, bm25Dirty := true })) hindex
      change index host opts fails _ _ = _ at hthrows
      erw [hthrows]
      exact .inr (.inr ⟨⟨_, rfl⟩, a, rfl, rfl⟩)

section Step

variable (hstamped : Stamped host opts ix.store) (hdocs : (docs.map (·.id)).Nodup)

include hdocs in
theorem changed_nodup : (((changedDocs host ix docs).map (stamp host)).map (·.id)).Nodup := by
  rw [map_map]
  exact hdocs.sublist (List.filter_sublist.map _)

include hstamped in
theorem pruned_store : (prunedIndex ix docs).store.Keyed ∧
    ∀ e, e ∈ (prunedIndex ix docs).store.values ↔
      e ∈ ix.store.values ∧ e.chunk.docId ∈ docs.map (·.id) := by
  obtain ⟨hkeyed, hmem⟩ := @pruneAll_store (docs.map (·.id)) (storedHash ix.store.chunks).keys ix
    hstamped.keyed
  refine ⟨hkeyed, fun e => (hmem e).trans (and_congr_right fun he => ?_)⟩
  have hkey := (hstamped.mem_keys e.chunk.docId).mpr ⟨e, he, rfl⟩
  exact ⟨fun h => h hkey, fun h _ => h⟩

include hstamped in
theorem pruned_stamped : Stamped host opts (prunedIndex ix docs).store := by
  obtain ⟨hkeyed, hmem⟩ := @pruned_store host opts ix docs hstamped
  exact hstamped.of_subset hkeyed fun e he => ((hmem e).mp he).1

include hstamped hdocs in
theorem indexed_ends : Ends
    (fun s => Held opts (prunedIndex ix docs).store ((changedDocs host ix docs).map (·.id))
      (((changedDocs host ix docs).map (stamp host)).flatMap (chunksOf host opts)) s.store)
    (Broken host opts fails (prunedIndex ix docs).store
      ((changedDocs host ix docs).map (stamp host)))
    (indexAll host opts fails (prunedIndex ix docs).store
      ((changedDocs host ix docs).map (stamp host))) := by
  have hpruned := @pruned_stamped host opts ix docs hstamped
  refine (indexAll_ends hpruned.labelled hpruned.keyed (changed_nodup hdocs)).mono ?_ fun _ h => h
  rintro s ⟨-, hheld⟩
  rwa [map_map] at hheld

include hstamped hdocs in
/-- **Whatever happens**, the entries stay those of documents whose hash they carry. -/
theorem incremental_stamped :
    Stamped host opts (incrementalIndex host opts fails ix docs true).2.store := by
  have hpruned := @pruned_stamped host opts ix docs hstamped
  have hends := @indexed_ends host opts fails ix docs hstamped hdocs
  have hchanged : ((changedDocs host ix docs).map (·.id)).Nodup :=
    hdocs.sublist (List.filter_sublist.map _)
  rcases @incremental_cases host opts fails ix docs with
    ⟨-, -, hleft⟩ | ⟨-, -, s, hs, hleft⟩ | ⟨-, a, ha, hleft⟩
  · rw [hleft]
    exact hpruned
  · rw [hleft]
    rw [hs] at hends
    refine hpruned.of_held hchanged (fun c hc => ?_) hends
    rw [flatMap_map] at hc
    obtain ⟨doc, hdoc, hmem⟩ := mem_flatMap.mp hc
    refine ⟨?_, doc, hdoc, hmem⟩
    rw [(mem_chunksOf hmem).2.1]
    show doc.id ∈ _
    exact mem_map_of_mem hdoc
  · rw [hleft]
    rw [ha] at hends
    obtain ⟨gone, flushed, -, hflushed, hheld⟩ := hends.held
    refine hpruned.of_held hchanged (fun c hc => ?_) hheld
    obtain ⟨hgone, doc, hdoc, hmem⟩ := hflushed c hc
    obtain ⟨doc', hdoc', rfl⟩ := mem_map.mp hdoc
    exact ⟨hgone, doc', hdoc', hmem⟩

include hstamped hdocs in
theorem returned_store {result : IncrementalIndexResult}
    (hret : (incrementalIndex host opts fails ix docs true).1 = .ok result) (e : VectorItem) :
    e ∈ (incrementalIndex host opts fails ix docs true).2.store.values ↔
      (∃ doc ∈ docs, isUnchanged host (storedHash ix.store.chunks) doc = false ∧
        e ∈ (chunksOf host opts (stamp host doc)).map (itemOf opts)) ∨
      (∃ doc ∈ docs, isUnchanged host (storedHash ix.store.chunks) doc = true ∧
        e ∈ ix.store.values ∧ e.chunk.docId = doc.id) := by
  obtain ⟨-, hmem⟩ := @pruned_store host opts ix docs hstamped
  have hends := @indexed_ends host opts fails ix docs hstamped hdocs
  have hchanged : ∀ doc, doc ∈ changedDocs host ix docs ↔
      doc ∈ docs ∧ isUnchanged host (storedHash ix.store.chunks) doc = false := by
    intro doc
    unfold changedDocs
    rw [mem_filter, not_eq_true']
  rcases @incremental_cases host opts fails ix docs with
    ⟨hnone, -, hleft⟩ | ⟨-, -, s, hs, hleft⟩ | ⟨⟨error, herror⟩, -⟩
  · have hall : ∀ doc ∈ docs, isUnchanged host (storedHash ix.store.chunks) doc = true := by
      intro doc hdoc
      by_contra hnot
      have := (hchanged doc).mpr ⟨hdoc, eq_false_iff.mpr hnot⟩
      rw [hnone] at this
      nomatch this
    rw [hleft, hmem, or_iff_right]
    · constructor
      · rintro ⟨he, hid⟩
        obtain ⟨doc, hdoc, hid⟩ := mem_map.mp hid
        exact ⟨doc, hdoc, hall doc hdoc, he, hid.symm⟩
      · rintro ⟨doc, hdoc, -, he, hid⟩
        exact ⟨he, hid ▸ mem_map_of_mem hdoc⟩
    · rintro ⟨doc, hdoc, hnot, -⟩
      rw [hall doc hdoc] at hnot
      nomatch hnot
  · rw [hs] at hends
    rw [hleft]
    refine (hends.mem e).trans (or_congr ?_ ?_)
    · rw [flatMap_map]
      constructor
      · intro he
        obtain ⟨c, hc, rfl⟩ := mem_map.mp he
        obtain ⟨doc, hdoc, hmade⟩ := mem_flatMap.mp hc
        obtain ⟨hin, hnot⟩ := (hchanged doc).mp hdoc
        exact ⟨doc, hin, hnot, mem_map_of_mem hmade⟩
      · rintro ⟨doc, hin, hnot, he⟩
        obtain ⟨c, hc, rfl⟩ := mem_map.mp he
        exact mem_map_of_mem (mem_flatMap.mpr ⟨doc, (hchanged doc).mpr ⟨hin, hnot⟩, hc⟩)
    · rw [hmem]
      constructor
      · rintro ⟨⟨he, hid⟩, hkept⟩
        obtain ⟨doc, hdoc, hid⟩ := mem_map.mp hid
        refine ⟨doc, hdoc, ?_, he, hid.symm⟩
        by_contra hnot
        refine hkept ?_
        rw [← hid]
        exact mem_map_of_mem ((hchanged doc).mpr ⟨hdoc, eq_false_iff.mpr hnot⟩)
      · rintro ⟨doc, hdoc, hsame, he, hid⟩
        refine ⟨⟨he, hid ▸ mem_map_of_mem hdoc⟩, fun hkept => ?_⟩
        obtain ⟨doc', hdoc', hid'⟩ := mem_map.mp hkept
        obtain ⟨hin', hnot⟩ := (hchanged doc').mp hdoc'
        have heq := inj_on_of_nodup_map hdocs hin' hdoc (hid'.trans hid)
        rw [heq, hsame] at hnot
        nomatch hnot
  · rw [hret] at herror
    nomatch herror

include hstamped in
theorem returned_cuts {result : IncrementalIndexResult}
    (hret : (incrementalIndex host opts fails ix docs true).1 = .ok result) (hne : docs ≠ []) :
    Cuts opts := by
  rcases @incremental_cases host opts fails ix docs with
    ⟨hnone, -, -⟩ | ⟨hsome, -, s, hs, -⟩ | ⟨⟨error, herror⟩, -⟩
  · obtain ⟨doc, hdoc⟩ := exists_mem_of_ne_nil docs hne
    have hsame : isUnchanged host (storedHash ix.store.chunks) doc = true := by
      by_contra hnot
      have hmem : doc ∈ changedDocs host ix docs :=
        mem_filter.mpr ⟨hdoc, by rw [eq_false_iff.mpr hnot]; rfl⟩
      rw [hnone] at hmem
      nomatch hmem
    obtain ⟨e, he, -⟩ := (hstamped.isUnchanged_iff doc).mp hsame
    obtain ⟨doc', hmade⟩ := hstamped.made e he
    obtain ⟨c, hc, -⟩ := mem_map.mp hmade
    exact cuts_of_mem hc
  · -- the first changed document was cut
    cases hlist : changedDocs host ix docs with
    | nil => exact absurd hlist hsome
    | cons doc rest =>
      rw [hlist] at hs
      unfold indexAll at hs
      rw [map_cons, foldlM_cons] at hs
      obtain ⟨s₁, hs₁, -⟩ := bind_ok hs
      obtain ⟨s₂, hs₂, -⟩ := bind_ok hs₁
      unfold indexDoc at hs₂
      cases hcut : chunkDocument (stamp host doc) opts.chunk with
      | ok chunks => exact cuts_of_ok hcut
      | error e =>
        rw [hcut] at hs₂
        nomatch hs₂
  · rw [hret] at herror
    nomatch herror

end Step

end NexusCode.Rag
