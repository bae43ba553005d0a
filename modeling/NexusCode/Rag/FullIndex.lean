/-
  Incremental indexing against full indexing.

  A run is a sequence of incremental calls with `prune` and of queries, on one index.

  * `incremental_full_iff` — every call that returns leaves the chunks of a fresh index, and a
                             keyword index of them, exactly as long as no call skips a document
                             that is in the store with some of its chunks only, and none that finds
                             nothing to do meets a keyword index older than the store;
  * `half_a_document`      — an embed call throws between the chunks of one document.
-/
import NexusCode.Lib.Machine
import NexusCode.Rag.Incremental

namespace NexusCode.Rag

open Lib List

section Runs

variable {host : Host} {opts : RagIndexOptions} {fails : Nat → Bool} {ix : RagIndex}
  {docs : List RagDocument}

/-! ## Fresh indexes -/

/-- What is stored of a document, as a query reads it. -/
def viewsOf (host : Host) (opts : RagIndexOptions) (doc : RagDocument) :
    List (String × Text × List JsNumber) :=
  (chunksOf host opts doc).map fun c => view (itemOf opts c)

theorem viewsOf_congr {doc doc' : RagDocument} (hid : doc.id = doc'.id)
    (htext : doc.text = doc'.text) : viewsOf host opts doc = viewsOf host opts doc' :=
  view_chunksOf hid htext

theorem mem_viewsOf {doc : RagDocument} {e : VectorItem}
    (h : e ∈ (chunksOf host opts doc).map (itemOf opts)) : view e ∈ viewsOf host opts doc := by
  obtain ⟨c, hc, rfl⟩ := mem_map.mp h
  exact mem_map_of_mem (f := fun c => view (itemOf opts c)) hc

theorem nodup_views {s : VectorStore} (hs : s.Keyed) : (s.values.map view).Nodup := by
  have hids : (s.values.map view).map Prod.fst = s.keys := by
    rw [map_map]
    unfold JsMap.values JsMap.keys
    rw [map_map]
    refine map_congr_left fun e he => ?_
    exact hs e.1 e.2 ((JsMap.mem_entries s e.1 e.2).mp he)
  have hnodup : ((s.values.map view).map Prod.fst).Nodup := hids ▸ s.nodup
  exact hnodup.of_map

/-- **A fresh index** of documents that can be cut, built without a failing embed call. -/
theorem fresh_index (hcuts : docs ≠ [] → Cuts opts) (hdocs : (docs.map (·.id)).Nodup) :
    ∃ full, index host opts (fun _ => false) {} docs = .ok full ∧ full.2.store.Keyed ∧
      ∀ v, v ∈ full.2.store.values.map view ↔ ∃ doc ∈ docs, v ∈ viewsOf host opts doc := by
  have hends := @indexAll_ends host opts (fun _ => false) JsMap.empty
    (fun _ => nofun) VectorStore.keyed_empty docs hdocs
  unfold index
  cases hrun : indexAll host opts (fun _ => false) JsMap.empty docs with
  | error a =>
    exfalso
    rw [hrun] at hends
    rcases hends.cause with ⟨n, hn⟩ | hbad
    · nomatch hn
    · cases docs with
      | nil => nomatch hrun
      | cons doc rest => exact hbad (hcuts (cons_ne_nil _ _))
  | ok s =>
    rw [hrun] at hends
    obtain ⟨-, hheld⟩ := hends
    refine ⟨_, rfl, hheld.keyed, fun v => ?_⟩
    constructor
    · intro hv
      obtain ⟨e, he, rfl⟩ := mem_map.mp hv
      rcases (hheld.mem e).mp he with hnew | ⟨hold, -⟩
      · obtain ⟨c, hc, rfl⟩ := mem_map.mp hnew
        obtain ⟨doc, hdoc, hmem⟩ := mem_flatMap.mp hc
        exact ⟨doc, hdoc, mem_viewsOf (mem_map_of_mem hmem)⟩
      · nomatch hold
    · rintro ⟨doc, hdoc, hv⟩
      obtain ⟨c, hc, rfl⟩ := mem_map.mp hv
      refine mem_map_of_mem ((hheld.mem _).mpr (Or.inl (mem_map_of_mem ?_)))
      exact mem_flatMap.mpr ⟨doc, hdoc, hc⟩

/-! ## Incremental and full indexing -/

section Statements

variable (host : Host) (opts : RagIndexOptions)

/-- The store is that of a fresh index of the documents, and the next query scores its chunks. -/
def MatchesFull (docs : List RagDocument) (ix : RagIndex) : Prop :=
  (∃ full, index host opts (fun _ => false) {} docs = .ok full ∧
    (ix.store.values.map view).Perm (full.2.store.values.map view)) ∧
  (ensureBm25 host ix).bm25 = Bm25Index.rebuild host.toLowerCase ix.store.chunks

/-- Every document whose hash is in the store is there with all its chunks, and the keyword index
    is not older than the store when there is nothing to do. -/
structure Trustworthy (ix : RagIndex) (docs : List RagDocument) : Prop where
  whole : ∀ doc ∈ docs, isUnchanged host (storedHash ix.store.chunks) doc = true →
    ∀ c ∈ chunksOf host opts doc, (ix.store.get? c.id).isSome
  current : Idle host ix docs → ix.bm25Dirty = true ∨
    ix.bm25 = Bm25Index.rebuild host.toLowerCase ix.store.chunks

/-- What is asked of an index. -/
inductive Request where
  | incrementalIndex (docs : List RagDocument) (fails : Nat → Bool)
  | query

/-- One index under requests. -/
def ragMachine : Machine RagIndex Request (Option (Except IndexError IncrementalIndexResult)) where
  step ix
    | .incrementalIndex docs fails =>
      let (result, ix') := incrementalIndex host opts fails ix docs true
      (some result, ix')
    | .query => (none, ensureBm25 host ix)

/-- A call that returns leaves what a fresh index has. -/
def ReturnsFull (ix : RagIndex) : Request → Prop
  | .incrementalIndex docs fails =>
    (∃ result, (incrementalIndex host opts fails ix docs true).1 = .ok result) →
      MatchesFull host opts docs (incrementalIndex host opts fails ix docs true).2
  | .query => True

/-- A call that returns met a store it could trust. -/
def MetTrustworthy (ix : RagIndex) : Request → Prop
  | .incrementalIndex docs fails =>
    (∃ result, (incrementalIndex host opts fails ix docs true).1 = .ok result) →
      Trustworthy host opts ix docs
  | .query => True

end Statements

theorem ensureBm25_of_dirty (h : ix.bm25Dirty = true) :
    (ensureBm25 host ix).bm25 = Bm25Index.rebuild host.toLowerCase ix.store.chunks := by
  unfold ensureBm25
  rw [if_pos h]

theorem ensureBm25_store : (ensureBm25 host ix).store = ix.store := by
  unfold ensureBm25
  split <;> rfl

theorem changed_of_idle (hidle : Idle host ix docs) : changedDocs host ix docs = [] := by
  refine filter_eq_nil_iff.mpr fun doc hdoc => ?_
  rw [hidle.1 doc hdoc]
  exact Bool.false_ne_true

theorem idle_returns (hidle : Idle host ix docs) :
    ∃ result, (incrementalIndex host opts fails ix docs true).1 = .ok result := by
  rcases @incremental_cases host opts fails ix docs with
    ⟨-, hret, -⟩ | ⟨hsome, -⟩ | ⟨-, a, ha, -⟩
  · exact hret
  · exact absurd (changed_of_idle hidle) hsome
  · rw [changed_of_idle hidle] at ha
    nomatch ha

theorem idle_unchanged (hidle : Idle host ix docs) :
    (incrementalIndex host opts fails ix docs true).2 = ix := by
  have hpruned : prunedIndex ix docs = ix := by
    unfold prunedIndex
    rw [pruneAll_idle ix hidle.2]
  rcases @incremental_cases host opts fails ix docs with
    ⟨-, -, hleft⟩ | ⟨hsome, -⟩ | ⟨-, a, ha, -⟩
  · rw [hleft, hpruned]
  · exact absurd (changed_of_idle hidle) hsome
  · rw [changed_of_idle hidle] at ha
    nomatch ha

section Step

variable (hstamped : Stamped host opts ix.store) (hdocs : (docs.map (·.id)).Nodup)

include hstamped in
/-- A call that returns and found something to do marks the keyword index. -/
theorem returned_dirty {result : IncrementalIndexResult}
    (hret : (incrementalIndex host opts fails ix docs true).1 = .ok result)
    (hbusy : ¬ Idle host ix docs) :
    (incrementalIndex host opts fails ix docs true).2.bm25Dirty = true := by
  rcases @incremental_cases host opts fails ix docs with
    ⟨hnone, -, hleft⟩ | ⟨-, -, s, -, hleft⟩ | ⟨⟨error, herror⟩, -⟩
  · rw [hleft]
    have hall : ∀ doc ∈ docs, isUnchanged host (storedHash ix.store.chunks) doc = true := by
      intro doc hdoc
      have := filter_eq_nil_iff.mp hnone doc hdoc
      simpa using this
    have hextra : ∃ id ∈ (storedHash ix.store.chunks).keys, id ∉ docs.map (·.id) := by
      by_contra hno
      push Not at hno
      exact hbusy ⟨hall, hno⟩
    obtain ⟨id, hkey, hseen⟩ := hextra
    obtain ⟨e, he, hdoc⟩ := (hstamped.mem_keys id).mp hkey
    exact pruneAll_dirty hstamped.keyed ⟨id, hkey, hseen, e, he, hdoc⟩
  · rw [hleft]
  · rw [hret] at herror
    nomatch herror

include hstamped in
theorem keywords_iff {result : IncrementalIndexResult}
    (hret : (incrementalIndex host opts fails ix docs true).1 = .ok result) :
    (ensureBm25 host (incrementalIndex host opts fails ix docs true).2).bm25 =
        Bm25Index.rebuild host.toLowerCase
          (incrementalIndex host opts fails ix docs true).2.store.chunks ↔
      (Idle host ix docs → ix.bm25Dirty = true ∨
        ix.bm25 = Bm25Index.rebuild host.toLowerCase ix.store.chunks) := by
  by_cases hidle : Idle host ix docs
  · rw [idle_unchanged hidle, imp_iff_right hidle]
    unfold ensureBm25
    by_cases hdirty : ix.bm25Dirty = true
    · rw [if_pos hdirty]
      exact iff_of_true rfl (Or.inl hdirty)
    · rw [if_neg hdirty, or_iff_right hdirty]
  · exact iff_of_true (ensureBm25_of_dirty (returned_dirty hstamped hret hidle))
      fun h => absurd h hidle

include hstamped hdocs in
/-- The views a call leaves that returned are views of its documents. -/
theorem returned_views (hsha : Function.Injective host.sha256) {result : IncrementalIndexResult}
    (hret : (incrementalIndex host opts fails ix docs true).1 = .ok result) {v}
    (hv : v ∈ (incrementalIndex host opts fails ix docs true).2.store.values.map view) :
    ∃ doc ∈ docs, v ∈ viewsOf host opts doc := by
  obtain ⟨e, he, rfl⟩ := mem_map.mp hv
  rcases (returned_store hstamped hdocs hret e).mp he with
    ⟨doc, hdoc, -, hmade⟩ | ⟨doc, hdoc, hsame, hold, hid⟩
  · refine ⟨doc, hdoc, ?_⟩
    rw [← @viewsOf_congr host opts (stamp host doc) doc rfl rfl]
    exact mem_viewsOf hmade
  · -- the entry was made from a document with the same hash, so with the same text
    obtain ⟨doc', hmade⟩ := hstamped.made e hold
    obtain ⟨hid', -, hhash'⟩ := mem_stamped hmade
    obtain ⟨e', hold', hdoc', hhash⟩ := (hstamped.isUnchanged_iff doc).mp hsame
    have hagree := hstamped.agreed e hold e' hold' (hid.trans hdoc'.symm)
    rw [hhash, hhash'] at hagree
    refine ⟨doc, hdoc, ?_⟩
    rw [← @viewsOf_congr host opts (stamp host doc') doc (hid'.symm.trans hid)
      (hsha (Option.some.inj hagree))]
    exact mem_viewsOf hmade

include hstamped hdocs in
/-- All views of the documents are left exactly if none was skipped with a chunk missing. -/
theorem whole_iff (hsha : Function.Injective host.sha256) {result : IncrementalIndexResult}
    (hret : (incrementalIndex host opts fails ix docs true).1 = .ok result) :
    (∀ doc ∈ docs, ∀ v ∈ viewsOf host opts doc,
        v ∈ (incrementalIndex host opts fails ix docs true).2.store.values.map view) ↔
      ∀ doc ∈ docs, isUnchanged host (storedHash ix.store.chunks) doc = true →
        ∀ c ∈ chunksOf host opts doc, (ix.store.get? c.id).isSome := by
  constructor
  · intro hall doc hdoc hsame c hc
    obtain ⟨e, he, hview⟩ := mem_map.mp (hall doc hdoc _
      (mem_map_of_mem (f := fun c => view (itemOf opts c)) hc))
    have hid : e.id = c.id := congrArg Prod.fst hview
    have hold : e ∈ ix.store.values := by
      rcases (returned_store hstamped hdocs hret e).mp he with
        ⟨doc', hdoc', hnot, hmade⟩ | ⟨-, -, -, hold, -⟩
      · -- a chunk with this id belongs to this document
        exfalso
        obtain ⟨hid', hlabel, -⟩ := mem_stamped hmade
        obtain ⟨hlabel', hdocId, -⟩ := mem_chunksOf hc
        rw [hlabel, hlabel'] at hid
        have heq := inj_on_of_nodup_map hdocs hdoc' hdoc
          (hid'.symm.trans ((chunkId_inj hid).1.trans hdocId))
        rw [heq, hsame] at hnot
        nomatch hnot
      · exact hold
    rw [← hid, (hstamped.keyed.get? e).mpr hold]
    rfl
  · intro hwhole doc hdoc v hv
    obtain ⟨c, hc, rfl⟩ := mem_map.mp hv
    cases hsame : isUnchanged host (storedHash ix.store.chunks) doc with
    | false =>
      rw [viewsOf, ← @view_chunksOf host opts (stamp host doc) doc rfl rfl] at hv
      obtain ⟨c', hc', hview⟩ := mem_map.mp hv
      refine mem_map.mpr ⟨itemOf opts c', ?_, hview⟩
      exact (returned_store hstamped hdocs hret _).mpr
        (Or.inl ⟨doc, hdoc, hsame, mem_map_of_mem hc'⟩)
    | true =>
      obtain ⟨e, he⟩ := Option.isSome_iff_exists.mp (hwhole doc hdoc hsame c hc)
      have hid := hstamped.keyed c.id e he
      have hold := (JsMap.mem_values ix.store e).mpr ⟨c.id, he⟩
      obtain ⟨hlabel, hdocId, -⟩ := mem_chunksOf hc
      have heDoc : e.chunk.docId = doc.id := by
        have hlabelled := hstamped.labelled e hold
        rw [hid, hlabel] at hlabelled
        exact (chunkId_inj hlabelled).1.symm.trans hdocId
      have hleft := (returned_store hstamped hdocs hret e).mpr
        (Or.inr ⟨doc, hdoc, hsame, hold, heDoc⟩)
      -- it is the view of this document with the same id
      obtain ⟨doc', hdoc', hview⟩ := returned_views hstamped hdocs hsha hret
        (mem_map_of_mem (f := view) hleft)
      obtain ⟨c', hc', heq⟩ := mem_map.mp hview
      have hid' : c'.id = c.id := (congrArg Prod.fst heq).trans hid
      obtain ⟨hlabel', hdocId', -⟩ := mem_chunksOf hc'
      have hsameDoc : doc' = doc := by
        rw [hlabel', hlabel] at hid'
        exact inj_on_of_nodup_map hdocs hdoc' hdoc
          (hdocId'.symm.trans ((chunkId_inj hid').1.trans hdocId))
      rw [hsameDoc] at hc'
      have hchunk : c' = c := inj_on_of_nodup_map (nodup_chunksOf doc) hc' hc hid'
      rw [← hchunk, heq]
      exact mem_map_of_mem hleft

include hstamped hdocs in
/-- **One call** that returned. -/
theorem matchesFull_iff (hsha : Function.Injective host.sha256) {result : IncrementalIndexResult}
    (hret : (incrementalIndex host opts fails ix docs true).1 = .ok result) :
    MatchesFull host opts docs (incrementalIndex host opts fails ix docs true).2 ↔
      Trustworthy host opts ix docs := by
  have hkeyed := (@incremental_stamped host opts fails ix docs hstamped hdocs).keyed
  obtain ⟨full, hfull, hfullKeyed, hviews⟩ :=
    @fresh_index host opts docs (returned_cuts hstamped hret) hdocs
  have hperm : (∃ full, index host opts (fun _ => false) {} docs = .ok full ∧
      ((incrementalIndex host opts fails ix docs true).2.store.values.map view).Perm
        (full.2.store.values.map view)) ↔
      ∀ doc ∈ docs, ∀ v ∈ viewsOf host opts doc,
        v ∈ (incrementalIndex host opts fails ix docs true).2.store.values.map view := by
    constructor
    · rintro ⟨full', hfull', hperm⟩ doc hdoc v hv
      rw [hfull] at hfull'
      obtain rfl := Except.ok.inj hfull'
      exact hperm.mem_iff.mpr ((hviews v).mpr ⟨doc, hdoc, hv⟩)
    · intro hall
      refine ⟨full, hfull, (perm_ext_iff_of_nodup (nodup_views hkeyed)
        (nodup_views hfullKeyed)).mpr fun v => ?_⟩
      rw [hviews]
      constructor
      · exact returned_views hstamped hdocs hsha hret
      · rintro ⟨doc, hdoc, hv⟩
        exact hall doc hdoc v hv
  unfold MatchesFull
  rw [hperm, whole_iff hstamped hdocs hsha hret, keywords_iff hstamped hret]
  exact ⟨fun h => ⟨h.1, h.2⟩, fun h => ⟨h.whole, h.current⟩⟩

end Step

/-- **Runs of one index.**  Every call that returns leaves the chunks of a fresh index and keyword
    scores of these, exactly as long as every such call meets a store it can trust. -/
theorem incremental_full_iff (hsha : Function.Injective host.sha256) {requests : List Request}
    (hdistinct : ∀ docs fails, .incrementalIndex docs fails ∈ requests →
      (docs.map (·.id)).Nodup) :
    (ragMachine host opts).Always (ReturnsFull host opts) {} requests ↔
      (ragMachine host opts).Always (MetTrustworthy host opts) {} requests := by
  refine Machine.always_congr (I := fun ix => Stamped host opts ix.store) ?_ ?_ stamped_empty
  · intro ix request hmem hix
    cases request with
    | query =>
      show Stamped host opts (ensureBm25 host ix).store
      rw [ensureBm25_store]
      exact hix
    | incrementalIndex docs fails => exact incremental_stamped hix (hdistinct docs fails hmem)
  · intro ix request hmem hix
    cases request with
    | query => exact Iff.rfl
    | incrementalIndex docs fails =>
      refine forall_congr' ?_
      rintro ⟨result, hret⟩
      exact matchesFull_iff hix (hdistinct docs fails hmem) hsha hret

end Runs

/-! ## Half a document -/

namespace HalfADocument

/-- The checksum of the one text here. -/
def checksum : String := "769a4e6d0003189c7e96c5d9b7e810a0d11c3a12832527ec94b0f86d277f51ca"

/-- The checksum of the one text, and another value for every other text. -/
def sha256 (text : String) : String :=
  if text = "xy" then checksum else if text = checksum then "xy" else text

theorem sha256_injective : Function.Injective sha256 := by
  intro a b h
  unfold sha256 at h
  grind

/-- Nothing here is a secret or in upper case. -/
def host : Host := ⟨id, sha256, id⟩

/-- One character a chunk and one chunk a batch. -/
def opts : RagIndexOptions where
  embedder := ⟨1, fun _ => [1], fun _ => rfl⟩
  chunk := { chunkSize := some 1, overlap := some 0 }
  batchSize := some 1

/-- A document of two chunks. -/
def page : RagDocument := { id := "a", text := "xy" }

/-- The second embed call throws; the first chunk is in the store with the hash of the document. -/
def before : RagIndex := (incrementalIndex host opts (fun n => n == 1) {} [page] true).2

theorem before_ids : before.store.values.map (·.id) = ["a#0"] := by decide +kernel

theorem page_unchanged : isUnchanged host (storedHash before.store.chunks) page = true := by
  decide +kernel

theorem before_keys : (storedHash before.store.chunks).keys = ["a"] := by decide +kernel

theorem page_ids : (chunksOf host opts page).map (·.id) = ["a#0", "a#1"] := by decide +kernel

end HalfADocument

open HalfADocument in
/-- The first call on an empty index. -/
theorem incremental_full_first : (ragMachine HalfADocument.host HalfADocument.opts).Always
    (ReturnsFull HalfADocument.host HalfADocument.opts) {}
    [.incrementalIndex [page] fun _ => false] := by
  refine (incremental_full_iff sha256_injective fun docs fails hmem => ?_).mpr
    ⟨fun _ => ⟨fun _ _ => nofun, fun _ => .inl rfl⟩, trivial⟩
  obtain ⟨rfl, -⟩ := Request.incrementalIndex.inj (mem_singleton.mp hmem)
  exact nodup_singleton _

open HalfADocument in
/-- An embed call throws between the two chunks of a document; the next call skips it. -/
theorem half_a_document : ¬ ∀ (host : Host) (opts : RagIndexOptions) (requests : List Request),
    Function.Injective host.sha256 →
      (∀ docs fails, .incrementalIndex docs fails ∈ requests → (docs.map (·.id)).Nodup) →
        (ragMachine host opts).Always (ReturnsFull host opts) {} requests := by
  intro hclaim
  have hrun := hclaim HalfADocument.host HalfADocument.opts
    [.incrementalIndex [page] fun n => n == 1, .incrementalIndex [page] fun _ => false]
    sha256_injective fun docs fails hmem => by
      rcases mem_cons.mp hmem with h | h
      · obtain ⟨rfl, -⟩ := Request.incrementalIndex.inj h
        exact nodup_singleton _
      · obtain ⟨rfl, -⟩ := Request.incrementalIndex.inj (mem_singleton.mp h)
        exact nodup_singleton _
  have hidle : Idle HalfADocument.host before [page] := by
    constructor
    · intro doc hdoc
      rw [mem_singleton.mp hdoc]
      exact page_unchanged
    · intro id hid
      rw [before_keys] at hid
      exact hid
  have hdocs : ([page].map (·.id)).Nodup := nodup_singleton _
  have hstamped : Stamped HalfADocument.host HalfADocument.opts before.store :=
    incremental_stamped stamped_empty hdocs
  obtain ⟨result, hret⟩ :=
    @idle_returns HalfADocument.host HalfADocument.opts (fun _ => false) before [page] hidle
  have hmatches := hrun.2.1 ⟨result, hret⟩
  have hwhole := ((matchesFull_iff hstamped hdocs sha256_injective hret).mp
    hmatches).whole page mem_cons_self page_unchanged
  have hids : ∀ id ∈ (chunksOf HalfADocument.host HalfADocument.opts page).map (·.id),
      id ∈ before.store.values.map (·.id) := by
    intro id hid
    obtain ⟨c, hc, rfl⟩ := mem_map.mp hid
    obtain ⟨e, he⟩ := Option.isSome_iff_exists.mp (hwhole c hc)
    rw [← hstamped.keyed c.id e he]
    exact mem_map_of_mem ((JsMap.mem_values before.store e).mpr ⟨c.id, he⟩)
  rw [page_ids, before_ids] at hids
  exact absurd (hids "a#1" (by decide)) (by decide)

end NexusCode.Rag
