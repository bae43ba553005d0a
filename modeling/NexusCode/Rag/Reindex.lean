/-
  `index` one stretch at a time.

  Between two embed calls `index` runs without a break; at an embed call other code may run and
  change the store.  A run of `index` is the list of its statements that are still to come, and what
  the batch holds.

    1. `Op`, `advance`   — the statements, and how far they run before the next embed call.
    2. `Destined`        — what the store holds once the statements that are left have run.
    3. `advance_spec`, `stored_destined` — a stretch, and the end of an embed call, change nothing
                           about it.
    4. **`alone`**       — without interference this is `indexAll`.
-/
import NexusCode.Rag.Incremental

namespace NexusCode.Rag

open Lib List

variable {host : Host} {opts : RagIndexOptions}

/-- A statement of `index` that changes something. -/
inductive Op where
  | delete (docId : String)
  | push (chunk : Chunk)
  | throw (error : IndexError)

/-- The statements for one document. -/
def opsOf (host : Host) (opts : RagIndexOptions) (doc : RagDocument) : List Op :=
  .delete doc.id :: match chunkDocument doc opts.chunk with
    | .ok chunks => chunks.map fun chunk => .push (redacted host opts chunk)
    | .error e => [.throw e]

/-- Where the statements stop. -/
inductive Halt where
  /-- An embed call for the batch. -/
  | embeds (ops : List Op) (pending : List Chunk) (store : VectorStore)
  | throws (error : IndexError) (store : VectorStore)
  | returns (store : VectorStore)

/-- The statements up to the next embed call. -/
def advance (opts : RagIndexOptions) : List Op → List Chunk → VectorStore → Halt
  | [], pending, store => if pending.isEmpty then .returns store else .embeds [] pending store
  | .delete docId :: ops, pending, store => advance opts ops pending (store.deleteByDoc docId).2
  | .push chunk :: ops, pending, store =>
    if JsNumber.le opts.limit (.fin (pending ++ [chunk]).length) then
      .embeds ops (pending ++ [chunk]) store
    else advance opts ops (pending ++ [chunk]) store
  | .throw e :: _, _, store => .throws e store

/-- The store once a batch is embedded. -/
def stored (opts : RagIndexOptions) (pending : List Chunk) (store : VectorStore) : VectorStore :=
  JsMap.setAll (·.id) store (pending.map (itemOf opts))

/-! ## What is still to come -/

/-- The document a statement deletes. -/
def Op.deleted : Op → Option String
  | .delete docId => some docId
  | _ => none

/-- The chunk a statement pushes. -/
def Op.pushed : Op → Option Chunk
  | .push chunk => some chunk
  | _ => none

/-- The documents that are still to be deleted. -/
def deletes (ops : List Op) : List String := ops.filterMap (·.deleted)

/-- The chunks that are still to be pushed. -/
def pushes (ops : List Op) : List Chunk := ops.filterMap (·.pushed)

/-- An entry will be in the store once the statements have run. -/
def Destined (opts : RagIndexOptions) (ops : List Op) (pending : List Chunk) (store : VectorStore)
    (e : VectorItem) : Prop :=
  e ∈ (pushes ops).map (itemOf opts) ∨
    (e ∈ store.values ∨ e ∈ pending.map (itemOf opts)) ∧ e.chunk.docId ∉ deletes ops

/-- What the statements and the batch of a run are like. -/
structure Working (ids : List String) (ops : List Op) (pending : List Chunk) : Prop where
  nodup : ((pending ++ pushes ops).map (·.id)).Nodup
  labelled : ∀ c ∈ pending ++ pushes ops, c.id = chunkId c.docId c.index
  within : ∀ c ∈ pending ++ pushes ops, c.docId ∈ ids
  deletes : ∀ id ∈ deletes ops, id ∈ ids
  /-- What is in the batch is not deleted any more. -/
  behind : ∀ c ∈ pending, c.docId ∉ Rag.deletes ops
  /-- A document is deleted before its chunks are pushed, and once. -/
  ordered : ops.Pairwise fun a b => ∀ id, b.deleted = some id →
    a.deleted ≠ some id ∧ ∀ c, a.pushed = some c → c.docId ≠ id
  noThrow : ∀ e, Op.throw e ∉ ops

namespace Working

variable {ids : List String} {ops : List Op} {pending : List Chunk}

theorem delete {id : String} (h : Working ids (.delete id :: ops) pending) :
    Working ids ops pending where
  nodup := h.nodup
  labelled := h.labelled
  within := h.within
  deletes := fun d hd => h.deletes d (mem_cons_of_mem id hd)
  behind := fun c hc hd => h.behind c hc (mem_cons_of_mem id hd)
  ordered := (pairwise_cons.mp h.ordered).2
  noThrow := fun e he => h.noThrow e (mem_cons_of_mem _ he)

theorem push {c : Chunk} (h : Working ids (.push c :: ops) pending) :
    Working ids ops (pending ++ [c]) := by
  have hsame : (pending ++ [c]) ++ pushes ops = pending ++ pushes (.push c :: ops) := by
    rw [append_assoc]
    rfl
  refine ⟨by rw [hsame]; exact h.nodup, by rw [hsame]; exact h.labelled,
    by rw [hsame]; exact h.within, h.deletes, fun c' hc' hdel => ?_,
    (pairwise_cons.mp h.ordered).2, fun e he => h.noThrow e (mem_cons_of_mem _ he)⟩
  rcases mem_append.mp hc' with hc' | hc'
  · exact h.behind c' hc' hdel
  · rw [mem_singleton.mp hc'] at hdel
    obtain ⟨op, hop, hid⟩ := mem_filterMap.mp hdel
    exact ((pairwise_cons.mp h.ordered).1 op hop c.docId hid).2 c rfl rfl

theorem mono {ids' : List String} (hsub : ∀ id ∈ ids, id ∈ ids') (h : Working ids ops pending) :
    Working ids' ops pending where
  nodup := h.nodup
  labelled := h.labelled
  within := fun c hc => hsub _ (h.within c hc)
  deletes := fun d hd => hsub d (h.deletes d hd)
  behind := h.behind
  ordered := h.ordered
  noThrow := h.noThrow

theorem embedded (h : Working ids ops pending) : Working ids ops [] where
  nodup := by
    have := h.nodup
    rw [map_append] at this
    exact this.of_append_right
  labelled := fun c hc => h.labelled c (mem_append_right pending hc)
  within := fun c hc => h.within c (mem_append_right pending hc)
  deletes := h.deletes
  behind := fun _ => nofun
  ordered := h.ordered
  noThrow := h.noThrow

end Working

/-! ## What a stretch leaves -/

section Stretch

variable {ids : List String} {ops ops' : List Op} {pending pending' : List Chunk}
  {store store' : VectorStore}

theorem destined_delete {id : String} (hkeyed : store.Keyed)
    (h : Working ids (.delete id :: ops) pending) (e : VectorItem) :
    Destined opts ops pending (store.deleteByDoc id).2 e ↔
      Destined opts (.delete id :: ops) pending store e := by
  have hdeletes : deletes (.delete id :: ops) = id :: deletes ops := rfl
  refine or_congr Iff.rfl ?_
  rw [hdeletes, hkeyed.mem_deleteByDoc, mem_cons, not_or]
  constructor
  · rintro ⟨⟨hmem, hne⟩ | hpending, hnot⟩
    · exact ⟨.inl hmem, hne, hnot⟩
    · obtain ⟨c, hc, rfl⟩ := mem_map.mp hpending
      refine ⟨.inr hpending, fun heq => h.behind c hc ?_, hnot⟩
      exact heq ▸ mem_cons_self
  · rintro ⟨hmem | hpending, hne, hnot⟩
    · exact ⟨.inl ⟨hmem, hne⟩, hnot⟩
    · exact ⟨.inr hpending, hnot⟩

theorem destined_push {c : Chunk} (h : Working ids (.push c :: ops) pending) (e : VectorItem) :
    Destined opts ops (pending ++ [c]) store e ↔
      Destined opts (.push c :: ops) pending store e := by
  have hpushes : pushes (.push c :: ops) = c :: pushes ops := rfl
  have hdeletes : deletes (.push c :: ops) = deletes ops := rfl
  have hlast : c.docId ∉ deletes ops :=
    h.push.behind c (mem_append_right pending (mem_singleton_self c))
  unfold Destined
  rw [hpushes, hdeletes, map_append, mem_append, map_singleton, mem_singleton,
    map_cons, mem_cons]
  constructor
  · rintro (hpushed | ⟨hmem | hpending | rfl, hnot⟩)
    · exact .inl (.inr hpushed)
    · exact .inr ⟨.inl hmem, hnot⟩
    · exact .inr ⟨.inr hpending, hnot⟩
    · exact .inl (.inl rfl)
  · rintro ((rfl | hpushed) | ⟨hmem | hpending, hnot⟩)
    · exact .inr ⟨.inr (.inr rfl), hlast⟩
    · exact .inl hpushed
    · exact .inr ⟨.inl hmem, hnot⟩
    · exact .inr ⟨.inr (.inl hpending), hnot⟩

/-- What holds where a stretch that began with a store stops. -/
def Halt.Keeps (opts : RagIndexOptions) (ids : List String) (begun : VectorStore)
    (P : VectorItem → Prop) : Halt → Prop
  | .embeds ops pending store => Working ids ops pending ∧ store.Keyed ∧
      (∀ e ∈ store.values, e ∈ begun.values) ∧ ∀ e, Destined opts ops pending store e ↔ P e
  | .throws _ _ => False
  | .returns store => store.Keyed ∧ (∀ e ∈ store.values, e ∈ begun.values) ∧
      ∀ e, e ∈ store.values ↔ P e

theorem Halt.Keeps.mono {begun begun' : VectorStore} {P : VectorItem → Prop} {halt : Halt}
    (hsub : ∀ e ∈ begun.values, e ∈ begun'.values) (h : halt.Keeps opts ids begun P) :
    halt.Keeps opts ids begun' P := by
  cases halt with
  | embeds ops pending store => exact ⟨h.1, h.2.1, fun e he => hsub e (h.2.2.1 e he), h.2.2.2⟩
  | throws e store => exact h
  | returns store => exact ⟨h.1, fun e he => hsub e (h.2.1 e he), h.2.2⟩

/-- **A stretch** changes nothing about what the store will hold. -/
theorem advance_spec (hkeyed : store.Keyed) (h : Working ids ops pending) :
    (advance opts ops pending store).Keeps opts ids store (Destined opts ops pending store) := by
  induction ops generalizing pending store with
  | nil =>
    unfold advance
    split
    · rename_i hempty
      obtain rfl := List.isEmpty_iff.mp hempty
      refine ⟨hkeyed, fun _ he => he, fun e => ⟨fun he => .inr ⟨.inl he, not_mem_nil⟩, ?_⟩⟩
      rintro (hpushed | ⟨hmem | hpending, -⟩)
      · nomatch hpushed
      · exact hmem
      · nomatch hpending
    · exact ⟨h, hkeyed, fun _ he => he, fun e => Iff.rfl⟩
  | cons op ops ih =>
    cases op with
    | delete id =>
      have hkept := (ih (hkeyed.deleteByDoc id) h.delete).mono fun e he =>
        ((hkeyed.mem_deleteByDoc id e).mp he).1
      rwa [show Destined opts ops pending (store.deleteByDoc id).2 =
        Destined opts (.delete id :: ops) pending store from
        funext fun e => propext (destined_delete hkeyed h e)] at hkept
    | push c =>
      have hsame : Destined opts ops (pending ++ [c]) store =
          Destined opts (.push c :: ops) pending store :=
        funext fun e => propext (destined_push h e)
      unfold advance
      split
      · exact ⟨h.push, hkeyed, fun _ he => he, fun e => by rw [hsame]⟩
      · have hkept := ih hkeyed h.push
        rwa [hsame] at hkept
    | throw e => exact absurd mem_cons_self (h.noThrow e)

theorem Working.destined_iff (h : Working ids ops pending) {e : VectorItem}
    (he : e.chunk.docId ∉ ids) : Destined opts ops pending store e ↔ e ∈ store.values := by
  have hnone : ∀ cs : List Chunk, (∀ c ∈ cs, c ∈ pending ++ pushes ops) →
      e ∉ cs.map (itemOf opts) := by
    intro cs hcs hmem
    obtain ⟨c, hc, rfl⟩ := mem_map.mp hmem
    exact he (h.within c (hcs c hc))
  constructor
  · rintro (hpushed | ⟨hmem | hpending, -⟩)
    · exact absurd hpushed (hnone _ fun c hc => mem_append_right _ hc)
    · exact hmem
    · exact absurd hpending (hnone _ fun c hc => mem_append_left _ hc)
  · exact fun hmem => .inr ⟨.inl hmem, fun hdel => he (h.deletes _ hdel)⟩

theorem mem_stored (hkeyed : store.Keyed) (h : Working ids ops pending) (e : VectorItem) :
    e ∈ (stored opts pending store).values ↔ e ∈ pending.map (itemOf opts) ∨
      e ∈ store.values ∧ e.id ∉ (pending.map (itemOf opts)).map (·.id) := by
  have hnodup : ((pending.map (itemOf opts)).map (·.id)).Nodup := by
    have := h.nodup
    rw [map_append] at this
    rw [map_map]
    exact this.of_append_left
  exact hkeyed.mem_setAll hnodup e

/-- **The end of an embed call** changes nothing about it either, if an entry of the store that has
    the id of a chunk of the batch is that chunk. -/
theorem stored_destined (hkeyed : store.Keyed) (h : Working ids ops pending)
    (hsame : ∀ c ∈ pending, ∀ e ∈ store.values, e.id = c.id → e = itemOf opts c) (e : VectorItem) :
    Destined opts ops [] (stored opts pending store) e ↔ Destined opts ops pending store e := by
  refine or_congr Iff.rfl (and_congr_left fun _ => ?_)
  rw [mem_stored hkeyed h]
  constructor
  · rintro ((hitem | ⟨hmem, -⟩) | hnone)
    · exact .inr hitem
    · exact .inl hmem
    · nomatch hnone
  · rintro (hmem | hitem)
    · refine .inl ?_
      by_cases hid : e.id ∈ (pending.map (itemOf opts)).map (·.id)
      · obtain ⟨it, hit, heq⟩ := mem_map.mp hid
        obtain ⟨c, hc, rfl⟩ := mem_map.mp hit
        exact .inl (hsame c hc e hmem heq.symm ▸ hit)
      · exact .inr ⟨hmem, hid⟩
    · exact .inl (.inl hitem)

end Stretch

/-! ## The statements of `index` -/

/-- The statements of a call of `index`. -/
def opsAll (host : Host) (opts : RagIndexOptions) (docs : List RagDocument) : List Op :=
  docs.flatMap (opsOf host opts)

theorem opsOf_eq (hcuts : Cuts opts) (doc : RagDocument) :
    opsOf host opts doc = .delete doc.id :: (chunksOf host opts doc).map .push := by
  obtain ⟨chunks, hchunks⟩ := chunkDocument_ok hcuts doc
  unfold opsOf chunksOf
  rw [hchunks]
  dsimp only
  rw [map_map]
  rfl

theorem pushes_push (cs : List Chunk) : pushes (cs.map .push) = cs := by
  unfold pushes
  rw [filterMap_map]
  exact filterMap_some

theorem deletes_push (cs : List Chunk) : deletes (cs.map .push) = [] := by
  unfold deletes
  rw [filterMap_map, filterMap_eq_nil_iff]
  exact fun _ _ => rfl

theorem pushes_opsAll (hcuts : Cuts opts) (docs : List RagDocument) :
    pushes (opsAll host opts docs) = docs.flatMap (chunksOf host opts) := by
  unfold opsAll pushes
  rw [filterMap_flatMap]
  refine flatMap_congr fun doc _ => ?_
  rw [opsOf_eq hcuts]
  exact pushes_push _

theorem deletes_opsAll (hcuts : Cuts opts) (docs : List RagDocument) :
    deletes (opsAll host opts docs) = docs.map (·.id) := by
  unfold opsAll deletes
  rw [filterMap_flatMap, map_eq_flatMap]
  refine flatMap_congr fun doc _ => ?_
  rw [opsOf_eq hcuts]
  exact congrArg (doc.id :: ·) (deletes_push _)

/-- The statements of a call over documents with distinct ids. -/
theorem working_opsAll (hcuts : Cuts opts) {docs : List RagDocument}
    (hdocs : (docs.map (·.id)).Nodup) :
    Working (docs.map (·.id)) (opsAll host opts docs) [] := by
  have hfresh := @fresh_chunks host opts docs hdocs
  refine ⟨?_, ?_, ?_, ?_, fun _ => nofun, ?_, ?_⟩
  · rw [nil_append, pushes_opsAll hcuts]
    exact hfresh.nodup
  · rw [nil_append, pushes_opsAll hcuts]
    exact fun c hc => (hfresh.labelled c hc).1
  · rw [nil_append, pushes_opsAll hcuts]
    exact fun c hc => (hfresh.labelled c hc).2
  · rw [deletes_opsAll hcuts]
    exact fun _ h => h
  · unfold opsAll
    rw [pairwise_flatMap]
    refine ⟨fun doc _ => ?_,
      (pairwise_map.mp hdocs).imp fun {doc doc'} hne a ha b hb id hid => ?_⟩
    · -- a document is deleted first
      rw [opsOf_eq hcuts, pairwise_cons, pairwise_map]
      refine ⟨fun b hb id hid => ?_, pairwise_of_forall fun _ _ _ hid => (nomatch hid)⟩
      obtain ⟨c, -, rfl⟩ := mem_map.mp hb
      nomatch hid
    · -- what is deleted later is another document
      rw [opsOf_eq hcuts] at ha hb
      have hid' : id = doc'.id := by
        rcases mem_cons.mp hb with rfl | hb
        · exact (Option.some.inj hid).symm
        · obtain ⟨c, -, rfl⟩ := mem_map.mp hb
          nomatch hid
      subst hid'
      rcases mem_cons.mp ha with rfl | ha
      · exact ⟨fun heq => hne (Option.some.inj heq), fun c hc => (nomatch hc)⟩
      · obtain ⟨c, hc, rfl⟩ := mem_map.mp ha
        refine ⟨nofun, fun c' hc' heq => hne ?_⟩
        obtain rfl := Option.some.inj hc'
        rw [← (mem_chunksOf hc).2.1, heq]
  · intro e he
    obtain ⟨doc, -, hmem⟩ := mem_flatMap.mp he
    rw [opsOf_eq hcuts] at hmem
    rcases mem_cons.mp hmem with h | h
    · nomatch h
    · obtain ⟨c, -, hc⟩ := mem_map.mp h
      nomatch hc

/-! ## A run that is left alone -/

/-- The statements to their end, with every embed call answered at once. -/
def sequel (opts : RagIndexOptions) : List Op → List Chunk → VectorStore →
    Except Aborted VectorStore
  | [], pending, store => .ok (stored opts pending store)
  | .delete docId :: ops, pending, store => sequel opts ops pending (store.deleteByDoc docId).2
  | .push chunk :: ops, pending, store =>
    if JsNumber.le opts.limit (.fin (pending ++ [chunk]).length) then
      sequel opts ops [] (stored opts (pending ++ [chunk]) store)
    else sequel opts ops (pending ++ [chunk]) store
  | .throw e :: _, _, store => .error ⟨e, store⟩

/-- What a stretch and the answer to its embed call come to. -/
def Halt.answered (opts : RagIndexOptions) : Halt → Except Aborted VectorStore
  | .embeds ops pending store => sequel opts ops [] (stored opts pending store)
  | .throws e store => .error ⟨e, store⟩
  | .returns store => .ok store

theorem sequel_eq (ops : List Op) (pending : List Chunk) (store : VectorStore) :
    sequel opts ops pending store = (advance opts ops pending store).answered opts := by
  induction ops generalizing pending store with
  | nil =>
    unfold advance
    split
    · rename_i hempty
      rw [List.isEmpty_iff.mp hempty]
      rfl
    · rfl
  | cons op ops ih =>
    cases op with
    | delete id => exact ih pending _
    | push c =>
      unfold sequel advance
      split
      · rfl
      · exact ih _ store
    | throw e => rfl

theorem flush_eq (s : Indexing) : ∃ s', flush opts (fun _ => false) s = .ok s' ∧
    s'.store = stored opts s.pending s.store ∧ s'.pending = [] := by
  unfold flush
  split
  · rename_i hempty
    have hnone := List.isEmpty_iff.mp hempty
    exact ⟨s, rfl, by rw [hnone]; rfl, hnone⟩
  · rw [if_neg Bool.false_ne_true, VectorStore.add_eq _ fun it hit => by
      obtain ⟨c, -, rfl⟩ := mem_map.mp hit
      exact opts.embedder.length_vectorOf c.text]
    exact ⟨_, rfl, rfl, rfl⟩

theorem sequel_chunks (cs : List Chunk) (ops : List Op) (s : Indexing) :
    sequel opts (cs.map .push ++ ops) s.pending s.store =
      (cs.foldlM (push opts fun _ => false) s).bind fun s' =>
        sequel opts ops s'.pending s'.store := by
  induction cs generalizing s with
  | nil => rfl
  | cons c cs ih =>
    have hpush : push opts (fun _ => false) s c =
        if JsNumber.le opts.limit (.fin (s.pending ++ [c]).length) then
          flush opts (fun _ => false)
            { s with allChunks := s.allChunks ++ [c], pending := s.pending ++ [c] }
        else .ok { s with allChunks := s.allChunks ++ [c], pending := s.pending ++ [c] } := rfl
    have hsequel : sequel opts ((c :: cs).map .push ++ ops) s.pending s.store =
        if JsNumber.le opts.limit (.fin (s.pending ++ [c]).length) then
          sequel opts (cs.map .push ++ ops) [] (stored opts (s.pending ++ [c]) s.store)
        else sequel opts (cs.map .push ++ ops) (s.pending ++ [c]) s.store := rfl
    rw [foldlM_cons, hpush, hsequel]
    split
    · obtain ⟨s', hflush, hstore, hpending⟩ := @flush_eq opts
        { s with allChunks := s.allChunks ++ [c], pending := s.pending ++ [c] }
      rw [hflush]
      have hrest := ih s'
      rw [hstore, hpending] at hrest
      exact hrest
    · exact ih { s with allChunks := s.allChunks ++ [c], pending := s.pending ++ [c] }

theorem sequel_docs (docs : List RagDocument) (s : Indexing) :
    sequel opts (opsAll host opts docs) s.pending s.store =
      (docs.foldlM (indexDoc host opts fun _ => false) s).bind fun s' =>
        .ok (stored opts s'.pending s'.store) := by
  induction docs generalizing s with
  | nil => rfl
  | cons doc docs ih =>
    rw [foldlM_cons]
    show sequel opts (opsOf host opts doc ++ opsAll host opts docs) s.pending s.store = _
    let s₁ : Indexing := { s with store := (s.store.deleteByDoc doc.id).2 }
    cases hcut : chunkDocument doc opts.chunk with
    | error e =>
      have hops : opsOf host opts doc = [.delete doc.id, .throw e] := by rw [opsOf, hcut]
      have hdoc : indexDoc host opts (fun _ => false) s doc = .error ⟨e, s₁.store⟩ := by
        unfold indexDoc
        rw [hcut]
      rw [hops, hdoc]
      rfl
    | ok chunks =>
      have hops : opsOf host opts doc =
          .delete doc.id :: (chunks.map (redacted host opts)).map .push := by
        rw [opsOf, hcut, map_map]
        rfl
      have hdoc : indexDoc host opts (fun _ => false) s doc =
          (chunks.map (redacted host opts)).foldlM (push opts fun _ => false) s₁ := by
        unfold indexDoc
        rw [hcut]
      rw [hops, hdoc]
      refine (sequel_chunks (chunks.map (redacted host opts)) (opsAll host opts docs) s₁).trans ?_
      cases (chunks.map (redacted host opts)).foldlM (push opts fun _ => false) s₁ with
      | error a => rfl
      | ok s' => exact ih s'

/-- **A run of `index` that is left alone**, taken stretch by stretch, leaves what `indexAll`
    does. -/
theorem alone (docs : List RagDocument) (store : VectorStore) :
    (advance opts (opsAll host opts docs) [] store).answered opts =
      (indexAll host opts (fun _ => false) store docs).map (·.store) := by
  rw [← sequel_eq]
  unfold indexAll
  refine (sequel_docs docs { store }).trans ?_
  cases docs.foldlM (indexDoc host opts fun _ => false) { store } with
  | error a => rfl
  | ok s =>
    obtain ⟨s', hflush, hstore, -⟩ := @flush_eq opts s
    show _ = Except.map _ (flush opts (fun _ => false) s)
    rw [hflush]
    exact congrArg Except.ok hstore.symm

end NexusCode.Rag
