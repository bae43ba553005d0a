/-
  Watch mode: files change, paths are notified, batches are flushed and reindexed.

  Reindexes are not serialized.  Each loads its documents, compares their hashes with the store,
  and embeds, and anything may happen in between.

    1. `State.step`           — the batcher (`notify`, the timer, `flush`) and the reindexes.
    2. `Shows`, `Sound`, `Matches` — what the entries of one path say.
    3. **`compared`**         — what a comparison makes of a path.
-/
import NexusCode.Rag.FullIndex
import NexusCode.Rag.Reindex

namespace NexusCode.Rag

open Lib List Option

/-- `loadDocs` for one path: the document of the path with its text. -/
structure Loader where
  docOf : String → String → RagDocument
  id_docOf : ∀ path text, (docOf path text).id = path
  text_docOf : ∀ path text, (docOf path text).text = text

/-- `WatchReindexOptions`, with the options of the index. -/
structure WatchOptions where
  host : Host
  index : RagIndexOptions
  loader : Loader
  prune : Bool := false

namespace Watch

/-! ## The loop -/

/-- How far a reindex is. -/
inductive Phase where
  /-- `loadDocs` has been called. -/
  | loading
  /-- It has answered. -/
  | loaded (docs : List RagDocument)
  /-- An embed call is under way. -/
  | embedding (docs : List RagDocument) (ops : List Op) (pending : List Chunk)

/-- A flush: its batch and how far it is. -/
structure Reindex where
  paths : List String
  phase : Phase

/-- The files, the batcher, the reindexes under way and the index. -/
structure State where
  files : String → Option String
  /-- Changed files whose change the watcher has still to notify. -/
  undelivered : List String := []
  /-- `ChangeBatcher.changed`. -/
  changed : List String := []
  /-- The debounce timer is set. -/
  armed : Bool := false
  running : JsMap Nat Reindex := .empty
  next : Nat := 0
  store : VectorStore
  /-- The paths that have ever been notified. -/
  notified : List String := []

/-- What happens. -/
inductive Event where
  /-- A file is created or modified, or deleted. -/
  | change (path : String) (text : Option String)
  | notify (path : String)
  | timer
  | flush
  /-- `loadDocs` answers. -/
  | load (i : Nat)
  /-- `incrementalIndex` compares, prunes, and runs up to its first embed call. -/
  | compare (i : Nat)
  /-- An embed call ends. -/
  | embedded (i : Nat) (ok : Bool)

namespace State

/-- `drain()`, up to the answer of `loadDocs`. -/
def drain (s : State) : State :=
  if s.changed.isEmpty then s
  else { s with changed := [], running := s.running.set s.next ⟨s.changed, .loading⟩
                next := s.next + 1 }

/-- A reindex goes on with a phase, or is over. -/
def put (s : State) (i : Nat) (paths : List String) (phase : Option Phase) (store : VectorStore) :
    State :=
  { s with
    store
    running := match phase with
      | some phase => s.running.set i ⟨paths, phase⟩
      | none => s.running.delete i }

/-- A stretch of `index` has stopped. -/
def halted (s : State) (i : Nat) (paths : List String) (docs : List RagDocument) : Halt → State
  | .embeds ops pending store => s.put i paths (some (.embedding docs ops pending)) store
  | .throws _ store => s.put i paths none store
  | .returns store => s.put i paths none store

/-- The documents whose hash is another one, with their hash. -/
def toIndex (x : WatchOptions) (store : VectorStore) (docs : List RagDocument) :
    List RagDocument :=
  (docs.filter fun doc => !isUnchanged x.host (storedHash store.chunks) doc).map (stamp x.host)

/-- The store after pruning, if there is to be any. -/
def pruned (x : WatchOptions) (store : VectorStore) (docs : List RagDocument) : VectorStore :=
  if x.prune then
    (pruneAll (docs.map (·.id)) { store } (storedHash store.chunks).keys).2.store
  else store

/-- `loadDocs(paths)`: the documents of the paths that exist. -/
def docsAt (x : WatchOptions) (s : State) (paths : List String) : List RagDocument :=
  paths.filterMap fun path => (s.files path).map (x.loader.docOf path)

/-- One step. -/
def step (x : WatchOptions) (s : State) : Event → State
  | .change path text =>
    { s with files := fun p => if p = path then text else s.files p
             undelivered := JsSet.add path s.undelivered }
  | .notify path =>
    { s with undelivered := s.undelivered.filter (· ≠ path), changed := JsSet.add path s.changed
             armed := true, notified := JsSet.add path s.notified }
  | .timer => if s.armed then { s with armed := false }.drain else s
  | .flush => { s with armed := false }.drain
  | .load i =>
    match s.running.get? i with
    | some ⟨paths, .loading⟩ => s.put i paths (some (.loaded (s.docsAt x paths))) s.store
    | _ => s
  | .compare i =>
    match s.running.get? i with
    | some ⟨paths, .loaded docs⟩ =>
      s.halted i paths docs (advance x.index (opsAll x.host x.index (toIndex x s.store docs)) []
        (pruned x s.store docs))
    | _ => s
  | .embedded i ok =>
    match s.running.get? i with
    | some ⟨paths, .embedding docs ops pending⟩ =>
      if ok then s.halted i paths docs (advance x.index ops [] (stored x.index pending s.store))
      else s.put i paths none s.store
    | _ => s

/-- An index that is watched from now on. -/
def start (files : String → Option String) (store : VectorStore) : State := { files, store }

/-- Nothing is under way, pending or still to be notified. -/
def Quiescent (s : State) : Prop :=
  s.running.values = [] ∧ s.changed = [] ∧ s.undelivered = []

instance (s : State) : Decidable s.Quiescent :=
  decidable_of_iff (s.running.values.isEmpty = true ∧ s.changed = [] ∧ s.undelivered = [])
    (and_congr_left fun _ => List.isEmpty_iff)

end State

/-- Watch mode as a machine. -/
def machine (x : WatchOptions) : Machine State Event Unit := ⟨fun s event => ((), s.step x event)⟩

/-! ## What the entries of a path say -/

section Entries

variable (x : WatchOptions) (entries : VectorItem → Prop) (p : String)

/-- The entries of a path are the chunks of a document of the path with this text, each with the
    hash of the document. -/
def Shows (text : String) : Prop :=
  ∃ d : RagDocument, d.id = p ∧ d.text = text ∧ ∀ e : VectorItem, e.chunk.docId = p →
    (entries e ↔ e ∈ (chunksOf x.host x.index (stamp x.host d)).map (itemOf x.index))

/-- The entries of a path say which text they are of, or have no hash at all, which nothing but
    pruning minds. -/
def Sound : Prop :=
  (∀ e, entries e → e.chunk.docId = p → contentHash e.chunk = none ∧ x.prune = false) ∨
    ∃ text, Shows x entries p text

/-- The entries of a path are those of its content; where it has none, pruning leaves no entry. -/
def Matches : Option String → Prop
  | some text => Shows x entries p text
  | none => x.prune = true → ∀ e, entries e → e.chunk.docId ≠ p

end Entries

variable {x : WatchOptions} {entries entries' : VectorItem → Prop} {p : String}

theorem Shows.congr {text : String} (h : ∀ e, e.chunk.docId = p → (entries' e ↔ entries e))
    (hs : Shows x entries p text) : Shows x entries' p text := by
  obtain ⟨d, hid, htext, hd⟩ := hs
  exact ⟨d, hid, htext, fun e he => (h e he).trans (hd e he)⟩

theorem Sound.congr (h : ∀ e, e.chunk.docId = p → (entries' e ↔ entries e))
    (hs : Sound x entries p) : Sound x entries' p := by
  rcases hs with hnone | ⟨text, hshows⟩
  · exact .inl fun e he hdoc => hnone e ((h e hdoc).mp he) hdoc
  · exact .inr ⟨text, hshows.congr h⟩

theorem Matches.congr {text : Option String} (h : ∀ e, e.chunk.docId = p → (entries' e ↔ entries e))
    (hs : Matches x entries p text) : Matches x entries' p text := by
  cases text with
  | some text => exact Shows.congr h hs
  | none => exact fun hprune e he hdoc => hs hprune e ((h e hdoc).mp he) hdoc

/-! ## What a comparison finds -/

/-- The hash that is read for a document is that of an entry of it. -/
theorem storedHash_some {store : VectorStore} {h : String}
    (hget : (storedHash store.chunks).get? p = some h) :
    ∃ e ∈ store.values, e.chunk.docId = p ∧ contentHash e.chunk = some h := by
  unfold storedHash at hget
  rw [get?_readHashes, JsMap.get?_empty, none_or, bind_eq_some_iff] at hget
  obtain ⟨c, hc, hh⟩ := hget
  obtain ⟨e, he, rfl⟩ := mem_map.mp (mem_of_find?_eq_some hc)
  have hfound := List.find?_some hc
  rw [Bool.and_eq_true, beq_iff_eq] at hfound
  exact ⟨e, he, hfound.1, hh⟩

theorem mem_keys_storedHash {store : VectorStore} {e : VectorItem} (he : e ∈ store.values)
    (hhash : (contentHash e.chunk).isSome = true) :
    e.chunk.docId ∈ (storedHash store.chunks).keys := by
  rw [JsMap.mem_keys]
  unfold storedHash
  rw [get?_readHashes, JsMap.get?_empty, none_or]
  cases hfind : store.chunks.find? fun c => c.docId == e.chunk.docId && (contentHash c).isSome with
  | none =>
    have hnot := List.find?_eq_none.mp hfind e.chunk (mem_map_of_mem he)
    rw [hhash, beq_self_eq_true] at hnot
    exact absurd rfl hnot
  | some c =>
    have hfound := List.find?_some hfind
    rw [Bool.and_eq_true] at hfound
    exact isSome_iff_exists.mp hfound.2

theorem Shows.hash {text : String} (hs : Shows x entries p text) {e : VectorItem}
    (he : entries e) (hdoc : e.chunk.docId = p) :
    contentHash e.chunk = some (x.host.sha256 text) := by
  obtain ⟨d, -, rfl, hd⟩ := hs
  exact (mem_stamped ((hd e hdoc).mp he)).2.2

/-- **A document that is skipped** is shown. -/
theorem Sound.unchanged {store : VectorStore} (hsha : Function.Injective x.host.sha256)
    (hs : Sound x (· ∈ store.values) p) {doc : RagDocument} (hid : doc.id = p)
    (hsame : isUnchanged x.host (storedHash store.chunks) doc = true) :
    Shows x (· ∈ store.values) p doc.text := by
  unfold isUnchanged at hsame
  rw [beq_iff_eq, hid] at hsame
  obtain ⟨e, he, hdoc, hhash⟩ := storedHash_some hsame
  rcases hs with hnone | ⟨text, hshows⟩
  · rw [(hnone e he hdoc).1] at hhash
    nomatch hhash
  · rw [hshows.hash he hdoc] at hhash
    exact hsha (some.inj hhash) ▸ hshows

theorem mem_pruned {store : VectorStore} (hkeyed : store.Keyed) (docs : List RagDocument) :
    (State.pruned x store docs).Keyed ∧ ∀ e, e ∈ (State.pruned x store docs).values ↔
      e ∈ store.values ∧ (x.prune = true → e.chunk.docId ∈ (storedHash store.chunks).keys →
        e.chunk.docId ∈ docs.map (·.id)) := by
  unfold State.pruned
  split
  · rename_i hprune
    obtain ⟨hpruned, hmem⟩ := @pruneAll_store (docs.map (·.id)) (storedHash store.chunks).keys
      { store } hkeyed
    exact ⟨hpruned, fun e => (hmem e).trans
      ⟨fun h => ⟨h.1, fun _ => h.2⟩, fun h => ⟨h.1, h.2 hprune⟩⟩⟩
  · rename_i hprune
    exact ⟨hkeyed, fun e => ⟨fun he => ⟨he, fun h => absurd h hprune⟩, And.left⟩⟩

/-- A path that is not loaded keeps its entries, or loses them all. -/
theorem Sound.pruned {store : VectorStore} (hkeyed : store.Keyed)
    (hs : Sound x (· ∈ store.values) p) {docs : List RagDocument} (hp : p ∉ docs.map (·.id)) :
    Sound x (· ∈ (State.pruned x store docs).values) p ∧
      Matches x (· ∈ (State.pruned x store docs).values) p none := by
  obtain ⟨-, hmem⟩ := @mem_pruned x store hkeyed docs
  cases hprune : x.prune with
  | true =>
    have hnone : ∀ e ∈ (State.pruned x store docs).values, e.chunk.docId ≠ p := by
      intro e he hdoc
      obtain ⟨hold, hkept⟩ := (hmem e).mp he
      have hsome : (contentHash e.chunk).isSome = true := by
        rcases hs with hunhashed | ⟨text, hshows⟩
        · nomatch (hunhashed e hold hdoc).2.symm.trans hprune
        · rw [hshows.hash hold hdoc]
          rfl
      exact hp (hdoc ▸ hkept hprune (mem_keys_storedHash hold hsome))
    exact ⟨.inl fun e he hdoc => absurd hdoc (hnone e he), fun _ => hnone⟩
  | false =>
    refine ⟨hs.congr fun e _ => (hmem e).trans ⟨And.left, fun he => ⟨he, fun h => ?_⟩⟩, fun h => ?_⟩
    · nomatch hprune.symm.trans h
    · nomatch hprune.symm.trans h

/-- The content of a path among the documents that were loaded. -/
def loadedText (docs : List RagDocument) (p : String) : Option String :=
  (docs.find? fun doc => doc.id == p).map (·.text)

/-- **What the comparison makes of a path**: once the documents that changed are indexed, it has the
    entries of what was loaded. -/
theorem compared {store : VectorStore} (hsha : Function.Injective x.host.sha256)
    (hcuts : Cuts x.index) (hkeyed : store.Keyed) (hs : Sound x (· ∈ store.values) p)
    {docs : List RagDocument} (hdocs : (docs.map (·.id)).Nodup) :
    Sound x (Destined x.index (opsAll x.host x.index (State.toIndex x store docs)) []
        (State.pruned x store docs)) p ∧
      Matches x (Destined x.index (opsAll x.host x.index (State.toIndex x store docs)) []
        (State.pruned x store docs)) p (loadedText docs p) := by
  obtain ⟨-, hmem⟩ := @mem_pruned x store hkeyed docs
  have hids : ∀ d ∈ State.toIndex x store docs, ∃ doc ∈ docs, d = stamp x.host doc ∧
      isUnchanged x.host (storedHash store.chunks) doc = false := by
    intro d hd
    obtain ⟨doc, hdoc, rfl⟩ := mem_map.mp hd
    obtain ⟨hin, hchanged⟩ := mem_filter.mp hdoc
    exact ⟨doc, hin, rfl, by simpa using hchanged⟩
  have hdestined : ∀ e, Destined x.index (opsAll x.host x.index (State.toIndex x store docs)) []
      (State.pruned x store docs) e ↔
      e ∈ ((State.toIndex x store docs).flatMap (chunksOf x.host x.index)).map (itemOf x.index) ∨
        e ∈ (State.pruned x store docs).values ∧
          e.chunk.docId ∉ (State.toIndex x store docs).map (·.id) := by
    intro e
    unfold Destined
    rw [pushes_opsAll hcuts, deletes_opsAll hcuts, map_nil, or_iff_left not_mem_nil]
  have hindexed : ∀ e : VectorItem,
      e ∈ ((State.toIndex x store docs).flatMap (chunksOf x.host x.index)).map (itemOf x.index) ↔
        ∃ doc ∈ docs, isUnchanged x.host (storedHash store.chunks) doc = false ∧
          e ∈ (chunksOf x.host x.index (stamp x.host doc)).map (itemOf x.index) := by
    intro e
    constructor
    · intro he
      obtain ⟨c, hc, rfl⟩ := mem_map.mp he
      obtain ⟨d, hd, hcd⟩ := mem_flatMap.mp hc
      obtain ⟨doc, hdoc, rfl, hchanged⟩ := hids d hd
      exact ⟨doc, hdoc, hchanged, mem_map_of_mem hcd⟩
    · rintro ⟨doc, hdoc, hchanged, he⟩
      obtain ⟨c, hc, rfl⟩ := mem_map.mp he
      refine mem_map_of_mem (mem_flatMap.mpr ⟨stamp x.host doc, ?_, hc⟩)
      exact mem_map_of_mem (mem_filter.mpr ⟨hdoc, by rw [hchanged]; rfl⟩)
  -- the entries of a path of which nothing is indexed are those that pruning left
  have hleft : (∀ doc ∈ docs, doc.id = p →
      isUnchanged x.host (storedHash store.chunks) doc = true) →
      ∀ e, e.chunk.docId = p → (Destined x.index
        (opsAll x.host x.index (State.toIndex x store docs)) [] (State.pruned x store docs) e ↔
        e ∈ (State.pruned x store docs).values) := by
    intro hunchanged e hdoc
    rw [hdestined, hindexed]
    constructor
    · rintro (⟨doc, hin, hchanged, he⟩ | ⟨he, -⟩)
      · have := hunchanged doc hin ((mem_stamped he).1.symm.trans hdoc)
        nomatch hchanged.symm.trans this
      · exact he
    · refine fun he => .inr ⟨he, fun hin => ?_⟩
      obtain ⟨d, hd, hid⟩ := mem_map.mp hin
      obtain ⟨doc, hdoc', rfl, hchanged⟩ := hids d hd
      nomatch hchanged.symm.trans (hunchanged doc hdoc' (hid.trans hdoc))
  unfold loadedText
  cases hfind : docs.find? fun doc => doc.id == p with
  | none =>
    have hp : p ∉ docs.map (·.id) := by
      intro hin
      obtain ⟨doc, hdoc, hid⟩ := mem_map.mp hin
      exact List.find?_eq_none.mp hfind doc hdoc (beq_iff_eq.mpr hid)
    have hsame := hleft fun doc hdoc hid => absurd (hid ▸ mem_map_of_mem hdoc) hp
    obtain ⟨hsound, hmatches⟩ := hs.pruned hkeyed hp
    exact ⟨hsound.congr hsame, hmatches.congr hsame⟩
  | some doc =>
    have hdoc := mem_of_find?_eq_some hfind
    have hid := List.find?_some hfind
    obtain rfl : doc.id = p := beq_iff_eq.mp hid
    suffices hshows : Shows x (Destined x.index (opsAll x.host x.index (State.toIndex x store docs))
        [] (State.pruned x store docs)) doc.id doc.text from ⟨.inr ⟨_, hshows⟩, hshows⟩
    have honly : ∀ doc' ∈ docs, doc'.id = doc.id → doc' = doc := fun doc' hdoc' hid =>
      inj_on_of_nodup_map hdocs hdoc' hdoc hid
    cases hsame : isUnchanged x.host (storedHash store.chunks) doc with
    | true =>
      have hkept : ∀ e, e.chunk.docId = doc.id →
          (e ∈ (State.pruned x store docs).values ↔ e ∈ store.values) := by
        refine fun e hid => (hmem e).trans ⟨And.left, fun he => ⟨he, fun _ _ => ?_⟩⟩
        exact hid ▸ mem_map_of_mem hdoc
      refine (hs.unchanged hsha rfl hsame).congr fun e hid => ?_
      exact (hleft (fun doc' hdoc' hid => honly doc' hdoc' hid ▸ hsame) e hid).trans (hkept e hid)
    | false =>
      refine ⟨doc, rfl, rfl, fun e hid => ?_⟩
      rw [hdestined, hindexed]
      constructor
      · rintro (⟨doc', hin, -, he⟩ | ⟨-, hnot⟩)
        · exact honly doc' hin ((mem_stamped he).1.symm.trans hid) ▸ he
        · refine absurd (List.mem_map.mpr ⟨stamp x.host doc, ?_, hid.symm⟩) hnot
          exact mem_map_of_mem (mem_filter.mpr ⟨hdoc, by rw [hsame]; rfl⟩)
      · exact fun he => .inl ⟨doc, hdoc, hsame, he⟩

end Watch

end NexusCode.Rag
