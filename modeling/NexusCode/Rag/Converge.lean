/-
  When watch mode converges.

  The batches are neither serialized nor told of each other.  As long as no path is in two of them
  at a time, a path is in one of three situations: no reindex has it, and then its entries are those
  of its content or it will be notified again; a reindex has yet to compare it; or a reindex is
  embedding, and then its entries will be those of what was loaded.

    1. `Careful`             — the condition on the steps.
    2. `AtRest`, `AtPath`    — a path that no reindex has, and one that a reindex has.
    3. `Inv`, `Inv.step`     — the invariant.
    4. **`watch_converges`** — careful runs converge.
-/
import NexusCode.Rag.Watch

namespace NexusCode.Rag.Watch

open Lib List Option

namespace State

/-- The condition on the steps.

    * A batch is flushed only while no reindex under way has a path of it.
    * Pruning happens only when every stored document is of a path of the batch.
    * No embed call fails. -/
def Careful (x : WatchOptions) (s : State) : Event → Prop
  | .timer => s.armed = true → ∀ r ∈ s.running.values, ∀ p ∈ r.paths, p ∉ s.changed
  | .flush => ∀ r ∈ s.running.values, ∀ p ∈ r.paths, p ∉ s.changed
  | .compare i => x.prune = true → ∀ r ∈ s.running.get? i, ∀ e ∈ s.store.values,
      e.chunk.docId ∈ r.paths
  | .embedded _ ok => ok = true
  | _ => True

instance (x : WatchOptions) (s : State) : ∀ event, Decidable (s.Careful x event)
  | .timer => inferInstanceAs (Decidable (s.armed = true → ∀ r ∈ s.running.values, _))
  | .flush => inferInstanceAs (Decidable (∀ r ∈ s.running.values, _))
  | .compare i => inferInstanceAs (Decidable (_ → ∀ r ∈ s.running.get? i, _))
  | .embedded _ ok => inferInstanceAs (Decidable (ok = true))
  | .change .. | .notify _ | .load _ => inferInstanceAs (Decidable True)

/-- The path will be loaded once more. -/
def Dirty (s : State) (p : String) : Prop := p ∈ s.undelivered ∨ p ∈ s.changed

/-- A content of a path is its content now, unless the path will be loaded once more. -/
def Current (s : State) (p : String) (text : Option String) : Prop := text = s.files p ∨ s.Dirty p

end State

variable {x : WatchOptions} {S₀ : VectorStore} {s s' : State} {p : String}

/-! ## Paths -/

/-- A path that no reindex has. -/
def AtRest (x : WatchOptions) (s : State) (p : String) : Prop :=
  Sound x (· ∈ s.store.values) p ∧
    (p ∈ s.notified → s.Dirty p ∨ Matches x (· ∈ s.store.values) p (s.files p))

/-- A path of a reindex. -/
def AtPath (x : WatchOptions) (s : State) (p : String) : Phase → Prop
  | .loading => Sound x (· ∈ s.store.values) p
  | .loaded docs => Sound x (· ∈ s.store.values) p ∧ s.Current p (loadedText docs p)
  | .embedding docs ops pending =>
    Sound x (Destined x.index ops pending s.store) p ∧
      Matches x (Destined x.index ops pending s.store) p (loadedText docs p) ∧
      s.Current p (loadedText docs p)

/-- Nothing has happened to a path, or it has become dirty. -/
structure Follows (s s' : State) (p : String) : Prop where
  store : ∀ e, e.chunk.docId = p → (e ∈ s'.store.values ↔ e ∈ s.store.values)
  files : s'.files p = s.files p ∨ s'.Dirty p
  dirty : s.Dirty p → s'.Dirty p
  notified : p ∈ s'.notified → p ∈ s.notified ∨ s'.Dirty p

theorem Follows.current (h : Follows s s' p) {text : Option String} (hs : s.Current p text) :
    s'.Current p text := by
  rcases hs with rfl | hdirty
  · exact h.files.imp Eq.symm id
  · exact .inr (h.dirty hdirty)

theorem Follows.atRest (h : Follows s s' p) (hs : AtRest x s p) : AtRest x s' p := by
  refine ⟨hs.1.congr h.store, fun hnotified => ?_⟩
  rcases h.notified hnotified with hold | hdirty
  · rcases hs.2 hold with hdirty | hmatches
    · exact .inl (h.dirty hdirty)
    · rcases h.files with hfiles | hdirty
      · rw [hfiles]
        exact .inr (hmatches.congr h.store)
      · exact .inl hdirty
  · exact .inl hdirty

theorem Follows.atPath (h : Follows s s' p) {phase : Phase} (hs : AtPath x s p phase) :
    AtPath x s' p phase := by
  cases phase with
  | loading => exact hs.congr h.store
  | loaded docs => exact ⟨hs.1.congr h.store, h.current hs.2⟩
  | embedding docs ops pending =>
    have hsame : ∀ e, e.chunk.docId = p →
        (Destined x.index ops pending s'.store e ↔ Destined x.index ops pending s.store e) :=
      fun e he => or_congr_right (and_congr_left' (or_congr_left (h.store e he)))
    exact ⟨hs.1.congr hsame, hs.2.1.congr hsame, h.current hs.2.2⟩

/-! ## Reindexes -/

/-- What a reindex holds is about its paths. -/
def Formed (paths : List String) : Phase → Prop
  | .loading => True
  | .loaded docs => (docs.map (·.id)).Nodup ∧ ∀ id ∈ docs.map (·.id), id ∈ paths
  | .embedding docs ops pending =>
    (∀ id ∈ docs.map (·.id), id ∈ paths) ∧ Working (docs.map (·.id)) ops pending

/-- **The invariant.** -/
structure Inv (x : WatchOptions) (S₀ : VectorStore) (s : State) : Prop where
  keyed : s.store.Keyed
  labelled : Labelled s.store
  fresh : ∀ i r, s.running.get? i = some r → i < s.next
  changed : s.changed.Nodup ∧ ∀ p ∈ s.changed, p ∈ s.notified
  nodup : ∀ i r, s.running.get? i = some r → r.paths.Nodup ∧ ∀ p ∈ r.paths, p ∈ s.notified
  formed : ∀ i r, s.running.get? i = some r → Formed r.paths r.phase
  /-- No path is in two reindexes. -/
  apart : ∀ i j r r', s.running.get? i = some r → s.running.get? j = some r' → i ≠ j →
    ∀ p ∈ r.paths, p ∉ r'.paths
  busy : ∀ i r, s.running.get? i = some r → ∀ p ∈ r.paths, AtPath x s p r.phase
  idle : ∀ p, (∀ i r, s.running.get? i = some r → p ∉ r.paths) → AtRest x s p
  /-- What was never notified is as it was. -/
  untouched : ∀ e : VectorItem, e.chunk.docId ∉ s.notified →
    (e ∈ s.store.values ↔ e ∈ S₀.values)

namespace Inv

/-- Files change and are notified; the batches stay as they are. -/
theorem follows (h : Inv x S₀ s) (hfollows : ∀ p, Follows s s' p) (hstore : s'.store = s.store)
    (hrunning : s'.running = s.running) (hnext : s'.next = s.next) (hnodup : s'.changed.Nodup)
    (hchanged : ∀ p ∈ s'.changed, p ∈ s'.notified)
    (hnotified : ∀ p ∈ s.notified, p ∈ s'.notified) : Inv x S₀ s' where
  keyed := hstore ▸ h.keyed
  labelled := hstore ▸ h.labelled
  fresh := hrunning ▸ hnext ▸ h.fresh
  changed := ⟨hnodup, hchanged⟩
  nodup := fun i r hget => by
    rw [hrunning] at hget
    exact ⟨(h.nodup i r hget).1, fun p hp => hnotified p ((h.nodup i r hget).2 p hp)⟩
  formed := hrunning ▸ h.formed
  apart := hrunning ▸ h.apart
  busy := fun i r hget p hp => (hfollows p).atPath (h.busy i r (hrunning ▸ hget) p hp)
  idle := fun p hp => (hfollows p).atRest (h.idle p (hrunning ▸ hp))
  untouched := fun e he => by
    rw [hstore]
    exact h.untouched e fun hmem => he (hnotified _ hmem)

theorem unarmed (h : Inv x S₀ s) (armed : Bool) : Inv x S₀ { s with armed } :=
  h.follows (fun _ => ⟨fun _ _ => Iff.rfl, .inl rfl, id, .inl⟩) rfl rfl rfl h.changed.1 h.changed.2
    fun _ hp => hp

/-- A path is in at most one of a reindex and the batch that is not flushed. -/
theorem drain (h : Inv x S₀ s)
    (hfree : ∀ r ∈ s.running.values, ∀ p ∈ r.paths, p ∉ s.changed) : Inv x S₀ s.drain := by
  unfold State.drain
  split
  · exact h
  have hget : ∀ i r, (s.running.set s.next ⟨s.changed, .loading⟩).get? i = some r →
      i = s.next ∧ r = ⟨s.changed, .loading⟩ ∨ i < s.next ∧ s.running.get? i = some r := by
    intro i r hi
    rw [JsMap.get?_set] at hi
    split at hi
    · rename_i heq
      exact .inl ⟨heq.symm, (some.inj hi).symm⟩
    · exact .inr ⟨h.fresh i r hi, hi⟩
  have hapart : ∀ i r, s.running.get? i = some r → ∀ p ∈ r.paths, p ∉ s.changed :=
    fun i r hi => hfree r ((JsMap.mem_values _ r).mpr ⟨i, hi⟩)
  -- what is not in the batch may still be on its way
  have hfollows : ∀ p ∉ s.changed, Follows s
      { s with changed := [], running := s.running.set s.next ⟨s.changed, .loading⟩
               next := s.next + 1 } p := by
    intro p hp
    refine ⟨fun _ _ => Iff.rfl, .inl rfl, fun hdirty => ?_, .inl⟩
    exact .inl (hdirty.resolve_right hp)
  refine ⟨h.keyed, h.labelled, ?_, ⟨nodup_nil, forall_mem_nil _⟩, ?_, ?_, ?_, ?_, ?_,
    h.untouched⟩
  · intro i r hi
    rcases hget i r hi with ⟨rfl, -⟩ | ⟨hlt, -⟩
    · exact Nat.lt_succ_self _
    · exact Nat.lt_succ_of_lt hlt
  · intro i r hi
    rcases hget i r hi with ⟨-, rfl⟩ | ⟨-, hold⟩
    · exact h.changed
    · exact h.nodup i r hold
  · intro i r hi
    rcases hget i r hi with ⟨-, rfl⟩ | ⟨-, hold⟩
    · trivial
    · exact h.formed i r hold
  · intro i j r r' hi hj hne p hp hp'
    rcases hget i r hi with ⟨rfl, rfl⟩ | ⟨-, hold⟩ <;>
      rcases hget j r' hj with ⟨rfl, rfl⟩ | ⟨-, hold'⟩
    · exact hne rfl
    · exact hapart j r' hold' p hp' hp
    · exact hapart i r hold p hp hp'
    · exact h.apart i j r r' hold hold' hne p hp hp'
  · intro i r hi p hp
    rcases hget i r hi with ⟨-, rfl⟩ | ⟨-, hold⟩
    · exact (h.idle p fun j r' hj hp' => hapart j r' hj p hp' hp).1
    · exact (hfollows p (hapart i r hold p hp)).atPath (h.busy i r hold p hp)
  · intro p hp
    have hnot : p ∉ s.changed := hp s.next _ (JsMap.get?_set_self _ _ _)
    refine (hfollows p hnot).atRest (h.idle p fun i r hi => hp i r ?_)
    rwa [JsMap.get?_set_of_ne _ _ (Nat.ne_of_gt (h.fresh i r hi))]

/-- **A reindex goes on or ends**: nothing but its own paths is to be looked at. -/
theorem put (h : Inv x S₀ s) {i : Nat} {r : Reindex} (hget : s.running.get? i = some r)
    {phase : Option Phase} {store : VectorStore} (hkeyed : store.Keyed)
    (hlabelled : Labelled store)
    (hframe : ∀ e : VectorItem, e.chunk.docId ∉ r.paths → (e ∈ store.values ↔ e ∈ s.store.values))
    (hformed : ∀ next, phase = some next → Formed r.paths next)
    (hbusy : ∀ next, phase = some next → ∀ p ∈ r.paths,
      AtPath x (s.put i r.paths phase store) p next)
    (hidle : phase = none → ∀ p ∈ r.paths, AtRest x (s.put i r.paths phase store) p) :
    Inv x S₀ (s.put i r.paths phase store) := by
  have hcases : ∀ j r', (s.put i r.paths phase store).running.get? j = some r' →
      (j = i ∧ ∃ next, phase = some next ∧ r' = ⟨r.paths, next⟩) ∨
        j ≠ i ∧ s.running.get? j = some r' := by
    intro j r' hj
    cases phase with
    | some next =>
      have hset : (s.running.set i ⟨r.paths, next⟩).get? j = some r' := hj
      rw [JsMap.get?_set] at hset
      split at hset
      · rename_i heq
        exact .inl ⟨heq.symm, next, rfl, (some.inj hset).symm⟩
      · rename_i hne
        exact .inr ⟨Ne.symm hne, hset⟩
    | none =>
      have hdelete : (s.running.delete i).get? j = some r' := hj
      rw [JsMap.get?_delete] at hdelete
      split at hdelete
      · nomatch hdelete
      · rename_i hne
        exact .inr ⟨Ne.symm hne, hdelete⟩
  have hother : ∀ j r', j ≠ i → s.running.get? j = some r' →
      (s.put i r.paths phase store).running.get? j = some r' := by
    intro j r' hne hj
    cases phase with
    | some next => exact (JsMap.get?_set_of_ne _ _ (Ne.symm hne)).trans hj
    | none =>
      show (s.running.delete i).get? j = _
      rwa [JsMap.get?_delete, if_neg (Ne.symm hne)]
  have hfollows : ∀ p ∉ r.paths, Follows s (s.put i r.paths phase store) p := fun p hp =>
    ⟨fun e he => hframe e (he ▸ hp), .inl rfl, id, .inl⟩
  refine ⟨hkeyed, hlabelled, ?_, h.changed, ?_, ?_, ?_, ?_, ?_, ?_⟩
  · intro j r' hj
    rcases hcases j r' hj with ⟨rfl, -⟩ | ⟨-, hold⟩
    · exact h.fresh j r hget
    · exact h.fresh j r' hold
  · intro j r' hj
    rcases hcases j r' hj with ⟨-, next, -, rfl⟩ | ⟨-, hold⟩
    · exact h.nodup i r hget
    · exact h.nodup j r' hold
  · intro j r' hj
    rcases hcases j r' hj with ⟨-, next, hnext, rfl⟩ | ⟨-, hold⟩
    · exact hformed next hnext
    · exact h.formed j r' hold
  · intro j k r₁ r₂ hj hk hne p hp hp'
    rcases hcases j r₁ hj with ⟨rfl, next, -, rfl⟩ | ⟨-, hold⟩ <;>
      rcases hcases k r₂ hk with ⟨rfl, next', -, rfl⟩ | ⟨-, hold'⟩
    · exact hne rfl
    · exact h.apart _ k r r₂ hget hold' hne p hp hp'
    · exact h.apart j _ r₁ r hold hget hne p hp hp'
    · exact h.apart j k r₁ r₂ hold hold' hne p hp hp'
  · intro j r' hj p hp
    rcases hcases j r' hj with ⟨-, next, hnext, rfl⟩ | ⟨hne, hold⟩
    · exact hbusy next hnext p hp
    · exact (hfollows p (h.apart j i r' r hold hget hne p hp)).atPath (h.busy j r' hold p hp)
  · intro p hp
    by_cases hmem : p ∈ r.paths
    · cases phase with
      | none => exact hidle rfl p hmem
      | some next => exact absurd hmem (hp i ⟨r.paths, next⟩ (JsMap.get?_set_self _ _ _))
    · refine (hfollows p hmem).atRest (h.idle p fun j r' hj hp' => ?_)
      by_cases hji : j = i
      · subst hji
        exact hmem (some.inj (hget.symm.trans hj) ▸ hp')
      · exact hp j r' (hother j r' hji hj) hp'
  · intro e he
    have hout : e.chunk.docId ∉ r.paths := fun hmem => he ((h.nodup i r hget).2 _ hmem)
    exact (hframe e hout).trans (h.untouched e he)

end Inv

/-! ## Stretches -/

theorem loadedText_of_mem {docs : List RagDocument} (h : p ∈ docs.map (·.id)) :
    ∃ text, loadedText docs p = some text := by
  obtain ⟨doc, hdoc, rfl⟩ := mem_map.mp h
  unfold loadedText
  cases hfind : docs.find? fun d => d.id == doc.id with
  | none => exact absurd (beq_self_eq_true doc.id) (List.find?_eq_none.mp hfind doc hdoc)
  | some found => exact ⟨found.text, rfl⟩

theorem docsAt_formed {paths : List String} (h : paths.Nodup) :
    Formed paths (.loaded (s.docsAt x paths)) := by
  have hids : (s.docsAt x paths).map (·.id) = paths.filter fun path => (s.files path).isSome := by
    unfold State.docsAt
    rw [map_filterMap, ← filterMap_eq_filter]
    refine filterMap_congr fun path _ => ?_
    cases hfile : s.files path with
    | none => simp [Option.guard, hfile]
    | some text => simp [Option.guard, hfile, x.loader.id_docOf]
  show ((s.docsAt x paths).map (·.id)).Nodup ∧ ∀ id ∈ (s.docsAt x paths).map (·.id), id ∈ paths
  rw [hids]
  exact ⟨h.filter _, fun id hid => (mem_filter.mp hid).1⟩

theorem of_mem_docsAt {paths : List String} {doc : RagDocument} (h : doc ∈ s.docsAt x paths) :
    s.files doc.id = some doc.text := by
  obtain ⟨path, -, hdoc⟩ := mem_filterMap.mp h
  obtain ⟨text, hfile, rfl⟩ := map_eq_some_iff.mp hdoc
  rw [x.loader.id_docOf, x.loader.text_docOf, hfile]

theorem loadedText_docsAt {paths : List String} (h : p ∈ paths) :
    loadedText (s.docsAt x paths) p = s.files p := by
  unfold loadedText
  cases hfind : (s.docsAt x paths).find? fun doc => doc.id == p with
  | some doc =>
    have hid := List.find?_some hfind
    rw [← beq_iff_eq.mp hid, of_mem_docsAt (mem_of_find?_eq_some hfind)]
    rfl
  | none =>
    cases hfile : s.files p with
    | none => rfl
    | some text =>
      have hmem : x.loader.docOf p text ∈ s.docsAt x paths :=
        mem_filterMap.mpr ⟨p, h, by rw [hfile]; rfl⟩
      exact absurd (beq_iff_eq.mpr (x.loader.id_docOf p text))
        (List.find?_eq_none.mp hfind _ hmem)

namespace Inv

/-- **A stretch of a reindex**: what it leaves is what was to be. -/
theorem halted (h : Inv x S₀ s) {i : Nat} {r : Reindex} (hget : s.running.get? i = some r)
    {docs : List RagDocument} {begun : VectorStore} {P : VectorItem → Prop}
    {halt : Halt}
    (hkeeps : halt.Keeps x.index (docs.map (·.id)) begun P) (hlabelled : Labelled begun)
    (hids : ∀ id ∈ docs.map (·.id), id ∈ r.paths)
    (hframe : ∀ e : VectorItem, e.chunk.docId ∉ r.paths → (P e ↔ e ∈ s.store.values))
    (hpaths : ∀ p ∈ r.paths, Sound x P p ∧ Matches x P p (loadedText docs p) ∧
      s.Current p (loadedText docs p)) :
    Inv x S₀ (s.halted i r.paths docs halt) := by
  cases halt with
  | throws e store => exact hkeeps.elim
  | embeds ops pending store =>
    obtain ⟨hworking, hkeyed, hsub, hdestined⟩ := hkeeps
    have hP : Destined x.index ops pending store = P := funext fun e => propext (hdestined e)
    show Inv x S₀ (s.put i r.paths (some (.embedding docs ops pending)) store)
    refine h.put hget hkeyed (fun e he => hlabelled e (hsub e he)) (fun e he => ?_)
      (fun next hnext => ?_) (fun next hnext p hp => ?_) nofun
    · rw [← hframe e he, ← hdestined e]
      exact (hworking.destined_iff fun hmem => he (hids _ hmem)).symm
    · cases hnext
      exact ⟨hids, hworking⟩
    · cases hnext
      show Sound x (Destined x.index ops pending store) p ∧
        Matches x (Destined x.index ops pending store) p (loadedText docs p) ∧
        s.Current p (loadedText docs p)
      rw [hP]
      exact hpaths p hp
  | returns store =>
    obtain ⟨hkeyed, hsub, hmem⟩ := hkeeps
    have hP : (· ∈ store.values) = P := funext fun e => propext (hmem e)
    show Inv x S₀ (s.put i r.paths none store)
    refine h.put hget hkeyed (fun e he => hlabelled e (hsub e he)) (fun e he => ?_)
      (fun next hnext => nomatch hnext) (fun next hnext => nomatch hnext) (fun _ p hp => ?_)
    · rw [← hframe e he, hmem e]
    · obtain ⟨hsound, hmatches, hcurrent⟩ := hpaths p hp
      show Sound x (· ∈ store.values) p ∧
        (_ → s.Dirty p ∨ Matches x (· ∈ store.values) p (s.files p))
      rw [hP]
      refine ⟨hsound, fun _ => ?_⟩
      rcases hcurrent with hsame | hdirty
      · exact .inr (hsame ▸ hmatches)
      · exact .inl hdirty

theorem load (h : Inv x S₀ s) {i : Nat} {paths : List String}
    (hget : s.running.get? i = some ⟨paths, .loading⟩) :
    Inv x S₀ (s.put i paths (some (.loaded (s.docsAt x paths))) s.store) := by
  refine h.put hget h.keyed h.labelled (fun _ _ => Iff.rfl) (fun next hnext => ?_)
    (fun next hnext p hp => ?_) nofun
  · cases hnext
    exact docsAt_formed (h.nodup i _ hget).1
  · cases hnext
    exact ⟨h.busy i _ hget p hp, .inl (loadedText_docsAt hp)⟩

/-- A comparison: what is indexed is what the documents of the batch are to become. -/
theorem compare (hsha : Function.Injective x.host.sha256) (hcuts : Cuts x.index)
    (h : Inv x S₀ s) {i : Nat} {paths : List String} {docs : List RagDocument}
    (hget : s.running.get? i = some ⟨paths, .loaded docs⟩)
    (hprune : x.prune = true → ∀ e ∈ s.store.values, e.chunk.docId ∈ paths) :
    Inv x S₀ (s.halted i paths docs
      (advance x.index (opsAll x.host x.index (State.toIndex x s.store docs)) []
        (State.pruned x s.store docs))) := by
  obtain ⟨hdocs, hids⟩ : Formed paths (.loaded docs) := h.formed i _ hget
  obtain ⟨hpruned, hmem⟩ := @mem_pruned x s.store h.keyed docs
  have hindexed : ((State.toIndex x s.store docs).map (·.id)).Sublist (docs.map (·.id)) := by
    have hstamped : (State.toIndex x s.store docs).map (·.id) =
        (docs.filter fun doc =>
          !isUnchanged x.host (storedHash s.store.chunks) doc).map (·.id) := by
      unfold State.toIndex
      rw [List.map_map]
      rfl
    rw [hstamped]
    exact List.filter_sublist.map _
  have hworking : Working (docs.map (·.id))
      (opsAll x.host x.index (State.toIndex x s.store docs)) [] :=
    (working_opsAll hcuts (hdocs.sublist hindexed)).mono fun _ hid => hindexed.subset hid
  refine h.halted hget (advance_spec hpruned hworking)
    (fun e he => h.labelled e ((hmem e).mp he).1) hids (fun e he => ?_) (fun p hp => ?_)
  · -- a path of another batch has no entries while there is pruning
    rw [hworking.destined_iff fun hin => he (hids _ hin), hmem]
    exact and_iff_left_of_imp fun hin hp => absurd (hprune hp e hin) he
  · obtain ⟨hsound, hcurrent⟩ : AtPath x s p (.loaded docs) := h.busy i _ hget p hp
    obtain ⟨hsound', hmatches⟩ := compared hsha hcuts h.keyed hsound hdocs
    exact ⟨hsound', hmatches, hcurrent⟩

theorem embedded (h : Inv x S₀ s) {i : Nat} {paths : List String} {docs : List RagDocument}
    {ops : List Op} {pending : List Chunk}
    (hget : s.running.get? i = some ⟨paths, .embedding docs ops pending⟩) :
    Inv x S₀ (s.halted i paths docs
      (advance x.index ops [] (stored x.index pending s.store))) := by
  obtain ⟨hids, hworking⟩ : Formed paths (.embedding docs ops pending) := h.formed i _ hget
  have hbusy : ∀ p ∈ paths, AtPath x s p (.embedding docs ops pending) := h.busy i _ hget
  have hitems : ∀ c ∈ pending, Destined x.index ops pending s.store (itemOf x.index c) :=
    fun c hc => .inr ⟨.inr (mem_map_of_mem hc), hworking.behind c hc⟩
  -- an entry with the id of a chunk of the batch is of the same text
  have hsame : ∀ c ∈ pending, ∀ e ∈ s.store.values, e.id = c.id → e = itemOf x.index c := by
    intro c hc e he hid
    have hdocId : e.chunk.docId = c.docId := by
      rw [h.labelled e he, hworking.labelled c (mem_append_left _ hc)] at hid
      exact (chunkId_inj hid).1
    have hin := hworking.within c (mem_append_left _ hc)
    obtain ⟨text, htext⟩ := loadedText_of_mem hin
    obtain ⟨-, hmatches, -⟩ := hbusy c.docId (hids _ hin)
    rw [htext] at hmatches
    obtain ⟨d, -, -, hd⟩ := hmatches
    have hold : Destined x.index ops pending s.store e :=
      .inr ⟨.inl he, hdocId ▸ hworking.behind c hc⟩
    obtain ⟨a, ha, rfl⟩ := mem_map.mp ((hd e hdocId).mp hold)
    obtain ⟨b, hb, hbc⟩ := mem_map.mp ((hd _ rfl).mp (hitems c hc))
    have hba : b.id = a.id := (congrArg VectorItem.id hbc).trans hid.symm
    rw [← hbc, inj_on_of_nodup_map (nodup_chunksOf (stamp x.host d)) hb ha hba]
  have hdestined : Destined x.index ops [] (stored x.index pending s.store) =
      Destined x.index ops pending s.store :=
    funext fun e => propext (stored_destined h.keyed hworking hsame e)
  have hkeyed : VectorStore.Keyed (stored x.index pending s.store) := h.keyed.setAll
  have hlabelled : Labelled (stored x.index pending s.store) := by
    intro e he
    rcases (mem_stored h.keyed hworking e).mp he with hitem | ⟨hold, -⟩
    · obtain ⟨c, hc, rfl⟩ := mem_map.mp hitem
      exact hworking.labelled c (mem_append_left _ hc)
    · exact h.labelled e hold
  refine h.halted hget (advance_spec hkeyed hworking.embedded) hlabelled hids (fun e he => ?_)
    (fun p hp => ?_)
  · rw [hdestined]
    exact hworking.destined_iff fun hin => he (hids _ hin)
  · rw [hdestined]
    exact hbusy p hp

end Inv

/-! ## Runs -/

/-- **One careful step.** -/
theorem Inv.step (hsha : Function.Injective x.host.sha256) (hcuts : Cuts x.index)
    (h : Inv x S₀ s) {event : Event} (hcareful : s.Careful x event) :
    Inv x S₀ (s.step x event) := by
  cases event with
  | change path text =>
    refine h.follows (fun p => ?_) rfl rfl rfl h.changed.1 h.changed.2 fun _ hp => hp
    refine ⟨fun _ _ => Iff.rfl, ?_, Or.imp_left fun hp => JsSet.mem_add.mpr (.inr hp), .inl⟩
    by_cases hp : p = path
    · exact .inr (.inl (JsSet.mem_add.mpr (.inl hp)))
    · exact .inl (if_neg hp)
  | notify path =>
    refine h.follows (fun p => ?_) rfl rfl rfl (JsSet.nodup_add h.changed.1) (fun p hp => ?_)
      fun p hp => JsSet.mem_add.mpr (.inr hp)
    · refine ⟨fun _ _ => Iff.rfl, .inl rfl, fun hdirty => ?_, fun hnotified => ?_⟩
      · by_cases hp : p = path
        · exact .inr (JsSet.mem_add.mpr (.inl hp))
        · refine hdirty.imp (fun hmem => ?_) fun hmem => JsSet.mem_add.mpr (.inr hmem)
          exact mem_filter.mpr ⟨hmem, decide_eq_true hp⟩
      · rcases JsSet.mem_add.mp hnotified with rfl | hold
        · exact .inr (.inr (JsSet.mem_add.mpr (.inl rfl)))
        · exact .inl hold
    · exact JsSet.mem_add.mpr ((JsSet.mem_add.mp hp).imp_right (h.changed.2 p))
  | timer =>
    unfold State.step
    dsimp only
    split
    · rename_i harmed
      exact (h.unarmed false).drain (hcareful harmed)
    · exact h
  | flush => exact (h.unarmed false).drain hcareful
  | load i =>
    unfold State.step
    dsimp only
    split
    · rename_i paths hget
      exact h.load hget
    · exact h
  | compare i =>
    unfold State.step
    dsimp only
    split
    · rename_i paths docs hget
      exact h.compare hsha hcuts hget fun hprune => hcareful hprune _ hget
    · exact h
  | embedded i ok =>
    obtain rfl : ok = true := hcareful
    unfold State.step
    dsimp only
    split
    · rename_i paths docs ops pending hget
      exact h.embedded hget
    · exact h

/-- An index to begin with: the entries of a path are all of one text, with its hash, or, where
    nothing is pruned, without any. -/
structure Whole (x : WatchOptions) (store : VectorStore) : Prop where
  keyed : store.Keyed
  labelled : Labelled store
  sound : ∀ p, Sound x (· ∈ store.values) p

theorem Whole.inv (h : Whole x S₀) (files : String → Option String) :
    Inv x S₀ (State.start files S₀) where
  keyed := h.keyed
  labelled := h.labelled
  fresh := fun _ _ => nofun
  changed := ⟨nodup_nil, forall_mem_nil _⟩
  nodup := fun _ _ => nofun
  formed := fun _ _ => nofun
  apart := fun _ _ _ _ hget => (nomatch hget)
  busy := fun _ _ => nofun
  idle := fun p _ => ⟨h.sound p, nofun⟩
  untouched := fun _ _ => Iff.rfl

/-- What watch mode is to come to, from an index to begin with. -/
structure Converged (x : WatchOptions) (S₀ : VectorStore) (s : State) : Prop where
  current : ∀ p ∈ s.notified, ∀ text, s.files p = some text →
    ∀ v ∈ viewsOf x.host x.index (x.loader.docOf p text), v ∈ s.store.values.map view
  kept : ∀ e ∈ S₀.values, e.chunk.docId ∉ s.notified → e ∈ s.store.values
  pruned : x.prune = true → ∀ e ∈ s.store.values, e.chunk.docId ∈ s.notified →
    s.files e.chunk.docId ≠ none

/-- What is at rest and current has its content in the index. -/
theorem Inv.converged (h : Inv x S₀ s) (hquiescent : s.Quiescent) : Converged x S₀ s := by
  obtain ⟨hrunning, hchanged, hundelivered⟩ := hquiescent
  have hmatches : ∀ p ∈ s.notified, Matches x (· ∈ s.store.values) p (s.files p) := by
    intro p hp
    have hfree : ∀ i r, s.running.get? i = some r → p ∉ r.paths := by
      intro i r hget
      have hmem := (JsMap.mem_values _ r).mpr ⟨i, hget⟩
      rw [hrunning] at hmem
      nomatch hmem
    refine ((h.idle p hfree).2 hp).resolve_left ?_
    rintro (hdirty | hdirty)
    · rw [hundelivered] at hdirty
      nomatch hdirty
    · rw [hchanged] at hdirty
      nomatch hdirty
  refine ⟨fun p hp text hfile v hv => ?_, fun e he hnot => (h.untouched e hnot).mpr he,
    fun hprune e he hp hfile => ?_⟩
  · have hshows := hmatches p hp
    rw [hfile] at hshows
    obtain ⟨d, hid, htext, hd⟩ := hshows
    have hviews : viewsOf x.host x.index (x.loader.docOf p text) =
        viewsOf x.host x.index (stamp x.host d) :=
      viewsOf_congr ((x.loader.id_docOf p text).trans hid.symm)
        ((x.loader.text_docOf p text).trans htext.symm)
    rw [hviews] at hv
    obtain ⟨c, hc, rfl⟩ := mem_map.mp hv
    have hdocId : c.docId = p := (mem_chunksOf hc).2.1.trans hid
    exact mem_map_of_mem ((hd _ hdocId).mpr (mem_map_of_mem hc))
  · have hgone := hmatches e.chunk.docId hp
    rw [hfile] at hgone
    exact hgone hprune e he rfl

/-- **Watch mode converges** as long as every step is careful. -/
theorem watch_converges (hsha : Function.Injective x.host.sha256) (hcuts : Cuts x.index)
    (hwhole : Whole x S₀) {files : String → Option String} {events : List Event}
    (hcareful : (machine x).Always (State.Careful x) (State.start files S₀) events)
    (hquiescent : ((machine x).run (State.start files S₀) events).Quiescent) :
    Converged x S₀ ((machine x).run (State.start files S₀) events) :=
  (hcareful.invariant (fun _ _ hinv hok => hinv.step hsha hcuts hok) (hwhole.inv files)).converged
    hquiescent

/-! ## One file -/

namespace OneFile

/-- The document of a path is its text. -/
def loader : Loader := ⟨fun path text => { id := path, text }, fun _ _ => rfl, fun _ _ => rfl⟩

def options : WatchOptions where
  host := HalfADocument.host
  index := HalfADocument.opts
  loader
  prune := true

theorem whole : Whole options .empty where
  keyed := VectorStore.keyed_empty
  labelled := fun _ => nofun
  sound := fun _ => .inl fun _ => nofun

theorem cuts : Cuts options.index := by
  unfold Cuts
  decide

/-- No file and no index. -/
def first : State := State.start (fun _ => none) .empty

/-- The file is created, and deleted once it is embedded. -/
def oneByOne : List Event :=
  [.change "a" (some "xy"), .notify "a", .timer, .load 0, .compare 0, .embedded 0 true,
    .embedded 0 true, .change "a" none, .notify "a", .flush, .load 1, .compare 1]

/-- It is deleted, and its deletion reindexed, while it is embedded. -/
def overtaken : List Event :=
  [.change "a" (some "xy"), .notify "a", .timer, .load 0, .compare 0, .change "a" none,
    .notify "a", .flush, .load 1, .compare 1, .embedded 0 true, .embedded 0 true]

end OneFile

open OneFile in
/-- A file is created, indexed and deleted. -/
theorem oneByOne_converges :
    Converged options .empty ((machine options).run first oneByOne) :=
  watch_converges HalfADocument.sha256_injective cuts whole (by decide +kernel) (by decide +kernel)

open OneFile in
/-- A batch that was loaded earlier is embedded last: the index holds the file that is gone. -/
theorem overtaken_stale : ¬ ∀ (x : WatchOptions) (S₀ : VectorStore) (files : String → Option String)
    (events : List Event), Function.Injective x.host.sha256 → Cuts x.index → Whole x S₀ →
      ((machine x).run (State.start files S₀) events).Quiescent →
        Converged x S₀ ((machine x).run (State.start files S₀) events) := by
  intro hclaim
  have hconverged : Converged options .empty ((machine options).run first overtaken) :=
    hclaim options .empty (fun _ => none) overtaken HalfADocument.sha256_injective cuts whole
      (by decide +kernel)
  have hstored : ((machine options).run first overtaken).store.values.map (·.chunk.docId) =
      ["a", "a"] := by decide +kernel
  have hnotified : ((machine options).run first overtaken).notified = ["a"] := by decide +kernel
  have hfile : ((machine options).run first overtaken).files "a" = none := by decide +kernel
  have hmem : "a" ∈ ["a", "a"] := mem_cons_self
  rw [← hstored] at hmem
  obtain ⟨e, he, hdocId⟩ := mem_map.mp hmem
  refine hconverged.pruned rfl e he ?_ (hdocId ▸ hfile)
  rw [hnotified, hdocId]
  exact mem_singleton_self "a"

end NexusCode.Rag.Watch
