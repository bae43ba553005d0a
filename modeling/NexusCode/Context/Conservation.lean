/-
  What an assembly keeps and what it reports.

  Four laws are asked of it (`Conserves`): every pinned text is included, every chunk is reported
  once, the tokens add up, and the budget is exceeded by pinned chunks alone.  The last two hold
  always.  The first two fail in two ways, which `Undisputed` excludes:

  1. trimming marks ids, so a chunk that was not trimmed goes, unreported, with a trimmed one of
     the same id;
  2. the strongest copy of a pinned text is kept even if that copy is not pinned, and then it may
     be trimmed or compressed.

  **`conserves_iff`** says that nothing else goes wrong.
-/
import NexusCode.Context.Engine

namespace NexusCode.Context

open Lib List

/-- What tells a chunk in a report. -/
def ResolvedChunk.ref (c : ResolvedChunk) : String × String × ContextLane :=
  (c.id, c.sourceId, c.lane)

/-- What tells a dropped chunk in a report. -/
def DroppedChunk.ref (c : DroppedChunk) : String × String × ContextLane :=
  (c.id, c.sourceId, c.lane)

section Laws

variable (host : Host) (o : AssembleOptions) (q : Request)

/-- **The conservation laws.** -/
structure Conserves : Prop where
  pinned : ∀ c ∈ collect o q.sources, c.pinned = true → normalizeKey host c.text ≠ "" →
    ∃ d ∈ (assemble host o q).included, normalizeKey host d.text = normalizeKey host c.text
  reported : ((assemble host o q).included.map (·.ref) ++
    (assemble host o q).dropped.map (·.ref)).Perm ((collect o q.sources).map (·.ref))
  exact : (assemble host o q).realTokens =
    o.estimate q.userMessage + tokensOf (assemble host o q).included
  floor : exceeds o.budgetTokens (assemble host o q).realTokens = true →
    ∀ d ∈ (assemble host o q).included, d.pinned = true

/-! ## What decides -/

/-- The strongest copy of each text, and the chunks without one, compressed and in order. -/
def survivors : List ResolvedChunk :=
  orderChunks host o
    ((firsts (isCopy host) (byStrength host o (collect o q.sources))).map (compressChunk o))

/-- What the survivors and the message weigh. -/
def load : Nat := o.estimate q.userMessage + tokensOf (survivors host o q)

/-- The survivors that may be trimmed, the least valuable first. -/
def candidates : List ResolvedChunk := trimCandidates host o (survivors host o q)

/-- A candidate is trimmed if the budget is exceeded without those before it. -/
def IsTrimmed (c : ResolvedChunk) : Prop :=
  ∃ before after, candidates host o q = before ++ c :: after ∧
    exceeds o.budgetTokens (load host o q - tokensOf before) = true

/-- A survivor is spared if it is pinned, or the budget suffices without the candidates before. -/
def IsSpared (c : ResolvedChunk) : Prop :=
  (c ∈ survivors host o q ∧ c.pinned = true) ∨
    ∃ before after, candidates host o q = before ++ c :: after ∧
      exceeds o.budgetTokens (load host o q - tokensOf before) = false

/-- The strongest copy of the text of a chunk. -/
def strongest (c : ResolvedChunk) : Option ResolvedChunk :=
  (byStrength host o (collect o q.sources)).find? (isCopy host c)

/-- No spared chunk has the id of a trimmed one; and the strongest copy of each pinned text is
    pinned, or the text is still that of a spared chunk after compression. -/
structure Undisputed : Prop where
  ids : ∀ c d, IsTrimmed host o q c → IsSpared host o q d → c.id ≠ d.id
  copies : ∀ c ∈ collect o q.sources, c.pinned = true → normalizeKey host c.text ≠ "" →
    (∃ s ∈ strongest host o q c, s.pinned = true) ∨
      ∃ d, IsSpared host o q d ∧ d.pinned = false ∧
        normalizeKey host d.text = normalizeKey host c.text

end Laws

variable {host : Host} {o : AssembleOptions} {q : Request}

theorem ordered_eq_survivors : ordered host o (collect o q.sources) = survivors host o q := by
  rw [ordered, dedupe_winners, survivors]

theorem trimming_mem (c : ResolvedChunk) :
    c ∈ (trimming host o (survivors host o q) (o.estimate q.userMessage)).1 ↔
      IsTrimmed host o q c :=
  mem_cut_iff exceeds_mono c _ _

theorem spared_mem (c : ResolvedChunk) :
    (c ∈ (survivors host o q).filter (·.pinned) ∨
      c ∈ (trimming host o (survivors host o q) (o.estimate q.userMessage)).2) ↔
      IsSpared host o q c :=
  or_congr mem_filter (mem_rest_iff exceeds_mono c _ _)

theorem assemble_included : (assemble host o q).included = (survivors host o q).filter fun c =>
    c.id ∉ (trimming host o (survivors host o q) (o.estimate q.userMessage)).1.map (·.id) := by
  rw [assemble]
  dsimp only
  rw [ordered_eq_survivors, pack_included]

theorem mem_included_iff (c : ResolvedChunk) : c ∈ (assemble host o q).included ↔
    c ∈ survivors host o q ∧ ∀ t, IsTrimmed host o q t → t.id ≠ c.id := by
  rw [assemble_included, mem_filter, decide_eq_true_iff]
  refine and_congr_right fun _ => ⟨fun h t ht heq => ?_, fun h hmem => ?_⟩
  · exact h (heq ▸ mem_map_of_mem ((trimming_mem t).mpr ht))
  · obtain ⟨t, ht, heq⟩ := mem_map.mp hmem
    exact h t ((trimming_mem t).mp ht) heq

theorem mem_survivors_iff (c : ResolvedChunk) : c ∈ survivors host o q ↔
    IsTrimmed host o q c ∨ IsSpared host o q c := by
  rw [(trimming_perm (survivors host o q) (o.estimate q.userMessage)).mem_iff, mem_append,
    mem_append, or_left_comm, trimming_mem, spared_mem]

/-- Where ids are not disputed, exactly the spared chunks are included. -/
theorem mem_included_iff_spared (hids : ∀ c d, IsTrimmed host o q c → IsSpared host o q d →
    c.id ≠ d.id) (c : ResolvedChunk) :
    c ∈ (assemble host o q).included ↔ IsSpared host o q c := by
  rw [mem_included_iff, mem_survivors_iff]
  constructor
  · rintro ⟨htrimmed | hspared, hid⟩
    · exact absurd rfl (hid c htrimmed)
    · exact hspared
  · intro hspared
    exact ⟨.inr hspared, fun t ht => hids t c ht hspared⟩

/-! ## Every chunk is reported once -/

/-- Compression and order leave the references of the winners. -/
theorem survivors_ref : ((survivors host o q).map (·.ref)).Perm
    ((dedupe host o (collect o q.sources)).1.map (·.ref)) := by
  rw [survivors, ← dedupe_winners]
  refine ((sortBy_perm _).map _).trans ?_
  rw [map_map]
  refine List.Perm.of_eq (map_congr_left fun c _ => ?_)
  obtain ⟨hid, hsource, hlane, _⟩ := @compressChunk_same o c
  unfold ResolvedChunk.ref
  rw [Function.comp_apply, hid, hsource, hlane]

/-- The chunks collected are the survivors and the duplicates. -/
theorem collected_ref : ((collect o q.sources).map (·.ref)).Perm
    ((survivors host o q).map (·.ref) ++
      (dedupe host o (collect o q.sources)).2.map (·.ref)) := by
  refine List.Perm.trans ?_ (survivors_ref.symm.append_right _)
  have hperm := (@dedupeLoop_perm host (byStrength host o (collect o q.sources)) []).trans
    (sortBy_perm _)
  refine (hperm.symm.map (·.ref)).trans (List.Perm.of_eq ?_)
  rw [map_append]
  refine congrArg (_ ++ ·) ?_
  rw [dedupe, map_map]
  exact map_congr_left fun c _ => rfl

/-- The pinned survivors and the candidates that are spared. -/
def spared (host : Host) (o : AssembleOptions) (q : Request) : List ResolvedChunk :=
  (survivors host o q).filter (·.pinned) ++
    (trimming host o (survivors host o q) (o.estimate q.userMessage)).2

theorem mem_spared_iff (c : ResolvedChunk) : c ∈ spared host o q ↔ IsSpared host o q c :=
  mem_append.trans (spared_mem c)

theorem survivors_perm : (survivors host o q).Perm (spared host o q ++
    (trimming host o (survivors host o q) (o.estimate q.userMessage)).1) := by
  refine (@trimming_perm host o _ (o.estimate q.userMessage)).trans ?_
  rw [spared, append_assoc]
  exact List.perm_append_comm.append_left _

/-- What is included are the spared chunks whose ids are not those of trimmed ones. -/
theorem included_perm : (assemble host o q).included.Perm ((spared host o q).filter fun c =>
    c.id ∉ (trimming host o (survivors host o q) (o.estimate q.userMessage)).1.map (·.id)) := by
  rw [assemble_included]
  refine (survivors_perm.filter _).trans (List.Perm.of_eq ?_)
  rw [filter_append]
  refine (congrArg (_ ++ ·) (filter_eq_nil_iff.mpr fun c hc => ?_)).trans (append_nil _)
  rw [decide_eq_true_iff, not_not]
  exact mem_map_of_mem hc

theorem dropped_ref : (assemble host o q).dropped.map (·.ref) =
    (dedupe host o (collect o q.sources)).2.map (·.ref) ++
      (trimming host o (survivors host o q) (o.estimate q.userMessage)).1.map (·.ref) := by
  rw [assemble]
  dsimp only
  rw [ordered_eq_survivors, pack_dropped, map_append, map_map]
  rfl

/-- **The reports are complete exactly if no id is disputed.** -/
theorem reported_iff :
    ((assemble host o q).included.map (·.ref) ++
      (assemble host o q).dropped.map (·.ref)).Perm ((collect o q.sources).map (·.ref)) ↔
    ∀ c d, IsTrimmed host o q c → IsSpared host o q d → c.id ≠ d.id := by
  have hkept : (∀ c d, IsTrimmed host o q c → IsSpared host o q d → c.id ≠ d.id) ↔
      ∀ d ∈ spared host o q,
        d.id ∉ (trimming host o (survivors host o q) (o.estimate q.userMessage)).1.map (·.id) := by
    constructor
    · intro h d hd hmem
      obtain ⟨c, hc, heq⟩ := mem_map.mp hmem
      exact h c d ((trimming_mem c).mp hc) ((mem_spared_iff d).mp hd) heq
    · intro h c d hc hd heq
      exact h d ((mem_spared_iff d).mpr hd) (heq ▸ mem_map_of_mem ((trimming_mem c).mpr hc))
  rw [hkept, dropped_ref]
  constructor
  · intro hperm
    have hlength := hperm.length_eq
    have hcollected := (@collected_ref host o q).length_eq
    have hincluded := (@included_perm host o q).length_eq
    have hsurvivors := (@survivors_perm host o q).length_eq
    simp only [length_append, length_map] at hlength hcollected hsurvivors
    have hall := length_filter_eq_length_iff.mp (show ((spared host o q).filter fun c =>
      c.id ∉ (trimming host o (survivors host o q) (o.estimate q.userMessage)).1.map
        (·.id)).length = (spared host o q).length by omega)
    exact fun d hd => of_decide_eq_true (hall d hd)
  · intro h
    have hall : ((spared host o q).filter fun c => c.id ∉ (trimming host o (survivors host o q)
        (o.estimate q.userMessage)).1.map (·.id)) = spared host o q :=
      filter_eq_self.mpr fun d hd => decide_eq_true (h d hd)
    have hincluded := @included_perm host o q
    rw [hall] at hincluded
    refine List.Perm.trans ?_ (@collected_ref host o q).symm
    refine (List.perm_append_comm.append_left _).trans ?_
    rw [← append_assoc]
    refine List.Perm.append_right _ ?_
    refine ((hincluded.map (·.ref)).append_right _).trans ?_
    rw [← map_append]
    exact survivors_perm.symm.map _

/-! ## The budget -/

/-- **Only pinned chunks exceed the budget.** -/
theorem included_pinned_of_exceeds
    (h : exceeds o.budgetTokens (assemble host o q).realTokens = true) :
    ∀ d ∈ (assemble host o q).included, d.pinned = true := by
  have hreal : (assemble host o q).realTokens =
      o.estimate q.userMessage + tokensOf (assemble host o q).included := rfl
  have hincluded := total_perm (·.tokens) (@included_perm host o q)
  have hle := total_filter_le (·.tokens) (fun c => decide
    (c.id ∉ (trimming host o (survivors host o q) (o.estimate q.userMessage)).1.map (·.id)))
    (spared host o q)
  have hafter := @load_after host o (survivors host o q) (o.estimate q.userMessage)
  have hspared := total_append (·.tokens) ((survivors host o q).filter (·.pinned))
    (trimming host o (survivors host o q) (o.estimate q.userMessage)).2
  -- what is left after the trimming is at least what is included, so nothing was left to trim
  have hrest : (trimming host o (survivors host o q) (o.estimate q.userMessage)).2 = [] := by
    refine cut_load _ _ (exceeds_mono _ _ ?_ h)
    rw [hreal]
    change _ ≤ o.estimate q.userMessage + tokensOf (survivors host o q) -
      tokensOf (trimming host o (survivors host o q) (o.estimate q.userMessage)).1
    rw [hafter]
    unfold tokensOf at *
    unfold spared at hle hincluded
    omega
  intro d hd
  have hmem := (included_perm.mem_iff.mp hd)
  have hspared := mem_of_mem_filter hmem
  rw [spared, hrest, append_nil] at hspared
  exact (mem_filter.mp hspared).2

/-! ## Pinned texts -/

theorem strongest_of_pinned {c d : ResolvedChunk} (hd : d ∈ survivors host o q)
    (hpinned : d.pinned = true) (hkey : normalizeKey host d.text = normalizeKey host c.text)
    (hblank : normalizeKey host c.text ≠ "") : strongest host o q c = some d := by
  have hd' : d ∈ (firsts (isCopy host) (byStrength host o (collect o q.sources))).map
      (compressChunk o) := mem_sortBy.mp hd
  obtain ⟨w, hw, hwd⟩ := mem_map.mp hd'
  have hwpinned : w.pinned = true := by
    rw [← (@compressChunk_same o w).2.2.2, hwd]
    exact hpinned
  rw [compressChunk_pinned hwpinned] at hwd
  rw [hwd] at hw
  have hsame : isCopy host c = isCopy host d := by
    funext b
    rw [isCopy, isCopy, hkey]
  have hself : isCopy host d d = true := isCopy_self fun h => hblank (hkey.symm.trans h)
  rw [strongest, hsame]
  exact find?_of_mem_firsts isCopy_symm hself hw

theorem spared_of_strongest {c d : ResolvedChunk} (h : strongest host o q c = some d)
    (hpinned : d.pinned = true) : IsSpared host o q d := by
  refine .inl ⟨mem_sortBy.mpr (mem_map.mpr ⟨d, ?_, compressChunk_pinned hpinned⟩), hpinned⟩
  exact find?_mem_firsts isCopy_symm isCopy_trans c h

theorem strongest_key {c d : ResolvedChunk} (h : strongest host o q c = some d) :
    normalizeKey host d.text = normalizeKey host c.text :=
  (isCopy_iff.mp (List.find?_some h)).1.symm

/-- **When the laws hold**: exactly if no id is disputed between a trimmed chunk and a spared one,
    and each pinned text has a pinned strongest copy or is left in a spared chunk. -/
theorem conserves_iff (host : Host) (o : AssembleOptions) (q : Request) :
    Conserves host o q ↔ Undisputed host o q := by
  constructor
  · rintro ⟨hpinned, hreported, -, -⟩
    have hids := reported_iff.mp hreported
    refine ⟨hids, fun c hc hcpinned hblank => ?_⟩
    obtain ⟨d, hd, hkey⟩ := hpinned c hc hcpinned hblank
    have hspared := (mem_included_iff_spared hids d).mp hd
    cases hdpinned : d.pinned with
    | true =>
      have hsurvivor := (mem_survivors_iff d).mpr (.inr hspared)
      exact .inl ⟨d, strongest_of_pinned hsurvivor hdpinned hkey hblank, hdpinned⟩
    | false => exact .inr ⟨d, hspared, hdpinned, hkey⟩
  · rintro ⟨hids, hcopies⟩
    refine ⟨fun c hc hcpinned hblank => ?_, reported_iff.mpr hids, rfl,
      included_pinned_of_exceeds⟩
    rcases hcopies c hc hcpinned hblank with ⟨s, hs, hspinned⟩ | ⟨d, hd, -, hkey⟩
    · have hspared := spared_of_strongest hs hspinned
      exact ⟨s, (mem_included_iff_spared hids s).mpr hspared, strongest_key hs⟩
    · exact ⟨d, (mem_included_iff_spared hids d).mpr hd, hkey⟩

/-- A pinned chunk goes, unreported, with a trimmed chunk of another source that has its id. -/
theorem pinned_chunk_lost : ¬ ∀ (host : Host) (o : AssembleOptions) (q : Request),
    Conserves host o q := by
  intro h
  let host : Host := ⟨id, id⟩
  let o : AssembleOptions := ⟨.fin 1, 0, String.length, fun s _ => ⟨s, 0, false⟩, none, 1⟩
  let pinned : ContextChunk := ⟨"notes", none, .git, "x", none, none, none, some true, none⟩
  let other : ContextChunk := ⟨"notes", none, .git, "y", none, none, none, none, none⟩
  let q : Request := ⟨[⟨"git", 0, [pinned]⟩, ⟨"terminal", 0, [other]⟩], ""⟩
  have hempty : (assemble host o q).included = [] := by decide +kernel
  have hmem : resolveChunk o ⟨"git", 0, [pinned]⟩ pinned 0 ∈ collect o q.sources := by
    decide +kernel
  obtain ⟨d, hd, _⟩ := (h host o q).pinned _ hmem rfl (by decide +kernel)
  rw [hempty] at hd
  nomatch hd

end NexusCode.Context
