/-
  The cacheable prefix of two assemblies with the same static chunks.

  The prefix is rendered from the static chunks alone.  In one assembly these are the strongest
  static copies of each text (`staticSurvivors`), which only depend on the static chunks, less
  those that volatile context displaces (`Displaced`):

  1. `included_static`      — what is rendered, told by the static chunks and by what is displaced;
  2. `renderStatic_strict`  — dropping a chunk makes the prefix shorter;
  3. `system_eq_iff`        — so the prefixes of two assemblies agree exactly if what is displaced
                              in the one is displaced in the other;
  4. `static_not_trimmed`   — while the static and the pinned chunks fit the budget, the trimming
                              itself never reaches a static chunk.

  **`cacheable_prefix_iff`** puts them together.
-/
import NexusCode.Context.Conservation
import Mathlib.Algebra.BigOperators.Ring.List

namespace NexusCode.Context

open Lib List

/-! ## Lengths -/

theorem length_intercalate (sep : String) : ∀ l : List String,
    (sep.intercalate l).length = (l.map fun s => s.length + sep.length).sum - sep.length
  | [] => by
    rw [String.intercalate_nil, map_nil, sum_nil, Nat.zero_sub]
    rfl
  | [s] => by
    rw [String.intercalate_singleton, map_singleton, sum_singleton, Nat.add_sub_cancel]
  | s :: t :: l => by
    have ih := length_intercalate sep (t :: l)
    rw [String.intercalate_cons_cons, String.length_append, String.length_append, ih]
    simp only [map_cons, sum_cons]
    omega

/-- What a chunk adds to the section of its lane. -/
def chunkCost (c : ResolvedChunk) : Nat := c.text.length + 2

/-- What the section of a lane adds to the prefix. -/
def laneCost (chunks : List ResolvedChunk) (lane : ContextLane) : Nat :=
  if (chunks.filter (·.lane = lane)).isEmpty then 0
  else (laneTitle lane).length + 3 + total chunkCost (chunks.filter (·.lane = lane))

theorem length_section (lane : ContextLane) {laneChunks : List ResolvedChunk}
    (h : laneChunks ≠ []) :
    ("# " ++ laneTitle lane ++ "\n" ++ "\n\n".intercalate (laneChunks.map (·.text))).length + 2 =
      (laneTitle lane).length + 3 + total chunkCost laneChunks := by
  have hcost : ((laneChunks.map (·.text)).map fun s => s.length + "\n\n".length) =
      laneChunks.map chunkCost := by
    rw [map_map]
    rfl
  have htwo : 2 ≤ total chunkCost laneChunks := by
    obtain ⟨c, rest, rfl⟩ := exists_cons_of_ne_nil h
    rw [total, map_cons, sum_cons, chunkCost]
    omega
  rw [String.length_append, String.length_append, String.length_append, length_intercalate, hcost]
  change 2 + (laneTitle lane).length + 1 + (total chunkCost laneChunks - 2) + 2 = _
  omega

theorem length_renderStatic (chunks : List ResolvedChunk) :
    (renderStatic chunks).length = (staticLanes.map (laneCost chunks)).sum - 2 := by
  have hsum : ∀ lanes : List ContextLane,
      ((lanes.filterMap fun lane =>
        if (chunks.filter (·.lane = lane)).isEmpty then none
        else some ("# " ++ laneTitle lane ++ "\n" ++
          "\n\n".intercalate ((chunks.filter (·.lane = lane)).map (·.text)))).map
            fun s => s.length + "\n\n".length).sum = (lanes.map (laneCost chunks)).sum := by
    intro lanes
    induction lanes with
    | nil => rfl
    | cons lane rest ih =>
      rw [filterMap_cons, map_cons, sum_cons, ← ih, laneCost]
      by_cases hempty : (chunks.filter (·.lane = lane)).isEmpty = true
      · rw [if_pos hempty, if_pos hempty, Nat.zero_add]
      · have hne : chunks.filter (·.lane = lane) ≠ [] := fun h => hempty (List.isEmpty_iff.mpr h)
        rw [if_neg hempty, if_neg hempty, map_cons, sum_cons, ← length_section lane hne]
        rfl
  rw [renderStatic, length_intercalate]
  exact congrArg (· - 2) (hsum staticLanes)

variable {l l' : List ResolvedChunk}

theorem total_of_sublist (h : l.Sublist l') :
    total chunkCost l + 2 * l'.length ≤ total chunkCost l' + 2 * l.length := by
  induction h with
  | slnil => exact Nat.le_refl _
  | cons c _ ih =>
    rw [total, total, map_cons, sum_cons, length_cons, chunkCost]
    unfold total at ih
    omega
  | cons_cons c _ ih =>
    rw [total, total, map_cons, sum_cons, length_cons, map_cons, sum_cons,
      length_cons]
    unfold total at ih
    omega

theorem laneCost_of_sublist (h : l.Sublist l') (lane : ContextLane) :
    laneCost l lane + 2 * (l'.filter (·.lane = lane)).length ≤
      laneCost l' lane + 2 * (l.filter (·.lane = lane)).length := by
  have hlane : (l.filter (·.lane = lane)).Sublist (l'.filter (·.lane = lane)) := h.filter _
  have htotal := total_of_sublist hlane
  unfold laneCost
  by_cases hempty : (l.filter (·.lane = lane)).isEmpty = true
  · rw [if_pos hempty]
    rw [List.isEmpty_iff.mp hempty] at htotal ⊢
    split
    · rename_i hempty'
      rw [List.isEmpty_iff.mp hempty']
    · rw [show total chunkCost [] = 0 from rfl] at htotal
      omega
  · have hempty' : ¬ (l'.filter (·.lane = lane)).isEmpty = true := fun h' =>
      hempty (List.isEmpty_iff.mpr (sublist_nil.mp (List.isEmpty_iff.mp h' ▸ hlane)))
    rw [if_neg hempty, if_neg hempty']
    omega

theorem length_of_static : ∀ {l : List ResolvedChunk}, (∀ c ∈ l, isStatic c.lane = true) →
    (staticLanes.map fun lane => (l.filter (·.lane = lane)).length).sum = l.length
  | [], _ => rfl
  | c :: l, h => by
    have ih := length_of_static fun d hd => h d (mem_cons_of_mem c hd)
    have hc := h c mem_cons_self
    rw [length_cons, ← ih]
    have hlanes : staticLanes = [.system, .tools, .memory, .conventions, .repoMap, .env] := rfl
    rw [hlanes]
    simp only [map_cons, map_nil, sum_cons, sum_nil, filter_cons]
    cases hlane : c.lane <;> rw [hlane] at hc <;> 
    first | exact absurd hc (by decide) | (simp; omega)

theorem cost_of_sublist (h : l.Sublist l')
    (hstatic : ∀ c ∈ l', isStatic c.lane = true) :
    (staticLanes.map (laneCost l)).sum + 2 * l'.length ≤
      (staticLanes.map (laneCost l')).sum + 2 * l.length := by
  have hsum := sum_le_sum fun lane (_ : lane ∈ staticLanes) => laneCost_of_sublist h lane
  rw [sum_map_add, sum_map_add, sum_map_mul_left, sum_map_mul_left] at hsum
  rw [← length_of_static hstatic, ← length_of_static fun c hc => hstatic c (h.subset hc)]
  exact hsum

theorem cost_pos (hne : l ≠ []) (hstatic : ∀ c ∈ l, isStatic c.lane = true) :
    2 < (staticLanes.map (laneCost l)).sum := by
  obtain ⟨c, rest, rfl⟩ := exists_cons_of_ne_nil hne
  have hmem : laneCost (c :: rest) c.lane ∈ staticLanes.map (laneCost (c :: rest)) :=
    mem_map_of_mem ((mem_staticLanes_iff _).mpr (hstatic c mem_cons_self))
  have hle := single_le_sum (fun _ _ => Nat.zero_le _) _ hmem
  refine lt_of_lt_of_le ?_ hle
  have hfilter : (c :: rest).filter (·.lane = c.lane) = c :: rest.filter (·.lane = c.lane) :=
    filter_cons_of_pos (decide_eq_true rfl)
  rw [laneCost, hfilter, isEmpty_cons, if_neg Bool.false_ne_true]
  omega

/-- **Dropping a chunk makes the prefix shorter.** -/
theorem renderStatic_strict (h : l.Sublist l')
    (hstatic : ∀ c ∈ l', isStatic c.lane = true) (heq : renderStatic l = renderStatic l') :
    l = l' := by
  have hcost := cost_of_sublist h hstatic
  have hlength := congrArg String.length heq
  rw [length_renderStatic, length_renderStatic] at hlength
  refine h.eq_of_length_le ?_
  by_cases hne : l' = []
  · rw [hne]
    exact Nat.zero_le _
  · have hpos := cost_pos hne hstatic
    omega

/-! ## What is rendered -/

/-- A chunk without its time; no static lane is in chronological order. -/
def ResolvedChunk.untimed (c : ResolvedChunk) : ResolvedChunk := { c with createdAt := 0 }

section Requests

variable (host : Host) (o : AssembleOptions) (q : Request)

/-- The static chunks that are collected. -/
def statics : List ResolvedChunk := (collect o q.sources).filter fun c => isStatic c.lane

/-- The strongest static copy of each text, and the static chunks without a text. -/
def staticSurvivors : List ResolvedChunk :=
  firsts (isCopy host) (byStrength host o (statics o q))

/-- A static chunk is displaced by a stronger volatile copy of its text, or by a trimmed chunk that
    has its id. -/
def Displaced (s : ResolvedChunk) : Prop :=
  (∃ w ∈ strongest host o q s, isStatic w.lane = false) ∨ ∃ t, IsTrimmed host o q t ∧ t.id = s.id

/-- The static and the pinned chunks that are packed fit the budget together with the message. -/
def Fits : Prop :=
  exceeds o.budgetTokens (o.estimate q.userMessage + tokensOf ((survivors host o q).filter fun c =>
    isStatic c.lane || c.pinned)) = false

/-- `Displaced`, decided. -/
def isDisplaced (s : ResolvedChunk) : Bool :=
  !((strongest host o q s).all fun w => isStatic w.lane) ||
    decide (s.id ∈ (trimming host o (survivors host o q) (o.estimate q.userMessage)).1.map (·.id))

end Requests

section Assemblies

variable {host : Host} {o : AssembleOptions} {q A B : Request}

theorem isDisplaced_iff (s : ResolvedChunk) :
    isDisplaced host o q s = true ↔ Displaced host o q s := by
  rw [isDisplaced, Bool.or_eq_true, decide_eq_true_iff]
  refine or_congr ?_ ?_
  · cases strongest host o q s with
    | none => exact iff_of_false Bool.false_ne_true fun ⟨_, h, _⟩ => nomatch h
    | some w =>
      rw [Option.all_some, Bool.not_eq_true']
      constructor
      · intro h
        exact ⟨w, rfl, h⟩
      · rintro ⟨_, ⟨⟩, h⟩
        exact h
  · rw [mem_map]
    exact exists_congr fun t => and_congr_left fun _ => trimming_mem t

/-- The static survivors: those whose strongest copy is static. -/
theorem survivors_static : ((survivors host o q).filter fun c => isStatic c.lane) =
    orderChunks host o (((staticSurvivors host o q).filter fun s =>
      (strongest host o q s).all fun w => isStatic w.lane).map (compressChunk o)) := by
  have hlane : (fun c => isStatic c.lane) ∘ compressChunk o = fun c => isStatic c.lane :=
    funext fun c => congrArg isStatic (@compressChunk_same o c).2.2.1
  rw [survivors, orderChunks, filter_sortBy (compareOrder_lawful host o), filter_map, hlane,
    filter_firsts isCopy_symm isCopy_trans, byStrength, filter_sortBy (compareStrength_lawful host o)]
  rfl

/-- **The static chunks that are included**: the static survivors that are not displaced. -/
theorem included_static : ((assemble host o q).included.filter fun c => isStatic c.lane) =
    orderChunks host o (((staticSurvivors host o q).filter fun s =>
      !isDisplaced host o q s).map (compressChunk o)) := by
  have hid : (fun c => decide (c.id ∉ (trimming host o (survivors host o q)
      (o.estimate q.userMessage)).1.map (·.id))) ∘ compressChunk o =
      fun c => decide (c.id ∉ (trimming host o (survivors host o q)
        (o.estimate q.userMessage)).1.map (·.id)) := by
    funext c
    rw [Function.comp_apply, (@compressChunk_same o c).1]
  rw [assemble_included, filter_comm, survivors_static, orderChunks,
    filter_sortBy (compareOrder_lawful host o), filter_map, hid, filter_filter]
  refine congrArg (fun l => orderChunks host o (List.map (compressChunk o) l))
    (filter_congr fun s _ => ?_)
  rw [isDisplaced, Bool.not_or, Bool.not_not, Bool.and_comm, decide_not]

/-! ## Two assemblies -/

@[simp] theorem untimed_lane (c : ResolvedChunk) : c.untimed.lane = c.lane := rfl

theorem compressChunk_untimed (c : ResolvedChunk) :
    compressChunk o c.untimed = (compressChunk o c).untimed := by
  unfold compressChunk
  cases o.maxChunkTokens with
  | none => rfl
  | some cap =>
    change (if (c.pinned || (JsNumber.fin c.tokens).le cap) = true then c.untimed else
      if (o.compress c.text cap).summarized = true then _ else c.untimed) = _
    dsimp only
    by_cases h : (c.pinned || (JsNumber.fin c.tokens).le cap) = true
    · rw [if_pos h, if_pos h]
    · rw [if_neg h, if_neg h]
      by_cases hshort : (o.compress c.text cap).summarized = true
      · rw [if_pos hshort, if_pos hshort]
        rfl
      · rw [if_neg hshort, if_neg hshort]

theorem compareOrder_untimed {a : ResolvedChunk} (ha : isStatic a.lane = true) (b : ResolvedChunk) :
    compareOrder host o a.untimed b.untimed = compareOrder host o a b := by
  have hlane : isChronological a.lane = false := by
    revert ha
    cases a.lane <;> decide
  unfold compareOrder
  rw [untimed_lane, hlane]
  rfl

theorem renderStatic_untimed (chunks : List ResolvedChunk) :
    renderStatic (chunks.map (·.untimed)) = renderStatic chunks := by
  unfold renderStatic
  refine congrArg _ (filterMap_congr fun lane _ => ?_)
  dsimp only
  rw [filter_map, map_map, isEmpty_map]
  rfl

/-- The static survivors of a list of static chunks, as far as the prefix shows them. -/
def frame (host : Host) (o : AssembleOptions) (chunks : List ResolvedChunk) : List ResolvedChunk :=
  firsts (isCopy host) (byStrength host o (chunks.map (·.untimed)))

theorem staticSurvivors_untimed :
    (staticSurvivors host o q).map (·.untimed) = frame host o (statics o q) := by
  refine (map_firsts (fun _ _ => rfl) _).trans (congrArg (firsts (isCopy host)) ?_)
  exact map_sortBy fun _ _ _ _ => Iff.rfl

theorem orderChunks_untimed {l : List ResolvedChunk} (hl : ∀ c ∈ l, isStatic c.lane = true) :
    (orderChunks host o l).map (·.untimed) = orderChunks host o (l.map (·.untimed)) :=
  map_sortBy fun a ha b _ => by rw [compareOrder_untimed (hl a ha)]

theorem static_of_survivor {s : ResolvedChunk} (h : s ∈ staticSurvivors host o q) :
    isStatic s.lane = true :=
  (mem_filter.mp (mem_sortBy.mp (mem_of_mem_firsts h))).2

theorem static_of_frame {s : ResolvedChunk} (h : s ∈ frame host o (statics o q)) :
    isStatic s.lane = true := by
  rw [← staticSurvivors_untimed] at h
  obtain ⟨d, hd, rfl⟩ := mem_map.mp h
  have hstatic := static_of_survivor hd
  exact hstatic

/-- **The prefix is rendered from the frame**, less what is displaced. -/
theorem system_eq : (assemble host o q).system = renderStatic (orderChunks host o
    (((frame host o (statics o q)).filter fun s => !isDisplaced host o q s).map
      (compressChunk o))) := by
  have hsystem : (assemble host o q).system =
      renderStatic ((assemble host o q).included.filter fun c => isStatic c.lane) := rfl
  have hstatic : ∀ c ∈ ((staticSurvivors host o q).filter fun s =>
      !isDisplaced host o q s).map (compressChunk o), isStatic c.lane = true := fun c hc => by
    obtain ⟨s, hs, rfl⟩ := mem_map.mp hc
    rw [(@compressChunk_same o s).2.2.1]
    exact static_of_survivor (mem_of_mem_filter hs)
  rw [hsystem, included_static, ← renderStatic_untimed, orderChunks_untimed hstatic,
    ← staticSurvivors_untimed, filter_map, map_map, map_map]
  have hcompress : ResolvedChunk.untimed ∘ compressChunk o = compressChunk o ∘ ResolvedChunk.untimed :=
    funext fun c => (compressChunk_untimed c).symm
  rw [hcompress]
  rfl

/-- The rendered chunks of the one assembly among those of the other. -/
theorem orderChunks_sublist {l l' : List ResolvedChunk} (h : l.Sublist l') :
    (orderChunks host o (l.map (compressChunk o))).Sublist
      (orderChunks host o (l'.map (compressChunk o))) :=
  sortBy_sublist (compareOrder_lawful host o) (h.map _)

/-- When the prefixes agree.  Of two assemblies with the same static chunks, let the first
    displace at least the static survivors that the second displaces — in particular let the second
    displace none.  Their prefixes are the same exactly if it displaces no other. -/
theorem system_eq_iff (hsame : (statics o A).map (·.untimed) = (statics o B).map (·.untimed))
    (hmore : ∀ s ∈ staticSurvivors host o A, Displaced host o B s → Displaced host o A s) :
    (assemble host o A).system = (assemble host o B).system ↔
      ∀ s ∈ staticSurvivors host o A, Displaced host o A s → Displaced host o B s := by
  have hframe : frame host o (statics o A) = frame host o (statics o B) := by
    rw [frame, frame, hsame]
  -- both sides speak of the chunks of the frame, which have no times
  have huntimed : ∀ p : ResolvedChunk → Prop, (∀ s, p s.untimed ↔ p s) →
      ((∀ s ∈ staticSurvivors host o A, p s) ↔ ∀ s ∈ frame host o (statics o A), p s) := by
    intro p hp
    rw [← staticSurvivors_untimed, forall_mem_map]
    exact forall₂_congr fun s _ => (hp s).symm
  rw [huntimed _ fun _ => Iff.rfl] at hmore
  rw [huntimed _ fun _ => Iff.rfl, system_eq, system_eq, ← hframe]
  have hsub : ((frame host o (statics o A)).filter fun s => !isDisplaced host o A s).Sublist
      ((frame host o (statics o A)).filter fun s => !isDisplaced host o B s) := by
    refine filter_sublist_filter fun s hs hA => ?_
    rw [Bool.not_eq_true', ← Bool.not_eq_true, isDisplaced_iff] at hA ⊢
    exact fun hB => hA (hmore s hs hB)
  constructor
  · intro heq s hs hA
    have hstatic : ∀ c ∈ orderChunks host o (((frame host o (statics o A)).filter fun s =>
        !isDisplaced host o B s).map (compressChunk o)), isStatic c.lane = true := fun c hc => by
      obtain ⟨d, hd, rfl⟩ := mem_map.mp (mem_sortBy.mp hc)
      rw [(@compressChunk_same o d).2.2.1]
      exact static_of_frame (mem_of_mem_filter hd)
    have hlength := congrArg List.length
      (renderStatic_strict (orderChunks_sublist hsub) hstatic heq)
    rw [orderChunks, orderChunks, (sortBy_perm _).length_eq, (sortBy_perm _).length_eq,
      length_map, length_map] at hlength
    have hfilter := hsub.eq_of_length hlength
    by_contra hB
    have hmem : s ∈ (frame host o (statics o A)).filter fun s => !isDisplaced host o B s := by
      rw [mem_filter, Bool.not_eq_true', ← Bool.not_eq_true, isDisplaced_iff]
      exact ⟨hs, hB⟩
    rw [← hfilter, mem_filter, Bool.not_eq_true', ← Bool.not_eq_true, isDisplaced_iff] at hmem
    exact hmem.2 hA
  · intro hless
    have hfilter : ((frame host o (statics o A)).filter fun s => !isDisplaced host o A s) =
        (frame host o (statics o A)).filter fun s => !isDisplaced host o B s := by
      refine filter_congr fun s hs => ?_
      rw [Bool.not_inj_iff, Bool.eq_iff_iff, isDisplaced_iff, isDisplaced_iff]
      exact ⟨hless s hs, hmore s hs⟩
    rw [hfilter]

/-! ## The trimming and the static chunks -/

theorem lane_le_of_compareTrim {a b : ResolvedChunk} (h : compareTrim host o a b ≤ 0) :
    laneIndex b.lane ≤ laneIndex a.lane := by
  rw [compareTrim, orNext_nonpos_iff] at h
  rcases h with h | ⟨h, -⟩
  · exact le_of_lt (Nat.cast_lt.mp h)
  · exact le_of_eq (Nat.cast_injective h)

theorem static_of_le {a b : ContextLane} (h : laneIndex b ≤ laneIndex a)
    (ha : isStatic a = true) : isStatic b = true := by
  cases hb : isStatic b with
  | true => rfl
  | false => exact absurd (laneIndex_lt_of_static ha hb) (by omega)

/-- **While the static and the pinned chunks fit, only volatile chunks are trimmed.** -/
theorem static_not_trimmed (hfits : Fits host o q) {t : ResolvedChunk}
    (ht : IsTrimmed host o q t) : isStatic t.lane = false := by
  obtain ⟨before, after, hcand, hover⟩ := ht
  rw [← Bool.not_eq_true]
  intro hstatic
  have hsorted : (before ++ t :: after).Pairwise fun a b => compareTrim host o a b ≤ 0 :=
    hcand ▸ pairwise_sortBy (compareTrim_lawful host o) _
  have hrest : ∀ c ∈ t :: after, isStatic c.lane = true := fun c hc => by
    rcases mem_cons.mp hc with rfl | hc
    · exact hstatic
    · have hpair := (pairwise_cons.mp (pairwise_append.mp hsorted).2.1).1 c hc
      exact static_of_le (lane_le_of_compareTrim hpair) hstatic
  -- the survivors are the pinned ones and the candidates
  have hperm : (survivors host o q).Perm
      ((survivors host o q).filter (·.pinned) ++ (before ++ t :: after)) := by
    rw [← hcand]
    refine (filter_append_perm (·.pinned) _).symm.trans ?_
    exact (sortBy_perm _).symm.append_left _
  have hall := total_perm (·.tokens) hperm
  have hkept := total_perm (·.tokens) (hperm.filter fun c => isStatic c.lane || c.pinned)
  have hpinned : ((survivors host o q).filter (·.pinned)).filter
      (fun c => isStatic c.lane || c.pinned) = (survivors host o q).filter (·.pinned) :=
    filter_eq_self.mpr fun c hc => by rw [(mem_filter.mp hc).2, Bool.or_true]
  have hafter : (t :: after).filter (fun c => isStatic c.lane || c.pinned) = t :: after :=
    filter_eq_self.mpr fun c hc => by rw [hrest c hc, Bool.true_or]
  rw [filter_append, filter_append, hpinned, hafter, total_append, total_append] at hkept
  rw [total_append, total_append] at hall
  have hload : load host o q - tokensOf before ≤ o.estimate q.userMessage +
      tokensOf ((survivors host o q).filter fun c => isStatic c.lane || c.pinned) := by
    unfold load tokensOf
    omega
  have hexceeds := exceeds_mono _ _ hload hover
  rw [show exceeds _ _ = false from hfits] at hexceeds
  nomatch hexceeds

/-- **When the cacheable prefix does not depend on volatile context.**  Of two assemblies with the
    same static chunks, let the first displace at least the static survivors that the second
    displaces.  Their prefixes agree exactly if it displaces no other; and only trimmed volatile
    chunks displace by their ids while the static and the pinned chunks fit. -/
theorem cacheable_prefix_iff
    (hsame : (statics o A).map (·.untimed) = (statics o B).map (·.untimed))
    (hmore : ∀ s ∈ staticSurvivors host o A, Displaced host o B s → Displaced host o A s) :
    ((assemble host o A).system = (assemble host o B).system ↔
      ∀ s ∈ staticSurvivors host o A, Displaced host o A s → Displaced host o B s) ∧
    ∀ q, Fits host o q → ∀ t, IsTrimmed host o q t → isStatic t.lane = false :=
  ⟨system_eq_iff hsame hmore, fun _ hfits _ ht => static_not_trimmed hfits ht⟩

end Assemblies

namespace Echo

/-- Roundings and lower-casing that change nothing. -/
def host : Host := ⟨id, id⟩

/-- A budget of a hundred characters. -/
def options : AssembleOptions :=
  ⟨.fin 100, 0, String.length, fun s _ => ⟨s, 0, false⟩, none, 1⟩

/-- A remembered note. -/
def memory : ContextSource :=
  ⟨"memory", 0, [⟨"note", none, .memory, "x", none, none, none, none, none⟩]⟩

/-- The note alone. -/
def quiet : Request := ⟨[memory], ""⟩

/-- The note, and a working change of the same text in a source of higher priority. -/
def echoed : Request :=
  ⟨[memory, ⟨"git", 1, [⟨"diff", none, .git, "x", none, none, none, none, none⟩]⟩], ""⟩

end Echo

/-- The note is displaced by its echo, so the prefixes differ. -/
theorem echo_displaces :
    ((assemble Echo.host Echo.options Echo.echoed).system =
        (assemble Echo.host Echo.options Echo.quiet).system ↔
      ∀ s ∈ staticSurvivors Echo.host Echo.options Echo.echoed,
        Displaced Echo.host Echo.options Echo.echoed s →
          Displaced Echo.host Echo.options Echo.quiet s) ∧
    ∀ q, Fits Echo.host Echo.options q →
      ∀ t, IsTrimmed Echo.host Echo.options q t → isStatic t.lane = false := by
  refine cacheable_prefix_iff (by decide +kernel) fun s hs hquiet => ?_
  have hnone : ∀ s ∈ staticSurvivors Echo.host Echo.options Echo.echoed,
      isDisplaced Echo.host Echo.options Echo.quiet s = false := by decide +kernel
  rw [← isDisplaced_iff, hnone s hs] at hquiet
  nomatch hquiet

/-- A volatile copy of a static text takes it out of the prefix. -/
theorem echo_changes_prefix : ¬ ∀ (host : Host) (o : AssembleOptions) (A B : Request),
    (statics o A).map (·.untimed) = (statics o B).map (·.untimed) →
      Fits host o A → Fits host o B →
        (assemble host o A).system = (assemble host o B).system := by
  intro h
  have heq := h Echo.host Echo.options Echo.echoed Echo.quiet (by decide +kernel)
    (by unfold Fits; decide +kernel) (by unfold Fits; decide +kernel)
  exact absurd heq (by decide +kernel)

end NexusCode.Context
