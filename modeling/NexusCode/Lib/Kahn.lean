/-
  Kahn's topological ordering, with a sorted list of ready nodes.

      while (ready.length > 0) {
        const id = ready.shift(); ordered.push(id);
        for (const other of nodes) if (deps(other).includes(id)) {
          indegree[other] -= 1; if (indegree[other] === 0) freed.push(other);
        }
        if (freed.length > 0) { freed.sort(); ready.push(...freed); ready.sort(); }
      }

    1. `order`             — the loop; it makes one round for each node.
    2. `Greedy`            — each node comes after its dependencies, and is the least of those that
       could come there.
    3. **`order_greedy`**, **`order_perm`** — without a cycle the loop orders all nodes so.
-/
import NexusCode.Lib.Acyclic
import Mathlib.Data.List.Sort

namespace NexusCode.Lib.Kahn

open List

variable {α : Type} [DecidableEq α] (nodes : List α) (deps : α → List α) (le : α → α → Prop)
  [DecidableRel le]

/-! ## The loop -/

/-- The loop over the ready nodes. -/
def rounds : Nat → (α → Int) → List α → List α → List α
  | 0, _, _, ordered => ordered
  | _ + 1, _, [], ordered => ordered
  | n + 1, indegree, id :: ready, ordered =>
    let indegree' := fun other => if id ∈ deps other then indegree other - 1 else indegree other
    let freed := nodes.filter fun other => id ∈ deps other ∧ indegree' other = 0
    let ready' := if freed.isEmpty then ready
      else (ready ++ freed.insertionSort le).insertionSort le
    rounds n indegree' ready' (ordered ++ [id])

/-- The number of dependencies that are nodes. -/
def indegree (v : α) : Int := ((deps v).filter (· ∈ nodes)).length

/-- The order; it lacks nodes where there is a cycle. -/
def order : List α :=
  rounds nodes deps le nodes.length (indegree nodes deps)
    ((nodes.filter fun v => indegree nodes deps v = 0).insertionSort le) []

/-! ## What it computes -/

/-- The node can come next: its dependencies have come, and it has not. -/
def Available (before : List α) (v : α) : Prop :=
  v ∈ nodes ∧ v ∉ before ∧ ∀ d ∈ deps v, d ∈ before

/-- Every node of the list is the least that can come at its place. -/
def Greedy : List α → List α → Prop
  | _, [] => True
  | before, v :: rest =>
    (Available nodes deps before v ∧ ∀ w, Available nodes deps before w → le v w) ∧
      Greedy (before ++ [v]) rest

omit [DecidableEq α] [DecidableRel le] in
/-- What stands at a place of the list could come there and is the least that could. -/
theorem Greedy.at_split {v : α} {post : List α} : ∀ {pre before : List α},
    Greedy nodes deps le before (pre ++ v :: post) →
    Available nodes deps (before ++ pre) v ∧ ∀ w, Available nodes deps (before ++ pre) w → le v w
  | [], before, h => by
    rw [append_nil]
    exact h.1
  | u :: pre, before, h => by
    rw [append_cons]
    exact Greedy.at_split h.2

/-- Graphs whose nodes are listed once, with dependencies among them and no cycle, and a linear
    order of the nodes. -/
structure Schedulable : Prop where
  nodes_nodup : nodes.Nodup
  deps_nodup : ∀ v ∈ nodes, (deps v).Nodup
  deps_mem : ∀ v ∈ nodes, ∀ d ∈ deps v, d ∈ nodes
  acyclic : Acyclic fun v d => v ∈ nodes ∧ d ∈ deps v
  total : ∀ v w, le v w ∨ le w v
  trans : ∀ u v w, le u v → le v w → le u w

variable {nodes deps le}

/-- What holds after every round. -/
structure Invariant (nodes : List α) (deps : α → List α) (le : α → α → Prop)
    (indegree : α → Int) (ready ordered : List α) : Prop where
  nodup : ordered.Nodup
  closed : ∀ v ∈ ordered, v ∈ nodes ∧ ∀ d ∈ deps v, d ∈ ordered
  degree : ∀ v ∈ nodes, indegree v = ((deps v).filter (· ∉ ordered)).length
  sorted : ready.Pairwise le
  ready_nodup : ready.Nodup
  mem_ready : ∀ v, v ∈ ready ↔ Available nodes deps ordered v

/-- The dependencies that are left after one more node has come. -/
theorem left_after {ds ordered : List α} {id : α} (hnodup : ds.Nodup) (hid : id ∉ ordered) :
    (((ds.filter (· ∉ ordered ++ [id])).length : Nat) : Int) =
      (ds.filter (· ∉ ordered)).length - if id ∈ ds then 1 else 0 := by
  induction ds with
  | nil => simp
  | cons d ds ih =>
    rw [nodup_cons] at hnodup
    have ih := ih hnodup.2
    by_cases hd : d = id
    · subst hd
      rw [if_neg hnodup.1] at ih
      rw [filter_cons_of_neg (by simp), filter_cons_of_pos (by simp [hid]),
        if_pos mem_cons_self, length_cons, ih]
      omega
    · have hmem : id ∈ d :: ds ↔ id ∈ ds := by
        rw [mem_cons]
        exact or_iff_right fun h => hd h.symm
      simp only [hmem]
      by_cases hold : d ∈ ordered
      · rw [filter_cons_of_neg (by simp [hold]), filter_cons_of_neg (by simp [hold])]
        exact ih
      · rw [filter_cons_of_pos (by simp [hold, hd]), filter_cons_of_pos (by simp [hold]),
          length_cons, length_cons]
        omega

omit [DecidableEq α] in
theorem insertionSort_pairwise (h : Schedulable nodes deps le) (l : List α) :
    (l.insertionSort le).Pairwise le :=
  have : Std.Total le := ⟨h.total⟩
  have : IsTrans α le := ⟨h.trans⟩
  pairwise_insertionSort le l

/-- **One round keeps the invariant.** -/
theorem Invariant.round (h : Schedulable nodes deps le) {indegree : α → Int} {id : α}
    {ready ordered : List α} (hinv : Invariant nodes deps le indegree (id :: ready) ordered) :
    let indegree' := fun other => if id ∈ deps other then indegree other - 1 else indegree other
    let freed := nodes.filter fun other => id ∈ deps other ∧ indegree' other = 0
    Invariant nodes deps le indegree'
      (if freed.isEmpty then ready else (ready ++ freed.insertionSort le).insertionSort le)
      (ordered ++ [id]) := by
  intro indegree' freed
  obtain ⟨hnode, hnew, hdeps⟩ := (hinv.mem_ready id).mp mem_cons_self
  obtain ⟨hidready, hready⟩ := nodup_cons.mp hinv.ready_nodup
  have hdegree : ∀ v ∈ nodes, indegree' v = ((deps v).filter (· ∉ ordered ++ [id])).length := by
    intro v hv
    rw [left_after (h.deps_nodup v hv) hnew, ← hinv.degree v hv]
    show (if id ∈ deps v then indegree v - 1 else indegree v) = _
    split <;> omega
  have hzero : ∀ v ∈ nodes, indegree' v = 0 ↔ ∀ d ∈ deps v, d ∈ ordered ++ [id] := by
    intro v hv
    rw [hdegree v hv, Int.natCast_eq_zero, length_eq_zero_iff, filter_eq_nil_iff]
    simp only [decide_eq_true_eq, not_not]
  have hnotself : id ∉ deps id := fun hmem => h.acyclic id (.single ⟨hnode, hmem⟩)
  have hmem : ∀ v, v ∈ ready ∨ v ∈ freed ↔ Available nodes deps (ordered ++ [id]) v := by
    intro v
    have hbefore : v ∉ ordered ++ [id] ↔ v ∉ ordered ∧ v ≠ id := by
      rw [mem_append, mem_singleton, not_or]
    constructor
    · rintro (hv | hv)
      · obtain ⟨hvnode, hvnew, hvdeps⟩ := (hinv.mem_ready v).mp (mem_cons_of_mem id hv)
        refine ⟨hvnode, hbefore.mpr ⟨hvnew, ?_⟩, fun d hd => mem_append_left _ (hvdeps d hd)⟩
        rintro rfl
        exact hidready hv
      · obtain ⟨hvnode, hv⟩ := mem_filter.mp hv
        obtain ⟨hvid, hvzero⟩ := of_decide_eq_true hv
        refine ⟨hvnode, hbefore.mpr ⟨fun hvold => ?_, ?_⟩, (hzero v hvnode).mp hvzero⟩
        · exact hnew ((hinv.closed v hvold).2 id hvid)
        · rintro rfl
          exact hnotself hvid
    · rintro ⟨hvnode, hvnew, hvdeps⟩
      obtain ⟨hvold, hvne⟩ := hbefore.mp hvnew
      by_cases hvid : id ∈ deps v
      · exact .inr (mem_filter.mpr
          ⟨hvnode, decide_eq_true ⟨hvid, (hzero v hvnode).mpr hvdeps⟩⟩)
      · refine .inl ((mem_cons.mp ((hinv.mem_ready v).mpr ⟨hvnode, hvold, fun d hd => ?_⟩)).resolve_left hvne)
        rcases mem_append.mp (hvdeps d hd) with hd' | hd'
        · exact hd'
        · rw [mem_singleton.mp hd'] at hd
          exact absurd hd hvid
  have hdisjoint : ∀ v ∈ ready, v ∉ freed := by
    intro v hv hvfreed
    obtain ⟨-, hvid⟩ := mem_filter.mp hvfreed
    obtain ⟨-, hvnew, hvdeps⟩ := (hinv.mem_ready v).mp (mem_cons_of_mem id hv)
    exact hnew (hvdeps id (of_decide_eq_true hvid).1)
  refine ⟨?_, ?_, hdegree, ?_, ?_, ?_⟩
  · refine List.Nodup.append hinv.nodup (nodup_singleton id) ?_
    exact disjoint_singleton.mpr hnew
  · intro v hv
    rcases mem_append.mp hv with hv | hv
    · exact ⟨(hinv.closed v hv).1, fun d hd => mem_append_left _ ((hinv.closed v hv).2 d hd)⟩
    · rw [mem_singleton.mp hv]
      exact ⟨hnode, fun d hd => mem_append_left _ (hdeps d hd)⟩
  · split
    · exact (pairwise_cons.mp hinv.sorted).2
    · exact insertionSort_pairwise h _
  · split
    · exact hready
    · refine (perm_insertionSort le _).nodup_iff.mpr ?_
      refine List.Nodup.append hready ?_ fun v hv hv' => ?_
      · exact (perm_insertionSort le _).nodup_iff.mpr (h.nodes_nodup.filter _)
      · exact hdisjoint v hv ((perm_insertionSort le _).mem_iff.mp hv')
  · intro v
    rw [← hmem v]
    split
    · rename_i hempty
      rw [List.isEmpty_iff.mp hempty]
      exact ⟨.inl, fun h => h.resolve_right not_mem_nil⟩
    · rw [(perm_insertionSort le _).mem_iff, mem_append,
        (perm_insertionSort le _).mem_iff]

omit [DecidableRel le] in
theorem Invariant.complete (h : Schedulable nodes deps le) {indegree : α → Int} {ordered : List α}
    (hinv : Invariant nodes deps le indegree [] ordered) : ∀ v ∈ nodes, v ∈ ordered := by
  intro v hv
  by_contra hvnew
  -- among the nodes that have not come, one depends on no other
  obtain ⟨w, hw, hmin⟩ := h.acyclic.exists_minimal (l := nodes.filter (· ∉ ordered))
    (ne_nil_of_mem (mem_filter.mpr ⟨hv, decide_eq_true hvnew⟩))
  obtain ⟨hwnode, hwnew⟩ := mem_filter.mp hw
  refine absurd ((hinv.mem_ready w).mpr ⟨hwnode, of_decide_eq_true hwnew, fun d hd => ?_⟩)
    not_mem_nil
  by_contra hdnew
  exact hmin d (mem_filter.mpr ⟨h.deps_mem w hwnode d hd, decide_eq_true hdnew⟩) ⟨hwnode, hd⟩

/-- **The rounds that are left** go on greedily and leave nothing out. -/
theorem rounds_spec (h : Schedulable nodes deps le) : ∀ (n : Nat) {indegree : α → Int}
    {ready ordered : List α}, Invariant nodes deps le indegree ready ordered →
    nodes.length ≤ ordered.length + n →
    ∃ rest, rounds nodes deps le n indegree ready ordered = ordered ++ rest ∧
      Greedy nodes deps le ordered rest ∧ (ordered ++ rest).Nodup ∧
      ∀ v, v ∈ ordered ++ rest ↔ v ∈ nodes
  | 0, indegree, ready, ordered, hinv, hfuel => by
    have hsub : ordered ⊆ nodes := fun v hv => (hinv.closed v hv).1
    have hperm : ordered.Perm nodes :=
      (subperm_of_subset hinv.nodup hsub).perm_of_length_le (by omega)
    refine ⟨[], (append_nil ordered).symm, trivial, ?_, fun v => ?_⟩
    · rw [append_nil]
      exact hinv.nodup
    · rw [append_nil]
      exact hperm.mem_iff
  | n + 1, indegree, [], ordered, hinv, _ => by
    refine ⟨[], (append_nil ordered).symm, trivial, ?_, fun v => ?_⟩
    · rw [append_nil]
      exact hinv.nodup
    · rw [append_nil]
      exact ⟨fun hv => (hinv.closed v hv).1, hinv.complete h v⟩
  | n + 1, indegree, id :: ready, ordered, hinv, hfuel => by
    have hlen : nodes.length ≤ (ordered ++ [id]).length + n := by
      rw [length_append, length_singleton]
      omega
    obtain ⟨rest, hrounds, hgreedy, hnodup, hall⟩ := rounds_spec h n (hinv.round h) hlen
    rw [append_assoc] at hrounds hnodup
    simp only [append_assoc] at hall
    refine ⟨id :: rest, hrounds, ⟨⟨(hinv.mem_ready id).mp mem_cons_self, fun w hw => ?_⟩, hgreedy⟩,
      hnodup, hall⟩
    rcases mem_cons.mp ((hinv.mem_ready w).mpr hw) with rfl | hw
    · exact (h.total w w).elim id id
    · exact (pairwise_cons.mp hinv.sorted).1 w hw

theorem Invariant.initial (h : Schedulable nodes deps le) :
    Invariant nodes deps le (indegree nodes deps)
      ((nodes.filter fun v => indegree nodes deps v = 0).insertionSort le) [] := by
  have hdegree : ∀ v ∈ nodes, indegree nodes deps v = (deps v).length := by
    intro v hv
    unfold indegree
    rw [filter_eq_self.mpr fun d hd => decide_eq_true (h.deps_mem v hv d hd)]
  refine ⟨nodup_nil, fun _ => nofun, fun v hv => ?_, insertionSort_pairwise h _, ?_,
    fun v => ?_⟩
  · rw [hdegree v hv, filter_eq_self.mpr fun _ _ => decide_eq_true not_mem_nil]
  · exact (perm_insertionSort le _).nodup_iff.mpr (h.nodes_nodup.filter _)
  · rw [(perm_insertionSort le _).mem_iff, mem_filter]
    constructor
    · rintro ⟨hv, hzero⟩
      have hnone := of_decide_eq_true hzero
      rw [hdegree v hv, Int.natCast_eq_zero, length_eq_zero_iff] at hnone
      exact ⟨hv, not_mem_nil, fun d hd => by rw [hnone] at hd; exact hd⟩
    · rintro ⟨hv, -, hnone⟩
      refine ⟨hv, decide_eq_true ?_⟩
      rw [hdegree v hv, Int.natCast_eq_zero, length_eq_zero_iff]
      exact eq_nil_iff_forall_not_mem.mpr fun d hd => not_mem_nil (hnone d hd)

/-- **Every node is the least that can come at its place.** -/
theorem order_greedy (h : Schedulable nodes deps le) :
    Greedy nodes deps le [] (order nodes deps le) := by
  obtain ⟨rest, hrounds, hgreedy, -⟩ := rounds_spec h nodes.length (.initial h) (by simp)
  unfold order
  rw [hrounds]
  exact hgreedy

/-- **Every node comes exactly once.** -/
theorem order_perm (h : Schedulable nodes deps le) : (order nodes deps le).Perm nodes := by
  obtain ⟨rest, hrounds, -, hnodup, hall⟩ := rounds_spec h nodes.length (.initial h) (by simp)
  unfold order
  rw [hrounds]
  exact (perm_ext_iff_of_nodup hnodup h.nodes_nodup).mpr hall

end NexusCode.Lib.Kahn
