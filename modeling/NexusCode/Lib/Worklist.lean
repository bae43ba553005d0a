/-
  The worklist loop over a graph: pop a node, stop at a target, skip what was seen, push its
  successors.

      while (stack.length > 0) {
        const cur = stack.pop();
        if (stop(cur)) return true;
        if (seen.has(cur)) continue;
        … seen.add(cur); stack.push(...successors of cur);
      }

  A node without an entry (`expand` is `none` there) is skipped and not marked.  The loop is run
  with fuel: a node is expanded once, so `budget` bounds the number of rounds.

    1. `search`           — the loop.
    2. **`search_stops`**, **`mem_search`**, **`search_nodup`** — with enough fuel it stops exactly
       if a target can be reached, and otherwise has seen exactly the nodes that can be reached and
       have an entry, each once.
-/
import Mathlib.Logic.Relation
import Mathlib.Algebra.BigOperators.Group.List.Basic
import Mathlib.Tactic.Common
import Mathlib.Algebra.GroupWithZero.Nat

namespace NexusCode.Lib.Worklist

open List Option

variable {α : Type} [DecidableEq α]

/-- The loop: whether it stopped at a target, and the nodes it has seen in order.  The top of the
    stack is the head of the list. -/
def search (expand : List α → α → Option (List α)) (stop : α → Bool) :
    Nat → List α → List α → Bool × List α
  | 0, _, seen => (false, seen)
  | _ + 1, [], seen => (false, seen)
  | n + 1, cur :: stack, seen =>
    if stop cur then (true, seen)
    else if cur ∈ seen then search expand stop n stack seen
    else match expand (seen ++ [cur]) cur with
      | none => search expand stop n stack seen
      | some pushed => search expand stop n (pushed.reverse ++ stack) (seen ++ [cur])

/-- A finite graph: the successors of each entry, and the nodes that have any. -/
structure Graph (α : Type) where
  nodes : List α
  successors : α → Option (List α)
  mem_nodes : ∀ v ws, successors v = some ws → ws ≠ [] → v ∈ nodes

namespace Graph

variable (G : Graph α)

/-- There is an edge. -/
def Edge (u w : α) : Prop := ∃ ws, G.successors u = some ws ∧ w ∈ ws

/-- The node can be reached from one of the list. -/
def Reaches (start : List α) (v : α) : Prop := ∃ s ∈ start, Relation.ReflTransGen G.Edge s v

/-- The rounds that are left at most. -/
def budget (stack seen : List α) : Nat :=
  stack.length + ((G.nodes.filter (· ∉ seen)).map fun v => ((G.successors v).getD []).length).sum

/-- What is pushed are successors, all but some that were seen. -/
structure Expands (expand : List α → α → Option (List α)) : Prop where
  none : ∀ seen v, G.successors v = none → expand seen v = none
  some : ∀ seen v ws, G.successors v = some ws →
    ∃ pushed, expand seen v = some pushed ∧ pushed.length ≤ ws.length ∧ pushed ⊆ ws ∧
      ∀ w ∈ ws, w ∈ pushed ∨ w ∈ seen

end Graph

variable {G : Graph α} {expand : List α → α → Option (List α)} {stop : α → Bool}

theorem sum_new {cur : α} {seen : List α} (hseen : cur ∉ seen) : ∀ l : List α,
    ((l.filter (· ∉ seen ++ [cur])).map fun v => ((G.successors v).getD []).length).sum +
        (if cur ∈ l then ((G.successors cur).getD []).length else 0)
      ≤ ((l.filter (· ∉ seen)).map fun v => ((G.successors v).getD []).length).sum
  | [] => Nat.le_refl 0
  | v :: l => by
    have ih := sum_new hseen l
    by_cases hcur : v = cur
    · subst hcur
      rw [filter_cons_of_neg (by simp), filter_cons_of_pos (by simp [hseen]),
        if_pos mem_cons_self, map_cons, sum_cons]
      split at ih <;> omega
    · have hmem : cur ∈ v :: l ↔ cur ∈ l := by
        rw [mem_cons]
        exact or_iff_right fun h => hcur h.symm
      simp only [hmem]
      by_cases hv : v ∈ seen
      · rw [filter_cons_of_neg (by simp [hv]), filter_cons_of_neg (by simp [hv])]
        exact ih
      · rw [filter_cons_of_pos (by simp [hv, hcur]), filter_cons_of_pos (by simp [hv]),
          map_cons, map_cons, sum_cons, sum_cons]
        omega

theorem budget_visit {cur : α} {ws pushed seen : List α} (stack : List α)
    (hws : G.successors cur = some ws)
    (hlen : pushed.length ≤ ws.length) (hseen : cur ∉ seen) :
    G.budget (pushed.reverse ++ stack) (seen ++ [cur]) < G.budget (cur :: stack) seen := by
  have hspent := sum_new (G := G) hseen G.nodes
  rw [hws, getD_some] at hspent
  have hpushed : pushed.length ≤ if cur ∈ G.nodes then ws.length else 0 := by
    split
    · exact hlen
    · rename_i hnode
      have hnil : ws = [] := by
        by_contra hne
        exact hnode (G.mem_nodes cur ws hws hne)
      rw [hnil] at hlen
      exact hlen
  unfold Graph.budget
  rw [length_append, length_reverse, length_cons]
  omega

/-- **The loop invariant.**  From a stack and seen nodes whose successors are seen, stacked or
    without an entry, and with fuel enough, the loop stops only at a target that was stacked or
    can be reached from the stack, and otherwise sees everything that can be reached and nothing
    else; no target is among it. -/
theorem search_invariant (hexpand : G.Expands expand) : ∀ (n : Nat) (stack seen : List α),
    G.budget stack seen ≤ n →
    (∀ u ∈ seen, ∀ w, G.Edge u w → w ∈ seen ∨ w ∈ stack ∨ G.successors w = none ∧ stop w = false) →
    (∀ u ∈ seen, stop u = false) →
    ((search expand stop n stack seen).1 = true → ∃ v, G.Reaches stack v ∧ stop v = true) ∧
    ((search expand stop n stack seen).1 = false →
      (∀ v, v ∈ seen → v ∈ (search expand stop n stack seen).2) ∧
      (∀ v ∈ stack, stop v = false ∧
        (G.successors v = none ∨ v ∈ (search expand stop n stack seen).2)) ∧
      (∀ u ∈ (search expand stop n stack seen).2, ∀ w, G.Edge u w →
        stop w = false ∧ (G.successors w = none ∨ w ∈ (search expand stop n stack seen).2)) ∧
      (∀ v ∈ (search expand stop n stack seen).2, v ∈ seen ∨
        G.successors v ≠ none ∧ G.Reaches stack v)) := by
  intro n
  induction n with
  | zero =>
    intro stack seen hfuel hclosed hstop
    obtain rfl : stack = [] := by
      unfold Graph.budget at hfuel
      exact length_eq_zero_iff.mp (by omega)
    refine ⟨nofun, fun _ => ⟨fun _ h => h, fun _ => nofun, ?_, fun _ h => .inl h⟩⟩
    intro u hu w hw
    rcases hclosed u hu w hw with h | h | h
    · exact ⟨hstop w h, .inr h⟩
    · nomatch h
    · exact ⟨h.2, .inl h.1⟩
  | succ n ih =>
    intro stack seen hfuel hclosed hstop
    cases stack with
    | nil =>
      refine ⟨nofun, fun _ => ⟨fun _ h => h, fun _ => nofun, ?_, fun _ h => .inl h⟩⟩
      intro u hu w hw
      rcases hclosed u hu w hw with h | h | h
      · exact ⟨hstop w h, .inr h⟩
      · nomatch h
      · exact ⟨h.2, .inl h.1⟩
    | cons cur stack =>
      have hpop : ∀ v, G.Reaches stack v → G.Reaches (cur :: stack) v :=
        fun v ⟨s, hs, hreach⟩ => ⟨s, mem_cons_of_mem cur hs, hreach⟩
      rw [search]
      by_cases htarget : stop cur = true
      · rw [if_pos htarget]
        exact ⟨fun _ => ⟨cur, ⟨cur, mem_cons_self, .refl⟩, htarget⟩, nofun⟩
      have hcur : stop cur = false := Bool.eq_false_iff.mpr htarget
      rw [if_neg htarget]
      by_cases hskip : cur ∈ seen ∨ G.successors cur = none
      · -- seen before, or without an entry: nothing is pushed
        have hnext : (if cur ∈ seen then search expand stop n stack seen else
            match expand (seen ++ [cur]) cur with
            | none => search expand stop n stack seen
            | some pushed => search expand stop n (pushed.reverse ++ stack) (seen ++ [cur])) =
            search expand stop n stack seen := by
          split
          · rfl
          · rename_i hnew
            rw [hexpand.none _ _ (hskip.resolve_left hnew)]
        rw [hnext]
        have hbudget : G.budget stack seen ≤ n := by
          unfold Graph.budget at hfuel ⊢
          rw [length_cons] at hfuel
          omega
        obtain ⟨hfound, hdone⟩ := ih stack seen hbudget (fun u hu w hw => by
          rcases hclosed u hu w hw with h | h | h
          · exact .inl h
          · rcases mem_cons.mp h with rfl | h
            · exact hskip.imp_right fun hnone => .inr ⟨hnone, hcur⟩
            · exact .inr (.inl h)
          · exact .inr (.inr h)) hstop
        refine ⟨fun h => ?_, fun h => ?_⟩
        · obtain ⟨v, hv, hv'⟩ := hfound h
          exact ⟨v, hpop v hv, hv'⟩
        · obtain ⟨hold, hstack, hout, hsound⟩ := hdone h
          refine ⟨hold, ?_, hout, fun v hv => ?_⟩
          · rintro v hv
            rcases mem_cons.mp hv with rfl | hv
            · exact ⟨hcur, hskip.symm.imp_right (hold v)⟩
            · exact hstack v hv
          · exact (hsound v hv).imp_right fun h => ⟨h.1, hpop v h.2⟩
      · obtain ⟨hseen, hentry⟩ := not_or.mp hskip
        rw [if_neg hseen]
        obtain ⟨ws, hws⟩ := ne_none_iff_exists'.mp hentry
        obtain ⟨pushed, hpushed, hlen, hsub, hall⟩ := hexpand.some (seen ++ [cur]) cur ws hws
        rw [hpushed]
        dsimp only
        have hbudget : G.budget (pushed.reverse ++ stack) (seen ++ [cur]) ≤ n := by
          have := budget_visit stack hws hlen hseen
          omega
        have hvia : ∀ v, G.Reaches (pushed.reverse ++ stack) v → G.Reaches (cur :: stack) v := by
          rintro v ⟨s, hs, hreach⟩
          rcases mem_append.mp hs with hs | hs
          · exact ⟨cur, mem_cons_self,
              .head ⟨ws, hws, hsub (mem_reverse.mp hs)⟩ hreach⟩
          · exact ⟨s, mem_cons_of_mem cur hs, hreach⟩
        obtain ⟨hfound, hdone⟩ := ih (pushed.reverse ++ stack) (seen ++ [cur]) hbudget
          (fun u hu w hw => by
            rcases mem_append.mp hu with hu | hu
            · rcases hclosed u hu w hw with h | h | h
              · exact .inl (mem_append_left _ h)
              · rcases mem_cons.mp h with rfl | h
                · exact .inl (mem_append_right _ (mem_singleton.mpr rfl))
                · exact .inr (.inl (mem_append_right _ h))
              · exact .inr (.inr h)
            · obtain rfl := mem_singleton.mp hu
              obtain ⟨ws', hws', hw⟩ := hw
              obtain rfl := some.inj (hws.symm.trans hws')
              rcases hall w hw with h | h
              · exact .inr (.inl (mem_append_left _ (mem_reverse.mpr h)))
              · exact .inl h)
          (fun u hu => by
            rcases mem_append.mp hu with hu | hu
            · exact hstop u hu
            · rw [mem_singleton.mp hu]
              exact hcur)
        refine ⟨fun h => ?_, fun h => ?_⟩
        · obtain ⟨v, hv, hv'⟩ := hfound h
          exact ⟨v, hvia v hv, hv'⟩
        · obtain ⟨hold, hstack, hout, hsound⟩ := hdone h
          refine ⟨fun v hv => hold v (mem_append_left _ hv), ?_, hout, fun v hv => ?_⟩
          · rintro v hv
            rcases mem_cons.mp hv with rfl | hv
            · exact ⟨hcur, .inr (hold v (mem_append_right _ (mem_singleton.mpr rfl)))⟩
            · exact hstack v (mem_append_right _ hv)
          · rcases hsound v hv with h | h
            · rcases mem_append.mp h with h | h
              · exact .inl h
              · have hv := mem_singleton.mp h
                refine .inr ⟨?_, cur, mem_cons_self, by rw [hv]⟩
                rw [hv, hws]
                exact some_ne_none ws
            · exact .inr ⟨h.1, hvia v h.2⟩

omit [DecidableEq α] in
/-- What has been left behind by a loop that did not stop is closed under the edges. -/
theorem seen_of_reaches {stack seen : List α}
    (hstack : ∀ v ∈ stack, stop v = false ∧ (G.successors v = none ∨ v ∈ seen))
    (hout : ∀ u ∈ seen, ∀ w, G.Edge u w → stop w = false ∧ (G.successors w = none ∨ w ∈ seen))
    {v : α} (h : G.Reaches stack v) : stop v = false ∧ (G.successors v = none ∨ v ∈ seen) := by
  obtain ⟨s, hs, hreach⟩ := h
  induction hreach with
  | refl => exact hstack s hs
  | tail _ hedge ih =>
    have ⟨ws, hws, _⟩ := hedge
    refine hout _ (ih.2.resolve_left fun hnone => ?_) _ hedge
    rw [hws] at hnone
    nomatch hnone

/-- **The loop stops exactly if a target can be reached.** -/
theorem search_stops (hexpand : G.Expands expand) {n : Nat} {stack : List α}
    (hfuel : G.budget stack [] ≤ n) :
    (search expand stop n stack []).1 = true ↔ ∃ v, G.Reaches stack v ∧ stop v = true := by
  obtain ⟨hfound, hdone⟩ := search_invariant hexpand n stack [] hfuel
    (fun _ => nofun) (fun _ => nofun)
  refine ⟨hfound, ?_⟩
  rintro ⟨v, hv, htarget⟩
  by_contra hgo
  obtain ⟨-, hstack, hout, -⟩ := hdone (Bool.eq_false_iff.mpr hgo)
  rw [(seen_of_reaches hstack hout hv).1] at htarget
  nomatch htarget

/-- **Without a target it sees exactly the nodes with an entry that can be reached.** -/
theorem mem_search (hexpand : G.Expands expand) {n : Nat} {stack : List α}
    (hfuel : G.budget stack [] ≤ n) (v : α) :
    v ∈ (search expand (fun _ => false) n stack []).2 ↔
      G.successors v ≠ none ∧ G.Reaches stack v := by
  obtain ⟨hfound, hdone⟩ := search_invariant hexpand n stack [] hfuel
    (fun _ => nofun) (fun _ => nofun)
  have hgo : (search expand (fun _ => false) n stack []).1 = false :=
    Bool.eq_false_iff.mpr fun h => by
      obtain ⟨_, _, h⟩ := hfound h
      nomatch h
  obtain ⟨-, hstack, hout, hsound⟩ := hdone hgo
  constructor
  · intro h
    rcases hsound v h with h | h
    · nomatch h
    · exact h
  · rintro ⟨hentry, hv⟩
    exact (seen_of_reaches hstack hout hv).2.resolve_left hentry

theorem search_nodup (expand : List α → α → Option (List α)) (stop : α → Bool) :
    ∀ (n : Nat) (stack seen : List α), seen.Nodup → (search expand stop n stack seen).2.Nodup
  | 0, _, _, h => h
  | _ + 1, [], _, h => h
  | n + 1, cur :: stack, seen, h => by
    rw [search]
    split
    · exact h
    split
    · exact search_nodup expand stop n stack seen h
    · rename_i hseen
      split
      · exact search_nodup expand stop n stack seen h
      · apply search_nodup expand stop n _ (seen ++ [cur])
        refine nodup_append.mpr ⟨h, pairwise_singleton _ cur, ?_⟩
        rintro a ha b hb rfl
        exact hseen (mem_singleton.mp hb ▸ ha)

/-! ## Rounds -/

/-- One round of the loop, where there is no target. -/
def round (expand : List α → α → Option (List α)) : List α × List α → List α × List α
  | ([], seen) => ([], seen)
  | (cur :: stack, seen) =>
    if cur ∈ seen then (stack, seen)
    else match expand (seen ++ [cur]) cur with
      | none => (stack, seen)
      | some pushed => (pushed.reverse ++ stack, seen ++ [cur])

theorem search_eq_iterate (expand : List α → α → Option (List α)) :
    ∀ (n : Nat) (state : List α × List α),
      (search expand (fun _ => false) n state.1 state.2).2 = ((round expand)^[n] state).2
  | 0, _ => rfl
  | n + 1, ([], seen) => by
    rw [Function.iterate_succ_apply, round, ← search_eq_iterate expand n]
    cases n <;> rfl
  | n + 1, (cur :: stack, seen) => by
    rw [Function.iterate_succ_apply, ← search_eq_iterate expand n, search, round,
      if_neg Bool.false_ne_true]
    dsimp only
    split
    · rfl
    · cases expand (seen ++ [cur]) cur <;> rfl

/-- **The loop ends**: after as many rounds as the budget allows, nothing is stacked. -/
theorem iterate_round_nil (hexpand : G.Expands expand) : ∀ (n : Nat) (stack seen : List α),
    G.budget stack seen ≤ n → ((round expand)^[n] (stack, seen)).1 = []
  | 0, stack, seen, h => by
    unfold Graph.budget at h
    show stack = []
    exact eq_nil_of_length_eq_zero (by omega)
  | n + 1, [], seen, h => by
    have hfixed : ∀ m, (round expand)^[m] (([] : List α), seen) = ([], seen) :=
      Function.iterate_fixed rfl
    rw [hfixed]
  | n + 1, cur :: stack, seen, h => by
    have hskip : G.budget stack seen ≤ n := by
      unfold Graph.budget at h ⊢
      rw [length_cons] at h
      omega
    rw [Function.iterate_succ_apply, round]
    split
    · exact iterate_round_nil hexpand n stack seen hskip
    · rename_i hseen
      cases hws : G.successors cur with
      | none =>
        rw [hexpand.none _ cur hws]
        exact iterate_round_nil hexpand n stack seen hskip
      | some ws =>
        obtain ⟨pushed, hpushed, hlen, -⟩ := hexpand.some (seen ++ [cur]) cur ws hws
        rw [hpushed]
        have hless := budget_visit stack hws hlen hseen
        exact iterate_round_nil hexpand n _ _ (by omega)

end NexusCode.Lib.Worklist
