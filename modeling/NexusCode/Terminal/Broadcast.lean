/-
  `AsyncBroadcast`: one producer, any number of iterators, each with its own cursor.

  An iterator is an asynchronous generator.  Its body runs only while a call of `next()` is
  unanswered, and it stops in the middle in two places: at a `yield`, until the value has been
  delivered, and at the promise its resolver was put among the wakers for.  `iterate()` only creates
  the generator; the `k`-th one is opened by its first `next()`.

    1. `AsyncBroadcast`, `broadcasts` — the object, its iterators, and what can happen to them.
    2. `Coherent`                     — parked iterators are those among the wakers, and have seen
       everything; kept by every event (`Coherent.step`).
    3. `Delivered`                    — what an iterator yielded is the values before its cursor.
    4. `Draining.returned`            — after `close`, whoever keeps asking gets to the end.
    5. **`everything_once`**          — every iterator yields what was pushed, once and in order.

  A job is modelled with the values alone; `feedOn_values` says that they are the same.
-/
import NexusCode.Lib.Machine
import NexusCode.Terminal.Job

namespace NexusCode.Terminal.Broadcast

open Lib List

/-! ## The broadcast -/

/-- Where the body of an iterator stands. -/
inductive Phase (α : Type) where
  | suspended
  | yielding (value : α)
  | parked
  | woken
  | returned

/-- An iterator: its cursor, and how many calls of `next()` are unanswered. -/
structure Iterator (α : Type) where
  i : Nat := 0
  phase : Phase α := .suspended
  requests : Nat := 0

/-- `AsyncBroadcast`, and its iterators; a waker is the resolver of the iterator with its number. -/
structure AsyncBroadcast (α : Type) where
  chunks : List α := []
  wakers : List Nat := []
  closed : Bool := false
  iterators : Nat → Iterator α := fun _ => {}

/-- An answer to a call of `next()`. -/
inductive Settled (α : Type) where
  | value (k : Nat) (value : α)
  | done (k : Nat)

/-- What can happen: the producer's calls, a call of `next()`, and the body of an iterator going on
    after what it waited for. -/
inductive Turn (α : Type) where
  | push (value : α)
  | close
  | next (k : Nat)
  | resume (k : Nat)

variable {α : Type}

/-- The promise an iterator may be parked on is resolved. -/
def Iterator.wake (it : Iterator α) : Iterator α :=
  match it.phase with
  | .parked => { it with phase := .woken }
  | _ => it

namespace AsyncBroadcast

variable (b : AsyncBroadcast α)

/-- The iterator `k` moves on. -/
def put (k : Nat) (it : Iterator α) : AsyncBroadcast α :=
  { b with iterators := Function.update b.iterators k it }

/-- `wake()`. -/
def wake : AsyncBroadcast α :=
  { b with
    wakers := []
    iterators := fun k => if k ∈ b.wakers then (b.iterators k).wake else b.iterators k }

/-- `push(value)`. -/
def push (value : α) : AsyncBroadcast α :=
  if b.closed then b else wake { b with chunks := b.chunks ++ [value] }

/-- `close()`. -/
def close : AsyncBroadcast α :=
  if b.closed then b else wake { b with closed := true }

/-- The body of the iterator `k`, from the test `i < this.chunks.length` to where it stops next. -/
def body (k : Nat) : List (Settled α) × AsyncBroadcast α :=
  let it := b.iterators k
  match b.chunks[it.i]? with
  | some value => ([], b.put k { it with i := it.i + 1, phase := .yielding value })
  | none =>
    if b.closed then
      (List.replicate it.requests (.done k), b.put k { it with phase := .returned, requests := 0 })
    else ([], { b.put k { it with phase := .parked } with wakers := k :: b.wakers })

/-- `next()` of the iterator `k`. -/
def next (k : Nat) : List (Settled α) × AsyncBroadcast α :=
  let it := b.iterators k
  let asked := b.put k { it with requests := it.requests + 1 }
  match it.phase with
  | .suspended => asked.body k
  | .returned => ([.done k], b)
  | _ => ([], asked)

/-- The iterator `k` goes on: its value has been delivered, or its promise was resolved. -/
def resume (k : Nat) : List (Settled α) × AsyncBroadcast α :=
  let it := b.iterators k
  match it.phase with
  | .yielding value =>
    let answered := b.put k { it with phase := .suspended, requests := it.requests - 1 }
    if it.requests ≤ 1 then ([.value k value], answered)
    else (.value k value :: (answered.body k).1, (answered.body k).2)
  | .woken => b.body k
  | _ => ([], b)

end AsyncBroadcast

/-- The broadcast, event after event. -/
def broadcasts : Machine (AsyncBroadcast α) (Turn α) (List (Settled α)) where
  step b
    | .push value => ([], b.push value)
    | .close => ([], b.close)
    | .next k => b.next k
    | .resume k => b.resume k

/-! ## What should be seen -/

/-- The values pushed before the first `close`. -/
def pushedIn : List (Turn α) → List α
  | [] => []
  | .push value :: rest => value :: pushedIn rest
  | .close :: _ => []
  | _ :: rest => pushedIn rest

/-- The values among the answers to the iterator `k`. -/
def yieldedTo (k : Nat) (answers : List (Settled α)) : List α :=
  answers.filterMap fun
    | .value k' value => if k' = k then some value else none
    | .done _ => none

theorem yieldedTo_append (k : Nat) (xs ys : List (Settled α)) :
    yieldedTo k (xs ++ ys) = yieldedTo k xs ++ yieldedTo k ys := List.filterMap_append

theorem yieldedTo_done (k k' n : Nat) :
    yieldedTo k (List.replicate n (Settled.done k' : Settled α)) = [] := by
  refine filterMap_eq_nil_iff.mpr fun a ha => ?_
  rw [eq_of_mem_replicate ha]

/-! ## What the wakers are for -/

/-- An iterator stands where its cursor and the broadcast say. -/
structure Iterator.Fits (chunks : List α) (closed : Bool) (waiting : Prop) (it : Iterator α) :
    Prop where
  inside : it.i ≤ chunks.length
  parked : it.phase = .parked ↔ waiting
  atEnd : it.phase = .parked → it.i = chunks.length ∧ closed = false
  ended : it.phase = .returned → it.i = chunks.length ∧ closed = true
  picked : ∀ value, it.phase = .yielding value → 0 < it.i ∧ chunks[it.i - 1]? = some value

/-- **Parked iterators are those among the wakers**, and have seen everything. -/
def Coherent (b : AsyncBroadcast α) : Prop :=
  ∀ k, (b.iterators k).Fits b.chunks b.closed (k ∈ b.wakers)

namespace AsyncBroadcast

variable {b : AsyncBroadcast α} {k : Nat}

theorem put_self (it : Iterator α) : (b.put k it).iterators k = it := Function.update_self ..

theorem put_other {k' : Nat} (h : k' ≠ k) (it : Iterator α) :
    (b.put k it).iterators k' = b.iterators k' := Function.update_of_ne h ..

/-- **What the body does**: it picks the next value, or comes to an end, or parks. -/
theorem body_cases (b : AsyncBroadcast α) (k : Nat) :
    (∃ value, b.chunks[(b.iterators k).i]? = some value ∧ b.body k = ([],
        b.put k { b.iterators k with i := (b.iterators k).i + 1, phase := .yielding value })) ∨
      b.chunks.length ≤ (b.iterators k).i ∧ b.closed = true ∧
        b.body k = (List.replicate (b.iterators k).requests (.done k),
          b.put k { b.iterators k with phase := .returned, requests := 0 }) ∨
      b.chunks.length ≤ (b.iterators k).i ∧ b.closed = false ∧ b.body k = ([],
        { b.put k { b.iterators k with phase := .parked } with wakers := k :: b.wakers }) := by
  unfold body
  dsimp only
  cases hnext : b.chunks[(b.iterators k).i]? with
  | some value => exact .inl ⟨value, rfl, rfl⟩
  | none =>
    have hend := List.getElem?_eq_none_iff.mp hnext
    cases hclosed : b.closed with
    | true => exact .inr (.inl ⟨hend, rfl, if_pos rfl⟩)
    | false => exact .inr (.inr ⟨hend, rfl, if_neg Bool.false_ne_true⟩)

end AsyncBroadcast

variable {k : Nat} {it : Iterator α}

/-- Waking leaves an iterator where it fits, whatever is added behind what it has seen. -/
theorem Iterator.Fits.wake {chunks chunks' : List α} {closed closed' : Bool} {wakers : List Nat}
    (h : it.Fits chunks closed (k ∈ wakers)) (hopen : closed = false)
    ( hprefix : chunks <+: chunks') :
    (if k ∈ wakers then it.wake else it).Fits chunks' closed' (k ∈ ([] : List Nat)) := by
  have hinside := Nat.le_trans h.inside hprefix.length_le
  by_cases hk : k ∈ wakers
  · have hparked := h.parked.mpr hk
    have hwake : it.wake = { it with phase := .woken } := by
      unfold Iterator.wake
      rw [hparked]
    rw [if_pos hk, hwake]
    refine ⟨hinside, iff_of_false nofun not_mem_nil, ?_, ?_, ?_⟩
    all_goals intros; contradiction
  · have hnot : it.phase ≠ .parked := fun hparked => hk (h.parked.mp hparked)
    rw [if_neg hk]
    refine ⟨hinside, iff_of_false hnot not_mem_nil, fun hp => absurd hp hnot, ?_, ?_⟩
    · intro hreturned
      rw [hopen] at h
      nomatch (h.ended hreturned).2
    · intro value hvalue
      obtain ⟨hpos, hpick⟩ := h.picked value hvalue
      obtain ⟨rest, rfl⟩ := hprefix
      refine ⟨hpos, ?_⟩
      rw [List.getElem?_append_left, hpick]
      have := h.inside
      omega

namespace Coherent

variable {b : AsyncBroadcast α} {k : Nat}

theorem put (h : Coherent b) {it : Iterator α} (hit : it.Fits b.chunks b.closed (k ∈ b.wakers)) :
    Coherent (b.put k it) := by
  intro k'
  by_cases hk : k' = k
  · subst hk
    rw [AsyncBroadcast.put_self]
    exact hit
  · rw [AsyncBroadcast.put_other hk]
    exact h k'

theorem body (h : Coherent b) (hrunning : (b.iterators k).phase ≠ .parked) :
    Coherent (b.body k).2 := by
  have hk := h k
  have hout : k ∉ b.wakers := fun hmem => hrunning (hk.parked.mpr hmem)
  rcases b.body_cases k with ⟨value, hvalue, heq⟩ | ⟨hend, hclosed, heq⟩ | ⟨hend, hopen, heq⟩
  · rw [heq]
    apply h.put
    have hlt := (List.getElem?_eq_some_iff.mp hvalue).1
    refine ⟨hlt, iff_of_false nofun hout, nofun, nofun, ?_⟩
    intro value' hvalue'
    obtain rfl := Phase.yielding.inj hvalue'
    exact ⟨Nat.succ_pos _, hvalue⟩
  · rw [heq]
    apply h.put
    have hall := Nat.le_antisymm hk.inside hend
    exact ⟨hk.inside, iff_of_false nofun hout, nofun, fun _ => ⟨hall, hclosed⟩,
      fun _ => nofun⟩
  · rw [heq]
    have hall := Nat.le_antisymm hk.inside hend
    intro k'
    by_cases hk' : k' = k
    · subst hk'
      show (Iterator.Fits b.chunks b.closed (k' ∈ k' :: b.wakers) ((b.put k' _).iterators k'))
      rw [AsyncBroadcast.put_self]
      exact ⟨hk.inside, iff_of_true rfl mem_cons_self, fun _ => ⟨hall, hopen⟩, nofun,
        fun _ => nofun⟩
    · show (Iterator.Fits b.chunks b.closed (k' ∈ k :: b.wakers) ((b.put k _).iterators k'))
      rw [AsyncBroadcast.put_other hk']
      have hmem : k' ∈ k :: b.wakers ↔ k' ∈ b.wakers := by simp [hk']
      rw [hmem]
      exact h k'

/-- **Every event keeps the iterators where they fit.** -/
theorem step (h : Coherent b) (e : Turn α) : Coherent (broadcasts.step b e).2 := by
  cases e with
  | push value =>
    show Coherent (b.push value)
    unfold AsyncBroadcast.push
    split
    · exact h
    · rename_i hopen
      exact fun k => (h k).wake (Bool.not_eq_true _ ▸ hopen) (prefix_append ..)
  | close =>
    show Coherent b.close
    unfold AsyncBroadcast.close
    split
    · exact h
    · rename_i hopen
      exact fun k => (h k).wake (Bool.not_eq_true _ ▸ hopen) (prefix_refl _)
  | next k =>
    have hk := h k
    have hasked : Coherent
        (b.put k { b.iterators k with requests := (b.iterators k).requests + 1 }) :=
      h.put ⟨hk.inside, hk.parked, hk.atEnd, hk.ended, hk.picked⟩
    show Coherent (b.next k).2
    unfold AsyncBroadcast.next
    dsimp only
    split
    · rename_i hphase
      apply hasked.body
      rw [AsyncBroadcast.put_self]
      intro hparked
      rw [hphase] at hparked
      nomatch hparked
    · exact h
    · exact hasked
  | resume k =>
    have hk := h k
    show Coherent (b.resume k).2
    unfold AsyncBroadcast.resume
    dsimp only
    split
    · rename_i value hphase
      have hanswered : Coherent (b.put k
          { b.iterators k with phase := .suspended, requests := (b.iterators k).requests - 1 }) := by
        apply h.put
        refine ⟨hk.inside, iff_of_false nofun fun hmem => ?_, nofun, nofun,
          fun _ => nofun⟩
        have hparked := hk.parked.mpr hmem
        rw [hphase] at hparked
        nomatch hparked
      split
      · exact hanswered
      · apply hanswered.body
        rw [AsyncBroadcast.put_self]
        exact nofun
    · rename_i hphase
      apply h.body
      rw [hphase]
      exact nofun
    · exact h

end Coherent

theorem coherent_initial : Coherent ({} : AsyncBroadcast α) := by
  intro k
  refine ⟨Nat.le_refl 0, iff_of_false nofun not_mem_nil, nofun, nofun, ?_⟩
  exact fun _ => nofun

/-! ## What has been delivered -/

/-- How many values were delivered. -/
def Iterator.delivered (it : Iterator α) : Nat :=
  match it.phase with
  | .yielding _ => it.i - 1
  | _ => it.i

theorem Iterator.delivered_wake (it : Iterator α) : it.wake.delivered = it.delivered := by
  obtain ⟨i, phase, requests⟩ := it
  cases phase <;> rfl

namespace AsyncBroadcast

variable (b : AsyncBroadcast α) (k : Nat)

/-- The body answers no call with a value, and moves no other iterator. -/
theorem body_frame : (b.body k).2.chunks = b.chunks ∧ (b.body k).2.closed = b.closed ∧
    (∀ k', yieldedTo k' (b.body k).1 = []) ∧
    (∀ k', k' ≠ k → (b.body k).2.iterators k' = b.iterators k') ∧
    ((b.body k).2.iterators k).delivered = (b.iterators k).i := by
  rcases b.body_cases k with ⟨value, -, heq⟩ | ⟨-, -, heq⟩ | ⟨-, -, heq⟩
  · rw [heq]
    refine ⟨rfl, rfl, fun _ => rfl, fun k' hk => put_other hk _, ?_⟩
    dsimp only
    rw [put_self]
    rfl
  · rw [heq]
    refine ⟨rfl, rfl, fun k' => yieldedTo_done k' k _, fun k' hk => put_other hk _, ?_⟩
    dsimp only
    rw [put_self]
    rfl
  · rw [heq]
    refine ⟨rfl, rfl, fun _ => rfl, fun k' hk => put_other hk _, ?_⟩
    show ((b.put k _).iterators k).delivered = _
    rw [put_self]
    rfl

end AsyncBroadcast

/-- What the iterator has yielded goes on with `out` from one state to the next. -/
def Delivered (b b' : AsyncBroadcast α) (k : Nat) (out : List (Settled α)) : Prop :=
  b.chunks.take (b.iterators k).delivered ++ yieldedTo k out =
    b'.chunks.take (b'.iterators k).delivered

variable {b : AsyncBroadcast α}

theorem Delivered.of_eq {b' : AsyncBroadcast α} {out : List (Settled α)}
    (hchunks : b'.chunks = b.chunks)
    (hit : (b'.iterators k).delivered = (b.iterators k).delivered) (hout : yieldedTo k out = []) :
    Delivered b b' k out := by
  unfold Delivered
  rw [hchunks, hit, hout, append_nil]

theorem delivered_wake (h : Coherent b) (chunks : List α) (closed : Bool)
    ( hprefix : b.chunks <+: chunks) (k : Nat) :
    Delivered b (AsyncBroadcast.wake { b with chunks, closed }) k [] := by
  show b.chunks.take _ ++ [] =
    chunks.take (if k ∈ b.wakers then (b.iterators k).wake else b.iterators k).delivered
  have hsame : (if k ∈ b.wakers then (b.iterators k).wake else b.iterators k).delivered =
      (b.iterators k).delivered := by
    split
    · exact (b.iterators k).delivered_wake
    · rfl
  have hle : (b.iterators k).delivered ≤ b.chunks.length := by
    have := (h k).inside
    unfold Iterator.delivered
    split <;> omega
  obtain ⟨rest, rfl⟩ := hprefix
  rw [hsame, append_nil, take_append_of_le_length hle]

/-- **What an event delivers** is the value the iterator had picked. -/
theorem Coherent.delivered (h : Coherent b) (e : Turn α) (k : Nat) :
    Delivered b (broadcasts.step b e).2 k (broadcasts.step b e).1 := by
  cases e with
  | push value =>
    show Delivered b (b.push value) k []
    unfold AsyncBroadcast.push
    split
    · exact Delivered.of_eq rfl rfl rfl
    · exact delivered_wake h _ _ (prefix_append ..) k
  | close =>
    show Delivered b b.close k []
    unfold AsyncBroadcast.close
    split
    · exact Delivered.of_eq rfl rfl rfl
    · exact delivered_wake h _ _ (prefix_refl _) k
  | next k' =>
    show Delivered b (b.next k').2 k (b.next k').1
    unfold AsyncBroadcast.next
    dsimp only
    split
    · rename_i hphase
      obtain ⟨hchunks, -, hout, hother, hself⟩ := AsyncBroadcast.body_frame (b.put k'
        { b.iterators k' with requests := (b.iterators k').requests + 1 }) k'
      refine Delivered.of_eq hchunks ?_ (hout k)
      by_cases hk : k = k'
      · subst hk
        rw [hself, AsyncBroadcast.put_self]
        unfold Iterator.delivered
        rw [hphase]
      · rw [hother k hk, AsyncBroadcast.put_other hk]
    · exact Delivered.of_eq rfl rfl rfl
    · refine Delivered.of_eq rfl ?_ rfl
      by_cases hk : k = k'
      · subst hk
        rw [AsyncBroadcast.put_self]
        rfl
      · rw [AsyncBroadcast.put_other hk]
  | resume k' =>
    show Delivered b (b.resume k').2 k (b.resume k').1
    unfold AsyncBroadcast.resume
    dsimp only
    split
    · rename_i value hphase
      let answered := b.put k'
        { b.iterators k' with phase := .suspended, requests := (b.iterators k').requests - 1 }
      have hanswered : Delivered b answered k [.value k' value] := by
        by_cases hk : k = k'
        · subst hk
          obtain ⟨hpos, hpick⟩ := (h k).picked value hphase
          have hdelivered : (b.iterators k).delivered = (b.iterators k).i - 1 := by
            unfold Iterator.delivered
            rw [hphase]
          have hafter : (answered.iterators k).delivered = (b.iterators k).i := by
            show ((b.put k _).iterators k).delivered = _
            rw [AsyncBroadcast.put_self]
            rfl
          have hyield : yieldedTo k [Settled.value k value] = [value] := by simp [yieldedTo]
          obtain ⟨n, hn⟩ := Nat.exists_eq_add_of_le hpos
          unfold Delivered
          rw [hdelivered, hafter, hyield]
          rw [hn, Nat.add_sub_cancel_left] at hpick ⊢
          show _ = b.chunks.take (0 + 1 + n)
          rw [show 0 + 1 + n = n + 1 by omega, take_add_one, hpick]
          rfl
        · refine Delivered.of_eq rfl ?_ ?_
          · show ((b.put k' _).iterators k).delivered = _
            rw [AsyncBroadcast.put_other hk]
          · simp [yieldedTo, Ne.symm hk]
      split
      · exact hanswered
      · obtain ⟨hchunks, -, hout, hother, hself⟩ := answered.body_frame k'
        show Delivered b (answered.body k').2 k ([.value k' value] ++ (answered.body k').1)
        unfold Delivered at hanswered ⊢
        rw [yieldedTo_append, hout k, append_nil, hanswered, hchunks]
        by_cases hk : k = k'
        · subst hk
          rw [hself]
          show b.chunks.take ((b.put k _).iterators k).delivered =
            b.chunks.take ((b.put k _).iterators k).i
          rw [AsyncBroadcast.put_self]
          rfl
        · rw [hother k hk]
    · rename_i hphase
      obtain ⟨hchunks, -, hout, hother, hself⟩ := b.body_frame k'
      refine Delivered.of_eq hchunks ?_ (hout k)
      by_cases hk : k = k'
      · subst hk
        rw [hself]
        unfold Iterator.delivered
        rw [hphase]
      · rw [hother k hk]
    · exact Delivered.of_eq rfl rfl rfl

/-- What an iterator yields in a run, and where it stands behind it. -/
theorem Coherent.yielded_run (k : Nat) : ∀ {b : AsyncBroadcast α} (es : List (Turn α)),
    Coherent b → Delivered b (broadcasts.run b es) k (broadcasts.answers b es).flatten
  | b, [], _ => Delivered.of_eq rfl rfl rfl
  | b, e :: es, h => by
    have hhere := h.delivered e k
    have hrest := (h.step e).yielded_run k es
    unfold Delivered at hhere hrest ⊢
    rw [Machine.answers, flatten_cons, yieldedTo_append, ← append_assoc, hhere, hrest]
    rfl

/-! ## What was pushed -/

/-- The consumers' events add no value, close nothing and concern one iterator. -/
theorem asked_frame (b : AsyncBroadcast α) (k : Nat) :
    ((b.next k).2.chunks = b.chunks ∧ (b.next k).2.closed = b.closed ∧
      ∀ k', k' ≠ k → (b.next k).2.iterators k' = b.iterators k') ∧
      (b.resume k).2.chunks = b.chunks ∧ (b.resume k).2.closed = b.closed ∧
        ∀ k', k' ≠ k → (b.resume k).2.iterators k' = b.iterators k' := by
  have hbody : ∀ it : Iterator α, ((b.put k it).body k).2.chunks = b.chunks ∧
      ((b.put k it).body k).2.closed = b.closed ∧
        ∀ k', k' ≠ k → ((b.put k it).body k).2.iterators k' = b.iterators k' := by
    intro it
    obtain ⟨hchunks, hclosed, -, hother, -⟩ := (b.put k it).body_frame k
    exact ⟨hchunks, hclosed, fun k' hk => (hother k' hk).trans (AsyncBroadcast.put_other hk it)⟩
  unfold AsyncBroadcast.next AsyncBroadcast.resume
  dsimp only
  constructor
  · split
    · exact hbody _
    · exact ⟨rfl, rfl, fun _ _ => rfl⟩
    · exact ⟨rfl, rfl, fun k' hk => AsyncBroadcast.put_other hk _⟩
  · split
    · split
      · exact ⟨rfl, rfl, fun k' hk => AsyncBroadcast.put_other hk _⟩
      · exact hbody _
    · obtain ⟨hchunks, hclosed, -, hother, -⟩ := b.body_frame k
      exact ⟨hchunks, hclosed, hother⟩
    · exact ⟨rfl, rfl, fun _ _ => rfl⟩

/-- **The values of the broadcast** are those pushed before it was closed. -/
theorem chunks_run (es : List (Turn α)) : ∀ b : AsyncBroadcast α,
    (broadcasts.run b es).chunks = b.chunks ++ (if b.closed then [] else pushedIn es) ∧
      ((broadcasts.run b es).closed = true ↔ b.closed = true ∨ .close ∈ es) := by
  induction es with
  | nil =>
    intro b
    simp [pushedIn]
  | cons e es ih =>
    intro b
    rw [Machine.run_cons]
    cases e with
    | push value =>
      have hrest := ih (b.push value)
      change (broadcasts.run (b.push value) es).chunks = _ ∧
        ((broadcasts.run (b.push value) es).closed = true ↔ _)
      cases hclosed : b.closed with
      | true =>
        have hpush : b.push value = b := if_pos hclosed
        rw [hpush] at hrest ⊢
        simpa [hclosed] using hrest
      | false =>
        have hpush : b.push value = AsyncBroadcast.wake { b with chunks := b.chunks ++ [value] } := by
          unfold AsyncBroadcast.push
          rw [hclosed]
          exact if_neg Bool.false_ne_true
        rw [hpush] at hrest ⊢
        simpa [AsyncBroadcast.wake, hclosed, pushedIn] using hrest
    | close =>
      have hrest := ih b.close
      change (broadcasts.run b.close es).chunks = _ ∧ ((broadcasts.run b.close es).closed = true ↔ _)
      cases hclosed : b.closed with
      | true =>
        have hclose : b.close = b := if_pos hclosed
        rw [hclose] at hrest ⊢
        simpa [hclosed] using hrest
      | false =>
        have hclose : b.close = AsyncBroadcast.wake { b with closed := true } := by
          unfold AsyncBroadcast.close
          rw [hclosed]
          exact if_neg Bool.false_ne_true
        rw [hclose] at hrest ⊢
        simpa [AsyncBroadcast.wake, pushedIn] using hrest
    | next k =>
      obtain ⟨⟨hchunks, hclosed, -⟩, -⟩ := asked_frame b k
      have hrest := ih (b.next k).2
      show (broadcasts.run (b.next k).2 es).chunks = _ ∧
        ((broadcasts.run (b.next k).2 es).closed = true ↔ _)
      rw [hchunks, hclosed] at hrest
      simpa [pushedIn] using hrest
    | resume k =>
      obtain ⟨-, hchunks, hclosed, -⟩ := asked_frame b k
      have hrest := ih (b.resume k).2
      show (broadcasts.run (b.resume k).2 es).chunks = _ ∧
        ((broadcasts.run (b.resume k).2 es).closed = true ↔ _)
      rw [hchunks, hclosed] at hrest
      simpa [pushedIn] using hrest

/-- What the producer's calls do to the feed of a job. -/
def feedOn (feed : Feed α) : Turn α → Feed α
  | .push value => feed.push value
  | .close => feed.close
  | _ => feed

/-- **The feed of a job** holds what the iterators of its broadcast are to yield. -/
theorem feedOn_values (es : List (Turn α)) : ∀ feed : Feed α, (es.foldl feedOn feed).values =
    feed.values ++ (if feed.closed then [] else pushedIn es) := by
  induction es with
  | nil =>
    intro feed
    simp [pushedIn]
  | cons e es ih =>
    intro feed
    rw [foldl_cons, ih]
    cases e with
    | push value =>
      show (feed.push value).values ++ (if (feed.push value).closed then [] else pushedIn es) = _
      unfold Feed.push
      cases hclosed : feed.closed <;> simp [hclosed, pushedIn]
    | close =>
      show feed.values ++ [] = _
      simp [pushedIn]
    | next k => rfl
    | resume k => rfl

/-! ## Coming to the end -/

/-- How far an iterator is from its end when the broadcast is closed. -/
def left (n : Nat) (it : Iterator α) : Nat :=
  2 * (n - it.i) + match it.phase with
    | .yielding _ => 2
    | .returned => 0
    | _ => 1

/-- The body of the iterator will go on by itself. -/
def Busy (it : Iterator α) : Prop := it.phase = .woken ∨ ∃ value, it.phase = .yielding value

/-- An event left the iterator where it was, or took it nearer to its end. -/
def Nearer (n : Nat) (it it' : Iterator α) : Prop :=
  left n it' < left n it ∨ left n it' = left n it ∧ (Busy it → Busy it')

/-- The body of a running iterator takes it nearer to its end. -/
theorem left_body (hclosed : b.closed = true) :
    left b.chunks.length ((b.body k).2.iterators k) <
      2 * (b.chunks.length - (b.iterators k).i) + 1 := by
  rcases b.body_cases k with ⟨value, hvalue, heq⟩ | ⟨hend, -, heq⟩ | ⟨-, hopen, heq⟩
  · have hlt := (List.getElem?_eq_some_iff.mp hvalue).1
    rw [heq]
    dsimp only
    rw [AsyncBroadcast.put_self]
    show 2 * (b.chunks.length - ((b.iterators k).i + 1)) + 2 < _
    omega
  · rw [heq]
    dsimp only
    rw [AsyncBroadcast.put_self]
    show 2 * (b.chunks.length - (b.iterators k).i) + 0 < _
    omega
  · rw [hclosed] at hopen
    nomatch hopen

variable {n : Nat}

theorem Busy.left_pos (h : Busy it) : left n it ≠ 0 := by
  unfold left
  rcases h with h | ⟨value, h⟩
  · rw [h]
    exact Nat.succ_ne_zero _
  · rw [h]
    exact Nat.succ_ne_zero _

/-- A call of `next()` after `close` makes the body go on, if it is not at the end. -/
theorem nearer_next (h : Coherent b) (hclosed : b.closed = true) (k : Nat) :
    left b.chunks.length ((b.next k).2.iterators k) < left b.chunks.length (b.iterators k) ∨
      left b.chunks.length ((b.next k).2.iterators k) = left b.chunks.length (b.iterators k) ∧
        (left b.chunks.length (b.iterators k) = 0 ∨ Busy ((b.next k).2.iterators k)) := by
  unfold AsyncBroadcast.next
  dsimp only
  split
  · rename_i hphase
    left
    have hbody := left_body (b := b.put k
      { b.iterators k with requests := (b.iterators k).requests + 1 }) (k := k) hclosed
    rw [AsyncBroadcast.put_self] at hbody
    refine Nat.lt_of_lt_of_eq hbody ?_
    unfold left
    rw [hphase]
    rfl
  · rename_i hphase
    right
    refine ⟨rfl, .inl ?_⟩
    have hend := ((h k).ended hphase).1
    unfold left
    rw [hphase, hend, Nat.sub_self]
    rfl
  · rename_i hsuspended hreturned
    right
    rw [AsyncBroadcast.put_self]
    refine ⟨rfl, .inr ?_⟩
    show (b.iterators k).phase = .woken ∨ ∃ value, (b.iterators k).phase = .yielding value
    cases hphase : (b.iterators k).phase with
    | suspended => exact absurd hphase hsuspended
    | returned => exact absurd hphase hreturned
    | woken => exact .inl rfl
    | yielding value => exact .inr ⟨value, rfl⟩
    | parked =>
      -- nobody is parked on a closed broadcast
      have hopen := ((h k).atEnd hphase).2
      rw [hclosed] at hopen
      nomatch hopen

/-- A body that goes on takes its iterator nearer to its end. -/
theorem nearer_resume (hclosed : b.closed = true) (k : Nat) :
    left b.chunks.length ((b.resume k).2.iterators k) < left b.chunks.length (b.iterators k) ∨
      (b.resume k).2.iterators k = b.iterators k ∧ ¬ Busy (b.iterators k) := by
  unfold AsyncBroadcast.resume
  dsimp only
  split
  · rename_i value hphase
    left
    have hhere : left b.chunks.length (b.iterators k) =
        2 * (b.chunks.length - (b.iterators k).i) + 2 := by
      unfold left
      rw [hphase]
    rw [hhere]
    split
    · dsimp only
      rw [AsyncBroadcast.put_self]
      exact Nat.lt_succ_self _
    · have hbody := left_body (b := b.put k
        { b.iterators k with phase := .suspended, requests := (b.iterators k).requests - 1 })
        (k := k) hclosed
      rw [AsyncBroadcast.put_self] at hbody
      exact Nat.lt_trans hbody (Nat.lt_succ_self _)
  · rename_i hphase
    left
    refine Nat.lt_of_lt_of_eq (left_body hclosed) ?_
    unfold left
    rw [hphase]
  · rename_i hyielding hwoken
    right
    refine ⟨rfl, ?_⟩
    rintro (hphase | ⟨value, hphase⟩)
    · exact hwoken hphase
    · exact hyielding value hphase

/-- **After `close`, no event takes an iterator back.** -/
theorem nearer_step (h : Coherent b) (hclosed : b.closed = true) (k : Nat)
    (e : Turn α) : Nearer b.chunks.length (b.iterators k) ((broadcasts.step b e).2.iterators k) ∧
      (broadcasts.step b e).2.chunks = b.chunks ∧ (broadcasts.step b e).2.closed = true := by
  have hstay : Nearer b.chunks.length (b.iterators k) (b.iterators k) := .inr ⟨rfl, id⟩
  cases e with
  | push value =>
    have hpush : (broadcasts.step b (.push value)).2 = b := if_pos hclosed
    rw [hpush]
    exact ⟨hstay, rfl, hclosed⟩
  | close =>
    have hclose : (broadcasts.step b .close).2 = b := if_pos hclosed
    rw [hclose]
    exact ⟨hstay, rfl, hclosed⟩
  | next k' =>
    obtain ⟨⟨hchunks, hstill, hother⟩, -⟩ := asked_frame b k'
    refine ⟨?_, hchunks, hstill.trans hclosed⟩
    show Nearer _ _ ((b.next k').2.iterators k)
    by_cases hk : k = k'
    · subst hk
      rcases nearer_next h hclosed k with hlt | ⟨heq, hzero | hbusy⟩
      · exact .inl hlt
      · exact .inr ⟨heq, fun hbusy => absurd hzero hbusy.left_pos⟩
      · exact .inr ⟨heq, fun _ => hbusy⟩
    · rw [hother k hk]
      exact hstay
  | resume k' =>
    obtain ⟨-, hchunks, hstill, hother⟩ := asked_frame b k'
    refine ⟨?_, hchunks, hstill.trans hclosed⟩
    show Nearer _ _ ((b.resume k').2.iterators k)
    by_cases hk : k = k'
    · subst hk
      rcases nearer_resume hclosed k with hlt | ⟨hsame, -⟩
      · exact .inl hlt
      · rw [hsame]
        exact hstay
    · rw [hother k hk]
      exact hstay

theorem Nearer.trans {it' it'' : Iterator α} (h : Nearer n it it')
    (h' : Nearer n it' it'') : Nearer n it it'' := by
  rcases h with hlt | ⟨heq, hbusy⟩
  · rcases h' with hlt' | ⟨heq', -⟩
    · exact .inl (by omega)
    · exact .inl (Nat.lt_of_le_of_lt (by omega) hlt)
  · rcases h' with hlt' | ⟨heq', hbusy'⟩
    · exact .inl (heq ▸ hlt')
    · exact .inr ⟨heq'.trans heq, fun h => hbusy' (hbusy h)⟩

theorem Nearer.le {it' : Iterator α} (h : Nearer n it it') : left n it' ≤ left n it := by
  rcases h with hlt | ⟨heq, -⟩
  · omega
  · omega

/-- The broadcast is closed, with `n` values. -/
structure Draining (n : Nat) (b : AsyncBroadcast α) : Prop where
  coherent : Coherent b
  closed : b.closed = true
  length : b.chunks.length = n

theorem Draining.run (k : Nat) : ∀ (es : List (Turn α)) {b : AsyncBroadcast α},
    Draining n b → Draining n (broadcasts.run b es) ∧
      Nearer n (b.iterators k) ((broadcasts.run b es).iterators k)
  | [], b, h => ⟨h, .inr ⟨rfl, id⟩⟩
  | e :: es, b, h => by
    obtain ⟨hhere, hchunks, hclosed⟩ := nearer_step h.coherent h.closed k e
    rw [h.length] at hhere
    have hnext : Draining n (broadcasts.step b e).2 :=
      ⟨h.coherent.step e, hclosed, (congrArg List.length hchunks).trans h.length⟩
    obtain ⟨hend, hrest⟩ := hnext.run k es
    exact ⟨hend, hhere.trans hrest⟩

/-- The iterator is asked for a value, and some time after its body goes on. -/
def Served (k : Nat) (es : List (Turn α)) : Prop := [.next k, .resume k].Sublist es

variable {es : List (Turn α)}

/-- A busy iterator whose body goes on in a run gets nearer to its end. -/
theorem Draining.resumed (h : Draining n b)
    (hbusy : Busy (b.iterators k)) (hes : .resume k ∈ es) :
    left n ((broadcasts.run b es).iterators k) < left n (b.iterators k) := by
  obtain ⟨before, after, rfl⟩ := append_of_mem hes
  obtain ⟨hb, hbefore⟩ := h.run k before
  rw [Machine.run_append, Machine.run_cons]
  generalize broadcasts.run b before = b' at *
  have hafter := ((hb.run k [.resume k]).1.run k after).2.le
  have hresume := nearer_resume hb.closed k
  rw [hb.length] at hresume
  change left n ((broadcasts.run (b'.resume k).2 after).iterators k) ≤
    left n ((b'.resume k).2.iterators k) at hafter
  show left n ((broadcasts.run (b'.resume k).2 after).iterators k) < _
  rcases hresume with hlt | ⟨-, hidle⟩
  · have := hbefore.le
    omega
  · rcases hbefore with hlt | ⟨-, hkept⟩
    · have := ((hb.run k [.resume k]).2).le
      change left n ((b'.resume k).2.iterators k) ≤ _ at this
      omega
    · exact absurd (hkept hbusy) hidle

/-- **A round in which an iterator is served** takes it nearer to its end. -/
theorem Draining.served (h : Draining n b) (hserved : Served k es) :
    left n ((broadcasts.run b es).iterators k) ≤ left n (b.iterators k) - 1 := by
  obtain ⟨front, back, rfl, hnext, hback⟩ := cons_sublist_iff.mp hserved
  obtain ⟨before, between, rfl⟩ := append_of_mem hnext
  have hresume : .resume k ∈ between ++ back :=
    mem_append_right _ (singleton_sublist.mp hback)
  obtain ⟨hb, hbefore⟩ := h.run k before
  have hle := hbefore.le
  rw [append_assoc, Machine.run_append, cons_append, Machine.run_cons]
  generalize broadcasts.run b before = b' at *
  have hasked := (hb.run k [.next k]).1
  have hcall := nearer_next hb.coherent hb.closed k
  rw [hb.length] at hcall
  change Draining n (b'.next k).2 at hasked
  show left n ((broadcasts.run (b'.next k).2 (between ++ back)).iterators k) ≤ _
  have hrest := (hasked.run k (between ++ back)).2.le
  rcases hcall with hlt | ⟨heq, hzero | hbusy⟩
  · omega
  · omega
  · have := hasked.resumed hbusy hresume
    omega

/-- **Whoever keeps asking gets to the end**, after as many rounds as are left. -/
theorem Draining.returned : ∀ {rounds : List (List (Turn α))}
    {b : AsyncBroadcast α}, Draining n b → (∀ round ∈ rounds, Served k round) →
      left n (b.iterators k) ≤ rounds.length →
        ((broadcasts.run b rounds.flatten).iterators k).phase = .returned
  | [], b, h, _, hleft => by
    have hfits := h.coherent k
    show (b.iterators k).phase = .returned
    unfold left at hleft
    cases hphase : (b.iterators k).phase with
    | returned => rfl
    | parked =>
      have hopen := (hfits.atEnd hphase).2
      rw [h.closed] at hopen
      nomatch hopen
    | _ =>
      rw [hphase] at hleft
      simp at hleft
  | round :: rounds, b, h, hserved, hleft => by
    have hhere := h.served (hserved round mem_cons_self)
    rw [flatten_cons, Machine.run_append]
    refine (h.run k round).1.returned (fun r hr => hserved r (mem_cons_of_mem _ hr)) ?_
    rw [length_cons] at hleft
    omega

/-! ## Everything, once -/

/-- A producer's call. -/
def Turn.Produces : Turn α → Prop
  | .push _ => True
  | .close => True
  | _ => False

theorem not_parked_of_produces (h : Coherent b) {e : Turn α}
    (he : e.Produces) (k : Nat) : ((broadcasts.step b e).2.iterators k).phase ≠ .parked := by
  have hcoherent := h.step e k
  intro hparked
  have hwaiting := hcoherent.parked.mp hparked
  have hopen := (hcoherent.atEnd hparked).2
  cases e with
  | push value =>
    change k ∈ (b.push value).wakers at hwaiting
    change (b.push value).closed = false at hopen
    unfold AsyncBroadcast.push at hwaiting hopen
    split at hwaiting
    · rename_i hclosed
      rw [if_pos hclosed, hclosed] at hopen
      nomatch hopen
    · nomatch hwaiting
  | close =>
    change b.close.closed = false at hopen
    unfold AsyncBroadcast.close at hopen
    split at hopen
    · rename_i hclosed
      rw [hclosed] at hopen
      nomatch hopen
    · nomatch hopen
  | next k => exact he
  | resume k => exact he

theorem coherent_run (es : List (Turn α)) : Coherent (broadcasts.run {} es) :=
  Machine.run_invariant (fun _ e h => h.step e) es coherent_initial

/-- What an iterator yields in a run from the start is what stands before its cursor. -/
theorem yieldedTo_run (es : List (Turn α)) (k : Nat) :
    yieldedTo k (broadcasts.answers {} es).flatten =
      (pushedIn es).take ((broadcasts.run {} es).iterators k).delivered := by
  have hrun := coherent_initial.yielded_run k es
  have hchunks : (broadcasts.run {} es).chunks = pushedIn es := (chunks_run es {}).1
  unfold Delivered at hrun
  rw [hchunks] at hrun
  exact hrun

theorem yieldedTo_eq_pushed
    (h : ((broadcasts.run {} es).iterators k).delivered = (broadcasts.run {} es).chunks.length) :
    yieldedTo k (broadcasts.answers {} es).flatten = pushedIn es := by
  have hchunks : (broadcasts.run {} es).chunks = pushedIn es := (chunks_run es {}).1
  rw [yieldedTo_run, h, hchunks, take_length]

/-- An iterator that is told the end has returned, and it stays so. -/
theorem returned_step (k : Nat) (e : Turn α)
    (h : (b.iterators k).phase = .returned ∨ .done k ∈ (broadcasts.step b e).1) :
    ((broadcasts.step b e).2.iterators k).phase = .returned := by
  have hwake : ∀ (chunks : List α) (closed : Bool), (b.iterators k).phase = .returned →
      ((AsyncBroadcast.wake { b with chunks, closed }).iterators k).phase = .returned := by
    intro chunks closed hphase
    show (if k ∈ b.wakers then (b.iterators k).wake else b.iterators k).phase = .returned
    split
    · unfold Iterator.wake
      rw [hphase]
      exact hphase
    · exact hphase
  have hbody : ∀ (b : AsyncBroadcast α) (k' : Nat), .done k ∈ (b.body k').1 →
      ((b.body k').2.iterators k).phase = .returned := by
    intro b k' hdone
    rcases b.body_cases k' with ⟨value, -, heq⟩ | ⟨-, -, heq⟩ | ⟨-, -, heq⟩
    · rw [heq] at hdone
      nomatch hdone
    · rw [heq] at hdone ⊢
      obtain rfl := Settled.done.inj (eq_of_mem_replicate hdone)
      dsimp only
      rw [AsyncBroadcast.put_self]
    · rw [heq] at hdone
      nomatch hdone
  cases e with
  | push value =>
    have hphase := h.resolve_right not_mem_nil
    show ((b.push value).iterators k).phase = .returned
    unfold AsyncBroadcast.push
    split
    · exact hphase
    · exact hwake _ _ hphase
  | close =>
    have hphase := h.resolve_right not_mem_nil
    show (b.close.iterators k).phase = .returned
    unfold AsyncBroadcast.close
    split
    · exact hphase
    · exact hwake _ _ hphase
  | next k' =>
    by_cases hk : k = k' ∧ (b.iterators k).phase = .returned
    · obtain ⟨rfl, hphase⟩ := hk
      show ((b.next k).2.iterators k).phase = .returned
      unfold AsyncBroadcast.next
      dsimp only
      rw [hphase]
      exact hphase
    · rcases h with hphase | hdone
      · have hother : k ≠ k' := fun heq => hk ⟨heq, hphase⟩
        show ((b.next k').2.iterators k).phase = .returned
        rw [(asked_frame b k').1.2.2 k hother]
        exact hphase
      · change .done k ∈ (b.next k').1 at hdone
        show ((b.next k').2.iterators k).phase = .returned
        unfold AsyncBroadcast.next at hdone ⊢
        dsimp only at hdone ⊢
        split at hdone
        · exact hbody _ _ hdone
        · rename_i hphase
          obtain rfl := Settled.done.inj (mem_singleton.mp hdone)
          exact hphase
        · nomatch hdone
  | resume k' =>
    rcases h with hphase | hdone
    · show ((b.resume k').2.iterators k).phase = .returned
      by_cases hk : k = k'
      · subst hk
        unfold AsyncBroadcast.resume
        dsimp only
        rw [hphase]
        exact hphase
      · rw [(asked_frame b k').2.2.2 k hk]
        exact hphase
    · change .done k ∈ (b.resume k').1 at hdone
      show ((b.resume k').2.iterators k).phase = .returned
      unfold AsyncBroadcast.resume at hdone ⊢
      dsimp only at hdone ⊢
      split at hdone
      · split at hdone
        · nomatch mem_singleton.mp hdone
        · rename_i hmore
          rw [if_neg hmore]
          rcases mem_cons.mp hdone with heq | hdone
          · nomatch heq
          · exact hbody _ _ hdone
      · exact hbody _ _ hdone
      · nomatch hdone

theorem returned_run : ∀ (es : List (Turn α)) (b : AsyncBroadcast α),
    (b.iterators k).phase = .returned ∨ .done k ∈ (broadcasts.answers b es).flatten →
      ((broadcasts.run b es).iterators k).phase = .returned
  | [], _, h => h.resolve_right not_mem_nil
  | e :: es, b, h => by
    rw [Machine.answers, flatten_cons, mem_append] at h
    rw [Machine.run_cons]
    refine returned_run es _ ?_
    rcases h with hphase | hhere | hrest
    · exact .inl (returned_step k e (.inl hphase))
    · exact .inl (returned_step k e (.inr hhere))
    · exact .inr hrest

/-- **Every consumer sees everything once.**  What an iterator has yielded is always a part of
    what was pushed, from its start on; it is told the end after `close` and all of it; it is
    parked only when it has seen all of it, and never after a push or a `close`; and it gets to the
    end after `close` if it keeps asking. -/
theorem everything_once (es : List (Turn α)) (k : Nat) :
    yieldedTo k (broadcasts.answers {} es).flatten <+: pushedIn es ∧
    (.done k ∈ (broadcasts.answers {} es).flatten →
      yieldedTo k (broadcasts.answers {} es).flatten = pushedIn es ∧ .close ∈ es) ∧
    (((broadcasts.run {} es).iterators k).phase = .parked →
      yieldedTo k (broadcasts.answers {} es).flatten = pushedIn es ∧ .close ∉ es) ∧
    (∀ before e after, es = before ++ e :: after → e.Produces →
      ((broadcasts.run {} (before ++ [e])).iterators k).phase ≠ .parked) ∧
    ∀ rounds : List (List (Turn α)), .close ∈ es → (∀ round ∈ rounds, Served k round) →
      2 * (pushedIn es).length + 2 ≤ rounds.length →
        ((broadcasts.run {} (es ++ rounds.flatten)).iterators k).phase = .returned ∧
          yieldedTo k (broadcasts.answers {} (es ++ rounds.flatten)).flatten = pushedIn es := by
  have hclosed_iff : ∀ es : List (Turn α), (broadcasts.run {} es).closed = true ↔ .close ∈ es := by
    intro es
    simpa using (chunks_run es {}).2
  have hreturned : ∀ es : List (Turn α), ((broadcasts.run {} es).iterators k).phase = .returned →
      yieldedTo k (broadcasts.answers {} es).flatten = pushedIn es ∧ .close ∈ es := by
    intro es hphase
    obtain ⟨hend, hclosed⟩ := (coherent_run es k).ended hphase
    refine ⟨yieldedTo_eq_pushed ?_, (hclosed_iff es).mp hclosed⟩
    unfold Iterator.delivered
    rw [hphase]
    exact hend
  refine ⟨?_, ?_, ?_, ?_, ?_⟩
  · rw [yieldedTo_run]
    exact take_prefix _ _
  · intro hdone
    exact hreturned es (returned_run es {} (.inr hdone))
  · intro hparked
    obtain ⟨hend, hopen⟩ := (coherent_run es k).atEnd hparked
    refine ⟨yieldedTo_eq_pushed ?_, fun hclose => ?_⟩
    · unfold Iterator.delivered
      rw [hparked]
      exact hend
    · rw [(hclosed_iff es).mpr hclose] at hopen
      nomatch hopen
  · intro before e after _ he
    rw [Machine.run_append]
    exact not_parked_of_produces (coherent_run before) he k
  · intro rounds hclose hserved hmany
    have hchunks : (broadcasts.run {} es).chunks = pushedIn es := (chunks_run es {}).1
    have hdraining : Draining (pushedIn es).length (broadcasts.run {} es) :=
      ⟨coherent_run es, (hclosed_iff es).mpr hclose, congrArg List.length hchunks⟩
    have hleft : left (pushedIn es).length ((broadcasts.run {} es).iterators k) ≤ rounds.length := by
      have hbound : left (pushedIn es).length ((broadcasts.run {} es).iterators k) ≤
          2 * (pushedIn es).length + 2 := by
        unfold left
        split <;> omega
      omega
    have hphase := hdraining.returned hserved hleft
    rw [← Machine.run_append] at hphase
    have hmore : pushedIn (es ++ rounds.flatten) = pushedIn es := by
      have hlater := (chunks_run (es ++ rounds.flatten) {}).1
      have hafter := (chunks_run rounds.flatten (broadcasts.run {} es)).1
      rw [hdraining.closed, if_pos rfl, append_nil, hchunks, ← Machine.run_append] at hafter
      exact hlater.symm.trans hafter
    exact ⟨hphase, (hreturned _ hphase).1.trans hmore⟩

end NexusCode.Terminal.Broadcast
