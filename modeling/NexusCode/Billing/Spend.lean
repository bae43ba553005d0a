/-
  Spend that several processes keep in one file.

  Each process loads the file once, when it constructs its `FileBudgetStore`, and rewrites the whole
  file from its own memory on every `add`.

    1. `InMemoryBudgetStore`, `FileBudgetStore` — the stores; that accruals are positive is part of
       the type.
    2. `spent_load`, `sum_snapshot`             — a snapshot that is loaded again shows the same.
    3. `Spend.protocol`                         — so the file is a cell rewritten from copies.
    4. **`spend_accrues_iff`**                  — when no spend is lost.

  Amounts are rational numbers; the rounding of their sums is left out.
-/
import NexusCode.Lib.Copies
import NexusCode.Lib.JsMap
import Mathlib.Algebra.Order.Field.Rat
import Mathlib.Algebra.BigOperators.Group.List.Basic
import Mathlib.Tactic.Linarith

namespace NexusCode.Billing

open Lib List

/-! ## The stores -/

/-- `SpendRecord`. -/
structure SpendRecord where
  budgetId : String
  bucket : String
  costUsd : ℚ

/-- `InMemoryBudgetStore`: accruals by budget and bucket, each of them positive. -/
structure InMemoryBudgetStore where
  byBudget : JsMap String (JsMap String ℚ)
  positive : ∀ budgetId buckets, byBudget.get? budgetId = some buckets →
    ∀ bucket cost, buckets.get? bucket = some cost → 0 < cost

namespace InMemoryBudgetStore

/-- `new InMemoryBudgetStore()`. -/
def empty : InMemoryBudgetStore := ⟨.empty, fun _ _ => nofun⟩

/-- `spent(budgetId, bucket)`. -/
def spent (s : InMemoryBudgetStore) (budgetId bucket : String) : ℚ :=
  ((s.byBudget.get? budgetId).bind (·.get? bucket)).getD 0

/-- The buckets of a budget, new ones if it has none. -/
def buckets (s : InMemoryBudgetStore) (budgetId : String) : JsMap String ℚ :=
  (s.byBudget.get? budgetId).getD .empty

theorem buckets_positive (s : InMemoryBudgetStore) {budgetId bucket : String} {cost : ℚ}
    (h : (s.buckets budgetId).get? bucket = some cost) : 0 < cost := by
  unfold buckets at h
  cases hget : s.byBudget.get? budgetId with
  | none =>
    rw [hget] at h
    nomatch h
  | some found =>
    rw [hget] at h
    exact s.positive budgetId found hget bucket cost h

theorem spent_eq (s : InMemoryBudgetStore) (budgetId bucket : String) :
    s.spent budgetId bucket = ((s.buckets budgetId).get? bucket).getD 0 := by
  unfold spent buckets
  cases s.byBudget.get? budgetId <;> rfl

theorem spent_nonneg (s : InMemoryBudgetStore) (budgetId bucket : String) :
    0 ≤ s.spent budgetId bucket := by
  rw [spent_eq]
  cases hget : (s.buckets budgetId).get? bucket with
  | none => exact le_refl 0
  | some cost => exact (s.buckets_positive hget).le

/-- `add(budgetId, bucket, costUsd)`. -/
def add (s : InMemoryBudgetStore) (r : SpendRecord) : InMemoryBudgetStore :=
  if hpos : 0 < r.costUsd then
    { byBudget := s.byBudget.set r.budgetId
        ((s.buckets r.budgetId).set r.bucket (s.spent r.budgetId r.bucket + r.costUsd))
      positive := by
        intro budgetId found hfound bucket cost hcost
        rw [JsMap.get?_set] at hfound
        split at hfound
        · obtain rfl := Option.some.inj hfound
          rw [JsMap.get?_set] at hcost
          split at hcost
          · obtain rfl := Option.some.inj hcost
            have := s.spent_nonneg r.budgetId r.bucket
            linarith
          · exact s.buckets_positive hcost
        · exact s.positive budgetId found hfound bucket cost hcost }
  else s

/-- The records of one budget. -/
def records (budgetId : String) (entries : List (String × ℚ)) : List SpendRecord :=
  entries.filterMap fun e => if e.2 ≠ 0 then some ⟨budgetId, e.1, e.2⟩ else none

/-- `snapshot()`. -/
def snapshot (s : InMemoryBudgetStore) : List SpendRecord :=
  s.byBudget.entries.flatMap fun e => records e.1 e.2.entries

/-- `load(records)`. -/
def load (s : InMemoryBudgetStore) (records : List SpendRecord) : InMemoryBudgetStore :=
  records.foldl add s

end InMemoryBudgetStore

/-- What the file holds: nothing, something that is not a list of records, or records. -/
inductive BudgetFile where
  | absent
  | corrupt
  | records (records : List SpendRecord)

/-- `FileBudgetStore`; its path is that of the file. -/
structure FileBudgetStore where
  mem : InMemoryBudgetStore

namespace FileBudgetStore

/-- `new FileBudgetStore(path)`. -/
def construct : BudgetFile → FileBudgetStore
  | .records records => ⟨InMemoryBudgetStore.empty.load records⟩
  | _ => ⟨.empty⟩

/-- `spent(budgetId, bucket)`. -/
def spent (s : FileBudgetStore) (budgetId bucket : String) : ℚ := s.mem.spent budgetId bucket

/-- `this.mem.add(budgetId, bucket, costUsd)`, the first half of `add`. -/
def accrue (r : SpendRecord) (s : FileBudgetStore) : FileBudgetStore := ⟨s.mem.add r⟩

/-- `flush()`, the second half of `add`. -/
def flush (s : FileBudgetStore) : BudgetFile := .records s.mem.snapshot

end FileBudgetStore

/-! ## What a store shows -/

/-- What a record adds to a bucket of a budget: nothing if it is another's, or not positive. -/
def SpendRecord.accrual (r : SpendRecord) (budgetId bucket : String) : ℚ :=
  if r.budgetId = budgetId ∧ r.bucket = bucket ∧ 0 < r.costUsd then r.costUsd else 0

namespace InMemoryBudgetStore

theorem spent_add (s : InMemoryBudgetStore) (r : SpendRecord) (budgetId bucket : String) :
    (s.add r).spent budgetId bucket = s.spent budgetId bucket + r.accrual budgetId bucket := by
  unfold SpendRecord.accrual
  by_cases hpos : 0 < r.costUsd
  · rw [add, dif_pos hpos, spent_eq, buckets]
    dsimp only
    rw [JsMap.get?_set]
    by_cases hbudget : r.budgetId = budgetId
    · subst hbudget
      rw [if_pos rfl, Option.getD_some, JsMap.get?_set]
      by_cases hbucket : r.bucket = bucket
      · subst hbucket
        rw [if_pos rfl, if_pos ⟨rfl, rfl, hpos⟩]
        rfl
      · rw [if_neg hbucket, if_neg fun h => hbucket h.2.1, add_zero, spent_eq]
    · rw [if_neg hbudget, if_neg fun h => hbudget h.1, add_zero, spent_eq, buckets]
  · rw [add, dif_neg hpos, if_neg fun h => hpos h.2.2, add_zero]

theorem spent_load (s : InMemoryBudgetStore) (records : List SpendRecord)
    (budgetId bucket : String) : (s.load records).spent budgetId bucket =
      s.spent budgetId bucket + (records.map (·.accrual budgetId bucket)).sum := by
  induction records generalizing s with
  | nil =>
    rw [map_nil, sum_nil, add_zero]
    rfl
  | cons r rest ih =>
    rw [show s.load (r :: rest) = (s.add r).load rest from rfl, ih, spent_add, map_cons,
      sum_cons, add_assoc]

end InMemoryBudgetStore

/-- A sum over the entries of a map that only counts one key. -/
theorem sum_entries {υ : Type} (m : JsMap String υ) (k : String) (f : υ → ℚ) :
    (m.entries.map fun e => if e.1 = k then f e.2 else 0).sum = ((m.get? k).map f).getD 0 := by
  have key : ∀ l : List (String × υ), (l.map Prod.fst).Nodup →
      (l.map fun e => if e.1 = k then f e.2 else 0).sum = ((JsMap.lookup k l).map f).getD 0 := by
    intro l
    induction l with
    | nil => exact fun _ => rfl
    | cons e rest ih =>
      obtain ⟨k', v⟩ := e
      intro hnodup
      obtain ⟨hnotMem, hrest⟩ := nodup_cons.mp hnodup
      rw [map_cons, sum_cons, ih hrest, JsMap.lookup]
      by_cases hk : k' = k
      · subst hk
        rw [if_pos rfl, if_pos rfl, JsMap.lookup_eq_none hnotMem]
        exact add_zero _
      · rw [if_neg hk, if_neg hk, zero_add]
  exact key m.entries m.nodup

namespace InMemoryBudgetStore

theorem sum_records (id budgetId bucket : String) {entries : List (String × ℚ)}
    (hpos : ∀ e ∈ entries, 0 < e.2) :
    ((records id entries).map (·.accrual budgetId bucket)).sum =
      (entries.map fun e => if e.1 = bucket then if id = budgetId then e.2 else 0 else 0).sum := by
  induction entries with
  | nil => rfl
  | cons e rest ih =>
    have he := hpos e mem_cons_self
    have hfirst : records id (e :: rest) = ⟨id, e.1, e.2⟩ :: records id rest :=
      filterMap_cons_some (if_pos he.ne')
    rw [hfirst, map_cons, sum_cons, map_cons, sum_cons,
      ← ih fun e' he' => hpos e' (mem_cons_of_mem e he')]
    congr 1
    unfold SpendRecord.accrual
    by_cases hbucket : e.1 = bucket <;> by_cases hbudget : id = budgetId <;>
      simp [hbucket, hbudget, he]

/-- **A snapshot** adds up to what the store shows. -/
theorem sum_snapshot (s : InMemoryBudgetStore) (budgetId bucket : String) :
    (s.snapshot.map (·.accrual budgetId bucket)).sum = s.spent budgetId bucket := by
  have hinner : ∀ e ∈ s.byBudget.entries,
      ((records e.1 e.2.entries).map (·.accrual budgetId bucket)).sum =
        if e.1 = budgetId then (e.2.get? bucket).getD 0 else 0 := by
    rintro ⟨id, found⟩ he
    have hfound := (s.byBudget.mem_entries id found).mp he
    have hpos : ∀ entry ∈ found.entries, 0 < entry.2 := fun entry hentry =>
      s.positive id found hfound entry.1 entry.2 ((found.mem_entries entry.1 entry.2).mp hentry)
    rw [sum_records id budgetId bucket hpos,
      sum_entries found bucket fun cost => if id = budgetId then cost else 0]
    by_cases hid : id = budgetId
    · subst hid
      simp only [if_true, Option.map_id']
    · simp only [if_neg hid]
      cases found.get? bucket <;> rfl
  have houter : (s.snapshot.map (·.accrual budgetId bucket)).sum =
      (s.byBudget.entries.map fun e =>
        ((records e.1 e.2.entries).map (·.accrual budgetId bucket)).sum).sum := by
    unfold snapshot
    induction s.byBudget.entries with
    | nil => rfl
    | cons e rest ih =>
      rw [flatMap_cons, map_append, sum_append, ih, map_cons, sum_cons]
  rw [houter, map_congr_left hinner,
    sum_entries s.byBudget budgetId fun found => (found.get? bucket).getD 0, spent]
  cases s.byBudget.get? budgetId <;> rfl

end InMemoryBudgetStore

/-- What a process would find that constructs its store on the file. -/
def BudgetFile.spent (file : BudgetFile) (budgetId bucket : String) : ℚ :=
  (FileBudgetStore.construct file).spent budgetId bucket

/-- **Written and loaded again**, a store shows the same. -/
theorem FileBudgetStore.spent_flush (s : FileBudgetStore) : s.flush.spent = s.spent := by
  funext budgetId bucket
  have hload := InMemoryBudgetStore.empty.spent_load s.mem.snapshot budgetId bucket
  rw [InMemoryBudgetStore.sum_snapshot] at hload
  exact hload.trans (zero_add _)

/-! ## Processes on one file -/

namespace Spend

/-- The file as a cell that processes rewrite from their own stores. -/
def protocol : Copies.Protocol BudgetFile FileBudgetStore SpendRecord (String → String → ℚ) where
  load := FileBudgetStore.construct
  save := FileBudgetStore.flush
  change := FileBudgetStore.accrue
  view := FileBudgetStore.spent
  effect r shown := fun budgetId bucket => shown budgetId bucket + r.accrual budgetId bucket
  view_change r s := by
    funext budgetId bucket
    exact s.mem.spent_add r budgetId bucket
  view_load_save := FileBudgetStore.spent_flush

/-- The file and the stores of the processes; a process is known by a number. -/
abbrev System := Copies.Cell Nat BudgetFile FileBudgetStore

/-- `.read p`: process `p` constructs its store; `.write p r`: it calls `add`. -/
abbrev Event := Copies.Op Nat SpendRecord

/-- A step of a process; it answers the amount that was added, if `p` has a store. -/
abbrev machine : Machine System Event (Option SpendRecord) := Copies.machine protocol

/-- The file before any process has started. -/
def start (file : BudgetFile) : System := ⟨file, fun _ => none⟩

/-- The sum of the positive amounts that a run adds to a bucket of a budget. -/
def added (s : System) (events : List Event) (budgetId bucket : String) : ℚ :=
  (((machine.answers s events).filterMap id).map (·.accrual budgetId bucket)).sum

/-- **Nothing is lost**: at every moment of the run the file shows what it showed at the start and
    all that has been added. -/
def Accrues (s : System) (events : List Event) : Prop :=
  ∀ pre, pre <+: events → ∀ budgetId bucket,
    (machine.run s pre).value.spent budgetId bucket =
      s.value.spent budgetId bucket + added s pre budgetId bucket

/-- A process that adds has seen all spend of the others: its store shows what the file shows. -/
def UpToDate (s : System) : Event → Prop
  | .read _ => True
  | .write p _ => ∀ store, s.copies p = some store → store.spent = s.value.spent

theorem effects_eq (shown : String → String → ℚ) (changes : List (Option SpendRecord))
    (budgetId bucket : String) : Copies.effects protocol shown changes budgetId bucket =
      shown budgetId bucket + ((changes.filterMap id).map (·.accrual budgetId bucket)).sum := by
  induction changes generalizing shown with
  | nil => exact (add_zero _).symm
  | cons change rest ih =>
    cases change with
    | none => exact ih shown
    | some r =>
      rw [filterMap_cons_some (f := id) rfl, map_cons, sum_cons, ← add_assoc]
      exact ih _

theorem upToDate_iff (s : System) (event : Event) :
    UpToDate s event ↔ Copies.Fresh protocol s event := by
  cases event with
  | read p => exact Iff.rfl
  | write p r =>
    refine forall₂_congr fun store _ => ?_
    constructor
    · intro h
      exact congrArg (protocol.effect r) h
    · intro h
      funext budgetId bucket
      exact add_right_cancel (congrFun (congrFun h budgetId) bucket)

/-- **Spend accrues across processes exactly in the runs in which no process adds to an outdated
    store.** -/
theorem spend_accrues_iff (file : BudgetFile) (events : List Event) :
    Accrues (start file) events ↔ machine.Always UpToDate (start file) events := by
  have hfresh : machine.Always UpToDate (start file) events ↔
      machine.Always (Copies.Fresh protocol) (start file) events :=
    Machine.always_congr (I := fun _ => True) (fun _ _ _ _ => trivial)
      (fun s event _ _ => upToDate_iff s event) trivial
  rw [hfresh, ← Copies.shows_all_iff protocol (start file) events]
  refine forall₂_congr fun pre _ => ?_
  constructor
  · intro h
    funext budgetId bucket
    rw [effects_eq]
    exact h budgetId bucket
  · intro h budgetId bucket
    have hshown := congrFun (congrFun h budgetId) bucket
    rw [effects_eq] at hshown
    exact hshown

/-- Two processes that start before either has added anything: the first amount is lost. -/
theorem spend_lost : ¬ ∀ (file : BudgetFile) (events : List Event) (budgetId bucket : String),
    (machine.run (start file) events).value.spent budgetId bucket =
      file.spent budgetId bucket + added (start file) events budgetId bucket := by
  intro h
  have hlost := h .absent [.read 0, .read 1, .write 0 ⟨"team", "2026-01", 3⟩,
    .write 1 ⟨"team", "2026-01", 5⟩] "team" "2026-01"
  revert hlost
  decide +kernel

end Spend

end NexusCode.Billing
