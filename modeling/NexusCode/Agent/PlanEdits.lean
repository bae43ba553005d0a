/-
  The plan of an agent run, and how its edits reach the task store.

  A run names its root task and the tasks of its criteria after its own id; the task that recovers
  from a failed step is named after the role and the step.  The three forms of names never meet
  (`recoveryTaskId_ne_root`, `recoveryTaskId_ne_criterion`, `rootTaskId_ne_criterion`).

    1. `rootTaskId`, `criterionTaskId`, `recoveryTaskId` — the names.
    2. `defaultPlan`, `applyDirectives`                  — the plan, and its edits of the store.
    3. `Grown`                                           — what a list of edits may do to the store:
       write the tasks it names, keep every parent, and hang what is new below one root.
    4. **`applyDirectives_grown`**                       — the edits of a run do no more, and no
       check of the store stops them.
-/
import NexusCode.Agent.Policies
import NexusCode.Tasks.Operations
import NexusCode.Tasks.Subtree

namespace NexusCode.Agent

open Lib Tasks List Option

/-! ## The names of the tasks -/

/-- `${agentRunId}-root`. -/
def rootTaskId (agentRunId : String) : String := agentRunId ++ "-root"

/-- `${agentRunId}-c${i}`. -/
def criterionTaskId (agentRunId : String) (i : Nat) : String := agentRunId ++ "-c" ++ toString i

/-- `${role}-recover-${step}`. -/
def recoveryTaskId (role : String) (step : Nat) : String := role ++ "-recover-" ++ toString step

/-- A text that ends with a number splits before it in one way. -/
theorem append_toString_inj {a b : List Char} {c d : Char} {m n : Nat} (hc : c.isDigit = false)
    (hd : d.isDigit = false)
    (h : a ++ c :: Nat.toDigits 10 m = b ++ d :: Nat.toDigits 10 n) : a = b ∧ c = d ∧ m = n := by
  have hsplit : ∀ (l : List Char) (e : Char) (k : Nat), e.isDigit = false →
      ((l ++ e :: Nat.toDigits 10 k).reverse.span Char.isDigit) =
        ((Nat.toDigits 10 k).reverse, e :: l.reverse) := by
    intro l e k he
    have hdigits : ∀ x ∈ (Nat.toDigits 10 k).reverse, x.isDigit = true := fun x hx =>
      Nat.isDigit_of_mem_toDigits (by decide) (by decide) (mem_reverse.mp hx)
    rw [reverse_append, reverse_cons, append_assoc, singleton_append,
      span_eq_takeWhile_dropWhile, takeWhile_append_of_pos hdigits,
      dropWhile_append_of_pos hdigits, takeWhile_cons_of_neg (by rw [he]; decide),
      dropWhile_cons_of_neg (by rw [he]; decide), append_nil]
  have hspan := congrArg (fun l => l.reverse.span Char.isDigit) h
  rw [hsplit a c m hc, hsplit b d n hd] at hspan
  obtain ⟨hdigits, hrest⟩ := Prod.mk.inj hspan
  obtain ⟨hcd, hab⟩ := cons.inj hrest
  refine ⟨reverse_injective hab, hcd, ?_⟩
  have hmn := congrArg (fun l => Nat.ofDigitChars 10 l 0) (reverse_injective hdigits)
  rwa [Nat.ofDigitChars_ten_toDigits, Nat.ofDigitChars_ten_toDigits] at hmn

theorem toList_criterionTaskId (agentRunId : String) (i : Nat) :
    (criterionTaskId agentRunId i).toList =
      (agentRunId.toList ++ ['-']) ++ 'c' :: Nat.toDigits 10 i := by
  unfold criterionTaskId
  rw [String.toList_append, String.toList_append, Nat.toString_eq_repr, Nat.toList_repr,
    append_assoc, append_assoc]
  rfl

theorem toList_recoveryTaskId (role : String) (step : Nat) :
    (recoveryTaskId role step).toList =
      (role.toList ++ "-recover".toList) ++ '-' :: Nat.toDigits 10 step := by
  unfold recoveryTaskId
  rw [String.toList_append, String.toList_append, Nat.toString_eq_repr, Nat.toList_repr,
    append_assoc, append_assoc]
  rfl

/-- A text that ends with a number does not end with `-root`. -/
theorem root_ne_digits {a b : List Char} {c : Char} {n : Nat} :
    a ++ "-root".toList ≠ b ++ c :: Nat.toDigits 10 n := by
  intro h
  have hne : Nat.toDigits 10 n ≠ [] := Nat.toDigits_ne_nil
  have hlast := congrArg List.getLast? h
  rw [List.getLast?_append_of_ne_nil _ (by decide),
    List.getLast?_append_of_ne_nil _ (cons_ne_nil _ _), List.getLast?_cons_of_ne_nil hne,
    List.getLast?_eq_some_getLast hne] at hlast
  have hdigit := Nat.isDigit_of_mem_toDigits (b := 10) (n := n) (by decide) (by decide)
    (getLast_mem hne)
  rw [← some.inj hlast] at hdigit
  nomatch hdigit

theorem rootTaskId_inj {a b : String} : rootTaskId a = rootTaskId b ↔ a = b := by
  refine ⟨fun h => ?_, congrArg rootTaskId⟩
  have := congrArg String.toList h
  unfold rootTaskId at this
  rw [String.toList_append, String.toList_append, append_left_inj] at this
  exact String.toList_inj.mp this

theorem criterionTaskId_inj {a b : String} {i j : Nat} :
    criterionTaskId a i = criterionTaskId b j ↔ a = b ∧ i = j := by
  refine ⟨fun h => ?_, fun ⟨ha, hi⟩ => by rw [ha, hi]⟩
  have := congrArg String.toList h
  rw [toList_criterionTaskId, toList_criterionTaskId] at this
  obtain ⟨hab, -, hij⟩ := append_toString_inj (by decide) (by decide) this
  exact ⟨String.toList_inj.mp ((append_left_inj _).mp hab), hij⟩

theorem rootTaskId_ne_criterion (a b : String) (i : Nat) : rootTaskId a ≠ criterionTaskId b i := by
  intro h
  have := congrArg String.toList h
  unfold rootTaskId at this
  rw [String.toList_append, toList_criterionTaskId] at this
  exact root_ne_digits this

theorem recoveryTaskId_ne_root (role b : String) (step : Nat) :
    recoveryTaskId role step ≠ rootTaskId b := by
  intro h
  have := congrArg String.toList h
  unfold rootTaskId at this
  rw [String.toList_append, toList_recoveryTaskId] at this
  exact root_ne_digits this.symm

theorem recoveryTaskId_ne_criterion (role b : String) (step i : Nat) :
    recoveryTaskId role step ≠ criterionTaskId b i := by
  intro h
  have := congrArg String.toList h
  rw [toList_recoveryTaskId, toList_criterionTaskId] at this
  obtain ⟨-, hsep, -⟩ := append_toString_inj (by decide) (by decide) this
  exact absurd hsep (by decide)

/-! ## The plan and its edits -/

/-- `defaultPlan`. -/
def defaultPlan (goal : AgentGoal) (step : Nat) (idPrefix : String) : List PlanDirective :=
  if step ≠ 0 then []
  else
    .add goal.objective (some (rootTaskId idPrefix)) none (some "objective") (some .in_progress) ::
      goal.criteria.zipIdx.map fun c =>
        .add c.1 (some (criterionTaskId idPrefix c.2)) (some (rootTaskId idPrefix))
          (some "criterion") none

/-- The text of a status. -/
def statusText : TaskStatus → String
  | .todo => "todo"
  | .in_progress => "in_progress"
  | .blocked => "blocked"
  | .done => "done"
  | .cancelled => "cancelled"

theorem assertStatus_statusText (s : TaskStatus) : assertStatus (statusText s) = .ok s := by
  cases s <;> rfl

theorem checkedStatus_statusText (s : Option TaskStatus) (default : TaskStatus) :
    checkedStatus (s.map statusText) default = .ok (s.getD default) := by
  cases s with
  | none => rfl
  | some s => exact assertStatus_statusText s

/-- The body of the loop of `applyDirectives`. -/
def applyDirective (host : Host) (store : TaskStore) : PlanDirective → Answer × TaskStore
  | .add title id parentId notes status =>
    -- idempotent seeding
    if (id.bind store.tasks.get?).isSome then (.nothing, store)
    else create store host
      { title, id, notes
        status := status.map statusText
        -- a parent that is not there is dropped
        parentId := parentId.filter fun p => (store.tasks.get? p).isSome }
  | .update id status notes =>
    if (store.tasks.get? id).isNone then (.nothing, store)
    else update store host id { status := status.map statusText, notes := notes.map some }

/-- `applyDirectives(store, directives)`: what it throws, if anything, and the store after it. -/
def applyDirectives (hosts : Nat → Host) :
    Nat → List PlanDirective → TaskStore → Option Failure × TaskStore
  | _, [], store => (none, store)
  | k, d :: ds, store =>
    match applyDirective (hosts k) store d with
    | (.failed f, store') => (some f, store')
    | (_, store') => applyDirectives hosts (k + 1) ds store'

/-! ## What edits do to the store -/

/-- The id a directive names. -/
def target : PlanDirective → Option String
  | .add _ id _ _ _ => id
  | .update id _ _ => some id

/-- The id of the task a directive adds. -/
def added : PlanDirective → Option String
  | .add _ id _ _ _ => id
  | .update _ _ _ => none

/-- The directive adds the root without a parent, or a task below it, or adds nothing. -/
def Below (root : String) : PlanDirective → Prop
  | .add _ id parentId _ _ => (id = some root ∧ parentId = none) ∨
      ∃ child, id = some child ∧ parentId = some root
  | .update _ _ _ => True

/-- From one map to another only tasks of `touched` are written, parents stay, and a task that is
    new is the root without a parent or hangs below it. -/
structure Grown (root : String) (touched : List String) (before after : TaskMap) : Prop where
  same : ∀ id, id ∉ touched → after.get? id = before.get? id
  kept : ∀ id ∈ before.keys, id ∈ after.keys ∧ parentOf after id = parentOf before id
  fresh : ∀ id ∈ after.keys, id ∉ before.keys →
    (id = root ∧ parentOf after id = none) ∨ parentOf after id = some root

namespace Grown

variable {root : String} {touched touched' : List String} {tasks before middle after : TaskMap}

theorem refl : Grown root touched tasks tasks where
  same _ _ := rfl
  kept _ h := ⟨h, rfl⟩
  fresh _ h hnot := absurd h hnot

theorem trans (h : Grown root touched before middle) (h' : Grown root touched' middle after) :
    Grown root (touched ++ touched') before after where
  same id hid := by
    rw [mem_append, not_or] at hid
    rw [h'.same id hid.2, h.same id hid.1]
  kept id hid := by
    obtain ⟨hmem, hparent⟩ := h.kept id hid
    obtain ⟨hmem', hparent'⟩ := h'.kept id hmem
    exact ⟨hmem', hparent'.trans hparent⟩
  fresh id hid hnot := by
    by_cases hmiddle : id ∈ middle.keys
    · rw [(h'.kept id hmiddle).2]
      exact h.fresh id hmiddle hnot
    · exact h'.fresh id hid hmiddle

theorem mono (h : Grown root touched before after) (hsub : touched ⊆ touched') :
    Grown root touched' before after :=
  { h with same := fun id hid => h.same id fun hmem => hid (hsub hmem) }

theorem add {id : String} {t : Task} (hfresh : before.get? id = none)
    (hparent : (id = root ∧ t.parentId = none) ∨ t.parentId = some root) :
    Grown root [id] before (before.set id t) where
  same x hx := before.get?_set_of_ne t fun h => hx (List.mem_singleton.mpr h.symm)
  kept x hx := by
    have hne : id ≠ x := fun h => (before.get?_eq_none id).mp hfresh (h ▸ hx)
    refine ⟨(mem_keys_set id t x).mpr (.inr hx), ?_⟩
    rw [parentOf_set, if_neg hne]
  fresh x hx hnot := by
    rcases (mem_keys_set id t x).mp hx with rfl | hold
    · rw [parentOf_set, if_pos rfl]
      exact hparent
    · exact absurd hold hnot

theorem rewrite {id : String} {cur t : Task} (hcur : before.get? id = some cur)
    (hparent : t.parentId = cur.parentId) : Grown root [id] before (before.set id t) where
  same x hx := before.get?_set_of_ne t fun h => hx (List.mem_singleton.mpr h.symm)
  kept x hx := by
    refine ⟨(mem_keys_set id t x).mpr (.inr hx), ?_⟩
    rw [parentOf_set]
    split
    · rename_i h
      rw [← h, parentOf_of_get? hcur, hparent]
    · rfl
  fresh x hx hnot := by
    rcases (mem_keys_set id t x).mp hx with rfl | hold
    · exact absurd (mem_keys_of_get? hcur) hnot
    · exact absurd hold hnot

theorem mem_touched (h : Grown root touched before after) {id : String} (hid : id ∈ after.keys)
    (hnot : id ∉ before.keys) : id ∈ touched := by
  by_contra htouched
  rw [← (before.get?_eq_none id), ← h.same id htouched, after.get?_eq_none] at hnot
  exact hnot hid

/-- **The children of a task that is not the root** stay the same. -/
theorem childOf_iff (h : Grown root touched before after) {x p : String} (hp : p ≠ root) :
    ChildOf after x p ↔ ChildOf before x p := by
  unfold ChildOf
  by_cases hx : x ∈ before.keys
  · rw [(h.kept x hx).2]
  · have hbefore : parentOf before x = none := by
      rw [parentOf, (before.get?_eq_none x).mpr hx]
      rfl
    rw [hbefore]
    refine iff_of_false (fun hchild => ?_) nofun
    have hmem : x ∈ after.keys := by
      unfold parentOf at hchild
      obtain ⟨t, ht, -⟩ := bind_eq_some_iff.mp hchild
      exact mem_keys_of_get? ht
    rcases h.fresh x hmem hx with ⟨-, hnone⟩ | hroot
    · nomatch hnone.symm.trans hchild
    · exact hp (some.inj (hchild.symm.trans hroot))

/-- The children of the root are those it had, and what is new but the root itself. -/
theorem childOf_root_iff (h : Grown root touched before after) {x : String} (hx : x ≠ root) :
    ChildOf after x root ↔ ChildOf before x root ∨ (x ∈ after.keys ∧ x ∉ before.keys) := by
  unfold ChildOf
  by_cases hmem : x ∈ before.keys
  · rw [(h.kept x hmem).2]
    exact ⟨.inl, fun h => h.resolve_right fun hnew => hnew.2 hmem⟩
  · have hbefore : parentOf before x = none := by
      rw [parentOf, (before.get?_eq_none x).mpr hmem]
      rfl
    rw [hbefore]
    constructor
    · intro hchild
      refine .inr ⟨?_, hmem⟩
      unfold parentOf at hchild
      obtain ⟨t, ht, -⟩ := bind_eq_some_iff.mp hchild
      exact mem_keys_of_get? ht
    · rintro (hnone | ⟨hafter, -⟩)
      · nomatch hnone
      · exact (h.fresh x hafter hmem).resolve_left fun hroot => hx hroot.1

end Grown

/-! ## The edits of a run -/

theorem settle_tasks (store : TaskStore) (host : Host) (answer : Answer) :
    (store.settle host answer).2.tasks = store.tasks := by
  unfold TaskStore.settle TaskStore.save
  split
  · rename_i h
    split at h
    · rw [Except.ok.inj h]
    · split at h
      · rw [← Except.ok.inj h]
      · nomatch h
  · rfl

variable {store : TaskStore}

theorem settle_ne_error {host : Host} {answer : Answer}
    (hanswer : ∀ f, answer ≠ .failed f) (message : String) :
    (store.settle host answer).1 ≠ .failed (.error message) := by
  unfold TaskStore.settle TaskStore.save
  split
  · exact hanswer _
  · rename_i h
    split at h
    · nomatch h
    · split at h
      · nomatch h
      · rw [← Except.error.inj h]
        exact nofun

variable {id : String}

/-- A new task whose parent is there, without dependencies: it passes every check. -/
theorem create_of_fresh (host : Host) (title : String)
    (status : Option TaskStatus) (notes : Option String) {parentId : Option String}
    (hfresh : store.tasks.get? id = none)
    (hparent : ∀ p, parentId = some p → p ∈ store.tasks.keys) :
    ∃ t, t.id = id ∧ t.parentId = parentId ∧
      create store host { title, id := some id, notes, status := status.map statusText, parentId } =
        { store with tasks := store.tasks.set id t }.settle host (.task t) := by
  have hnew : newTask store.tasks host
      { title, id := some id, notes, status := status.map statusText, parentId } =
      .ok { id, title, status := status.getD .todo, parentId, deps := [], notes
            createdAt := host.now 0, updatedAt := host.now 0 } := by
    unfold newTask
    simp only [bind, Except.bind, pure, Except.pure, throw, throwThe, MonadExceptOf.throw,
      getD_some, hfresh, isSome_none, Bool.false_eq_true, if_false,
      checkedStatus_statusText]
    cases hp : parentId with
    | none => rfl
    | some p =>
      obtain ⟨parent, hparent⟩ := (store.tasks.mem_keys p).mp (hparent p hp)
      dsimp only
      rw [requireExists_of_get? hparent]
  refine ⟨{ id, title, status := status.getD .todo, parentId, deps := [], notes
            createdAt := host.now 0, updatedAt := host.now 0 }, rfl, rfl, ?_⟩
  unfold create
  rw [hnew]
  dsimp only
  rw [getD_none, linkAll]
  dsimp only
  rw [JsMap.get?_set_self, getD_some]

/-- A patch of a task that is there, without a new parent: it passes every check. -/
theorem update_of_get? (host : Host) (status : Option TaskStatus)
    (notes : Option (Option String)) {cur : Task}
    (hcur : store.tasks.get? id = some cur) :
    ∃ t, t.parentId = cur.parentId ∧
      update store host id { status := status.map statusText, notes } =
        { store with tasks := store.tasks.set id t }.settle host (.task t) := by
  have hpatch : patched store.tasks host id { status := status.map statusText, notes } =
      .ok { cur with
        updatedAt := host.now 0, title := cur.title, status := status.getD cur.status
        parentId := cur.parentId, notes := notes.getD cur.notes } := by
    unfold patched
    simp only [bind, Except.bind, pure, Except.pure, requireExists_of_get? hcur,
      checkedStatus_statusText, newParent, getD_none]
  refine ⟨{ cur with
    updatedAt := host.now 0, title := cur.title, status := status.getD cur.status
    parentId := cur.parentId, notes := notes.getD cur.notes }, rfl, ?_⟩
  unfold update
  rw [hpatch]

theorem applyDirective_add_of_get? {host : Host} {title : String}
    {parentId notes : Option String} {status : Option TaskStatus} {cur : Task}
    (hcur : store.tasks.get? id = some cur) :
    applyDirective host store (.add title (some id) parentId notes status) = (.nothing, store) :=
  if_pos (by rw [bind_some, hcur]; rfl)

theorem Kept.applyDirective (h : Kept store) (host : Host)
    (d : PlanDirective) : Kept (applyDirective host store d).2 := by
  cases d with
  | add title id parentId notes status =>
    show Kept (ite _ _ _ : Answer × TaskStore).2
    split
    · exact h
    · exact h.create host _
  | update id status notes =>
    show Kept (ite _ _ _ : Answer × TaskStore).2
    split
    · exact h
    · exact kept_step h (.update id _, host)

/-- **One directive below a root that is there or that it adds**: it writes the task it names at
    most, and raises no error of the store's own. -/
theorem applyDirective_grown {root : String} (host : Host) {d : PlanDirective}
    (hbelow : Below root d)
    (hroot : root ∈ store.tasks.keys ∨ ∃ title notes status,
      d = .add title (some root) none notes status) :
    Grown root (target d).toList store.tasks (applyDirective host store d).2.tasks ∧
      (∀ message, (applyDirective host store d).1 ≠ .failed (.error message)) ∧
      ∀ id ∈ (added d).toList, id ∈ (applyDirective host store d).2.tasks.keys := by
  cases d with
  | update id status notes =>
    cases hcur : store.tasks.get? id with
    | none =>
      have happly : applyDirective host store (.update id status notes) = (.nothing, store) :=
        if_pos (by rw [hcur]; rfl)
      rw [happly]
      exact ⟨.refl, fun _ => nofun, fun _ => nofun⟩
    | some cur =>
      obtain ⟨t, hparent, hupdate⟩ := update_of_get? host status (notes.map some) hcur
      have happly : applyDirective host store (.update id status notes) =
          { store with tasks := store.tasks.set id t }.settle host (.task t) :=
        (if_neg (by rw [hcur]; exact Bool.false_ne_true)).trans hupdate
      rw [happly, settle_tasks]
      exact ⟨.rewrite hcur hparent, settle_ne_error fun _ => nofun, fun _ => nofun⟩
  | add title id parentId notes status =>
    obtain ⟨child, rfl, hplace⟩ : ∃ child, id = some child ∧
        ((child = root ∧ parentId = none) ∨ (parentId = some root ∧ root ∈ store.tasks.keys)) := by
      rcases hbelow with ⟨rfl, hnone⟩ | ⟨child, rfl, hparent⟩
      · exact ⟨root, rfl, .inl ⟨rfl, hnone⟩⟩
      · refine ⟨child, rfl, .inr ⟨hparent, hroot.resolve_right ?_⟩⟩
        rintro ⟨_, _, _, heq⟩
        obtain ⟨-, -, hnone, -⟩ := PlanDirective.add.inj heq
        nomatch hparent.symm.trans hnone
    cases hcur : store.tasks.get? child with
    | some cur =>
      rw [applyDirective_add_of_get? hcur]
      refine ⟨.refl, fun _ => nofun, fun x hx => ?_⟩
      obtain rfl : child = x := (some.inj (mem_toList.mp hx))
      exact mem_keys_of_get? hcur
    | none =>
      have hexists : ∀ p, (parentId.filter fun p => (store.tasks.get? p).isSome) = some p →
          p ∈ store.tasks.keys := by
        intro p hp
        obtain ⟨rfl, hsome⟩ := filter_eq_some_iff.mp hp
        obtain ⟨t, ht⟩ := isSome_iff_exists.mp hsome
        exact mem_keys_of_get? ht
      obtain ⟨t, hid, hparent, hcreate⟩ := create_of_fresh host title status notes hcur hexists
      have happly : applyDirective host store (.add title (some child) parentId notes status) =
          { store with tasks := store.tasks.set child t }.settle host (.task t) :=
        (if_neg (by rw [bind_some, hcur]; exact Bool.false_ne_true)).trans hcreate
      rw [happly, settle_tasks]
      refine ⟨.add hcur ?_, settle_ne_error fun _ => nofun, fun x hx => ?_⟩
      · rw [hparent]
        rcases hplace with ⟨rfl, rfl⟩ | ⟨rfl, hmem⟩
        · exact .inl ⟨rfl, rfl⟩
        · obtain ⟨r, hr⟩ := (store.tasks.mem_keys root).mp hmem
          exact .inr (filter_eq_some_iff.mpr ⟨rfl, by rw [hr]; rfl⟩)
      · obtain rfl : child = x := some.inj (mem_toList.mp hx)
        exact (mem_keys_set child t child).mpr (.inl rfl)

theorem Kept.applyDirectives (hosts : Nat → Host) : ∀ (k : Nat) (ds : List PlanDirective)
    {store : TaskStore}, Kept store → Kept (applyDirectives hosts k ds store).2
  | _, [], _, h => h
  | k, d :: ds, store, h => by
    have hstep := Kept.applyDirective h (hosts k) d
    unfold Agent.applyDirectives
    split
    · rename_i heq
      rw [heq] at hstep
      exact hstep
    · rename_i heq
      rw [heq] at hstep
      exact Kept.applyDirectives hosts (k + 1) ds hstep

/-- **The edits below a root**: they write the tasks they name at most; the store stops them only
    where saving fails, and otherwise every task to add is there. -/
theorem applyDirectives_grown (hosts : Nat → Host) {root : String} : ∀ (k : Nat)
    (ds : List PlanDirective) {store : TaskStore}, (∀ d ∈ ds, Below root d) →
    (root ∈ store.tasks.keys ∨ ∃ title notes status,
      ds.head? = some (.add title (some root) none notes status)) →
    Grown root (ds.filterMap target) store.tasks (applyDirectives hosts k ds store).2.tasks ∧
      (∀ message, (applyDirectives hosts k ds store).1 ≠ some (.error message)) ∧
      ((applyDirectives hosts k ds store).1 = none →
        ∀ id ∈ ds.filterMap added, id ∈ (applyDirectives hosts k ds store).2.tasks.keys)
  | _, [], store, _, _ => ⟨.refl, fun _ => nofun, fun _ _ => nofun⟩
  | k, d :: ds, store, hbelow, hroot => by
    have hd := hbelow d mem_cons_self
    have hhead : root ∈ store.tasks.keys ∨ ∃ title notes status,
        d = .add title (some root) none notes status :=
      hroot.imp_right fun ⟨title, notes, status, h⟩ => ⟨title, notes, status, some.inj h⟩
    obtain ⟨hgrown, herror, hadded⟩ := applyDirective_grown (hosts k) hd hhead
    have hcons : (d :: ds).filterMap target = (target d).toList ++ ds.filterMap target := by
      cases htarget : target d with
      | none => rw [filterMap_cons_none htarget]; rfl
      | some id => rw [filterMap_cons_some htarget]; rfl
    have hcons' : (d :: ds).filterMap added = (added d).toList ++ ds.filterMap added := by
      cases hadd : added d with
      | none => rw [filterMap_cons_none hadd]; rfl
      | some id => rw [filterMap_cons_some hadd]; rfl
    rw [hcons, hcons']
    unfold applyDirectives
    split
    · rename_i f store' heq
      rw [heq] at hgrown herror
      refine ⟨hgrown.mono (subset_append_left _ _), fun message h => ?_, nofun⟩
      exact herror message (congrArg Answer.failed (some.inj h))
    · rename_i answer store' hanswer heq
      rw [heq] at hgrown hadded
      -- the root is there now
      have hroot' : root ∈ store'.tasks.keys := by
        rcases hhead with hmem | ⟨title, notes, status, rfl⟩
        · exact (hgrown.kept root hmem).1
        · exact hadded root (mem_singleton.mpr rfl)
      obtain ⟨hrest, herror', hadded'⟩ := applyDirectives_grown hosts (k + 1) ds
        (fun d' h => hbelow d' (mem_cons_of_mem d h)) (.inl hroot')
      refine ⟨hgrown.trans hrest, herror', fun hnone id hid => ?_⟩
      rcases mem_append.mp hid with h | h
      · exact (hrest.kept id (hadded id h)).1
      · exact hadded' hnone id h

/-! ## The edits of the default policies -/

theorem defaultPlan_of_pos (goal : AgentGoal) {step : Nat} (hstep : step ≠ 0) (idPrefix : String) :
    defaultPlan goal step idPrefix = [] := if_pos hstep

/-- The names of the first plan: the root and the criteria, all of them added. -/
theorem defaultPlan_names (goal : AgentGoal) (idPrefix : String)
    (names : PlanDirective → Option String)
    (hnames : ∀ title id parentId notes status,
      names (.add title id parentId notes status) = id) :
    (defaultPlan goal 0 idPrefix).filterMap names = rootTaskId idPrefix ::
      (List.range goal.criteria.length).map (criterionTaskId idPrefix) := by
  have hcriteria : (List.range goal.criteria.length).map (criterionTaskId idPrefix) =
      goal.criteria.zipIdx.map fun c => criterionTaskId idPrefix c.2 := by
    rw [range_eq_range', ← zipIdx_map_snd, List.map_map]
    rfl
  unfold defaultPlan
  rw [if_neg (by simp), filterMap_cons_some (hnames _ _ _ _ _), filterMap_map, hcriteria,
    ← filterMap_eq_map]
  exact congrArg _ (filterMap_congr fun c _ => hnames _ _ _ _ _)

theorem defaultPlan_below (goal : AgentGoal) (idPrefix : String) :
    (∀ d ∈ defaultPlan goal 0 idPrefix, Below (rootTaskId idPrefix) d) ∧
      ∃ title notes status, (defaultPlan goal 0 idPrefix).head? =
        some (.add title (some (rootTaskId idPrefix)) none notes status) := by
  unfold defaultPlan
  rw [if_neg (by simp)]
  refine ⟨fun d hd => ?_, _, _, _, rfl⟩
  rcases mem_cons.mp hd with rfl | hd
  · exact .inl ⟨rfl, rfl⟩
  · obtain ⟨c, -, rfl⟩ := mem_map.mp hd
    exact .inr ⟨_, rfl, rfl⟩

/-- The task that recovers from the step. -/
def recovery (input : EvaluateInput) : PlanDirective :=
  .add ("Recover from failure on step " ++ toString input.step)
    (some (recoveryTaskId input.role input.step)) (some input.rootTaskId) (some input.detail) none

theorem mem_of_taskId {input : EvaluateInput} {i : Nat}
    (h : input.taskId i = some id) : id ∈ input.criterionTaskIds :=
  mem_of_getElem? (filter_eq_some_iff.mp h).1

/-- **What the default evaluation edits**: it updates tasks of criteria, and adds the recovery task
    exactly if it retries, which it does after a failure with retries left. -/
theorem defaultEvaluate_edits (toLowerCase : String → String) (input : EvaluateInput) :
    ∃ updates, (defaultEvaluate toLowerCase input).planEdits =
        updates ++ (if (defaultEvaluate toLowerCase input).retry then [recovery input] else []) ∧
      (∀ d ∈ updates, ∃ id status notes, d = .update id status notes ∧
        id ∈ input.criterionTaskIds) ∧
      ((defaultEvaluate toLowerCase input).retry = true →
        input.cancelled = false ∧ input.failure = true ∧ input.retriesUsed < input.maxRetries) := by
  have hdone : ∀ d ∈ input.doneEdits toLowerCase, ∃ id status notes,
      d = .update id status notes ∧ id ∈ input.criterionTaskIds := by
    intro d hd
    obtain ⟨c, -, hc⟩ := mem_filterMap.mp hd
    obtain ⟨id, hid, rfl⟩ := map_eq_some_iff.mp hc
    exact ⟨id, _, _, rfl, mem_of_taskId hid⟩
  unfold defaultEvaluate
  by_cases hcancelled : input.cancelled = true
  · rw [if_pos hcancelled]
    exact ⟨[], rfl, (fun _ => nofun), nofun⟩
  rw [if_neg hcancelled]
  dsimp only
  split
  · exact ⟨_, (append_nil _).symm, hdone, nofun⟩
  split
  · rename_i hfailure
    refine ⟨input.doneEdits toLowerCase ++
      ((unmetOf toLowerCase input.evidence input.goal.criteria).head?.bind input.taskId).toList.map
        fun id => .update id (some .blocked) (some ("failed: " ++ input.detail)), ?_, ?_, ?_⟩
    · rfl
    · intro d hd
      rcases mem_append.mp hd with hd | hd
      · exact hdone d hd
      · obtain ⟨id, hid, rfl⟩ := mem_map.mp hd
        obtain ⟨i, -, hi⟩ := bind_eq_some_iff.mp (mem_toList.mp hid)
        exact ⟨id, _, _, rfl, mem_of_taskId hi⟩
    · intro hretry
      exact ⟨Bool.eq_false_iff.mpr hcancelled, hfailure, of_decide_eq_true hretry⟩
  split
  · exact ⟨_, (append_nil _).symm, hdone, nofun⟩
  · exact ⟨_, (append_nil _).symm, hdone, nofun⟩

end NexusCode.Agent
