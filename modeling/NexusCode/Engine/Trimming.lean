/-
  What `boundTranscript` leaves of a conversation.

  1. `survivors` — the messages of the head that the scan keeps, said without the scan: the system
     messages, and those from which on everything fits the budget (**`keepNewest_eq`**).
  2. `TrimSound` — what a trim promises: a subsequence with every system message and the tail in
     it, that opens on a user turn and stays in the budget.
  3. **`trimming_sound_iff`** — it does exactly if no system message hides an orphan from the loop
     that removes orphans, and the system messages in front of what fits would fit, too.
  4. **`hidden_orphan`** — a system prompt, a long question and a short answer.
-/
import NexusCode.Engine.Threading
import Mathlib.Algebra.Order.Ring.Rat
import Mathlib.Data.Nat.Cast.Order.Ring

namespace NexusCode.Engine

open Lib Shared List

/-! ## Costs -/

/-- The cost of a list of messages. -/
def transcriptTokens (messages : List Held) : Nat :=
  (messages.map fun m => messageTokens m.message).sum

theorem transcriptTokens_cons (m : Held) (messages : List Held) :
    transcriptTokens (m :: messages) = messageTokens m.message + transcriptTokens messages := by
  unfold transcriptTokens
  rw [map_cons, sum_cons]

theorem transcriptTokens_append (a b : List Held) :
    transcriptTokens (a ++ b) = transcriptTokens a + transcriptTokens b := by
  unfold transcriptTokens
  rw [map_append, sum_append]

theorem messageTokens_pos (message : Message) : 0 < messageTokens message := by
  unfold messageTokens
  omega

/-- The tokens do not exceed the budget, as the source compares them. -/
def fits (maxTokens : JsNumber) (tokens : Nat) : Bool :=
  !JsNumber.lt maxTokens (.fin (tokens : Nat))

theorem fits_mono {maxTokens : JsNumber} {few many : Nat} (hle : few ≤ many)
    (h : fits maxTokens many = true) : fits maxTokens few = true := by
  unfold fits JsNumber.lt at *
  cases maxTokens with
  | fin q =>
    simp only [Bool.not_eq_true', decide_eq_false_iff_not, not_lt] at h ⊢
    exact (Nat.cast_le.mpr hle).trans h
  | inf negative => exact h
  | nan => rfl

theorem not_fits_of_le {maxTokens : JsNumber} (hle : JsNumber.le maxTokens 0 = true) {tokens : Nat}
    (hpos : 0 < tokens) : fits maxTokens tokens = false := by
  cases maxTokens with
  | fin q =>
    have hq : q ≤ 0 := by
      have h : (!decide ((0 : Rat) < q)) = true := hle
      simpa using h
    have hlt : q < (tokens : Rat) := lt_of_le_of_lt hq (Nat.cast_pos.mpr hpos)
    show (!decide (q < (tokens : Rat))) = false
    rw [decide_eq_true hlt]
    rfl
  | inf negative =>
    cases negative with
    | true => rfl
    | false => exact absurd hle (by decide)
  | nan => exact absurd hle (by decide)

/-! ## The survivors -/

/-- A `system` message. -/
def isSystem (m : Held) : Bool := m.message.role = .system

/-- A `user` message. -/
def isUser (m : Held) : Bool := m.message.role = .user

/-- The messages of the head that outlive the scan, when `rest` stands behind it. -/
def survivors (maxTokens : JsNumber) (rest : List Held) : List Held → List Held
  | [] => []
  | m :: newer =>
    if isSystem m || fits maxTokens (transcriptTokens (m :: newer ++ rest)) then
      m :: survivors maxTokens rest newer
    else survivors maxTokens rest newer

variable {maxTokens : JsNumber}

theorem survivors_append (a b rest : List Held) :
    survivors maxTokens rest (a ++ b)
      = survivors maxTokens (b ++ rest) a ++ survivors maxTokens rest b := by
  induction a with
  | nil => rfl
  | cons m a ih =>
    rw [cons_append, survivors, survivors, ih, ← cons_append, append_assoc]
    split <;> rfl

theorem survivors_sublist (rest head : List Held) :
    (survivors maxTokens rest head).Sublist head := by
  induction head with
  | nil => exact List.Sublist.refl _
  | cons m head ih =>
    unfold survivors
    split
    · exact ih.cons_cons m
    · exact ih.cons m

/-- Nothing but the system messages survives in front of what does not fit. -/
theorem survivors_of_not_fits {rest : List Held}
    (h : ∀ m : Held, fits maxTokens (transcriptTokens (m :: rest)) = false) (head : List Held) :
    survivors maxTokens rest head = head.filter isSystem := by
  induction head with
  | nil => rfl
  | cons m head ih =>
    have hfits : fits maxTokens (transcriptTokens (m :: head ++ rest)) = false := by
      by_contra hfits
      rw [Bool.not_eq_false] at hfits
      refine absurd (fits_mono ?_ hfits) (by rw [h m]; exact Bool.false_ne_true)
      rw [cons_append, transcriptTokens_cons, transcriptTokens_cons, transcriptTokens_append]
      omega
    rw [survivors, hfits, Bool.or_false, ih, filter_cons]

/-- Once the budget is used up, the scan keeps system messages only. -/
theorem keepNewest_full : ∀ (older kept : List Held) (total : Nat),
    keepNewest maxTokens total true kept older = older.reverse.filter isSystem ++ kept := by
  intro older
  induction older with
  | nil => exact fun _ _ => rfl
  | cons m older ih =>
    intro kept total
    rw [reverse_cons, filter_append, append_assoc]
    unfold keepNewest
    dsimp only
    split
    · rename_i hsystem
      rw [ih, filter_singleton, show isSystem m = true from decide_eq_true hsystem]
      rfl
    · rename_i hsystem
      rw [Bool.true_or, if_pos rfl, ih, filter_singleton,
        show isSystem m = false from decide_eq_false hsystem]
      rfl

theorem keepNewest_open : ∀ (older kept rest : List Held),
    keepNewest maxTokens (transcriptTokens rest) false kept older
      = survivors maxTokens rest older.reverse ++ kept := by
  intro older
  induction older with
  | nil => exact fun _ _ => rfl
  | cons m older ih =>
    intro kept rest
    have hcost : transcriptTokens rest + messageTokens m.message = transcriptTokens (m :: rest) := by
      rw [transcriptTokens_cons, Nat.add_comm]
    rw [reverse_cons, survivors_append, append_assoc]
    unfold keepNewest
    dsimp only [survivors, cons_append, nil_append]
    rw [hcost]
    split
    · rename_i hsystem
      rw [ih, show isSystem m = true from decide_eq_true hsystem]
      rfl
    · rename_i hsystem
      have hlt : (false || JsNumber.lt maxTokens (.fin (transcriptTokens (m :: rest) : Nat)))
          = !fits maxTokens (transcriptTokens (m :: rest)) := by
        unfold fits
        rw [Bool.false_or, Bool.not_not]
      simp only [show isSystem m = false from decide_eq_false hsystem, hlt, Bool.false_or]
      cases hfits : fits maxTokens (transcriptTokens (m :: rest)) with
      | true =>
        rw [Bool.not_true, if_neg Bool.false_ne_true, if_pos rfl, ih]
        rfl
      | false =>
        rw [Bool.not_false, if_pos rfl, if_neg Bool.false_ne_true, keepNewest_full]
        refine congrArg (· ++ kept) (survivors_of_not_fits (fun x => ?_) _).symm
        by_contra hmore
        rw [Bool.not_eq_false] at hmore
        rw [transcriptTokens_cons] at hmore
        exact absurd (fits_mono (Nat.le_add_left _ _) hmore) (by rw [hfits]; exact Bool.false_ne_true)

/-- **The scan keeps the survivors.** -/
theorem keepNewest_eq (head tail : List Held) :
    keepNewest maxTokens (transcriptTokens tail) (JsNumber.le maxTokens 0) [] head.reverse
      = survivors maxTokens tail head := by
  cases hle : JsNumber.le maxTokens 0 with
  | false => rw [keepNewest_open, reverse_reverse, append_nil]
  | true =>
    rw [keepNewest_full, reverse_reverse, append_nil]
    refine (survivors_of_not_fits (fun m => not_fits_of_le hle ?_) head).symm
    rw [transcriptTokens_cons]
    exact Nat.add_pos_left (messageTokens_pos m.message) _

/-- What `boundTranscript` keeps in front of the tail. -/
def trimmedHead (maxTokens : JsNumber) (head tail : List Held) : List Held :=
  (survivors maxTokens tail head).dropWhile orphaned

theorem boundTranscript_eq (messages : List Held) (maxTokens : JsNumber) (keepTail : Nat) :
    boundTranscript messages maxTokens keepTail =
      trimmedHead maxTokens (messages.take (messages.length - keepTail))
        (messages.drop (messages.length - keepTail))
        ++ messages.drop (messages.length - keepTail) := by
  unfold boundTranscript trimmedHead
  dsimp only
  rw [← keepNewest_eq]
  rfl

/-! ## What a trim promises -/

/-- **A sound trim** of `messages` that keeps the last `keepTail` of them. -/
structure TrimSound (messages : List Held) (maxTokens : JsNumber) (keepTail : Nat)
    (result : List Held) : Prop where
  subsequence : result.Sublist messages
  system : result.filter isSystem = messages.filter isSystem
  tail : messages.drop (messages.length - keepTail) <:+ result
  opens : ∀ m, (result.take (result.length - min keepTail messages.length)).find?
    (fun m => !isSystem m) = some m → m.message.role = .user
  within : fits maxTokens (transcriptTokens result) = true ∨ transcriptTokens result ≤
    transcriptTokens ((messages.take (messages.length - keepTail)).filter isSystem)
      + transcriptTokens (messages.drop (messages.length - keepTail))

/-- `x` stands behind `before` in the head, and everything from it on fits the budget. -/
def FitsBehind (maxTokens : JsNumber) (head tail before : List Held) (x : Held) : Prop :=
  ∃ after, head = before ++ x :: after ∧
    fits maxTokens (transcriptTokens (x :: after ++ tail)) = true

/-- Every assistant or tool message that fits has a user message in front of it that fits, if what
    stands in front of it is `watched`. -/
def OrphansCovered (maxTokens : JsNumber) (watched : List Held → Prop) (head tail : List Held) :
    Prop :=
  ∀ before x, FitsBehind maxTokens head tail before x → orphaned x = true → watched before →
    ∃ earlier u, FitsBehind maxTokens head tail earlier u ∧ isUser u = true ∧
      earlier.length < before.length

/-- Every other message that fits does so together with the system messages in front of it. -/
def SystemCounted (maxTokens : JsNumber) (head tail : List Held) : Prop :=
  ∀ before x after, head = before ++ x :: after → isSystem x = false →
    fits maxTokens (transcriptTokens (x :: after ++ tail)) = true →
    fits maxTokens (transcriptTokens (before.filter isSystem)
      + transcriptTokens (x :: after ++ tail)) = true

/-- **What a trim needs** of the messages in front of the tail. -/
structure Trimmable (maxTokens : JsNumber) (head tail : List Held) : Prop where
  opens : OrphansCovered maxTokens (fun before => before.any isSystem = true) head tail
  within : SystemCounted maxTokens head tail

/-! ## The first message -/

variable {m : Held} {head tail : List Held}

theorem fitsBehind_cons {x : Held} {before : List Held} :
    FitsBehind maxTokens (m :: head) tail before x ↔
      (before = [] ∧ x = m ∧ fits maxTokens (transcriptTokens (m :: head ++ tail)) = true) ∨
        ∃ before', before = m :: before' ∧ FitsBehind maxTokens head tail before' x := by
  constructor
  · rintro ⟨after, heq, hfits⟩
    cases before with
    | nil =>
      obtain ⟨rfl, rfl⟩ := cons.inj heq
      exact .inl ⟨rfl, rfl, hfits⟩
    | cons b before =>
      obtain ⟨rfl, rfl⟩ := cons.inj heq
      exact .inr ⟨before, rfl, after, rfl, hfits⟩
  · rintro (⟨rfl, rfl, hfits⟩ | ⟨before', rfl, after, rfl, hfits⟩)
    · exact ⟨head, rfl, hfits⟩
    · exact ⟨after, rfl, hfits⟩

theorem covered_cons_user {watched : List Held → Prop}
    (hfits : fits maxTokens (transcriptTokens (m :: head ++ tail)) = true)
    (huser : isUser m = true) : OrphansCovered maxTokens watched (m :: head) tail := by
  intro before x hx horphan _
  rcases fitsBehind_cons.mp hx with ⟨-, rfl, -⟩ | ⟨before', rfl, -⟩
  · unfold orphaned isUser at *
    simp [of_decide_eq_true huser] at horphan
  · exact ⟨[], m, ⟨head, rfl, hfits⟩, huser, Nat.succ_pos _⟩

/-- Any other message covers nothing; it needs no cover unless it is an orphan that fits. -/
theorem covered_cons_skip (watched : List Held → Prop)
    (huser : ¬ (fits maxTokens (transcriptTokens (m :: head ++ tail)) = true ∧ isUser m = true))
    (horphan : ¬ (fits maxTokens (transcriptTokens (m :: head ++ tail)) = true ∧
      orphaned m = true ∧ watched [])) :
    OrphansCovered maxTokens watched (m :: head) tail ↔
      OrphansCovered maxTokens (fun before => watched (m :: before)) head tail := by
  constructor
  · intro h before x hx hxorphan hwatched
    obtain ⟨earlier, u, hu, huu, hlt⟩ :=
      h (m :: before) x (fitsBehind_cons.mpr (Or.inr ⟨before, rfl, hx⟩)) hxorphan hwatched
    rcases fitsBehind_cons.mp hu with ⟨-, rfl, hfits⟩ | ⟨earlier', rfl, hu'⟩
    · exact absurd ⟨hfits, huu⟩ huser
    · exact ⟨earlier', u, hu', huu, Nat.lt_of_succ_lt_succ hlt⟩
  · intro h before x hx hxorphan hwatched
    rcases fitsBehind_cons.mp hx with ⟨rfl, rfl, hfits⟩ | ⟨before', rfl, hx'⟩
    · exact absurd ⟨hfits, hxorphan, hwatched⟩ horphan
    · obtain ⟨earlier, u, hu, huu, hlt⟩ := h before' x hx' hxorphan hwatched
      exact ⟨m :: earlier, u, fitsBehind_cons.mpr (Or.inr ⟨earlier, rfl, hu⟩), huu,
        Nat.succ_lt_succ hlt⟩

/-- What is no system message is a user message or an orphan. -/
theorem role_cases (m : Held) : isSystem m = true ∧ isUser m = false ∧ orphaned m = false ∨
    isSystem m = false ∧ isUser m = true ∧ orphaned m = false ∨
    isSystem m = false ∧ isUser m = false ∧ orphaned m = true := by
  unfold isSystem isUser orphaned
  cases m.message.role <;> decide

/-- The first message that is no system message is a user message. -/
def OpensOnUser (messages : List Held) : Prop :=
  ∀ m, messages.find? (fun m => !isSystem m) = some m → m.message.role = .user

theorem opensOnUser_cons_system {messages : List Held} (h : isSystem m = true) :
    OpensOnUser (m :: messages) ↔ OpensOnUser messages := by
  unfold OpensOnUser
  rw [List.find?_cons_of_neg (by rw [h]; decide)]

theorem opensOnUser_cons {messages : List Held} (h : isSystem m = false) :
    OpensOnUser (m :: messages) ↔ isUser m = true := by
  unfold OpensOnUser
  rw [List.find?_cons_of_pos (by rw [h]; decide)]
  constructor
  · exact fun hall => decide_eq_true (hall m rfl)
  · rintro huser _ ⟨⟩
    exact of_decide_eq_true huser

/-- Behind a system message the loop removes nothing: the survivors open on a user message just
    when every orphan among them is covered. -/
theorem survivors_opens_iff (head tail : List Held) :
    OpensOnUser (survivors maxTokens tail head) ↔
      OrphansCovered maxTokens (fun _ => True) head tail := by
  induction head with
  | nil =>
    refine ⟨fun _ before x ⟨after, heq, _⟩ => ?_, fun _ m h => nomatch h⟩
    exact absurd heq.symm (append_ne_nil_of_right_ne_nil _ (cons_ne_nil _ _))
  | cons m head ih =>
    unfold survivors
    rcases role_cases m with ⟨hs, hu, ho⟩ | ⟨hs, hu, ho⟩ | ⟨hs, hu, ho⟩
    · rw [hs, Bool.true_or, if_pos rfl, opensOnUser_cons_system hs, ih]
      exact (covered_cons_skip (fun _ => True) (fun h => absurd h.2 (by rw [hu]; decide))
        (fun h => absurd h.2.1 (by rw [ho]; decide))).symm
    · rw [hs, Bool.false_or]
      split
      · rename_i hfits
        rw [opensOnUser_cons hs]
        exact ⟨fun _ => covered_cons_user hfits hu, fun _ => hu⟩
      · rename_i hfits
        rw [ih]
        exact (covered_cons_skip (fun _ => True) (fun h => hfits h.1) (fun h => hfits h.1)).symm
    · rw [hs, Bool.false_or]
      split
      · rename_i hfits
        rw [opensOnUser_cons hs, hu]
        refine ⟨fun h => absurd h Bool.false_ne_true, fun h => ?_⟩
        -- nothing stands in front of the first message
        obtain ⟨_, _, _, _, hlt⟩ := h [] m ⟨head, rfl, hfits⟩ ho trivial
        exact absurd hlt (Nat.not_lt_zero _)
      · rename_i hfits
        rw [ih]
        exact (covered_cons_skip (fun _ => True) (fun h => hfits h.1) (fun h => hfits h.1)).symm

/-- **The trimmed head opens on a user message** iff every orphan that fits behind a
    system message is covered. -/
theorem trimmedHead_opens_iff (head tail : List Held) :
    OpensOnUser (trimmedHead maxTokens head tail) ↔
      OrphansCovered maxTokens (fun before => before.any isSystem = true) head tail := by
  unfold trimmedHead
  induction head with
  | nil =>
    refine ⟨fun _ before x ⟨after, heq, _⟩ => ?_, fun _ m h => nomatch h⟩
    exact absurd heq.symm (append_ne_nil_of_right_ne_nil _ (cons_ne_nil _ _))
  | cons m head ih =>
    unfold survivors
    rcases role_cases m with ⟨hs, hu, ho⟩ | ⟨hs, hu, ho⟩ | ⟨hs, hu, ho⟩
    · -- from here on the loop stops, and every orphan is watched
      rw [hs, Bool.true_or, if_pos rfl, dropWhile_cons_of_neg (by rw [ho]; decide),
        opensOnUser_cons_system hs, survivors_opens_iff,
        covered_cons_skip _ (fun h => absurd h.2 (by rw [hu]; decide))
          (fun h => absurd h.2.1 (by rw [ho]; decide))]
      simp only [any_cons, hs, Bool.true_or]
    · rw [hs, Bool.false_or]
      split
      · rename_i hfits
        rw [dropWhile_cons_of_neg (by rw [ho]; decide), opensOnUser_cons hs]
        exact ⟨fun _ => covered_cons_user hfits hu, fun _ => hu⟩
      · rename_i hfits
        rw [ih, covered_cons_skip _ (fun h => hfits h.1) (fun h => hfits h.1)]
        simp only [any_cons, hs, Bool.false_or]
    · rw [hs, Bool.false_or, covered_cons_skip _ (fun h => absurd h.2 (by rw [hu]; decide))
        (fun h => absurd h.2.2 (by decide))]
      simp only [any_cons, hs, Bool.false_or]
      rw [← ih]
      split
      · rw [dropWhile_cons_of_pos ho]
      · rfl

/-! ## The budget -/

theorem survivors_of_fits
    (h : fits maxTokens (transcriptTokens (head ++ tail)) = true) :
    survivors maxTokens tail head = head := by
  induction head with
  | nil => rfl
  | cons m head ih =>
    rw [survivors, h, Bool.or_true, if_pos rfl, ih (fits_mono ?_ h)]
    rw [cons_append, transcriptTokens_cons]
    exact Nat.le_add_left _ _

/-- The survivors: system messages, and everything from the first other message on that fits. -/
theorem survivors_split (head tail : List Held) :
    (survivors maxTokens tail head = head.filter isSystem ∧
      ∀ before x after, head = before ++ x :: after → isSystem x = false →
        fits maxTokens (transcriptTokens (x :: after ++ tail)) = false) ∨
    ∃ before x after, head = before ++ x :: after ∧ isSystem x = false ∧
      fits maxTokens (transcriptTokens (x :: after ++ tail)) = true ∧
      survivors maxTokens tail head = before.filter isSystem ++ x :: after ∧
      ∀ before' x' after', head = before' ++ x' :: after' → isSystem x' = false →
        fits maxTokens (transcriptTokens (x' :: after' ++ tail)) = true → before <+: before' := by
  induction head with
  | nil =>
    refine .inl ⟨rfl, fun before x after heq => ?_⟩
    exact absurd heq.symm (append_ne_nil_of_right_ne_nil _ (cons_ne_nil _ _))
  | cons m head ih =>
    by_cases hm : isSystem m = false ∧ fits maxTokens (transcriptTokens (m :: head ++ tail)) = true
    · refine .inr ⟨[], m, head, rfl, hm.1, hm.2, ?_, fun before' _ _ _ _ _ => nil_prefix⟩
      exact survivors_of_fits hm.2
    · have hsurvive : survivors maxTokens tail (m :: head)
          = [m].filter isSystem ++ survivors maxTokens tail head := by
        rw [survivors, filter_singleton]
        cases hs : isSystem m with
        | true => rfl
        | false =>
          rw [Bool.false_or, if_neg (fun hfits => hm ⟨hs, hfits⟩)]
          rfl
      rw [hsurvive]
      rcases ih with ⟨heq, hnone⟩ | ⟨before, x, after, rfl, hx, hfits, heq, hfirst⟩
      · refine .inl ⟨by rw [heq, ← filter_append]; rfl, fun before x after hhead hx => ?_⟩
        cases before with
        | nil =>
          obtain ⟨rfl, rfl⟩ := cons.inj hhead
          exact Bool.not_eq_true _ ▸ fun hfits => hm ⟨hx, hfits⟩
        | cons b before => exact hnone before x after (cons.inj hhead).2 hx
      · refine .inr ⟨m :: before, x, after, rfl, hx, hfits, ?_, ?_⟩
        · rw [heq, ← append_assoc, ← filter_append]
          rfl
        · intro before' x' after' hhead hx' h'
          cases before' with
          | nil =>
            obtain ⟨rfl, rfl⟩ := cons.inj hhead
            exact absurd ⟨hx', h'⟩ hm
          | cons b before' =>
            obtain ⟨rfl, hrest⟩ := cons.inj hhead
            exact cons_prefix_cons.mpr ⟨rfl, hfirst before' x' after' hrest hx' h'⟩

theorem dropWhile_filter_system (messages : List Held) :
    (messages.filter isSystem).dropWhile orphaned = messages.filter isSystem := by
  cases h : messages.filter isSystem with
  | nil => rfl
  | cons m rest =>
    have hm : isSystem m = true := (mem_filter.mp (h ▸ mem_cons_self)).2
    refine dropWhile_cons_of_neg ?_
    rcases role_cases m with ⟨-, -, ho⟩ | ⟨hs, -⟩ | ⟨hs, -⟩
    · rw [ho]
      decide
    · exact absurd hm (by rw [hs]; decide)
    · exact absurd hm (by rw [hs]; decide)

theorem transcriptTokens_sublist {a b : List Held} (h : a.Sublist b) :
    transcriptTokens a ≤ transcriptTokens b := by
  induction h with
  | slnil => exact Nat.le_refl _
  | cons m _ ih =>
    rw [transcriptTokens_cons]
    exact Nat.le_add_left_of_le ih
  | cons_cons m _ ih =>
    rw [transcriptTokens_cons, transcriptTokens_cons]
    exact Nat.add_le_add_left ih _

/-- **The trimmed conversation stays in the budget**, or is nothing but system messages and tail,
    iff what fits does so together with the system messages in front of it. -/
theorem trimmedHead_within_iff (head tail : List Held) :
    (fits maxTokens (transcriptTokens (trimmedHead maxTokens head tail ++ tail)) = true ∨
      transcriptTokens (trimmedHead maxTokens head tail ++ tail)
        ≤ transcriptTokens (head.filter isSystem) + transcriptTokens tail) ↔
      SystemCounted maxTokens head tail := by
  rw [transcriptTokens_append]
  unfold trimmedHead
  rcases survivors_split head tail with ⟨heq, hnone⟩ | ⟨before, x, after, rfl, hx, hfits, heq, hfirst⟩
  · rw [heq, dropWhile_filter_system]
    refine ⟨fun _ before x after hhead hx hfits => ?_, fun _ => .inr (Nat.le_refl _)⟩
    exact absurd hfits (by rw [hnone before x after hhead hx]; decide)
  · rw [heq]
    have hcounted : SystemCounted maxTokens (before ++ x :: after) tail ↔
        fits maxTokens (transcriptTokens (before.filter isSystem)
          + transcriptTokens (x :: after ++ tail)) = true := by
      refine ⟨fun h => h before x after rfl hx hfits, fun h before' x' after' hhead hx' h' => ?_⟩
      obtain ⟨mid, rfl⟩ := hfirst before' x' after' hhead hx' h'
      -- the system messages of `mid` are part of what stands behind `before`
      rw [append_assoc, append_cancel_left_eq] at hhead
      refine fits_mono ?_ h
      rw [hhead, filter_append, append_assoc, transcriptTokens_append,
        transcriptTokens_append mid]
      have hmid := transcriptTokens_sublist (filter_sublist (p := isSystem) (l := mid))
      omega
    rw [hcounted]
    cases hsys : before.filter isSystem with
    | nil =>
      have hle : transcriptTokens (List.dropWhile orphaned ([] ++ x :: after))
          ≤ transcriptTokens (x :: after) :=
        transcriptTokens_sublist (dropWhile_sublist _)
      have hsmall : fits maxTokens (transcriptTokens (List.dropWhile orphaned ([] ++ x :: after))
          + transcriptTokens tail) = true := by
        refine fits_mono ?_ hfits
        rw [transcriptTokens_append]
        exact Nat.add_le_add_right hle _
      refine ⟨fun _ => ?_, fun _ => .inl hsmall⟩
      show fits maxTokens (0 + _) = true
      rwa [Nat.zero_add]
    | cons m rest =>
      have hm : isSystem m = true := (mem_filter.mp (hsys ▸ mem_cons_self)).2
      have ho : orphaned m = false := by
        rcases role_cases m with ⟨-, -, ho⟩ | ⟨hs, -⟩ | ⟨hs, -⟩
        · exact ho
        · exact absurd hm (by rw [hs]; decide)
        · exact absurd hm (by rw [hs]; decide)
      rw [cons_append, dropWhile_cons_of_neg (by rw [ho]; decide), ← cons_append,
        ← hsys, transcriptTokens_append, Nat.add_assoc, ← transcriptTokens_append]
      refine ⟨fun h => h.resolve_right fun hle => ?_, .inl⟩
      -- `x` is no system message and costs something
      have hcost := transcriptTokens_sublist (filter_sublist (p := isSystem) (l := after))
      have hpos := messageTokens_pos x.message
      rw [filter_append, filter_cons_of_neg (by rw [hx]; decide), transcriptTokens_append,
        transcriptTokens_append (before.filter isSystem), transcriptTokens_cons] at hle
      omega

/-! ## The trim -/

theorem length_tail (messages : List Held) (keepTail : Nat) :
    (messages.drop (messages.length - keepTail)).length = min keepTail messages.length := by
  rw [length_drop]
  omega

theorem trimmedHead_sublist (maxTokens : JsNumber) (head tail : List Held) :
    (trimmedHead maxTokens head tail).Sublist head :=
  (dropWhile_sublist _).trans (survivors_sublist tail head)

theorem trimmedHead_system (head tail : List Held) :
    (trimmedHead maxTokens head tail).filter isSystem = head.filter isSystem := by
  have hdrop : ∀ l : List Held, (l.dropWhile orphaned).filter isSystem = l.filter isSystem := by
    intro l
    induction l with
    | nil => rfl
    | cons m l ih =>
      rw [dropWhile_cons]
      split
      · rename_i horphan
        rcases role_cases m with ⟨-, -, ho⟩ | ⟨hs, -⟩ | ⟨hs, -⟩
        · exact absurd horphan (by rw [ho]; decide)
        · rw [ih, filter_cons_of_neg (by rw [hs]; decide)]
        · rw [ih, filter_cons_of_neg (by rw [hs]; decide)]
      · rfl
  unfold trimmedHead
  rw [hdrop]
  induction head with
  | nil => rfl
  | cons m head ih =>
    unfold survivors
    split
    · rw [filter_cons, filter_cons, ih]
    · rename_i hdropped
      have hs : isSystem m = false := by
        rcases Bool.or_eq_false_iff.mp (Bool.not_eq_true _ ▸ hdropped) with ⟨hs, -⟩
        exact hs
      rw [ih, filter_cons_of_neg (by rw [hs]; decide)]

/-- **Transcript trimming is sound** iff what stands in front of the tail is trimmable:
    an assistant or tool message that fits behind a system message has a user message in front of
    it that fits, and what fits does so together with the system messages in front of it. -/
theorem trimming_sound_iff (messages : List Held) (maxTokens : JsNumber) (keepTail : Nat) :
    TrimSound messages maxTokens keepTail (boundTranscript messages maxTokens keepTail) ↔
      Trimmable maxTokens (messages.take (messages.length - keepTail))
        (messages.drop (messages.length - keepTail)) := by
  rw [boundTranscript_eq]
  have hsplit := take_append_drop (messages.length - keepTail) messages
  have hfront : ∀ head : List Held, (head ++ messages.drop (messages.length - keepTail)).take
      ((head ++ messages.drop (messages.length - keepTail)).length - min keepTail messages.length)
        = head := by
    intro head
    rw [length_append, length_tail, Nat.add_sub_cancel, take_left]
  constructor
  · intro h
    refine ⟨(trimmedHead_opens_iff _ _).mp fun m hm => h.opens m ?_,
      (trimmedHead_within_iff _ _).mp h.within⟩
    rwa [hfront]
  · intro h
    constructor
    · have hsub := (trimmedHead_sublist maxTokens
        (messages.take (messages.length - keepTail))
        (messages.drop (messages.length - keepTail))).append_right
          (messages.drop (messages.length - keepTail))
      rwa [hsplit] at hsub
    · rw [filter_append, trimmedHead_system, ← filter_append, hsplit]
    · exact suffix_append _ _
    · rw [hfront]
      exact (trimmedHead_opens_iff _ _).mpr h.opens
    · exact (trimmedHead_within_iff _ _).mpr h.within

/-- A text message. -/
def textMessage (n : Nat) (role : Role) (text : String) : Held :=
  ⟨.given n, { role, content := [.text text] }⟩

/-- A system prompt, a long question, a short answer, and the next question. -/
def promptedChat : List Held :=
  [textMessage 0 .system "be brief", textMessage 1 .user "a b c d e f g h i j k l",
    textMessage 2 .assistant "ok", textMessage 3 .user "more"]

/-- With room for the answer, but not for the question, the trim leaves the answer behind the
    system prompt, and is over budget by that prompt. -/
theorem hidden_orphan :
    boundTranscript promptedChat 10 1 = [promptedChat[0], promptedChat[2], promptedChat[3]] ∧
    ¬ OpensOnUser ((boundTranscript promptedChat 10 1).take 2) ∧
    transcriptTokens (boundTranscript promptedChat 10 1) = 16 ∧
    transcriptTokens [promptedChat[0], promptedChat[3]] = 11 ∧
    ¬ TrimSound promptedChat 10 1 (boundTranscript promptedChat 10 1) := by
  have hresult : boundTranscript promptedChat 10 1
      = [promptedChat[0], promptedChat[2], promptedChat[3]] := by rfl
  have hopens : ¬ OpensOnUser [promptedChat[0], promptedChat[2]] :=
    fun h => absurd (h promptedChat[2] rfl) (by decide)
  refine ⟨hresult, ?_, ?_, by decide +kernel, fun h => hopens ?_⟩
  · rw [hresult]
    exact hopens
  · rw [hresult]
    decide +kernel
  · have h := h.opens
    rw [hresult] at h
    exact h

end NexusCode.Engine
