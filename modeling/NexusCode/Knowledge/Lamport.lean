/-
  The Lamport stamps of captured chunks, over the lives of processes.

  A process keeps one counter for each session and seeds it, when the session draws its first
  stamp, from the log alone.  Chunks are kept verbatim at once; what is projected from them is queued
  and reaches the log later, or not at all if the process ends.

  1. `nextLamportFor` — the allocator.
  2. `Clocks.step` — captured, projected and applied chunks, and the next process.
  3. `Sound.step` — the invariant: no stamp was issued twice, and a counter is ahead of all stamps of
     its session.
  4. **`stamps_unique`** — while counters are seeded only for sessions whose last stamps the log
     has, no two rows of a session carry the same stamp.
  5. **`stamp_reused`** — the stamp of a chunk that is only kept verbatim is issued again.
-/
import NexusCode.Lib.JsMap
import NexusCode.Lib.Machine
import Mathlib.Data.List.Perm.Subperm
import Mathlib.Order.Lattice

namespace NexusCode.Knowledge

open Lib List Option

/-! ## The runtime -/

/-- The session and the stamp of a row. -/
structure Stamp where
  session_id : String
  lamport_ts : Nat
deriving DecidableEq

/-- A row of `zlcts_wal`, and whether its stamp was drawn from the allocator. -/
structure LoggedStamp where
  stamp : Stamp
  drawn : Bool

/-- The rows in the database, the counters of the process, and the deltas that wait for the
    mutex. -/
structure Clocks where
  wal : List LoggedStamp
  verbatim : List Stamp
  sessionClocks : JsMap String Nat
  queue : List Stamp

/-- `SELECT COALESCE(MAX(lamport_ts), 0) FROM zlcts_wal WHERE session_id = ?`. -/
def maxLamport (wal : List LoggedStamp) (sessionId : String) : Nat :=
  ((wal.filter fun r => r.stamp.session_id == sessionId).map (·.stamp.lamport_ts)).foldr max 0

/-- `current` of `nextLamportFor`. -/
def Clocks.current (s : Clocks) (sessionId : String) : Nat :=
  (s.sessionClocks.get? sessionId).getD (maxLamport s.wal sessionId)

/-- `nextLamportFor(sessionId)`. -/
def nextLamportFor (sessionId : String) (s : Clocks) : Stamp × Clocks :=
  let next := s.current sessionId + 1
  (⟨sessionId, next⟩, { s with sessionClocks := s.sessionClocks.set sessionId next })

/-- The chunk types of `REGISTRY` that yield no delta. -/
def silentTypes : List String :=
  ["text-delta", "reasoning-delta", "run-start", "session-init", "tool-call-delta", "usage"]

/-- What happens to the runtime of a database. -/
inductive Happening where
  /-- `captureVerbatim(chunk)`; writing the row may fail -/
  | captureVerbatim (sessionId : String) (written : Bool)
  /-- `project(chunk)` -/
  | project (sessionId type : String)
  /-- `turnBoundary(kind, turn)` -/
  | turnBoundary (sessionId : String)
  /-- the next queued delta is applied, or rolled back -/
  | apply (committed : Bool)
  /-- a delta whose stamp is not drawn from the allocator reaches the log -/
  | log (stamp : Stamp)
  /-- the process ends, and the next one opens the runtime -/
  | reopen

/-- One step. -/
def Clocks.step (s : Clocks) : Happening → Clocks
  | .captureVerbatim sessionId written =>
    let (stamp, s) := nextLamportFor sessionId s
    if written then { s with verbatim := s.verbatim ++ [stamp] } else s
  | .project sessionId type =>
    let (stamp, s) := nextLamportFor sessionId s
    -- the execution event carries the session's id and this stamp to its row
    if type ∈ silentTypes then s else { s with queue := s.queue ++ [stamp] }
  | .turnBoundary sessionId =>
    let (stamp, s) := nextLamportFor sessionId s
    { s with queue := s.queue ++ [stamp] }
  | .apply committed =>
    match s.queue with
    | [] => s
    | stamp :: rest =>
      if committed then { s with wal := s.wal ++ [⟨stamp, true⟩], queue := rest }
      else { s with queue := rest }
  | .log stamp => { s with wal := s.wal ++ [⟨stamp, false⟩] }
  | .reopen => { s with sessionClocks := .empty, queue := [] }

/-- The runtimes of a database as a machine. -/
def lives : Machine Clocks Happening Unit := ⟨fun s h => ((), s.step h)⟩

/-- A fresh database. -/
def Clocks.fresh : Clocks := ⟨[], [], .empty, []⟩

/-! ## Uniqueness -/

/-- The drawn stamps in the rows of the log. -/
def drawnStamps (wal : List LoggedStamp) : List Stamp := (wal.filter (·.drawn)).map (·.stamp)

/-- The drawn stamps of the log. -/
def Clocks.drawn (s : Clocks) : List Stamp := drawnStamps s.wal

/-- No two rows of a session carry the same drawn stamp. -/
def Clocks.Unique (s : Clocks) : Prop := (s.drawn ++ s.verbatim).Nodup

instance (s : Clocks) : Decidable s.Unique := inferInstanceAs (Decidable (List.Nodup _))

/-- The session for which a step draws. -/
def Happening.draws : Happening → Option String
  | .captureVerbatim sessionId _ => some sessionId
  | .project sessionId _ => some sessionId
  | .turnBoundary sessionId => some sessionId
  | _ => none

/-- A counter that is seeded now is not behind the verbatim rows of its session. -/
def SeedsAhead (s : Clocks) (h : Happening) : Prop :=
  ∀ sessionId ∈ h.draws, s.sessionClocks.get? sessionId = none →
    ∀ row ∈ s.verbatim, row.session_id = sessionId → row.lamport_ts ≤ maxLamport s.wal sessionId

instance (s : Clocks) (h : Happening) : Decidable (SeedsAhead s h) :=
  inferInstanceAs (Decidable (∀ _ ∈ _, _))

/-! ## The invariant -/

/-- All stamps that are in rows or on their way to the log. -/
def Clocks.issued (s : Clocks) : List Stamp := s.drawn ++ s.verbatim ++ s.queue

/-- No stamp was issued twice; a counter is ahead of its session's stamps; what is queued was drawn
    from a counter. -/
structure Sound (s : Clocks) : Prop where
  nodup : s.issued.Nodup
  ahead : ∀ r ∈ s.issued, ∀ n, s.sessionClocks.get? r.session_id = some n → r.lamport_ts ≤ n
  queued : ∀ r ∈ s.queue, s.sessionClocks.get? r.session_id ≠ none

theorem le_maxLamport {wal : List LoggedStamp} {r : LoggedStamp} (h : r ∈ wal) :
    r.stamp.lamport_ts ≤ maxLamport wal r.stamp.session_id := by
  unfold maxLamport
  have hmem : r.stamp.lamport_ts ∈ (wal.filter fun r' =>
      r'.stamp.session_id == r.stamp.session_id).map (·.stamp.lamport_ts) :=
    mem_map_of_mem (mem_filter.mpr ⟨h, beq_self_eq_true _⟩)
  generalize (wal.filter _).map _ = ns at hmem
  induction ns with
  | nil => nomatch hmem
  | cons n ns ih =>
    rw [foldr_cons]
    rcases mem_cons.mp hmem with rfl | hmem
    · exact le_max_left ..
    · exact (ih hmem).trans (le_max_right ..)

variable {s : Clocks} {sessionId : String}

theorem Sound.lt_next (hs : Sound s)
    (hseed : s.sessionClocks.get? sessionId = none →
      ∀ row ∈ s.verbatim, row.session_id = sessionId → row.lamport_ts ≤ maxLamport s.wal sessionId)
    {r : Stamp} (hr : r ∈ s.issued) (hsession : r.session_id = sessionId) :
    r.lamport_ts < (nextLamportFor sessionId s).1.lamport_ts := by
  show r.lamport_ts < s.current sessionId + 1
  rw [Nat.lt_succ_iff, Clocks.current]
  cases hclock : s.sessionClocks.get? sessionId with
  | some n => exact hs.ahead r hr n (hsession ▸ hclock)
  | none =>
    -- the counter is seeded: the row is in the log, or verbatim, and nothing is queued
    show r.lamport_ts ≤ maxLamport s.wal sessionId
    rcases mem_append.mp hr with hr | hr
    · rcases mem_append.mp hr with hr | hr
      · obtain ⟨row, hrow, rfl⟩ := mem_map.mp hr
        rw [← hsession]
        exact le_maxLamport (mem_of_mem_filter hrow)
      · exact hseed hclock r hr hsession
    · exact absurd (hsession ▸ hclock) (hs.queued r hr)

theorem Sound.draw {t : Clocks} (hs : Sound s)
    (hseed : s.sessionClocks.get? sessionId = none →
      ∀ row ∈ s.verbatim, row.session_id = sessionId → row.lamport_ts ≤ maxLamport s.wal sessionId)
    (hissued : t.issued.Subperm ((nextLamportFor sessionId s).1 :: s.issued))
    (hqueue : ∀ r ∈ t.queue, r = (nextLamportFor sessionId s).1 ∨ r ∈ s.queue)
    (hclocks : t.sessionClocks = (nextLamportFor sessionId s).2.sessionClocks) : Sound t := by
  have hget : ∀ k, t.sessionClocks.get? k = if sessionId = k then
      some (nextLamportFor sessionId s).1.lamport_ts else s.sessionClocks.get? k := fun k => by
    rw [hclocks]
    exact JsMap.get?_set ..
  refine ⟨?_, ?_, ?_⟩
  · have hnew : (nextLamportFor sessionId s).1 ∉ s.issued := fun h =>
      absurd (hs.lt_next hseed h rfl) (by omega)
    obtain ⟨l, hperm, hsub⟩ := hissued
    exact hperm.nodup_iff.mp ((nodup_cons.mpr ⟨hnew, hs.nodup⟩).sublist hsub)
  · intro r hr n hn
    rw [hget] at hn
    rcases mem_cons.mp (hissued.subset hr) with hnext | hr
    · subst hnext
      rw [if_pos (by rfl)] at hn
      exact (some.inj hn).le
    · by_cases hsession : sessionId = r.session_id
      · rw [if_pos hsession] at hn
        rw [← some.inj hn]
        exact (hs.lt_next hseed hr hsession.symm).le
      · rw [if_neg hsession] at hn
        exact hs.ahead r hr n hn
  · intro r hr
    rw [hget]
    rcases hqueue r hr with hnext | hr
    · subst hnext
      rw [if_pos (by rfl)]
      exact some_ne_none _
    · split
      · exact some_ne_none _
      · exact hs.queued r hr

theorem Sound.queue_next (hs : Sound s)
    (hseed : s.sessionClocks.get? sessionId = none →
      ∀ row ∈ s.verbatim, row.session_id = sessionId →
        row.lamport_ts ≤ maxLamport s.wal sessionId) :
    Sound (s.step (.turnBoundary sessionId)) := by
  refine hs.draw hseed (List.Perm.subperm ?_) (fun r hr => ?_) rfl
  · show (s.drawn ++ s.verbatim ++ (s.queue ++ [_])).Perm (_ :: s.issued)
    rw [← append_assoc]
    exact perm_append_singleton ..
  · rcases mem_append.mp hr with hr | hr
    · exact .inr hr
    · exact .inl (mem_singleton.mp hr)

/-- Steps that draw no stamp keep the issued ones, or lose some. -/
theorem Sound.keep {t : Clocks} (hs : Sound s) (hissued : t.issued.Subperm s.issued)
    (hqueue : ∀ r ∈ t.queue, r ∈ s.queue) (hclocks : t.sessionClocks = s.sessionClocks) :
    Sound t := by
  refine ⟨?_, fun r hr n hn => ?_, fun r hr => ?_⟩
  · obtain ⟨l, hperm, hsub⟩ := hissued
    exact hperm.nodup_iff.mp (hs.nodup.sublist hsub)
  · rw [hclocks] at hn
    exact hs.ahead r (hissued.subset hr) n hn
  · rw [hclocks]
    exact hs.queued r (hqueue r hr)

theorem drawnStamps_append (wal : List LoggedStamp) (r : LoggedStamp) :
    drawnStamps (wal ++ [r]) = drawnStamps wal ++ drawnStamps [r] := by
  unfold drawnStamps
  rw [filter_append, map_append]

/-- **The invariant** outlives every step that seeds ahead. -/
theorem Sound.step (hs : Sound s) {h : Happening} (hok : SeedsAhead s h) :
    Sound (s.step h) := by
  cases h with
  | captureVerbatim sessionId written =>
    cases written with
    | false => exact hs.draw (hok sessionId rfl) .cons_self (fun r hr => .inr hr) rfl
    | true =>
      refine hs.draw (hok sessionId rfl) (List.Perm.subperm ?_) (fun r hr => .inr hr) rfl
      show (s.drawn ++ (s.verbatim ++ [_]) ++ s.queue).Perm (_ :: s.issued)
      rw [← append_assoc, append_assoc _ [_]]
      exact perm_middle
  | project sessionId type =>
    by_cases hsilent : type ∈ silentTypes
    · have hstep : s.step (.project sessionId type) =
          (nextLamportFor sessionId s).2 := if_pos hsilent
      rw [hstep]
      exact hs.draw (hok sessionId rfl) .cons_self (fun r hr => .inr hr) rfl
    · have hstep : s.step (.project sessionId type) =
          s.step (.turnBoundary sessionId) := if_neg hsilent
      rw [hstep]
      exact hs.queue_next (hok sessionId rfl)
  | turnBoundary sessionId => exact hs.queue_next (hok sessionId rfl)
  | apply committed =>
    cases hqueue : s.queue with
    | nil =>
      have hstep : s.step (.apply committed) = s := by
        show (match s.queue with | [] => s | _ :: _ => _) = s
        rw [hqueue]
      rwa [hstep]
    | cons stamp rest =>
      have hrest : ∀ r ∈ rest, r ∈ s.queue := fun r hr => by
        rw [hqueue]
        exact .tail _ hr
      cases committed with
      | false =>
        have hstep : s.step (.apply false) = { s with queue := rest } := by
          show (match s.queue with | [] => s | _ :: _ => _) = _
          rw [hqueue]
          rfl
        rw [hstep]
        refine hs.keep (List.Sublist.subperm ?_) hrest rfl
        show (s.drawn ++ s.verbatim ++ rest).Sublist (s.drawn ++ s.verbatim ++ s.queue)
        rw [hqueue]
        exact (sublist_cons_self ..).append_left _
      | true =>
        have hstep : s.step (.apply true) =
            { s with wal := s.wal ++ [⟨stamp, true⟩], queue := rest } := by
          show (match s.queue with | [] => s | _ :: _ => _) = _
          rw [hqueue]
          rfl
        rw [hstep]
        refine hs.keep (List.Perm.subperm ?_) hrest rfl
        show (drawnStamps (s.wal ++ [⟨stamp, true⟩]) ++ s.verbatim ++ rest).Perm
          (s.drawn ++ s.verbatim ++ s.queue)
        rw [drawnStamps_append, hqueue, append_assoc, append_assoc, append_assoc]
        refine List.Perm.append_left _ ?_
        exact (perm_middle : (s.verbatim ++ stamp :: rest).Perm _).symm
  | log stamp =>
    refine hs.keep (List.Perm.subperm (List.Perm.of_eq ?_)) (fun _ h => h) rfl
    show drawnStamps (s.wal ++ [⟨stamp, false⟩]) ++ s.verbatim ++ s.queue = s.issued
    rw [drawnStamps_append]
    exact congrArg (· ++ s.verbatim ++ s.queue) (append_nil _)
  | reopen =>
    refine ⟨?_, fun r _ n hn => (nomatch hn), fun r hr => (nomatch hr)⟩
    refine hs.nodup.sublist ?_
    show (s.drawn ++ s.verbatim ++ []).Sublist (s.drawn ++ s.verbatim ++ s.queue)
    exact (nil_sublist _).append_left _

theorem sound_fresh : Sound .fresh :=
  ⟨nodup_nil, fun _ => nofun, fun _ => nofun⟩

/-- **Stamps are unique** in every state of a run whose counters are seeded ahead. -/
theorem stamps_unique {hs : List Happening} (hok : lives.Always SeedsAhead .fresh hs) :
    ∀ before after, hs = before ++ after → (lives.run .fresh before).Unique := by
  rintro before after rfl
  have hbefore := ((Machine.always_append lives).mp hok).1
  have hsound := hbefore.invariant (fun _ _ h hok => Sound.step h hok) sound_fresh
  exact hsound.nodup.of_append_left

/-- A chunk of text, captured and projected, before and after the process was started again. -/
def restarted : List Happening :=
  [.captureVerbatim "s" true, .project "s" "text-delta", .reopen, .captureVerbatim "s" true,
    .project "s" "text-delta"]

/-- **The stamp of a chunk that reached no log is issued again.** -/
theorem stamp_reused : ¬ (lives.run .fresh restarted).Unique := by
  decide

/-- A run whose end reaches the log before the process is started again. -/
def logged : List Happening :=
  [.captureVerbatim "s" true, .project "s" "run-end", .apply true, .reopen,
    .captureVerbatim "s" true]

theorem stamps_unique_logged : (lives.run .fresh logged).Unique := by
  have hok : lives.Always SeedsAhead .fresh logged := by decide
  exact stamps_unique hok logged [] rfl

end NexusCode.Knowledge
