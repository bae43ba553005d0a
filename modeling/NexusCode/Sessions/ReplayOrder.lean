/-
  When the event log replays what was recorded.

  The numbers of a session start over with every bus, so the events of a resumed session are read
  back among the events of the lifetimes before.

    1. `upToLast_split`  — the last event of a turn.
    2. **`replaysInOrder_of_rising`**, **`branchesExactly_of_rising`** — increasing numbers.
    3. **`rising_of_replay`** — nothing less will do, as a tie shows in some branch.
    4. **`replay_iff`**; `resumed_mixes` — a lifetime that starts at zero.
-/
import NexusCode.Sessions.EventLog

namespace NexusCode.Sessions

open List

variable {π : Type}

/-! ## The last event of a turn -/

/-- The events up to the last one of a turn end with it, and none of the turn comes after. -/
theorem upToLast_split (turnId : String) (rows : List (EventRow π)) :
    ∃ rest, rows = upToLast turnId rows ++ rest ∧ (∀ e ∈ rest, e.turnId ≠ turnId) ∧
      (upToLast turnId rows = [] ∨
        ∃ before last, upToLast turnId rows = before ++ [last] ∧ last.turnId = turnId) := by
  induction rows using List.reverseRecOn with
  | nil => exact ⟨[], rfl, fun _ => nofun, .inl rfl⟩
  | append_singleton rows e ih =>
    unfold upToLast at ih ⊢
    by_cases he : e.turnId = turnId
    · rw [rdropWhile_concat_neg _ _ _ (by simp [he])]
      exact ⟨[], (append_nil _).symm, fun _ => nofun, .inr ⟨rows, e, rfl, he⟩⟩
    · rw [rdropWhile_concat_pos _ _ _ (by simp [he])]
      obtain ⟨rest, hrows, hrest, hlast⟩ := ih
      refine ⟨rest ++ [e], by rw [← append_assoc, ← hrows], fun x hx => ?_, hlast⟩
      rcases mem_append.mp hx with hx | hx
      · exact hrest x hx
      · rw [mem_singleton.mp hx]
        exact he

/-! ## The cut-off -/

theorem le_foldl_max (qs : List Int) : ∀ (m : Int), m ≤ qs.foldl max m ∧ ∀ q ∈ qs, q ≤ qs.foldl max
    m := by
  induction qs with
  | nil => exact fun m => ⟨Int.le_refl m, fun _ => nofun⟩
  | cons p qs ih =>
    intro m
    obtain ⟨hm, hall⟩ := ih (max m p)
    refine ⟨Int.le_trans (Int.le_max_left m p) hm, forall_mem_cons.mpr ⟨?_, hall⟩⟩
    exact Int.le_trans (Int.le_max_right m p) hm

theorem foldl_max_le {qs : List Int} {m b : Int} (hm : m ≤ b) (hall : ∀ q ∈ qs, q ≤ b) :
    qs.foldl max m ≤ b := by
  induction qs generalizing m with
  | nil => exact hm
  | cons p qs ih =>
    obtain ⟨hp, hqs⟩ := forall_mem_cons.mp hall
    exact ih (Int.max_le.mpr ⟨hm, hp⟩) hqs

variable {log : List (EventRow π)} {sessionId : String}

theorem le_maxSeq {turnId : String} {e : EventRow π}
    (he : e ∈ log) (hs : e.sessionId = sessionId) (ht : e.turnId = turnId) :
    (e.seq : Int) ≤ maxSeq log sessionId turnId :=
  (le_foldl_max _ (-1)).2 _ (mem_map_of_mem (f := fun e : EventRow π => (e.seq : Int))
    (mem_filter.mpr ⟨he, decide_eq_true ⟨hs, ht⟩⟩))

/-- The cut-off is no higher than a bound of the turn's events. -/
theorem maxSeq_le {turnId : String} {b : Int} (hb : -1 ≤ b)
    (h : ∀ e ∈ log, e.sessionId = sessionId → e.turnId = turnId → (e.seq : Int) ≤ b) :
    maxSeq log sessionId turnId ≤ b := by
  refine foldl_max_le hb fun q hq => ?_
  obtain ⟨e, he, rfl⟩ := mem_map.mp hq
  obtain ⟨hmem, hcond⟩ := mem_filter.mp he
  obtain ⟨hs, ht⟩ := of_decide_eq_true hcond
  exact h e hmem hs ht

/-! ## The rows of a branch -/

/-- The rows a branch up to a turn copies. -/
def taken (log : List (EventRow π)) (sessionId turnId : String) : List (EventRow π) :=
  (eventsOf log sessionId).filter fun e => (e.seq : Int) ≤ maxSeq log sessionId turnId

theorem eventsOf_perm (log : List (EventRow π)) (sessionId : String) :
    (eventsOf log sessionId).Perm (log.filter (·.sessionId = sessionId)) :=
  perm_insertionSort _ _

/-- A branch into a new session holds the rows that were copied. -/
theorem eventsOf_branch_perm {turnId newSessionId : String}
    {newRunId : String → String} (hfresh : ∀ e ∈ log, e.sessionId ≠ newSessionId) :
    (eventsOf (branch log sessionId { upToTurn := some turnId } newSessionId newRunId)
      newSessionId).Perm ((taken log sessionId turnId).map (copied newSessionId newRunId)) := by
  refine (eventsOf_perm _ _).trans ?_
  show ((log ++ (taken log sessionId turnId).map (copied newSessionId newRunId)).filter _).Perm _
  rw [filter_append, filter_eq_nil_iff.mpr fun e he => by simp [hfresh e he],
    nil_append, filter_eq_self.mpr]
  intro e he
  obtain ⟨e', -, rfl⟩ := mem_map.mp he
  exact decide_eq_true rfl

/-! ## Increasing numbers are enough -/

/-- The numbers of a session increase in the order in which its events were appended. -/
def Rising (log : List (EventRow π)) (sessionId : String) : Prop :=
  (log.filter (·.sessionId = sessionId)).Pairwise fun a b => a.seq < b.seq

theorem replaysInOrder_of_rising
    (h : Rising log sessionId) : ReplaysInOrder log sessionId :=
  List.Pairwise.insertionSort_eq (h.imp Nat.le_of_lt)

/-- Where the numbers increase, the cut-off takes exactly the events up to the last of the turn. -/
theorem taken_of_rising (h : Rising log sessionId)
    (turnId : String) :
    taken log sessionId turnId = upToLast turnId (log.filter (·.sessionId = sessionId)) := by
  unfold taken
  rw [show eventsOf log sessionId = _ from replaysInOrder_of_rising h]
  have hmem : ∀ {e}, e ∈ log → e.sessionId = sessionId →
      e ∈ log.filter (·.sessionId = sessionId) :=
    fun he hs => mem_filter.mpr ⟨he, decide_eq_true hs⟩
  have hrising : (log.filter (·.sessionId = sessionId)).Pairwise fun a b => a.seq < b.seq := h
  have hsession : ∀ e ∈ log.filter (·.sessionId = sessionId), e ∈ log ∧ e.sessionId = sessionId :=
    fun e he => ⟨(mem_filter.mp he).1, of_decide_eq_true (mem_filter.mp he).2⟩
  revert hmem hrising hsession
  generalize log.filter (·.sessionId = sessionId) = rows
  intro hmem hrising hsession
  obtain ⟨rest, hrows, hrest, hlast⟩ := upToLast_split turnId rows
  rcases hlast with hnone | ⟨before, last, hupTo, hturn⟩
  · -- no event of the turn
    rw [hnone, nil_append] at hrows
    rw [hnone]
    refine filter_eq_nil_iff.mpr fun e he => ?_
    have hcut : maxSeq log sessionId turnId ≤ -1 := maxSeq_le (Int.le_refl _) fun e he hs ht =>
      absurd ht (hrest e (hrows ▸ hmem he hs))
    rw [decide_eq_true_eq]
    omega
  · rw [hupTo] at hrows ⊢
    have hin : last ∈ rows := by
      rw [hrows]
      exact mem_append_left _ (mem_append_right _ (mem_singleton.mpr rfl))
    rw [hrows] at hrising
    obtain ⟨hupper, -, hafter⟩ := pairwise_append.mp hrising
    have hbefore : ∀ e ∈ before ++ [last], e.seq ≤ last.seq := by
      intro e he
      rcases mem_append.mp he with he | he
      · exact Nat.le_of_lt ((pairwise_append.mp hupper).2.2 e he last
          (mem_singleton.mpr rfl))
      · rw [mem_singleton.mp he]
    have hcut : maxSeq log sessionId turnId = last.seq := by
      obtain ⟨hlog, hs⟩ := hsession last hin
      refine Int.le_antisymm (maxSeq_le (by omega) fun e he hs ht => ?_) (le_maxSeq hlog hs hturn)
      have he := hmem he hs
      rw [hrows] at he
      rcases mem_append.mp he with he | he
      · exact Int.ofNat_le.mpr (hbefore e he)
      · exact absurd ht (hrest e he)
    have hkept : ∀ e ∈ before ++ [last], decide ((e.seq : Int) ≤ maxSeq log sessionId turnId) := by
      intro e he
      rw [hcut]
      exact decide_eq_true (Int.ofNat_le.mpr (hbefore e he))
    have hdropped : ∀ e ∈ rest, ¬ decide ((e.seq : Int) ≤ maxSeq log sessionId turnId) = true := by
      intro e he
      have := hafter last (mem_append_right _ (mem_singleton.mpr rfl)) e he
      rw [hcut, decide_eq_true_eq]
      omega
    rw [hrows, filter_append, filter_eq_self.mpr hkept,
      filter_eq_nil_iff.mpr hdropped, append_nil]

theorem branchesExactly_of_rising
    (h : Rising log sessionId) : BranchesExactly log sessionId := by
  intro turnId newSessionId newRunId hfresh
  rw [← taken_of_rising h turnId]
  exact eventsOf_branch_perm hfresh

/-! ## Nothing less will do -/

/-- Lifetimes seen through a filter. -/
structure Lived (lifetimes : List (List (EventRow π))) : Prop where
  numbered_once : ∀ rows ∈ lifetimes, (rows.map EventRow.seq).Nodup
  turns_apart : lifetimes.Pairwise fun rows rows' => ∀ a ∈ rows, ∀ b ∈ rows', a.turnId ≠ b.turnId

theorem Lived.filter {lifetimes : List (List (EventRow π))} (h : Lived lifetimes)
    (p : EventRow π → Bool) : Lived (lifetimes.map (List.filter p)) where
  numbered_once rows hrows := by
    obtain ⟨rows', hrows', rfl⟩ := mem_map.mp hrows
    exact (h.numbered_once rows' hrows').sublist (List.filter_sublist.map _)
  turns_apart := by
    refine pairwise_map.mpr (h.turns_apart.imp fun hapart a ha b hb => ?_)
    exact hapart a (mem_filter.mp ha).1 b (mem_filter.mp hb).1

/-- Two events with one number are of different lifetimes: nothing of the first one's turn comes
    as late as the second one. -/
theorem Lived.tie : ∀ {lifetimes : List (List (EventRow π))}, Lived lifetimes →
    ∀ {before after : List (EventRow π)} {a b : EventRow π},
    lifetimes.flatten = before ++ b :: after → a ∈ before → a.seq = b.seq →
    ∀ e ∈ b :: after, e.turnId ≠ a.turnId
  | [], _, before, _, _, b, heq, _, _ => by
    have hlen := congrArg List.length heq
    rw [flatten_nil, length_append, length_cons] at hlen
    simp at hlen
  | rows :: lifetimes, h, before, after, a, b, heq, ha, hseq => by
    obtain ⟨hhead, htail⟩ := pairwise_cons.mp h.turns_apart
    have hlived : Lived lifetimes :=
      ⟨fun rows' hrows' => h.numbered_once rows' (mem_cons_of_mem rows hrows'), htail⟩
    rw [flatten_cons] at heq
    rcases append_eq_append_iff.mp heq with ⟨mid, hbefore, hrest⟩ | ⟨mid, hrows, hrest⟩
    · -- the second event is of a later lifetime
      rw [hbefore] at ha
      rcases mem_append.mp ha with ha | ha
      · intro e he
        have hin : e ∈ lifetimes.flatten := by
          rw [hrest]
          exact mem_append_right mid he
        obtain ⟨rows', hrows', he'⟩ := mem_flatten.mp hin
        exact Ne.symm (hhead rows' hrows' a ha e he')
      · exact hlived.tie hrest ha hseq
    · cases mid with
      | nil =>
        rw [append_nil] at hrows
        rw [nil_append] at hrest
        intro e he
        rw [hrest] at he
        obtain ⟨rows', hrows', he'⟩ := mem_flatten.mp he
        exact Ne.symm (hhead rows' hrows' a (hrows ▸ ha) e he')
      | cons b' mid =>
        -- both are of this lifetime, which numbers an event once
        obtain ⟨rfl, -⟩ := cons.inj hrest
        have hnodup := h.numbered_once rows mem_cons_self
        rw [hrows, map_append, map_cons] at hnodup
        exact absurd (mem_cons_self) fun hmem =>
          disjoint_of_nodup_append hnodup (hseq ▸ mem_map_of_mem ha) hmem

theorem exists_newSession (log : List (EventRow π)) :
    ∃ newSessionId, ∀ e ∈ log, e.sessionId ≠ newSessionId := by
  have hlong : ∀ l : List (EventRow π), ∃ n : Nat, ∀ e ∈ l, e.sessionId.toList.length < n := by
    intro l
    induction l with
    | nil => exact ⟨0, fun _ => nofun⟩
    | cons e l ih =>
      obtain ⟨n, hn⟩ := ih
      refine ⟨max n (e.sessionId.toList.length + 1), forall_mem_cons.mpr ⟨by omega, ?_⟩⟩
      intro x hx
      have := hn x hx
      omega
  obtain ⟨n, hn⟩ := hlong log
  refine ⟨String.ofList (List.replicate n 'x'), fun e he heq => ?_⟩
  have := hn e he
  rw [heq, String.toList_ofList, length_replicate] at this
  omega

/-- **Where events are read back and branches cut as appended**, the numbers increase. -/
theorem rising_of_replay {h : History π}
    (hreplay : ReplaysInOrder h.log sessionId) (hbranch : BranchesExactly h.log sessionId) :
    Rising h.log sessionId := by
  have hevents : eventsOf h.log sessionId = h.log.filter (·.sessionId = sessionId) := hreplay
  have hsorted : (h.log.filter (·.sessionId = sessionId)).Pairwise fun a b => a.seq ≤ b.seq := by
    rw [← hevents]
    exact pairwise_insertionSort _ _
  have hlived : Lived (h.lifetimes.map (List.filter (·.sessionId = sessionId))) :=
    Lived.filter ⟨h.numbered_once, h.turns_apart⟩ _
  have hflatten : (h.lifetimes.map (List.filter (·.sessionId = sessionId))).flatten =
      h.log.filter (·.sessionId = sessionId) := filter_flatten.symm
  unfold Rising
  refine pairwise_iff_getElem.mpr fun i j hi hj hij => ?_
  refine Nat.lt_of_le_of_ne (pairwise_iff_getElem.mp hsorted i j hi hj hij) fun htie => ?_
  -- a tie: the branch up to the first event's turn takes the second event too
  obtain ⟨newSessionId, hfresh⟩ := exists_newSession h.log
  have hlen := ((hbranch (h.log.filter (·.sessionId = sessionId))[i].turnId newSessionId id
    hfresh).symm.trans (eventsOf_branch_perm hfresh)).length_eq
  rw [length_map, length_map, taken, hevents] at hlen
  have hmax : (((h.log.filter (·.sessionId = sessionId))[j].seq : Nat) : Int) ≤
      maxSeq h.log sessionId (h.log.filter (·.sessionId = sessionId))[i].turnId := by
    obtain ⟨hlog, hs⟩ := mem_filter.mp (getElem_mem hi)
    rw [← htie]
    exact le_maxSeq hlog (of_decide_eq_true hs) rfl
  revert hi hj hlen hmax hflatten hsorted
  generalize h.log.filter (·.sessionId = sessionId) = rows
  intro hsorted hflatten hi hj htie hlen hmax
  have hsplit : rows = rows.take j ++ rows[j] :: rows.drop (j + 1) := by
    rw [← drop_eq_getElem_cons hj, take_append_drop]
  have hlate := hlived.tie (hflatten.trans hsplit) (mem_take_iff_getElem.mpr ⟨i, by omega, rfl⟩)
    htie
  -- the branch should end before the second event
  have hshort : (upToLast rows[i].turnId rows).length ≤ j := by
    obtain ⟨rest, hrows, -, hlast⟩ := upToLast_split rows[i].turnId rows
    rcases hlast with hnone | ⟨before, last, hupTo, hturn⟩
    · rw [hnone]
      exact Nat.zero_le j
    · by_contra hlong
      rw [hupTo, length_append, length_singleton] at hlong
      have hin : last ∈ rows.drop j := by
        rw [hrows, hupTo, append_assoc, drop_append_of_le_length (by omega)]
        exact mem_append_right _ (mem_append_left _ (mem_singleton.mpr rfl))
      rw [drop_eq_getElem_cons hj] at hin
      exact hlate last hin hturn
  -- but it takes everything up to it
  have hlong : j + 1 ≤ (rows.filter fun e =>
      (e.seq : Int) ≤ maxSeq h.log sessionId rows[i].turnId).length := by
    have htake : (rows.take (j + 1)).length = j + 1 := length_take_of_le hj
    rw [← htake]
    refine List.Sublist.length_le ?_
    have hall : ∀ e ∈ rows.take (j + 1),
        decide ((e.seq : Int) ≤ maxSeq h.log sessionId rows[i].turnId) = true := by
      intro e he
      obtain ⟨k, hk, rfl⟩ := mem_take_iff_getElem.mp he
      refine decide_eq_true (Int.le_trans (Int.ofNat_le.mpr ?_) hmax)
      rcases Nat.lt_or_ge k j with hkj | hkj
      · exact pairwise_iff_getElem.mp hsorted k j (by omega) hj hkj
      · obtain rfl : k = j := by omega
        omega
    rw [← filter_eq_self.mpr hall]
    exact (take_sublist (j + 1) rows).filter _
  omega

/-- **The event log replays what was recorded** exactly if the numbers of the session increase in
    the order in which its events were appended. -/
theorem replay_iff (h : History π) (sessionId : String) :
    ReplaysInOrder h.log sessionId ∧ BranchesExactly h.log sessionId ↔ Rising h.log sessionId :=
  ⟨fun hboth => rising_of_replay hboth.1 hboth.2,
    fun hrising => ⟨replaysInOrder_of_rising hrising, branchesExactly_of_rising hrising⟩⟩

/-- A session of two lifetimes with one turn of two events each. -/
def resumedSession : History String where
  lifetimes := [[⟨"s", "t1", "r1", 0, "one"⟩, ⟨"s", "t1", "r1", 1, "two"⟩],
    [⟨"s", "t2", "r2", 0, "three"⟩, ⟨"s", "t2", "r2", 1, "four"⟩]]
  numbered_once := by decide
  turns_apart := by decide

/-- Its events are read back mixed: one, three, two, four. -/
theorem resumed_mixes : ¬ (ReplaysInOrder resumedSession.log "s" ∧
    BranchesExactly resumedSession.log "s") := by
  intro h
  have hevents : eventsOf resumedSession.log "s" =
      resumedSession.log.filter (·.sessionId = "s") := h.1
  revert hevents
  decide

end NexusCode.Sessions
