/-
  Callers that thread the conversation themselves.

  Such a caller passes the whole conversation `H` followed by its new messages `N`; the session
  recognises its own transcript `T`, what is left of `H` after trimming, as a subsequence.

  1. `threadedFrom_shortest` — the scan is greedy: it stops at the end of the shortest prefix that
     contains the keys.
  2. `boundTranscript_append` — trimming drops messages in front of the tail only.
  3. **`threaded_recorded_once_iff`** — the turn is `H`, with some messages dropped, followed by
     `N`, and exactly `N` is stored, iff `T` does not already occur in `H` without its
     last message.
  4. **`repetition_recorded_twice`** — a short budget and a repeated exchange: an old exchange is
     stored again as new.
-/
import NexusCode.Engine.Session

namespace NexusCode.Engine

open Lib Shared List

/-- The keys of a list of messages. -/
def keysOf (messages : List Held) : List String := messages.map fun m => messageKey m.message

/-! ## The scan -/

/-- **The scan is greedy**: it answers the length of the shortest prefix with the keys in it. -/
theorem threadedFrom_shortest : ∀ (incoming : List Held) (keys : List String) (i : Nat),
    keys.Sublist (keysOf incoming) →
    ∃ m, m ≤ incoming.length ∧ threadedFrom keys i incoming = some (i + m) ∧
      ∀ k, keys.Sublist (keysOf (incoming.take k)) ↔ m ≤ k := by
  intro incoming
  induction incoming with
  | nil =>
    intro keys i h
    rw [sublist_nil.mp h]
    exact ⟨0, Nat.le_refl 0, rfl, fun k => ⟨fun _ => Nat.zero_le k, fun _ => nil_sublist _⟩⟩
  | cons x incoming ih =>
    intro keys i h
    cases keys with
    | nil =>
      exact ⟨0, Nat.zero_le _, rfl, fun k => ⟨fun _ => Nat.zero_le k, fun _ => nil_sublist _⟩⟩
    | cons key keys =>
      by_cases hkey : messageKey x.message = key
      · -- the head is taken: that is never worse than waiting
        have htail : keys.Sublist (keysOf incoming) := by
          rw [show keysOf (x :: incoming) = key :: keysOf incoming from
            congrArg (· :: _) hkey] at h
          exact List.Sublist.of_cons_cons h
        obtain ⟨m, hm, hscan, hfirst⟩ := ih keys (i + 1) htail
        refine ⟨m + 1, Nat.succ_le_succ hm, ?_, fun k => ?_⟩
        · rw [threadedFrom, if_pos hkey, hscan]
          exact congrArg some (by omega)
        · cases k with
          | zero => exact ⟨nofun, fun hle => absurd hle (by omega)⟩
          | succ k =>
            rw [take_succ_cons, show keysOf (x :: incoming.take k)
              = key :: keysOf (incoming.take k) from congrArg (· :: _) hkey,
              cons_sublist_cons, hfirst k]
            omega
      · have hskip : ∀ l, (key :: keys).Sublist (keysOf (x :: l)) ↔
            (key :: keys).Sublist (keysOf l) := by
          intro l
          constructor
          · intro hl
            rcases sublist_cons_iff.mp hl with hl | ⟨r, hr, -⟩
            · exact hl
            · exact absurd (cons.inj hr).1.symm hkey
          · exact fun hl => List.Sublist.cons _ hl
        obtain ⟨m, hm, hscan, hfirst⟩ := ih (key :: keys) (i + 1) ((hskip incoming).mp h)
        refine ⟨m + 1, Nat.succ_le_succ hm, ?_, fun k => ?_⟩
        · rw [threadedFrom, if_neg hkey, hscan]
          exact congrArg some (by omega)
        · cases k with
          | zero => exact ⟨nofun, fun hle => absurd hle (by omega)⟩
          | succ k =>
            rw [take_succ_cons, hskip, hfirst k]
            omega

theorem threadedAt_shortest {incoming history : List Held}
    (h : (keysOf history).Sublist (keysOf incoming)) :
    ∃ m, m ≤ incoming.length ∧ threadedAt incoming history = some m ∧
      ∀ k, (keysOf history).Sublist (keysOf (incoming.take k)) ↔ m ≤ k := by
  obtain ⟨m, hm, hscan, hfirst⟩ := threadedFrom_shortest incoming (keysOf history) 0 h
  refine ⟨m, hm, ?_, hfirst⟩
  rw [Nat.zero_add] at hscan
  have hlen : history.length ≤ incoming.length := by
    have hle := h.length_le
    unfold keysOf at hle
    rwa [length_map, length_map] at hle
  unfold threadedAt
  split
  · rename_i hempty
    rw [List.isEmpty_iff.mp hempty] at hscan
    cases incoming <;> exact hscan
  · rw [if_neg (by omega)]
    exact hscan

/-! ## Trimming -/

theorem keepNewest_sublist (maxTokens : JsNumber) : ∀ (older kept : List Held) (total : Nat)
    (full : Bool), (keepNewest maxTokens total full kept older).Sublist (older.reverse ++ kept) := by
  intro older
  induction older with
  | nil => exact fun kept _ _ => List.Sublist.refl kept
  | cons m older ih =>
    intro kept total full
    have hkeep : older.reverse ++ m :: kept = (m :: older).reverse ++ kept := by
      rw [reverse_cons, append_assoc]
      rfl
    have hdrop : (older.reverse ++ kept).Sublist ((m :: older).reverse ++ kept) := by
      rw [← hkeep]
      exact List.Sublist.append_left (sublist_cons_self _ _) _
    unfold keepNewest
    dsimp only
    split
    · exact hkeep ▸ ih (m :: kept) _ _
    · split
      · exact (ih kept _ _).trans hdrop
      · exact hkeep ▸ ih (m :: kept) _ _

/-- **Trimming drops messages in front of the tail only.** -/
theorem boundTranscript_append (head tail : List Held) (maxTokens : JsNumber) (keepTail : Nat)
    (hle : tail.length ≤ keepTail) (hlen : keepTail ≤ head.length + tail.length) :
    ∃ kept, kept.Sublist head ∧
      boundTranscript (head ++ tail) maxTokens keepTail = kept ++ tail := by
  let start := (head ++ tail).length - keepTail
  have hstart : start ≤ head.length := by
    show (head ++ tail).length - keepTail ≤ head.length
    rw [length_append]
    omega
  have htake : (head ++ tail).take start = head.take start := take_append_of_le_length hstart
  have hdrop : (head ++ tail).drop start = head.drop start ++ tail :=
    drop_append_of_le_length hstart
  unfold boundTranscript
  dsimp only
  rw [show (head ++ tail).length - keepTail = start from rfl, htake, hdrop, ← append_assoc]
  refine ⟨_, ?_, rfl⟩
  have hsub : (List.dropWhile orphaned (keepNewest maxTokens
      ((head.drop start ++ tail).map fun m => messageTokens m.message).sum
      (JsNumber.le maxTokens 0) [] (head.take start).reverse)).Sublist (head.take start) := by
    refine (dropWhile_sublist _).trans ?_
    have hscan := keepNewest_sublist maxTokens (head.take start).reverse []
      ((head.drop start ++ tail).map fun m => messageTokens m.message).sum
      (JsNumber.le maxTokens 0)
    rwa [append_nil, reverse_reverse] at hscan
  have hjoin := List.Sublist.append hsub (List.Sublist.refl (head.drop start))
  rwa [take_append_drop] at hjoin

/-! ## The turn -/

variable (redact : List ContentBlock → List ContentBlock)

/-- What a caller that passes `H ++ N` may expect: the turn's input is `H`, each message at most
    once and in order, followed by `N`, and exactly `N` is stored. -/
def RecordedOnce (σ : State) (H N : List Held) (reading : Option JsNumber) : Prop :=
  let σ' := σ.newTurn redact { messages := some (H ++ N) } reading
  (∃ kept, kept.Sublist H ∧ σ'.session.transcript = kept ++ N) ∧
    σ'.table = appendTranscript redact σ.session.seq (N.map (·.message)) σ.table

theorem newTurn_threaded {σ : State} (henabled : σ.session.history.enabled = true)
    {incoming : List Held} {m : Nat} (hm : m ≤ incoming.length)
    (hat : threadedAt incoming σ.session.transcript = some m) (reading : Option JsNumber) :
    (σ.newTurn redact { messages := some incoming } reading).session.transcript
        = boundTranscript incoming (maxTokensNow σ.session.history reading) (incoming.length - m) ∧
      (σ.newTurn redact { messages := some incoming } reading).table
        = appendTranscript redact σ.session.seq ((incoming.drop m).map (·.message)) σ.table := by
  have htail := boundTranscript_tail incoming (maxTokensNow σ.session.history reading)
    (Nat.sub_le incoming.length m)
  have hback : incoming.length - (incoming.length - m) = m := by omega
  rw [hback] at htail
  unfold State.newTurn
  dsimp only
  rw [if_pos henabled, show toMessages σ.nextRef { messages := some incoming } = incoming from rfl,
    hat]
  refine ⟨rfl, ?_⟩
  dsimp only [Option.isNone_some, Bool.false_eq_true, if_false, Option.getD_some]
  rw [if_neg Bool.false_ne_true, htail]

theorem appendTranscript_inj {seq : Nat} {a b : List Message} {table : List Row}
    (h : appendTranscript redact seq a table = appendTranscript redact seq b table) :
    a.length = b.length := by
  have hrows := congrArg (List.map (·.message)) (append_cancel_left h)
  unfold rowsOf at hrows
  rw [rowsFrom_message, rowsFrom_message] at hrows
  have hlen := congrArg List.length hrows
  rwa [length_map, length_map] at hlen

/-- **Client-threaded history is recorded once** exactly when the transcript does not already occur
    in the conversation without its last message. -/
theorem threaded_recorded_once_iff (redact : List ContentBlock → List ContentBlock) (σ : State)
    (H N : List Held) (reading : Option JsNumber) (henabled : σ.session.history.enabled = true)
    (hthreaded : (keysOf σ.session.transcript).Sublist (keysOf H)) :
    RecordedOnce redact σ H N reading ↔
      (H = [] ∨ ¬ (keysOf σ.session.transcript).Sublist (keysOf H.dropLast)) := by
  have hwhole : (keysOf σ.session.transcript).Sublist (keysOf (H ++ N)) := by
    unfold keysOf
    rw [map_append]
    exact hthreaded.trans (sublist_append_left _ _)
  obtain ⟨m, hm, hat, hfirst⟩ := threadedAt_shortest hwhole
  have hmH : m ≤ H.length := by
    refine (hfirst H.length).mp ?_
    rwa [take_left]
  obtain ⟨htranscript, htable⟩ := newTurn_threaded redact henabled hm hat reading
  have hdispatched : ∃ kept, kept.Sublist H ∧
      (σ.newTurn redact { messages := some (H ++ N) } reading).session.transcript = kept ++ N := by
    rw [htranscript, length_append]
    exact boundTranscript_append H N _ _ (by omega) (by omega)
  -- exactly `N` is stored when the history is recognised at its end
  have hend : RecordedOnce redact σ H N reading ↔ m = H.length := by
    constructor
    · rintro ⟨-, hstored⟩
      rw [htable] at hstored
      have hlen := appendTranscript_inj redact hstored
      rw [length_map, length_map, length_drop, length_append] at hlen
      omega
    · rintro rfl
      refine ⟨hdispatched, ?_⟩
      rw [htable, drop_left]
  rw [hend]
  by_cases hnil : H = []
  · rw [hnil] at hmH ⊢
    exact ⟨fun _ => .inl rfl, fun _ => Nat.le_zero.mp hmH⟩
  · have hlast : (keysOf σ.session.transcript).Sublist (keysOf H.dropLast) ↔ m ≤ H.length - 1 := by
      rw [← hfirst, take_append_of_le_length (Nat.sub_le _ _), dropLast_eq_take]
    have hpos := length_pos_iff.mpr hnil
    rw [hlast, or_iff_right hnil]
    omega

/-! ## A repeated exchange -/

/-- The messages of a repeated exchange, and a new question. -/
def asked (n : Nat) (text : String) : Held := ⟨.given n, ⟨.user, [.text text], none, none⟩⟩

def answered (n : Nat) (text : String) : Held := ⟨.given n, ⟨.assistant, [.text text], none, none⟩⟩

/-- A session with room for one exchange, after the same exchange twice. -/
def repeated : State :=
  (machine id).run (State.opened { budget := .fixed 10 })
    [.newTurn { messages := some [asked 0 "a"] } none, .record 0 (.messages [answered 1 "x"]) none,
      .newTurn { messages := some [asked 2 "a"] } none, .record 1 (.messages [answered 3 "x"]) none]

/-- The conversation its caller has seen. -/
def repeatedHistory : List Held := [asked 0 "a", answered 1 "x", asked 2 "a", answered 3 "x"]

/-- **An exchange that was asked twice is stored again as new**: two old messages and the new one
    are appended. -/
theorem repetition_recorded_twice :
    (keysOf repeated.session.transcript).Sublist (keysOf repeatedHistory) ∧
      ¬ RecordedOnce id repeated repeatedHistory [asked 4 "b"] none := by
  refine ⟨by decide +kernel, ?_⟩
  rintro ⟨-, hstored⟩
  have hlen := congrArg List.length hstored
  revert hlen
  decide +kernel

theorem threaded_recorded_once_iff_repeated :
    RecordedOnce id repeated repeatedHistory [asked 4 "b"] none ↔
      (repeatedHistory = [] ∨
        ¬ (keysOf repeated.session.transcript).Sublist (keysOf repeatedHistory.dropLast)) :=
  threaded_recorded_once_iff id repeated repeatedHistory [asked 4 "b"] none (by decide +kernel)
    (by decide +kernel)

end NexusCode.Engine
