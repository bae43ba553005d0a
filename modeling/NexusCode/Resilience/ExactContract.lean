/-
  The validator recognises the stream contract exactly.

  1. `Valid`         — the contract as a property of whole sequences, without sets or flags.
     A stream that was cut before its first chunk has broken nothing, so the empty one is valid.
  2. `inOrder_concat` — what one more chunk has to fit (`Fits`).
  3. `Watch.check_spec` — the variables of the loop say what fits: one step.
  4. **`enforce_exact`** — the whole loop, by induction on what is still to come.
-/
import NexusCode.Resilience.StreamContract

namespace NexusCode.Resilience

open Lib Shared Router List Option

/-! ## The contract -/

/-- The tool call a chunk starts. -/
def started? (c : StreamChunk) : Option String :=
  match c.body with
  | .toolCallStart id _ => some id
  | _ => none

/-- The tool call a chunk ends. -/
def ended? (c : StreamChunk) : Option String :=
  match c.body with
  | .toolCallEnd id _ => some id
  | _ => none

/-- The tool call a delta or an end is about. -/
def used? (c : StreamChunk) : Option String :=
  match c.body with
  | .toolCallDelta id _ => some id
  | .toolCallEnd id _ => some id
  | _ => none

/-- The tool call is started in the chunks and not ended. -/
def OpenIn (l : List StreamChunk) (id : String) : Prop :=
  (∃ c ∈ l, started? c = some id) ∧ ∀ c ∈ l, ended? c ≠ some id

/-- What the contract asks of the chunks after the `run-start`. -/
structure InOrder (runId : String) (l : List StreamChunk) : Prop where
  noStart : ∀ c ∈ l, c.isRunStart = false
  oneRun : ∀ c ∈ l, c.runId = runId
  oneInit : l.countP (·.isSessionInit) ≤ 1
  startedOnce : ∀ id, l.countP (fun c => decide (started? c = some id)) ≤ 1
  opened : ∀ front c back, l = front ++ c :: back → ∀ id, used? c = some id → OpenIn front id
  closed : ∀ front c back, l = front ++ c :: back → c.isTerminal = true → back = []

/-- **The stream contract**: a single error, or one `run-start` with the rest in order behind it. -/
def Valid (l : List StreamChunk) : Prop :=
  l = [] ∨ (∃ c, l = [c] ∧ c.error?.isSome) ∨
    ∃ start rest, l = start :: rest ∧ start.isRunStart = true ∧ InOrder start.runId rest

/-- The error a violation becomes. -/
def IsParseError (c : StreamChunk) : Prop :=
  ∃ error, c.body = .error error false ∧ error.code = .parse

/-! ## One more chunk -/

/-- The chunk may come behind the others. -/
structure Fits (runId : String) (l : List StreamChunk) (c : StreamChunk) : Prop where
  notStart : c.isRunStart = false
  sameRun : c.runId = runId
  firstInit : c.isSessionInit = true → ∀ d ∈ l, d.isSessionInit = false
  fresh : ∀ id, started? c = some id → ∀ d ∈ l, started? d ≠ some id
  open_ : ∀ id, used? c = some id → OpenIn l id

variable {l : List StreamChunk} {c : StreamChunk}

/-- A list split at a chunk, when there is one more chunk behind it. -/
theorem concat_eq_split {front back : List StreamChunk} {d : StreamChunk}
    (h : l ++ [c] = front ++ d :: back) :
    (l = front ∧ c = d ∧ back = []) ∨ ∃ back', back = back' ++ [c] ∧ l = front ++ d :: back' := by
  rcases eq_nil_or_concat back with rfl | ⟨back', e, rfl⟩
  · obtain ⟨hfront, hlast⟩ := append_inj' h rfl
    exact .inl ⟨hfront, (cons.inj hlast).1, rfl⟩
  · rw [concat_eq_append] at h ⊢
    rw [← cons_append, ← append_assoc] at h
    obtain ⟨hfront, hlast⟩ := append_inj' h rfl
    exact .inr ⟨back', by rw [(cons.inj hlast).1], hfront⟩

theorem countP_concat_le_one {p : StreamChunk → Bool} :
    (l ++ [c]).countP p ≤ 1 ↔ l.countP p ≤ 1 ∧ (p c = true → ∀ d ∈ l, p d = false) := by
  rw [countP_append, countP_singleton]
  cases hc : p c with
  | false => simp
  | true =>
    rw [if_pos rfl]
    constructor
    · intro h
      have hzero : l.countP p = 0 := by omega
      refine ⟨by omega, fun _ d hd => ?_⟩
      exact Bool.eq_false_iff.mpr (countP_eq_zero.mp hzero d hd)
    · rintro ⟨-, hnone⟩
      have hzero : l.countP p = 0 :=
        countP_eq_zero.mpr fun d hd => Bool.eq_false_iff.mp (hnone rfl d hd)
      omega

/-- **One more chunk** keeps the order iff none before it is terminal and it fits. -/
theorem inOrder_concat {runId : String} :
    InOrder runId (l ++ [c]) ↔ InOrder runId l ∧ NoTerminal l ∧ Fits runId l c := by
  constructor
  · intro h
    have hlast : c ∈ l ++ [c] := mem_append_right _ (mem_singleton_self c)
    have hsplit : ∀ front d back, l = front ++ d :: back →
        l ++ [c] = front ++ d :: (back ++ [c]) := by
      intro front d back heq
      rw [heq, append_assoc]
      rfl
    obtain ⟨hinit, hfirst⟩ := countP_concat_le_one.mp h.oneInit
    refine ⟨⟨fun d hd => h.noStart d (mem_append_left _ hd),
      fun d hd => h.oneRun d (mem_append_left _ hd), hinit,
      fun id => (countP_concat_le_one.mp (h.startedOnce id)).1, ?_, ?_⟩, ?_, ?_⟩
    · intro front d back heq
      exact h.opened front d _ (hsplit front d back heq)
    · intro front d back heq hterminal
      have hnil := h.closed front d _ (hsplit front d back heq) hterminal
      exact absurd hnil (append_ne_nil_of_right_ne_nil _ (cons_ne_nil _ _))
    · intro d hd
      obtain ⟨front, back, heq⟩ := append_of_mem hd
      refine Bool.eq_false_iff.mpr fun hterminal => ?_
      have hnil := h.closed front d _ (hsplit front d back heq) hterminal
      exact absurd hnil (append_ne_nil_of_right_ne_nil _ (cons_ne_nil _ _))
    · refine ⟨h.noStart c hlast, h.oneRun c hlast, hfirst, fun id hid d hd => ?_,
        h.opened l c [] rfl⟩
      have hfresh := (countP_concat_le_one.mp (h.startedOnce id)).2 (decide_eq_true hid) d hd
      exact of_decide_eq_false hfresh
  · rintro ⟨h, hquiet, hfits⟩
    have hall : ∀ {P : StreamChunk → Prop}, (∀ d ∈ l, P d) → P c → ∀ d ∈ l ++ [c], P d :=
      fun hl hc => forall_mem_append.mpr ⟨hl, forall_mem_singleton.mpr hc⟩
    refine ⟨hall h.noStart hfits.notStart, hall h.oneRun hfits.sameRun,
      countP_concat_le_one.mpr ⟨h.oneInit, hfits.firstInit⟩, fun id => ?_, ?_, ?_⟩
    · refine countP_concat_le_one.mpr ⟨h.startedOnce id, fun hid d hd => ?_⟩
      exact decide_eq_false (hfits.fresh id (of_decide_eq_true hid) d hd)
    · intro front d back heq id hid
      rcases concat_eq_split heq with ⟨rfl, rfl, -⟩ | ⟨back', -, hl⟩
      · exact hfits.open_ id hid
      · exact h.opened front d back' hl id hid
    · intro front d back heq hterminal
      rcases concat_eq_split heq with ⟨-, -, hback⟩ | ⟨back', -, hl⟩
      · exact hback
      · have hmem : d ∈ l := hl ▸ mem_append_right _ mem_cons_self
        rw [hquiet d hmem] at hterminal
        nomatch hterminal

theorem InOrder.front {runId : String} :
    ∀ {l' : List StreamChunk}, InOrder runId (l ++ l') → InOrder runId l := by
  intro l'
  induction l' using List.reverseRecOn with
  | nil =>
    intro h
    rwa [append_nil] at h
  | append_singleton l' c ih =>
    intro h
    rw [← append_assoc] at h
    exact ih (inOrder_concat.mp h).1

theorem inOrder_nil (runId : String) : InOrder runId [] where
  noStart _ h := nomatch h
  oneRun _ h := nomatch h
  oneInit := Nat.zero_le 1
  startedOnce _ := Nat.zero_le 1
  opened _ _ _ h := absurd h.symm (append_ne_nil_of_right_ne_nil _ (cons_ne_nil _ _))
  closed _ _ _ h := absurd h.symm (append_ne_nil_of_right_ne_nil _ (cons_ne_nil _ _))

/-! ## One round of the loop -/

/-- What the variables of the loop say of the chunks it has passed. -/
structure Watch.Tracks (w : Watch) (l : List StreamChunk) : Prop where
  init : w.sawSessionInit = true ↔ ∃ c ∈ l, c.isSessionInit = true
  open_ : ∀ id, id ∈ w.openTools ↔ OpenIn l id
  known : ∀ id, id ∈ w.openTools ∨ id ∈ w.closedTools ↔ ∃ c ∈ l, started? c = some id

theorem openIn_concat {id : String} :
    OpenIn (l ++ [c]) id ↔
      (OpenIn l id ∨ started? c = some id ∧ ∀ d ∈ l, ended? d ≠ some id) ∧ ended? c ≠ some id := by
  unfold OpenIn
  rw [forall_mem_append, forall_mem_singleton]
  constructor
  · rintro ⟨⟨d, hd, hstarted⟩, hended, hlast⟩
    refine ⟨?_, hlast⟩
    rcases mem_append.mp hd with hd | hd
    · exact .inl ⟨⟨d, hd, hstarted⟩, hended⟩
    · rw [mem_singleton.mp hd] at hstarted
      exact .inr ⟨hstarted, hended⟩
  · rintro ⟨⟨⟨d, hd, hstarted⟩, hended⟩ | ⟨hstarted, hended⟩, hlast⟩
    · exact ⟨⟨d, mem_append_left _ hd, hstarted⟩, hended, hlast⟩
    · exact ⟨⟨c, mem_append_right _ (mem_singleton_self c), hstarted⟩, hended, hlast⟩

theorem startedIn_concat {id : String} :
    (∃ d ∈ l ++ [c], started? d = some id) ↔
      (∃ d ∈ l, started? d = some id) ∨ started? c = some id := by
  simp only [mem_append, mem_singleton, or_and_right, exists_or, exists_eq_left]

theorem InOrder.not_ended {runId : String} (h : InOrder runId l)
    {id : String} (hfresh : ∀ d ∈ l, started? d ≠ some id) : ∀ d ∈ l, ended? d ≠ some id := by
  intro d hd hended
  obtain ⟨front, back, rfl⟩ := append_of_mem hd
  have hused : used? d = some id := by
    unfold ended? at hended
    unfold used?
    split at hended
    · next heq => rw [heq, ← hended]
    · nomatch hended
  obtain ⟨⟨s, hs, hstarted⟩, -⟩ := h.opened front d back rfl id hused
  exact hfresh s (mem_append_left _ hs) hstarted

namespace Watch

variable {w w' : Watch} {l : List StreamChunk} {c : StreamChunk}

/-- A chunk that neither starts nor ends a call leaves what is said of calls. -/
theorem Tracks.still (h : w.Tracks l) (hstarted : started? c = none) (hended : ended? c = none) :
    (∀ id, id ∈ w.openTools ↔ OpenIn (l ++ [c]) id) ∧
      ∀ id, id ∈ w.openTools ∨ id ∈ w.closedTools ↔ ∃ d ∈ l ++ [c], started? d = some id := by
  constructor
  · intro id
    rw [h.open_, openIn_concat, hstarted, hended]
    simp
  · intro id
    rw [h.known, startedIn_concat, hstarted]
    simp

theorem Tracks.pass (h : w.Tracks l) (hinit : c.isSessionInit = false)
    (hstarted : started? c = none) (hended : ended? c = none) : w.Tracks (l ++ [c]) where
  init := by
    rw [h.init]
    simp [hinit]
  open_ := (h.still hstarted hended).1
  known := (h.still hstarted hended).2

/-- **One round**: the check lets a chunk pass iff it fits, and the variables then know
    of it. -/
theorem check_spec (h : w.Tracks l) (hl : InOrder w.runId l) :
    match w.check c with
    | .inl _ => ¬ Fits w.runId l c
    | .inr w' => Fits w.runId l c ∧ w'.Tracks (l ++ [c]) ∧ w'.runId = w.runId := by
  unfold Watch.check
  by_cases hstart : c.isRunStart = true
  · rw [if_pos hstart]
    intro hfits
    rw [hfits.notStart] at hstart
    nomatch hstart
  rw [if_neg hstart]
  replace hstart := Bool.eq_false_iff.mpr hstart
  by_cases hrun : c.runId = w.runId
  swap
  · rw [if_pos hrun]
    exact fun hfits => hrun hfits.sameRun
  rw [if_neg (not_not_intro hrun)]
  obtain ⟨runId, body, raw⟩ := c
  cases body with
  | sessionInit providerId providerSessionId tools mcpServers =>
    dsimp only
    cases hsaw : w.sawSessionInit with
    | true =>
      rw [if_pos rfl]
      intro hfits
      obtain ⟨d, hd, hinit⟩ := h.init.mp hsaw
      rw [hfits.firstInit rfl d hd] at hinit
      nomatch hinit
    | false =>
      rw [if_neg Bool.false_ne_true]
      refine ⟨⟨hstart, hrun, fun _ d hd => ?_, fun _ => nofun, fun _ => nofun⟩,
        ⟨?_, fun id => ?_, fun id => ?_⟩, rfl⟩
      · refine Bool.eq_false_iff.mpr fun hinit => ?_
        rw [h.init.mpr ⟨d, hd, hinit⟩] at hsaw
        nomatch hsaw
      · exact iff_of_true rfl ⟨_, mem_append_right _ (mem_singleton_self _), rfl⟩
      · exact (h.still rfl rfl).1 id
      · exact (h.still rfl rfl).2 id
  | toolCallStart id name =>
    have hcontains : (w.openTools.contains id || w.closedTools.contains id) = true ↔
        ∃ d ∈ l, started? d = some id := by
      rw [Bool.or_eq_true, contains_iff_mem, contains_iff_mem, h.known]
    dsimp only
    by_cases hknown : (w.openTools.contains id || w.closedTools.contains id) = true
    · rw [if_pos hknown]
      intro hfits
      obtain ⟨d, hd, hstarted⟩ := hcontains.mp hknown
      exact hfits.fresh id rfl d hd hstarted
    · rw [if_neg hknown]
      have hfresh : ∀ d ∈ l, started? d ≠ some id := fun d hd hstarted =>
        hknown (hcontains.mpr ⟨d, hd, hstarted⟩)
      have hnever := hl.not_ended hfresh
      refine ⟨⟨hstart, hrun, nofun, fun id' hid' => ?_, fun _ => nofun⟩,
        ⟨?_, fun id' => ?_, fun id' => ?_⟩, rfl⟩
      · obtain rfl : id = id' := some.inj hid'
        exact hfresh
      · rw [h.init]
        simp [StreamChunk.isSessionInit]
      · rw [openIn_concat, mem_append, mem_singleton, h.open_]
        constructor
        · rintro (hopen | rfl)
          · exact ⟨.inl hopen, nofun⟩
          · exact ⟨.inr ⟨rfl, hnever⟩, nofun⟩
        · rintro ⟨hopen | ⟨hstarted, -⟩, -⟩
          · exact .inl hopen
          · exact .inr (some.inj hstarted).symm
      · rw [startedIn_concat, ← h.known, mem_append, mem_singleton]
        constructor
        · rintro ((hopen | rfl) | hclosed)
          · exact .inl (.inl hopen)
          · exact .inr rfl
          · exact .inl (.inr hclosed)
        · rintro ((hopen | hclosed) | hstarted)
          · exact .inl (.inl hopen)
          · exact .inr hclosed
          · exact .inl (.inr (some.inj hstarted).symm)
  | toolCallDelta id args =>
    dsimp only
    by_cases hopen : w.openTools.contains id = true
    · rw [if_pos hopen]
      rw [contains_iff_mem, h.open_] at hopen
      refine ⟨⟨hstart, hrun, nofun, fun _ => nofun, fun id' hid' => ?_⟩,
        h.pass rfl rfl rfl, rfl⟩
      obtain rfl : id = id' := some.inj hid'
      exact hopen
    · rw [if_neg hopen]
      rw [contains_iff_mem, h.open_] at hopen
      exact fun hfits => hopen (hfits.open_ id rfl)
  | toolCallEnd id input =>
    dsimp only
    by_cases hopen : w.openTools.contains id = true
    · rw [if_pos hopen]
      rw [contains_iff_mem] at hopen
      refine ⟨⟨hstart, hrun, nofun, fun _ => nofun, fun id' hid' => ?_⟩,
        ⟨?_, fun id' => ?_, fun id' => ?_⟩, rfl⟩
      · obtain rfl : id = id' := some.inj hid'
        exact (h.open_ id).mp hopen
      · rw [h.init]
        simp [StreamChunk.isSessionInit]
      · rw [openIn_concat, mem_filter, decide_eq_true_eq, h.open_]
        constructor
        · rintro ⟨hopen', hne⟩
          exact ⟨.inl hopen', fun hended => hne (some.inj hended).symm⟩
        · rintro ⟨hopen' | ⟨hstarted, -⟩, hne⟩
          · exact ⟨hopen', fun heq => hne (congrArg some heq.symm)⟩
          · nomatch hstarted
      · rw [startedIn_concat, ← h.known, mem_filter, decide_eq_true_eq, mem_append,
          mem_singleton]
        constructor
        · rintro (⟨hopen', -⟩ | hclosed | rfl)
          · exact .inl (.inl hopen')
          · exact .inl (.inr hclosed)
          · exact .inl (.inl hopen)
        · rintro ((hopen' | hclosed) | hstarted)
          · by_cases heq : id' = id
            · exact .inr (.inr heq)
            · exact .inl ⟨hopen', heq⟩
          · exact .inr (.inl hclosed)
          · nomatch hstarted
    · rw [if_neg hopen]
      rw [contains_iff_mem, h.open_] at hopen
      exact fun hfits => hopen (hfits.open_ id rfl)
  | runStart => nomatch hstart
  | _ =>
    refine ⟨⟨hstart, hrun, nofun, fun _ => nofun, fun _ => nofun⟩,
      h.pass rfl rfl rfl, rfl⟩

end Watch

/-! ## The whole loop -/

/-- What comes of a source, behind chunks that were passed: all up to its first terminal chunk, or a
    part and the violation of the first chunk that does not fit. -/
inductive Enforced (runId : String) (front rest : List StreamChunk) : List StreamChunk → Prop where
  | passed (inOrder : InOrder runId (front ++ upToTerminal rest)) :
      Enforced runId front rest (upToTerminal rest)
  | broken (kept : List StreamChunk) {back : List StreamChunk} {c error : StreamChunk} (split : rest = kept ++ c :: back)
      (inOrder : InOrder runId (front ++ kept)) (quiet : NoTerminal kept)
      (misfit : ¬ InOrder runId (front ++ kept ++ [c])) (parse : IsParseError error) :
      Enforced runId front rest (kept ++ [error])

/-- **The loop behind the `run-start`.** -/
theorem enforcer_watched : ∀ (rest front : List StreamChunk) (w : Watch), w.Tracks front →
    InOrder w.runId front → NoTerminal front →
      Enforced w.runId front rest (enforcer.run (some w) rest).1 := by
  intro rest
  induction rest with
  | nil =>
    intro front w _ hfront _
    exact .passed (by rw [upToTerminal, append_nil]; exact hfront)
  | cons c rest ih =>
    intro front w htracks hfront hquiet
    have hspec := Watch.check_spec (c := c) htracks hfront
    have hstep : enforcer.step (some w) c = match w.check c with
      | Sum.inl message => ([violation c message (some w.providerId)], Sum.inr ())
      | Sum.inr w => ([c], if c.isTerminal then Sum.inr () else Sum.inl (some w)) := rfl
    cases hcheck : w.check c with
    | inl message =>
      rw [hcheck] at hspec hstep
      rw [enforcer.run_cons_inr hstep]
      refine .broken [] rfl ?_ noTerminal_nil ?_ ⟨_, rfl, rfl⟩
      · rw [append_nil]
        exact hfront
      · rw [append_nil]
        exact fun h => hspec (inOrder_concat.mp h).2.2
    | inr w' =>
      rw [hcheck] at hspec hstep
      dsimp only at hstep
      obtain ⟨hfits, htracks', hsame⟩ := hspec
      have hfront' := inOrder_concat.mpr ⟨hfront, hquiet, hfits⟩
      cases hterminal : c.isTerminal with
      | true =>
        rw [hterminal, if_pos rfl] at hstep
        rw [enforcer.run_cons_inr hstep]
        have hcut : upToTerminal (c :: rest) = [c] := by rw [upToTerminal, hterminal, if_pos rfl]
        rw [← hcut]
        exact .passed (by rw [hcut]; exact hfront')
      | false =>
        rw [hterminal, if_neg Bool.false_ne_true] at hstep
        rw [enforcer.run_cons_inl hstep]
        rw [← hsame] at hfront'
        have hquiet' := noTerminal_append.mpr ⟨hquiet, noTerminal_singleton.mpr hterminal⟩
        have hcut : upToTerminal (c :: rest) = c :: upToTerminal rest := by
          rw [upToTerminal, hterminal, if_neg Bool.false_ne_true]
        have hrest := ih (front ++ [c]) w' htracks' hfront' hquiet'
        rw [hsame] at hrest
        generalize (enforcer.run (some w') rest).1 = out at hrest
        cases hrest with
        | passed h =>
          rw [singleton_append, ← hcut]
          refine .passed ?_
          rwa [hcut, append_cons]
        | @broken kept back d error hsplit h hkept hmisfit hparse =>
          refine .broken (c :: kept) (by rw [hsplit]; rfl) ?_ ?_ ?_ hparse
          · rwa [append_cons front c kept]
          · exact forall_mem_cons.mpr ⟨hterminal, hkept⟩
          · rwa [append_cons front c kept]

variable {start : StreamChunk}

theorem valid_start (hstart : start.isRunStart = true)
    {rest : List StreamChunk} : Valid (start :: rest) ↔ InOrder start.runId rest := by
  constructor
  · rintro (hnil | ⟨c, hc, herror⟩ | ⟨start', rest', heq, -, hrest⟩)
    · nomatch hnil
    · obtain rfl := (cons.inj hc).1
      obtain ⟨runId, body, raw⟩ := start
      cases body with
      | error => nomatch hstart
      | _ => nomatch herror
    · obtain ⟨rfl, rfl⟩ := cons.inj heq
      exact hrest
  · exact fun hrest => .inr (.inr ⟨start, rest, rfl, hstart, hrest⟩)

/-- **The loop from the `run-start` on.** -/
theorem enforcer_started (hstart : start.isRunStart = true)
    (rest : List StreamChunk) : ∃ out, Enforced start.runId [] rest out ∧
      enforceStreamContract (start :: rest) = start :: out := by
  obtain ⟨runId, body, raw⟩ := start
  cases body with
  | runStart adapterId model ts =>
    let w : Watch := { runId, providerId := adapterId }
    have htracks : w.Tracks [] := {
      init := iff_of_false Bool.false_ne_true fun ⟨_, h, _⟩ => nomatch h
      open_ := fun id => iff_of_false not_mem_nil fun ⟨⟨_, h, _⟩, _⟩ => nomatch h
      known := fun id => iff_of_false (fun h => h.elim not_mem_nil not_mem_nil)
        fun ⟨_, h, _⟩ => nomatch h }
    exact ⟨_, enforcer_watched rest [] w htracks (inOrder_nil runId) noTerminal_nil, rfl⟩
  | _ => nomatch hstart

theorem enforcer_error (herror : start.error?.isSome = true)
    (rest : List StreamChunk) : upToTerminal (start :: rest) = [start] ∧
      enforceStreamContract (start :: rest) = [start] := by
  obtain ⟨runId, body, raw⟩ := start
  cases body with
  | error => exact ⟨rfl, rfl⟩
  | _ => nomatch herror

theorem enforcer_misfit (hstart : ¬ start.isRunStart = true)
    (herror : ¬ start.error?.isSome = true) (rest : List StreamChunk) :
    ∃ error, enforceStreamContract (start :: rest) = [] ++ [error] ∧ IsParseError error := by
  obtain ⟨runId, body, raw⟩ := start
  cases body with
  | error => exact absurd rfl herror
  | runStart => exact absurd rfl hstart
  | _ => exact ⟨_, rfl, _, rfl, rfl⟩

theorem upToTerminal_append (h : NoTerminal l) (l' : List StreamChunk) :
    upToTerminal (l ++ l') = l ++ upToTerminal l' := by
  induction l with
  | nil => rfl
  | cons c l ih =>
    obtain ⟨hc, hl⟩ := forall_mem_cons.mp h
    rw [cons_append, upToTerminal, hc, if_neg Bool.false_ne_true, ih hl]
    rfl

/-- **Contract enforcement is exact**: the validator yields the source cut after its first terminal
    chunk if that is valid, and otherwise the longest valid prefix of the source and one parse
    error. -/
theorem enforce_exact (source : List StreamChunk) :
    (Valid (upToTerminal source) ∧ enforceStreamContract source = upToTerminal source) ∨
      (¬ Valid (upToTerminal source) ∧ ∃ front error,
        enforceStreamContract source = front ++ [error] ∧ IsParseError error ∧
        front <+: source ∧ Valid front ∧ ∀ p, p <+: source → Valid p → p <+: front) := by
  cases source with
  | nil => exact .inl ⟨.inl rfl, rfl⟩
  | cons start rest =>
    by_cases hstart : start.isRunStart = true
    · have hloop := enforcer_started hstart rest
      have hquiet : start.isTerminal = false := by
        obtain ⟨runId, body, raw⟩ := start
        cases body <;> first | rfl | cases hstart
      have hcut : upToTerminal (start :: rest) = start :: upToTerminal rest := by
        rw [upToTerminal, hquiet, if_neg Bool.false_ne_true]
      rw [hcut, valid_start hstart]
      obtain ⟨out, hout, hrun⟩ := hloop
      rw [hrun]
      cases hout with
      | passed inOrder => exact .inl ⟨inOrder, rfl⟩
      | @broken kept back c error split inOrder quiet misfit parse =>
        subst split
        have hreaches : ∀ p, kept ++ [c] <+: p → ¬ InOrder start.runId p := by
          rintro p ⟨more, rfl⟩ hp
          exact misfit hp.front
        refine .inr ⟨hreaches _ ?_, start :: kept, error, rfl, parse, ?_,
          (valid_start hstart).mpr inOrder, fun p hp hvalid => ?_⟩
        · rw [upToTerminal_append quiet, upToTerminal]
          split
          · exact prefix_refl _
          · exact ⟨upToTerminal back, by rw [append_assoc]; rfl⟩
        · exact ⟨c :: back, rfl⟩
        · -- a longer prefix would hold the chunk that does not fit
          rcases p with - | ⟨d, p⟩
          · exact nil_prefix
          obtain ⟨rfl, hrest⟩ := cons_prefix_cons.mp hp
          refine cons_prefix_cons.mpr ⟨rfl, ?_⟩
          have hsource : kept ++ [c] <+: kept ++ c :: back := ⟨back, by rw [append_assoc]; rfl⟩
          rcases prefix_or_prefix_of_prefix hsource hrest with hlong | hshort
          · exact absurd ((valid_start hstart).mp hvalid) (hreaches p hlong)
          · rcases prefix_concat_iff.mp hshort with rfl | hkept
            · exact absurd ((valid_start hstart).mp hvalid) (hreaches _ (prefix_refl _))
            · exact hkept
    · -- the first chunk is an error, or the violation
      by_cases herror : start.error?.isSome = true
      · obtain ⟨hcut, hrun⟩ := enforcer_error herror rest
        rw [hcut, hrun]
        exact .inl ⟨.inr (.inl ⟨start, rfl, herror⟩), rfl⟩
      · obtain ⟨error, hrun, hparse⟩ := enforcer_misfit hstart herror rest
        have hinvalid : ∀ p, ¬ Valid (start :: p) := by
          rintro p (hnil | ⟨c, hc, herror'⟩ | ⟨start', rest', heq, hstart', -⟩)
          · cases hnil
          · exact herror ((cons.inj hc).1 ▸ herror')
          · exact hstart ((cons.inj heq).1 ▸ hstart')
        refine .inr ⟨?_, [], error, hrun, hparse, nil_prefix, .inl rfl, fun p hp hvalid => ?_⟩
        · rw [upToTerminal]
          split <;> exact hinvalid _
        · rcases p with - | ⟨d, p⟩
          · exact nil_prefix
          · obtain ⟨rfl, -⟩ := cons_prefix_cons.mp hp
            exact absurd hvalid (hinvalid p)

end NexusCode.Resilience
