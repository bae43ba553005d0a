/-
  What the windows of a text leave out.

  A window that is pulled back to whitespace ends early, while the next one starts where it would
  have started anyway: `max` picks the stride, as `end - overlap` is never behind it.  So what stands
  between the whitespace and the next window is in no window, where the overlap does not reach.

  1. `windowEnd_spec`      — where a window in the middle of a text ends.
  2. `covers_windows_iff`  — the windows cover a text if none of them leaves a gap.
  3. **`chunks_cover_iff`** — the spans are well formed, and cover the text just when no window loses
                             text; `lost_tail` — the rest of a word that nothing indexes.
-/
import NexusCode.Rag.Chunks

namespace NexusCode.Rag

open Lib List

/-- Every position from `start` on lies in a span. -/
def Covers (spans : List Span) (start stop : Nat) : Prop :=
  ∀ i, start ≤ i → i < stop → ∃ s ∈ spans, s.start ≤ i ∧ i < s.stop

/-- A window of the middle of a text that starts at `s` loses text: the last whitespace in it lies in
    its second half, and in front of the place where the next window starts. -/
def LosesText (text : Text) (chunkSize overlap s : Nat) : Prop :=
  s + chunkSize < text.length ∧ ∃ p, s < p ∧ s + chunkSize / 2 < p + 1 ∧
    p + 1 < s + (chunkSize - overlap) ∧ isWhitespaceAt text p = true ∧
    ∀ q, p < q → q < s + chunkSize → isWhitespaceAt text q = false

section Windows

variable {text : Text} {chunkSize overlap s : Nat} {respect : Bool}

theorem lastWhitespace_spec (stop n : Nat) :
    (∃ p, s < p ∧ p ≤ s + n ∧ isWhitespaceAt text p = true ∧
      (∀ q, p < q → q ≤ s + n → isWhitespaceAt text q = false) ∧
      lastWhitespace text s stop n = p + 1) ∨
    (∀ q, s < q → q ≤ s + n → isWhitespaceAt text q = false) ∧
      lastWhitespace text s stop n = stop := by
  induction n with
  | zero => exact .inr ⟨fun q hq hle => by omega, rfl⟩
  | succ n ih =>
    unfold lastWhitespace
    cases hwhite : isWhitespaceAt text (s + n + 1) with
    | true => exact .inl ⟨s + n + 1, by omega, by omega, hwhite, fun q hq hle => by omega, rfl⟩
    | false =>
      have hlast : ∀ {q}, q ≤ s + (n + 1) → (q ≤ s + n → isWhitespaceAt text q = false) →
          isWhitespaceAt text q = false := by
        intro q hle hbefore
        rcases Nat.lt_or_ge (s + n) q with hq | hq
        · obtain rfl : q = s + n + 1 := by omega
          exact hwhite
        · exact hbefore hq
      rcases ih with ⟨p, hp, hle, hpw, hafter, heq⟩ | ⟨hnone, heq⟩
      · exact .inl ⟨p, hp, by omega, hpw, fun q hq hqle => hlast hqle (hafter q hq), heq⟩
      · exact .inr ⟨fun q hq hqle => hlast hqle (hnone q hq), heq⟩

theorem windowEnd_of_le (h : text.length ≤ s + chunkSize) :
    windowEnd text chunkSize respect s = text.length := by
  unfold windowEnd
  rw [Nat.min_eq_right h]
  simp

theorem windowEnd_plain (h : s + chunkSize < text.length) :
    windowEnd text chunkSize false s = s + chunkSize := by
  unfold windowEnd
  rw [Nat.min_eq_left (Nat.le_of_lt h)]
  simp

/-- **A window in the middle of a text** ends behind the last whitespace in it, if that lies in its
    second half. -/
theorem windowEnd_spec (hsize : 0 < chunkSize) (h : s + chunkSize < text.length) :
    (∃ p, s < p ∧ p < s + chunkSize ∧ s + chunkSize / 2 < p + 1 ∧ isWhitespaceAt text p = true ∧
      (∀ q, p < q → q < s + chunkSize → isWhitespaceAt text q = false) ∧
      windowEnd text chunkSize true s = p + 1) ∨
    (∀ p, s < p → p < s + chunkSize → isWhitespaceAt text p = true → p + 1 ≤ s + chunkSize / 2) ∧
      windowEnd text chunkSize true s = s + chunkSize := by
  unfold windowEnd
  rw [Nat.min_eq_left (Nat.le_of_lt h)]
  simp only [Bool.true_and, h, decide_true, if_true]
  rcases @lastWhitespace_spec text s (s + chunkSize) (s + chunkSize - s - 1) with
    ⟨p, hp, hle, hwhite, hafter, heq⟩ | ⟨hnone, heq⟩
  · rw [heq]
    split
    · rename_i hhalf
      exact .inl ⟨p, hp, by omega, hhalf, hwhite, fun q hq hqs => hafter q hq (by omega), rfl⟩
    · refine .inr ⟨fun q hq hqs hqw => ?_, rfl⟩
      rcases Nat.lt_or_ge p q with hpq | hpq
      · rw [hafter q hpq (by omega)] at hqw
        nomatch hqw
      · omega
  · rw [heq]
    refine .inr ⟨fun q hq hqs hqw => ?_, by split <;> rfl⟩
    rw [hnone q hq (by omega)] at hqw
    nomatch hqw

theorem windowEnd_bounds (hsize : 0 < chunkSize) (hs : s < text.length) :
    s < windowEnd text chunkSize respect s ∧ windowEnd text chunkSize respect s ≤ s + chunkSize ∧
      windowEnd text chunkSize respect s ≤ text.length := by
  rcases Nat.lt_or_ge (s + chunkSize) text.length with h | h
  · cases respect with
    | false =>
      rw [windowEnd_plain h]
      omega
    | true =>
      rcases windowEnd_spec hsize h with ⟨p, hp, hlt, -, -, -, heq⟩ | ⟨-, heq⟩
      all_goals
        rw [heq]
        omega
  · rw [windowEnd_of_le h]
    omega

theorem windowEnd_mono (hsize : 0 < chunkSize) (hs : s < text.length) {t : Nat} (hst : s ≤ t) :
    windowEnd text chunkSize respect s ≤ windowEnd text chunkSize respect t := by
  obtain ⟨-, hle, hlen⟩ := @windowEnd_bounds text chunkSize s respect hsize hs
  rcases Nat.lt_or_ge (t + chunkSize) text.length with h | h
  · cases respect with
    | false =>
      rw [windowEnd_plain h]
      omega
    | true =>
      rcases windowEnd_spec hsize h with ⟨p, hp, hlt, hhalf, hwhite, hafter, heq⟩ | ⟨-, heq⟩
      · -- the whitespace of the later window is the last one of the earlier, if it is in it
        rcases @windowEnd_spec text chunkSize s hsize (by omega) with
          ⟨q, -, hq, -, hqw, -, hend⟩ | ⟨hnone, -⟩
        · rcases Nat.lt_or_ge p q with hpq | hpq
          · rw [hafter q hpq (by omega)] at hqw
            nomatch hqw
          · omega
        · rcases Nat.lt_or_ge p (s + chunkSize) with hps | hps
          · have hearly := hnone p (by omega) hps hwhite
            omega
          · omega
      · omega
  · rw [windowEnd_of_le h]
    exact hlen

theorem losesText_iff (hsize : 0 < chunkSize) (h : s + chunkSize < text.length) :
    LosesText text chunkSize overlap s ↔
      windowEnd text chunkSize true s < s + (chunkSize - overlap) := by
  constructor
  · rintro ⟨-, p, hp, hhalf, hnext, hwhite, hafter⟩
    rcases windowEnd_spec hsize h with ⟨q, -, hqs, -, hqw, -, heq⟩ | ⟨hnone, -⟩
    · rcases Nat.lt_or_ge p q with hpq | hpq
      · rw [hafter q hpq hqs] at hqw
        nomatch hqw
      · omega
    · have hearly := hnone p hp (by omega) hwhite
      omega
  · intro hend
    rcases windowEnd_spec hsize h with ⟨p, hp, -, hhalf, hwhite, hafter, heq⟩ | ⟨-, heq⟩
    · exact ⟨h, p, hp, hhalf, by omega, hwhite, hafter⟩
    · omega

variable (hstride : overlap < chunkSize)

/-- **One window and the next**, which starts a stride behind it. -/
theorem windows_eq (hs : s < text.length) : windows text hstride respect s =
    ⟨s, windowEnd text chunkSize respect s⟩ ::
      if text.length ≤ s + chunkSize then []
      else windows text hstride respect (s + (chunkSize - overlap)) := by
  obtain ⟨hlt, hle, hlen⟩ := @windowEnd_bounds text chunkSize s respect (by omega) hs
  have hnext : max (s + (chunkSize - overlap)) (windowEnd text chunkSize respect s - overlap) =
      s + (chunkSize - overlap) := by omega
  rw [windows, if_pos hs]
  dsimp only
  rw [hnext]
  rcases Nat.lt_or_ge (s + chunkSize) text.length with h | h
  · rw [if_neg (by omega), if_neg (by omega)]
  · rw [windowEnd_of_le h, if_pos (Nat.le_refl _), if_pos h]

/-- The spans of the windows from `s` on are well formed, and start there or later. -/
theorem windows_spec (s : Nat) : (∀ w ∈ windows text hstride respect s, s ≤ w.start ∧
      w.start < w.stop ∧ w.stop ≤ text.length ∧ w.stop ≤ w.start + chunkSize) ∧
    (windows text hstride respect s).Pairwise (·.start < ·.start) := by
  rcases Nat.lt_or_ge s text.length with hs | hs
  · have hbounds := @windowEnd_bounds text chunkSize s respect (by omega) hs
    rw [windows_eq hstride hs]
    split
    · refine ⟨forall_mem_singleton.mpr ⟨Nat.le_refl s, ?_⟩, pairwise_singleton _ _⟩
      exact ⟨hbounds.1, hbounds.2.2, hbounds.2.1⟩
    · obtain ⟨hspans, hstarts⟩ := windows_spec (s + (chunkSize - overlap))
      refine ⟨forall_mem_cons.mpr ⟨⟨Nat.le_refl s, hbounds.1, hbounds.2.2, hbounds.2.1⟩,
        fun w hw => ?_⟩, pairwise_cons.mpr ⟨fun w hw => ?_, hstarts⟩⟩
      · obtain ⟨hstart, hrest⟩ := hspans w hw
        exact ⟨by omega, hrest⟩
      · have hstart := (hspans w hw).1
        show s < w.start
        omega
  · rw [windows, if_neg (Nat.not_lt.mpr hs)]
    exact ⟨fun w hw => (nomatch hw), Pairwise.nil⟩
termination_by text.length - s

/-- **The windows from `s` on cover the rest of the text** iff none of them loses text. -/
theorem covers_windows_iff (s : Nat) (hs : s < text.length) :
    Covers (windows text hstride respect s) s text.length ↔
      (respect = true → ∀ k, ¬ LosesText text chunkSize overlap (s + k * (chunkSize - overlap))) := by
  have hsize := Nat.zero_lt_of_lt hstride
  obtain ⟨hlt, hle, hlen⟩ := @windowEnd_bounds text chunkSize s respect hsize hs
  rw [windows_eq hstride hs]
  rcases Nat.lt_or_ge (s + chunkSize) text.length with h | h
  · rw [if_neg (by omega)]
    have hs' : s + (chunkSize - overlap) < text.length := by omega
    have ih := covers_windows_iff (s + (chunkSize - overlap)) hs'
    have hlater := (@windows_spec text chunkSize overlap respect hstride
      (s + (chunkSize - overlap))).1
    have hreach : Covers (⟨s, windowEnd text chunkSize respect s⟩ ::
          windows text hstride respect (s + (chunkSize - overlap))) s text.length ↔
        s + (chunkSize - overlap) ≤ windowEnd text chunkSize respect s ∧
          Covers (windows text hstride respect (s + (chunkSize - overlap)))
            (s + (chunkSize - overlap)) text.length := by
      constructor
      · intro hcovers
        constructor
        · refine Nat.le_of_not_lt fun hgap => ?_
          obtain ⟨w, hw, hstart, hstop⟩ := hcovers _ (Nat.le_of_lt hlt) (Nat.lt_trans hgap hs')
          rcases mem_cons.mp hw with rfl | hw
          · exact Nat.lt_irrefl _ hstop
          · have hbehind := (hlater w hw).1
            omega
        · intro i hi hin
          obtain ⟨w, hw, hstart, hstop⟩ := hcovers i (by omega) hin
          rcases mem_cons.mp hw with rfl | hw
          · -- the next window does not end earlier
            have hmono := @windowEnd_mono text chunkSize s respect hsize hs
              (s + (chunkSize - overlap)) (by omega)
            rw [windows_eq hstride hs']
            exact ⟨_, mem_cons_self, hi, Nat.lt_of_lt_of_le hstop hmono⟩
          · exact ⟨w, hw, hstart, hstop⟩
      · rintro ⟨hnext, hcovers⟩ i hi hin
        rcases Nat.lt_or_ge i (s + (chunkSize - overlap)) with hfirst | hrest
        · exact ⟨_, mem_cons_self, hi, Nat.lt_of_lt_of_le hfirst hnext⟩
        · obtain ⟨w, hw, hin⟩ := hcovers i hrest hin
          exact ⟨w, mem_cons_of_mem _ hw, hin⟩
    rw [hreach, ih]
    cases respect with
    | false =>
      rw [windowEnd_plain h]
      simp
    | true =>
      rw [← Nat.not_lt, ← losesText_iff hsize h]
      simp only [forall_const]
      constructor
      · rintro ⟨hfirst, hrest⟩ k
        cases k with
        | zero => rwa [Nat.zero_mul, Nat.add_zero]
        | succ k =>
          rw [Nat.succ_mul, Nat.add_comm (k * _), ← Nat.add_assoc]
          exact hrest k
      · intro hall
        refine ⟨?_, fun k => ?_⟩
        · have hzero := hall 0
          rwa [Nat.zero_mul, Nat.add_zero] at hzero
        · have hsucc := hall (k + 1)
          rwa [Nat.succ_mul, Nat.add_comm (k * _), ← Nat.add_assoc] at hsucc
  · rw [if_pos h, windowEnd_of_le h]
    refine iff_of_true (fun i hi hin => ⟨_, mem_cons_self, hi, hin⟩) fun _ k hloses => ?_
    exact absurd hloses.1 (by omega)
termination_by text.length - s

end Windows

/-- The overlap of a call, cut down to the window. -/
def overlapOf (options : ChunkOptions) : Nat :=
  (max 0 (min (options.overlap.getD 100) (options.chunkSize.getD 800 - 1))).toNat

/-- **The spans of a text** are well formed and start one behind the other; they cover the text if and
    only if words may be cut or no window loses text. -/
theorem chunks_cover_iff (text : Text) (options : ChunkOptions)
    (hsize : 1 ≤ options.chunkSize.getD 800) :
    ∃ spans, chunkText text options = .ok spans ∧
      (∀ w ∈ spans, w.start < w.stop ∧ w.stop ≤ text.length ∧
        (w.stop : Int) ≤ w.start + options.chunkSize.getD 800) ∧
      spans.Pairwise (·.start < ·.start) ∧
      (Covers spans 0 text.length ↔ (options.respectWordBoundaries.getD true = true → ∀ k,
        ¬ LosesText text (options.chunkSize.getD 800).toNat (overlapOf options)
          (k * ((options.chunkSize.getD 800).toNat - overlapOf options)))) := by
  have hstride : overlapOf options < (options.chunkSize.getD 800).toNat := by
    unfold overlapOf
    omega
  have hsmall : text.length ≤ (options.chunkSize.getD 800).toNat → ∀ s,
      ¬ LosesText text (options.chunkSize.getD 800).toNat (overlapOf options) s :=
    fun hle s hloses => absurd hloses.1 (by omega)
  unfold chunkText
  dsimp only
  rw [dif_neg (by omega)]
  rcases Nat.eq_zero_or_pos text.length with hempty | hpos
  · rw [if_pos hempty]
    refine ⟨[], rfl, fun w hw => (nomatch hw), Pairwise.nil, iff_of_true ?_ fun _ k => ?_⟩
    · intro i _ hi
      omega
    · exact hsmall (by omega) _
  rw [if_neg (by omega)]
  split
  · refine ⟨_, rfl, forall_mem_singleton.mpr ⟨hpos, Nat.le_refl _, ?_⟩, pairwise_singleton _ _,
      iff_of_true (fun i hi hin => ⟨_, mem_cons_self, hi, hin⟩) fun _ k => ?_⟩
    · show ((text.length : Nat) : Int) ≤ ((0 : Nat) : Int) + _
      omega
    · exact hsmall (by omega) _
  · obtain ⟨hspans, hstarts⟩ := @windows_spec text _ _ (options.respectWordBoundaries.getD true) hstride 0
    have hcovers := @covers_windows_iff text _ _ (options.respectWordBoundaries.getD true)
      hstride 0 hpos
    simp only [Nat.zero_add] at hcovers
    refine ⟨_, rfl, fun w hw => ?_, hstarts, hcovers⟩
    obtain ⟨-, hlt, hlen, hle⟩ := hspans w hw
    exact ⟨hlt, hlen, by omega⟩

/-- A word of six letters and one of five. -/
def twoWords : Text := JsString.units "aaaaaa bbbbb"

theorem chunks_cover_word : ∃ spans, chunkText twoWords { chunkSize := some 12 } = .ok spans ∧
    Covers spans 0 12 := by
  obtain ⟨spans, hok, -, -, hcovers⟩ := chunks_cover_iff twoWords { chunkSize := some 12 } (by decide)
  exact ⟨spans, hok, hcovers.mpr fun _ k hloses => absurd hloses.1
    (Nat.not_lt.mpr (Nat.le_add_left _ _))⟩

/-- **Three letters are in no window** of ten without overlap: the first one ends behind the space. -/
theorem lost_tail : ¬ ∀ (text : Text) (options : ChunkOptions), 1 ≤ options.chunkSize.getD 800 →
    ∃ spans, chunkText text options = .ok spans ∧ Covers spans 0 text.length := by
  intro h
  obtain ⟨spans, hok, hcovers⟩ := h twoWords { chunkSize := some 10, overlap := some 0 } (by decide)
  have hwindows : chunkText twoWords { chunkSize := some 10, overlap := some 0 } =
      .ok (windows twoWords (by decide : 0 < 10) true 0) := by rfl
  rw [hwindows] at hok
  obtain rfl := Except.ok.inj hok
  refine (covers_windows_iff _ 0 (by decide)).mp hcovers rfl 0
    ⟨by decide, 6, by decide, by decide, by decide, by decide, fun q hq hlt => ?_⟩
  have hall : ∀ q < 10, 6 < q → isWhitespaceAt twoWords q = false := by decide
  exact hall q hlt hq

end NexusCode.Rag
