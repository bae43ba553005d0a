/-
  The order of what a continuation shows, character by character.

  A continuation's answer text loses an overlap at its start and is held back while it may still be
  one, and its other chunks pass.  What is shown is compared with what was sent item by item: a
  character of the answer is the position it has in the text that was sent (`itemsFrom`).

  1. `InOrder` — what is shown stands in the order in which it was sent.
  2. `publicFrom` — the other chunks that are shown, in their order.
  3. `passed_iff` — the text comes out behind some chunks, in order iff these were sent
     before it.
  4. `Streamed` — the three ways in which a continuation can be shown.
  5. **`Streamed.inOrder_iff`** — the order is kept iff the stream is `Orderly`.
-/
import NexusCode.Recovery.OverlapText
import NexusCode.Router.Streams

namespace NexusCode.Router

open Lib Shared Recovery List

/-! ## Sublists around an element -/

section Sublists

variable {α : Type} {a : α} {front back l l' : List α}

theorem cons_sublist_of_notMem (h : (a :: l).Sublist (front ++ l')) (hfront : a ∉ front) :
    (a :: l).Sublist l' := by
  induction front with
  | nil => exact h
  | cons b front ih =>
    rw [mem_cons, not_or] at hfront
    rw [cons_append] at h
    cases h with
    | cons _ h => exact ih h hfront.2
    | cons_cons _ h => exact absurd rfl hfront.1

/-- **An element that stands in one place**: what is before it is found before it, and what is
    behind it behind it. -/
theorem sublist_around (h : (l ++ a :: l').Sublist (front ++ a :: back)) (hfront : a ∉ front)
    (hback : a ∉ back) : l.Sublist front ∧ l'.Sublist back := by
  constructor
  · induction front generalizing l with
    | nil =>
      cases l with
      | nil => exact List.Sublist.refl _
      | cons b l =>
        have hrest : (l ++ a :: l').Sublist back := by
          rw [nil_append, cons_append] at h
          cases h with
          | cons _ h => exact (sublist_cons_self b _).trans h
          | cons_cons _ h => exact h
        exact absurd (hrest.subset (mem_append_right l mem_cons_self)) hback
    | cons b front ih =>
      rw [mem_cons, not_or] at hfront
      rw [cons_append] at h
      cases l with
      | nil => exact nil_sublist _
      | cons c l =>
        rw [cons_append] at h
        cases h with
        | cons _ h =>
          refine List.Sublist.cons b (ih ?_ hfront.2)
          exact h
        | cons_cons _ h => exact (ih h hfront.2).cons_cons _
  · have htail := (sublist_append_right l (a :: l')).trans h
    exact cons_sublist_cons.mp (cons_sublist_of_notMem htail hfront)

end Sublists

/-! ## Items -/

/-- The chunk is answer text. -/
def isAnswer (c : StreamChunk) : Bool :=
  match c.body with
  | .textDelta _ channel => channel ≠ some .reasoning
  | _ => false

/-- The answer text of a chunk. -/
def answerOf (c : StreamChunk) : List Char :=
  match c.body with
  | .textDelta text channel => if channel = some .reasoning then [] else text.toList
  | _ => []

/-- The answer text of a stream. -/
def answerText (l : List StreamChunk) : List Char := l.flatMap answerOf

/-- What a reader sees: a character of the answer, by its position in the answer, or another
    chunk. -/
inductive Item where
  | char (position : Nat)
  | chunk (c : StreamChunk)

/-- The characters from one position to another. -/
def chars (n m : Nat) : List Item := (List.range' n (m - n)).map .char

/-- The items of a chunk, where the answer has come to the position `n`. -/
def itemsOf (n : Nat) (c : StreamChunk) : List Item :=
  if isAnswer c then chars n (n + (answerOf c).length) else [.chunk c]

/-- The items of a stream. -/
def itemsFrom : Nat → List StreamChunk → List Item
  | _, [] => []
  | n, c :: l => itemsOf n c ++ itemsFrom (n + (answerOf c).length) l

/-- What is shown is in the order in which it was sent: from the end of the overlap on, it shows the
    answer, and its items stand where they stand in the source. -/
def InOrder (existing : List Char) (limit : Nat) (source out : List StreamChunk) : Prop :=
  ∃ n, LongestOverlap existing limit (answerText source) n ∧
    answerText out <+: (answerText source).drop n ∧
    (itemsFrom n out).Sublist (itemsFrom 0 source)

section Items

variable {c : StreamChunk} {l l' : List StreamChunk} {n m k p : Nat}

theorem answerOf_of_not (h : isAnswer c = false) : answerOf c = [] := by
  obtain ⟨runId, body, raw⟩ := c
  cases body with
  | textDelta text channel =>
    have hchannel : channel = some .reasoning := by simpa [isAnswer] using h
    exact if_pos hchannel
  | _ => rfl

theorem isAnswer_of_terminal (h : c.isTerminal = true) : isAnswer c = false := by
  obtain ⟨runId, body, raw⟩ := c
  cases body <;> first | rfl | nomatch h

theorem isAnswer_of_preamble (h : isPreambleChunk c = true) : isAnswer c = false := by
  obtain ⟨runId, body, raw⟩ := c
  cases body <;> first | rfl | nomatch h

theorem answerText_append (l l' : List StreamChunk) :
    answerText (l ++ l') = answerText l ++ answerText l' := List.flatMap_append

theorem answerText_cons (c : StreamChunk) (l : List StreamChunk) :
    answerText (c :: l) = answerOf c ++ answerText l := rfl

theorem answerText_eq_nil (h : ∀ c ∈ l, isAnswer c = false) : answerText l = [] :=
  flatMap_eq_nil_iff.mpr fun c hc => answerOf_of_not (h c hc)

theorem chars_append (hnk : n ≤ k) (hkm : k ≤ m) : chars n k ++ chars k m = chars n m := by
  unfold chars
  rw [← map_append]
  have hrange := range'_append_1 (s := n) (m := k - n) (n := m - k)
  rw [show n + (k - n) = k by omega, show k - n + (m - k) = m - n by omega] at hrange
  rw [hrange]

theorem chars_succ (h : n < m) : chars n m = .char n :: chars (n + 1) m := by
  unfold chars
  rw [show m - n = (m - (n + 1)) + 1 by omega, range'_succ, map_cons]

theorem chars_last (h : n ≤ m) : chars n (m + 1) = chars n m ++ [.char m] := by
  rw [← chars_append h (Nat.le_succ m), chars_succ (Nat.lt_succ_self m)]
  simp [chars]

theorem mem_chars : Item.char p ∈ chars n m ↔ n ≤ p ∧ p < m := by
  unfold chars
  rw [mem_map]
  constructor
  · rintro ⟨q, hq, heq⟩
    cases heq
    rw [mem_range'_1] at hq
    omega
  · rintro ⟨hn, hm⟩
    refine ⟨p, ?_, rfl⟩
    rw [mem_range'_1]
    omega

theorem itemsFrom_append (n : Nat) (l l' : List StreamChunk) :
    itemsFrom n (l ++ l') = itemsFrom n l ++ itemsFrom (n + (answerText l).length) l' := by
  induction l generalizing n with
  | nil => rfl
  | cons c l ih =>
    rw [cons_append, itemsFrom, itemsFrom, ih, append_assoc, answerText_cons,
      length_append, Nat.add_assoc]

theorem itemsFrom_singleton (n : Nat) (c : StreamChunk) : itemsFrom n [c] = itemsOf n c :=
  append_nil _

theorem mem_itemsFrom : Item.char p ∈ itemsFrom n l ↔ n ≤ p ∧ p < n + (answerText l).length := by
  induction l generalizing n with
  | nil =>
    refine iff_of_false not_mem_nil fun h => ?_
    rw [show answerText [] = [] from rfl, length_nil] at h
    omega
  | cons c l ih =>
    rw [itemsFrom, mem_append, ih, itemsOf, answerText_cons, length_append]
    split
    · rw [mem_chars]
      omega
    · rename_i hnot
      rw [answerOf_of_not (Bool.not_eq_true _ ▸ hnot)]
      simp

theorem itemsFrom_of_not (h : ∀ c ∈ l, isAnswer c = false) : itemsFrom n l = l.map .chunk := by
  induction l generalizing n with
  | nil => rfl
  | cons c l ih =>
    have hc := h c mem_cons_self
    rw [itemsFrom, itemsOf, hc, if_neg Bool.false_ne_true, answerOf_of_not hc,
      ih fun d hd => h d (mem_cons_of_mem c hd)]
    rfl

theorem itemsFrom_of_answer (h : ∀ c ∈ l, isAnswer c = true) :
    itemsFrom n l = chars n (n + (answerText l).length) := by
  induction l generalizing n with
  | nil => simp [itemsFrom, chars, answerText]
  | cons c l ih =>
    rw [itemsFrom, itemsOf, if_pos (h c mem_cons_self),
      ih fun d hd => h d (mem_cons_of_mem c hd), chars_append (by omega) (by omega),
      answerText_cons, length_append, Nat.add_assoc]

/-- The other chunks of a stream. -/
def otherChunks (l : List StreamChunk) : List StreamChunk := l.filter fun c => !isAnswer c

theorem mem_others : c ∈ otherChunks l ↔ c ∈ l ∧ isAnswer c = false := by
  rw [otherChunks, mem_filter, Bool.not_eq_true']

theorem otherChunks_cons (c : StreamChunk) (l : List StreamChunk) :
    otherChunks (c :: l) = if !isAnswer c then c :: otherChunks l else otherChunks l :=
  filter_cons

theorem others_append (l l' : List StreamChunk) :
    otherChunks (l ++ l') = otherChunks l ++ otherChunks l' :=
  filter_append l l'

/-- They stand among the items, -/
theorem others_sublist (n : Nat) (l : List StreamChunk) :
    ((otherChunks l).map Item.chunk).Sublist (itemsFrom n l) := by
  induction l generalizing n with
  | nil => exact List.Sublist.refl _
  | cons c l ih =>
    rw [itemsFrom, itemsOf, otherChunks_cons]
    cases hc : isAnswer c with
    | true => exact (ih _).trans (sublist_append_right _ _)
    | false => exact (ih _).cons_cons _

/-- as do the characters, -/
theorem chars_sublist (n : Nat) (l : List StreamChunk) :
    (chars n (n + (answerText l).length)).Sublist (itemsFrom n l) := by
  induction l generalizing n with
  | nil =>
    rw [show answerText [] = [] from rfl, length_nil, Nat.add_zero, chars, Nat.sub_self]
    exact List.Sublist.refl _
  | cons c l ih =>
    rw [itemsFrom, itemsOf, answerText_cons, length_append, ← Nat.add_assoc]
    cases hc : isAnswer c with
    | true =>
      rw [if_pos rfl, ← chars_append (k := n + (answerOf c).length) (by omega) (by omega)]
      exact (List.Sublist.refl _).append (ih _)
    | false =>
      rw [answerOf_of_not hc]
      exact (ih n).trans (sublist_append_right _ _)

/-- The chunk an item is. -/
def Item.chunk? : Item → Option StreamChunk
  | .chunk c => some c
  | .char _ => none

/-- and nothing else is another chunk. -/
theorem filterMap_chunk (n : Nat) (l : List StreamChunk) :
    (itemsFrom n l).filterMap Item.chunk? = otherChunks l := by
  induction l generalizing n with
  | nil => rfl
  | cons c l ih =>
    rw [itemsFrom, filterMap_append, ih, itemsOf,
      otherChunks_cons]
    cases hc : isAnswer c with
    | true =>
      have hnone : ((chars n (n + (answerOf c).length)).filterMap Item.chunk?) = [] := by
        unfold chars
        rw [filterMap_map]
        exact filterMap_eq_nil_iff.mpr fun _ _ => rfl
      rw [if_pos rfl, hnone]
      rfl
    | false => rfl

theorem exists_pivot (h : p < (answerText l).length) : ∃ front c back, l = front ++ c :: back ∧
    isAnswer c = true ∧ (answerText front).length ≤ p ∧
      p < (answerText front).length + (answerOf c).length := by
  induction l generalizing p with
  | nil => exact absurd h (Nat.not_lt_zero p)
  | cons c l ih =>
    by_cases hp : p < (answerOf c).length
    · refine ⟨[], c, l, rfl, ?_, Nat.zero_le p, ?_⟩
      · by_contra hnot
        rw [answerOf_of_not (Bool.not_eq_true _ ▸ hnot)] at hp
        exact Nat.not_lt_zero p hp
      · rw [show answerText [] = [] from rfl, length_nil, Nat.zero_add]
        exact hp
    · rw [answerText_cons, length_append] at h
      obtain ⟨front, d, back, rfl, hd, hle, hlt⟩ := ih (p := p - (answerOf c).length) (by omega)
      refine ⟨c :: front, d, back, rfl, hd, ?_, ?_⟩
      · rw [answerText_cons, length_append]
        omega
      · rw [answerText_cons, length_append]
        omega

end Items

/-! ## The chunks that are shown -/

/-- A chunk that starts the run or the session. -/
def isStart (c : StreamChunk) : Bool := c.isRunStart || c.isSessionInit

/-- Output other than answer text: after it a start is shown, too. -/
def isReal (c : StreamChunk) : Bool := !isAnswer c && !isPreambleChunk c && !c.isTerminal

/-- The other chunks that are shown, given whether there was real output: starts before it are
    not. -/
def publicFrom : Bool → List StreamChunk → List StreamChunk
  | _, [] => []
  | started, c :: l =>
    if isAnswer c || (!started && isStart c) then publicFrom started l
    else c :: publicFrom (started || isReal c) l

/-- A chunk behind some others is among those that are shown. -/
def Public (front : List StreamChunk) (c : StreamChunk) : Prop :=
  isAnswer c = false ∧ (isStart c = true → front.any isReal = true)

section Public

variable {c : StreamChunk} {l l' front back : List StreamChunk} {started : Bool}

theorem isReal_of_answer (h : isAnswer c = true) : isReal c = false := by
  rw [isReal, h]
  rfl

theorem isPreamble_of_start (h : isStart c = true) : isPreambleChunk c = true := by
  obtain ⟨runId, body, raw⟩ := c
  cases body <;> first | rfl | nomatch h

theorem isReal_of_preamble (h : isPreambleChunk c = true) : isReal c = false := by
  rw [isReal, h, Bool.not_true, Bool.and_false, Bool.false_and]

theorem isReal_of_hidden (h : (isAnswer c || (!started && isStart c)) = true) :
    isReal c = false := by
  rcases Bool.or_eq_true _ _ ▸ h with h | h
  · exact isReal_of_answer h
  · exact isReal_of_preamble (isPreamble_of_start (Bool.and_eq_true _ _ ▸ h).2)

theorem shown_of_real (h : isReal c = true) : isAnswer c = false ∧ isStart c = false := by
  constructor
  · rw [← Bool.not_eq_true]
    intro hanswer
    rw [isReal_of_answer hanswer] at h
    cases h
  · rw [← Bool.not_eq_true]
    intro hstart
    rw [isReal_of_preamble (isPreamble_of_start hstart)] at h
    cases h

theorem publicFrom_append (started : Bool) (l l' : List StreamChunk) :
    publicFrom started (l ++ l') =
      publicFrom started l ++ publicFrom (started || l.any isReal) l' := by
  induction l generalizing started with
  | nil =>
    rw [any_nil, Bool.or_false]
    rfl
  | cons c l ih =>
    rw [cons_append, publicFrom, publicFrom, any_cons, ← Bool.or_assoc]
    split
    · rename_i hhidden
      rw [isReal_of_hidden hhidden, Bool.or_false]
      exact ih started
    · rw [ih]
      rfl

theorem publicFrom_eq_nil_iff : publicFrom started l = [] ↔ ∀ front c back,
    l = front ++ c :: back →
      ¬ (isAnswer c = false ∧ (isStart c = true → (started || front.any isReal) = true)) := by
  induction l generalizing started with
  | nil =>
    refine iff_of_true rfl fun front c back h => ?_
    cases front <;> cases h
  | cons c l ih =>
    rw [publicFrom]
    split
    · rename_i hhidden
      rw [ih]
      constructor
      · intro h front d back heq
        cases front with
        | nil =>
          obtain ⟨rfl, -⟩ := cons.inj heq
          rintro ⟨hnot, hstart⟩
          rw [hnot, Bool.false_or, Bool.and_eq_true, Bool.not_eq_true'] at hhidden
          rw [any_nil, Bool.or_false, hhidden.1] at hstart
          exact Bool.false_ne_true (hstart hhidden.2)
        | cons e front =>
          obtain ⟨rfl, hrest⟩ := cons.inj heq
          rw [any_cons, isReal_of_hidden hhidden, Bool.false_or]
          exact h front d back hrest
      · intro h front d back heq
        have hcons := h (c :: front) d back (congrArg (c :: ·) heq)
        rw [any_cons, isReal_of_hidden hhidden, Bool.false_or] at hcons
        exact hcons
    · rename_i hshown
      refine iff_of_false (cons_ne_nil _ _) fun h => h [] c l rfl ?_
      rw [Bool.not_eq_true, Bool.or_eq_false_iff] at hshown
      refine ⟨hshown.1, fun hstart => ?_⟩
      rw [hstart, Bool.and_true, Bool.not_eq_false'] at hshown
      rw [hshown.2]
      rfl

theorem publicFrom_true (l : List StreamChunk) : publicFrom true l = otherChunks l := by
  induction l with
  | nil => rfl
  | cons c l ih =>
    rw [publicFrom, Bool.true_or, ih,
      otherChunks_cons]
    cases isAnswer c <;> rfl

/-- Without real output they are the chunks that start nothing. -/
theorem publicFrom_of_noReal (h : l.any isReal = false) :
    publicFrom false l = (otherChunks l).filter fun c => !isStart c := by
  induction l with
  | nil => rfl
  | cons c l ih =>
    rw [any_cons, Bool.or_eq_false_iff] at h
    rw [publicFrom, h.1, Bool.or_false, ih h.2,
      otherChunks_cons]
    cases hc : isAnswer c with
    | true => rfl
    | false =>
      rw [if_pos (by rfl : (!false) = true), filter_cons]
      cases isStart c <;> rfl

theorem publicFrom_sublist (started : Bool) (l : List StreamChunk) :
    (publicFrom started l).Sublist (otherChunks l) := by
  induction l generalizing started with
  | nil => exact List.Sublist.refl _
  | cons c l ih =>
    rw [publicFrom,
      otherChunks_cons]
    cases hc : isAnswer c with
    | true => exact ih _
    | false =>
      rw [if_pos (by rfl : (!false) = true), Bool.false_or]
      split
      · exact (ih _).cons c
      · exact (ih _).cons_cons c

/-- **No chunk is found before its place**: if all that is shown of a stream is found in its front,
    nothing of the back is shown. -/
theorem public_back_nil
    (h : (publicFrom false front ++ publicFrom (front.any isReal) back).Sublist
      (otherChunks front)) :
    publicFrom (front.any isReal) back = [] := by
  cases hreal : front.any isReal with
  | false =>
    rw [hreal] at h
    -- the back has no real output either, so all that is shown starts nothing
    have hback : back.any isReal = false := by
      rw [← Bool.not_eq_true]
      intro hany
      obtain ⟨c, hc, hcreal⟩ := any_eq_true.mp hany
      obtain ⟨hanswer, hnotStart⟩ := shown_of_real hcreal
      obtain ⟨f, t, rfl⟩ := append_of_mem hc
      have hshown : c ∈ publicFrom false (f ++ c :: t) := by
        rw [publicFrom_append, publicFrom, hanswer, hnotStart, Bool.and_false, Bool.or_false,
          if_neg Bool.false_ne_true]
        exact mem_append_right _ mem_cons_self
      obtain ⟨hmem, -⟩ := mem_others.mp (h.subset (mem_append_right _ hshown))
      have hcontra := any_eq_false.mp hreal c hmem
      exact hcontra hcreal
    rw [publicFrom_of_noReal hreal, publicFrom_of_noReal hback] at h
    rw [publicFrom_of_noReal hback]
    have hlength := (h.filter fun c => !isStart c).length_le
    rw [filter_append, filter_filter, filter_filter, length_append] at hlength
    simp only [Bool.and_self] at hlength
    exact eq_nil_of_length_eq_zero (by omega)
  | true =>
    rw [hreal, publicFrom_true] at h
    rw [publicFrom_true]
    obtain ⟨r, hfind⟩ := Option.isSome_iff_exists.mp (List.find?_isSome.mpr (any_eq_true.mp hreal))
    obtain ⟨hr, f, g, rfl, hf⟩ := List.find?_eq_some_iff_append.mp hfind
    obtain ⟨hanswer, hstart⟩ := shown_of_real hr
    -- from the first real output on, everything is shown
    have hothers : otherChunks (f ++ r :: g) = otherChunks f ++ r :: otherChunks g := by
      rw [others_append]
      exact congrArg (otherChunks f ++ ·) (filter_cons_of_pos (by rw [hanswer]; rfl))
    have hshown : publicFrom false (f ++ r :: g) = publicFrom false f ++ r :: otherChunks g := by
      rw [publicFrom_append, publicFrom, hanswer, hstart, Bool.and_false, Bool.or_false,
        if_neg Bool.false_ne_true, hr, Bool.or_true, publicFrom_true]
    rw [hothers, hshown, append_assoc, cons_append] at h
    have htail := (sublist_append_right (publicFrom false f) _).trans h
    have hnot : r ∉ otherChunks f := fun hmem => by
      have hcontra := hf r (mem_others.mp hmem).1
      rw [hr] at hcontra
      cases hcontra
    have hlength := (cons_sublist_of_notMem htail hnot).length_le
    rw [length_cons, length_cons, length_append] at hlength
    exact eq_nil_of_length_eq_zero (by omega)

end Public

/-! ## Text behind other chunks -/

section Behind

variable {L : List StreamChunk} {n : Nat}

/-- **The text comes out behind the chunks**: in order iff no more than the overlap was
    sent before any of them. -/
theorem passed_iff (hn : n < (answerText L).length) {rest back : List Item}
    (hrest : rest.Sublist back)
    (hback : ∀ p, Item.char p ∈ back → (answerText L).length ≤ p) :
    ((publicFrom false L).map Item.chunk ++ (chars n (answerText L).length ++ rest)).Sublist
        (itemsFrom 0 L ++ back) ↔
      ∀ front c after, L = front ++ c :: after → Public front c →
        (answerText front).length ≤ n := by
  obtain ⟨g, y, h, rfl, hy, hle, hlt⟩ := exists_pivot hn
  have hshown : publicFrom false (g ++ y :: h) =
      publicFrom false g ++ publicFrom (g.any isReal) h := by
    rw [publicFrom_append, publicFrom, hy, Bool.true_or, if_pos rfl, Bool.false_or]
  have htext : (answerText (g ++ y :: h)).length =
      (answerText g).length + (answerOf y).length + (answerText h).length := by
    rw [answerText_append, answerText_cons, length_append, length_append, Nat.add_assoc]
  have hitems : itemsFrom 0 (g ++ y :: h) = itemsFrom 0 g ++
      (chars (answerText g).length ((answerText g).length + (answerOf y).length) ++
        itemsFrom ((answerText g).length + (answerOf y).length) h) := by
    rw [itemsFrom_append, itemsFrom, itemsOf, if_pos hy, Nat.zero_add]
  -- nothing behind the first character that comes out is shown
  have hcondition : (∀ front c after, g ++ y :: h = front ++ c :: after → Public front c →
      (answerText front).length ≤ n) ↔ publicFrom (g.any isReal) h = [] := by
    rw [publicFrom_eq_nil_iff]
    constructor
    · rintro hall front c after rfl ⟨hanswer, hstart⟩
      have hpublic : Public (g ++ y :: front) c := by
        refine ⟨hanswer, fun hs => ?_⟩
        rw [any_append, any_cons, isReal_of_answer hy, Bool.false_or]
        exact hstart hs
      have hlength := hall (g ++ y :: front) c after (by simp) hpublic
      rw [answerText_append, answerText_cons, length_append, length_append] at hlength
      omega
    · intro hnone front c after heq hpublic
      rcases append_eq_append_iff.mp heq with ⟨mid, rfl, hmid⟩ | ⟨mid, rfl, hmid⟩
      · cases mid with
        | nil =>
          rw [append_nil]
          exact hle
        | cons z mid =>
          obtain ⟨rfl, rfl⟩ := cons.inj hmid
          refine absurd ⟨hpublic.1, fun hs => ?_⟩ (hnone mid c after rfl)
          have hany := hpublic.2 hs
          rw [any_append, any_cons, isReal_of_answer hy, Bool.false_or] at hany
          exact hany
      · rw [answerText_append, length_append] at hle
        omega
  rw [hcondition, hshown, hitems]
  constructor
  · intro hsub
    -- the first character that comes out stands in one place
    have hout : ((publicFrom false g ++ publicFrom (g.any isReal) h).map Item.chunk ++
        (Item.char n :: (chars (n + 1) (answerText (g ++ y :: h)).length ++ rest))).Sublist
        ((itemsFrom 0 g ++ chars (answerText g).length n) ++ (Item.char n ::
          (chars (n + 1) ((answerText g).length + (answerOf y).length) ++
            (itemsFrom ((answerText g).length + (answerOf y).length) h ++ back)))) := by
      rw [chars_succ hn, cons_append] at hsub
      have hsplit := chars_append hle hlt.le
      rw [chars_succ hlt] at hsplit
      rw [← hsplit] at hsub
      simpa only [append_assoc, cons_append] using hsub
    have hfront : Item.char n ∉ itemsFrom 0 g ++ chars (answerText g).length n := by
      rw [mem_append, mem_itemsFrom, mem_chars]
      omega
    have hbehind : Item.char n ∉ chars (n + 1) ((answerText g).length + (answerOf y).length) ++
        (itemsFrom ((answerText g).length + (answerOf y).length) h ++ back) := by
      rw [mem_append, mem_append, mem_itemsFrom, mem_chars]
      rintro (hmem | hmem | hmem)
      · omega
      · omega
      · have hpos := hback n hmem
        omega
    have hchunks := ((sublist_around hout hfront hbehind).1).filterMap Item.chunk?
    rw [filterMap_append, filterMap_chunk, filterMap_map] at hchunks
    have hnone : (chars (answerText g).length n).filterMap Item.chunk? = [] := by
      unfold chars
      rw [filterMap_map]
      exact filterMap_eq_nil_iff.mpr fun _ _ => rfl
    rw [hnone, append_nil, show Item.chunk? ∘ Item.chunk = some from rfl,
      filterMap_some] at hchunks
    exact public_back_nil hchunks
  · intro hnone
    rw [hnone, append_nil, append_assoc]
    refine (((publicFrom_sublist false g).map Item.chunk).trans (others_sublist 0 g)).append ?_
    rw [← chars_append hlt.le (by omega : _ ≤ (answerText (g ++ y :: h)).length), append_assoc,
      append_assoc, htext]
    refine List.Sublist.append ?_ ((chars_sublist _ h).append hrest)
    rw [← chars_append hle hlt.le]
    exact sublist_append_right _ _

/-- **The chunks come out behind the text**: in order iff no answer was sent behind any
    of them. -/
theorem kept_iff (hn : n < (answerText L).length) (hreal : L.any isReal = false) {t : StreamChunk} :
    (chars n (answerText L).length ++ (publicFrom false L ++ [t]).map Item.chunk).Sublist
        (itemsFrom 0 L ++ [Item.chunk t]) ↔
      ∀ front c after, L = front ++ c :: after → Public front c → answerText after = [] := by
  -- the chunk that holds the last character
  obtain ⟨g, y, h, rfl, hy, hle, hlt⟩ := exists_pivot
    (show (answerText L).length - 1 < (answerText L).length by omega)
  have htext : (answerText (g ++ y :: h)).length =
      (answerText g).length + (answerOf y).length + (answerText h).length := by
    rw [answerText_append, answerText_cons, length_append, length_append, Nat.add_assoc]
  have hh : answerText h = [] := eq_nil_of_length_eq_zero (by omega)
  have hanswers : ∀ c ∈ h, answerOf c = [] := flatMap_eq_nil_iff.mp hh
  obtain ⟨m, hm⟩ : ∃ m, (answerText (g ++ y :: h)).length = m + 1 :=
    Nat.exists_eq_succ_of_ne_zero (by omega)
  rw [hm] at hle hlt hn ⊢
  rw [Nat.add_sub_cancel] at hle hlt
  have hend : (answerText g).length + (answerOf y).length = m + 1 := by
    rw [hh, length_nil] at htext
    omega
  have hshown : publicFrom false (g ++ y :: h) = publicFrom false g ++ publicFrom false h := by
    rw [any_append, Bool.or_eq_false_iff] at hreal
    rw [publicFrom_append, publicFrom, hy, Bool.true_or, if_pos rfl, hreal.1, Bool.or_false]
  have hitems : itemsFrom 0 (g ++ y :: h) = itemsFrom 0 g ++
      (chars (answerText g).length (m + 1) ++ itemsFrom (m + 1) h) := by
    rw [itemsFrom_append, itemsFrom, itemsOf, if_pos hy, Nat.zero_add, hend]
  have hcondition : (∀ front c after, g ++ y :: h = front ++ c :: after → Public front c →
      answerText after = []) ↔ publicFrom false g = [] := by
    rw [publicFrom_eq_nil_iff]
    constructor
    · rintro hall front c after rfl ⟨hanswer, hstart⟩
      have hafter := hall front c (after ++ y :: h) (by simp) ⟨hanswer, hstart⟩
      rw [answerText_append, answerText_cons, hh, append_nil, append_eq_nil_iff] at hafter
      rw [hafter.2, length_nil] at hend hlt
      omega
    · intro hnone front c after heq hpublic
      rcases append_eq_append_iff.mp heq with ⟨mid, rfl, hmid⟩ | ⟨mid, rfl, hmid⟩
      · cases mid with
        | nil =>
          obtain ⟨rfl, rfl⟩ := cons.inj hmid
          exact hh
        | cons z mid =>
          obtain ⟨rfl, rfl⟩ := cons.inj hmid
          have hbehind : answerText (mid ++ c :: after) = [] := hh
          rw [answerText_append, answerText_cons, append_eq_nil_iff,
            append_eq_nil_iff] at hbehind
          exact hbehind.2.2
      · cases mid with
        | nil =>
          obtain ⟨rfl, rfl⟩ := cons.inj hmid
          exact hh
        | cons z mid =>
          obtain ⟨rfl, rfl⟩ := cons.inj hmid
          exact absurd hpublic (hnone front c mid rfl)
  rw [hcondition, hshown, hitems]
  have hlast : n ≤ m := by omega
  constructor
  · intro hsub
    rw [chars_last hlast, chars_last hle] at hsub
    have hout : (chars n m ++ Item.char m ::
        (publicFrom false g ++ publicFrom false h ++ [t]).map Item.chunk).Sublist
        ((itemsFrom 0 g ++ chars (answerText g).length m) ++ Item.char m ::
          (itemsFrom (m + 1) h ++ [Item.chunk t])) := by
      simpa only [append_assoc, singleton_append, cons_append, nil_append]
        using hsub
    have hfront : Item.char m ∉ itemsFrom 0 g ++ chars (answerText g).length m := by
      rw [mem_append, mem_itemsFrom, mem_chars]
      omega
    have hbehind : Item.char m ∉ itemsFrom (m + 1) h ++ [Item.chunk t] := by
      rw [mem_append, mem_itemsFrom, mem_singleton]
      rintro (hmem | hmem)
      · omega
      · cases hmem
    have hchunks := ((sublist_around hout hfront hbehind).2).filterMap Item.chunk?
    rw [filterMap_append, filterMap_chunk, filterMap_map,
      show Item.chunk? ∘ Item.chunk = some from rfl, filterMap_some] at hchunks
    -- of what is left only the chunks that start nothing can be found again
    have hsublist : (publicFrom false g ++ publicFrom false h).Sublist (otherChunks h) :=
      (append_sublist_append_right [t]).mp hchunks
    rw [any_append, any_cons, Bool.or_eq_false_iff, Bool.or_eq_false_iff] at hreal
    rw [publicFrom_of_noReal hreal.1, publicFrom_of_noReal hreal.2.2] at hsublist
    rw [publicFrom_of_noReal hreal.1]
    have hlength := (hsublist.filter fun c => !isStart c).length_le
    rw [filter_append, filter_filter, filter_filter, length_append] at hlength
    simp only [Bool.and_self] at hlength
    exact eq_nil_of_length_eq_zero (by omega)
  · intro hnone
    have hchars : (chars n (m + 1)).Sublist
        (itemsFrom 0 g ++ chars (answerText g).length (m + 1)) := by
      have hall : (chars n (m + 1)).Sublist (chars 0 (m + 1)) := by
        rw [← chars_append (Nat.zero_le n) hn.le]
        exact sublist_append_right _ _
      rw [← chars_append (Nat.zero_le (answerText g).length) (by omega)] at hall
      have hfront := chars_sublist 0 g
      rw [Nat.zero_add] at hfront
      exact hall.trans (hfront.append (List.Sublist.refl _))
    rw [hnone, nil_append, map_append, ← append_assoc (itemsFrom 0 g),
      append_assoc _ (itemsFrom (m + 1) h)]
    refine hchars.append (List.Sublist.append ?_ (List.Sublist.refl _))
    exact ((publicFrom_sublist false h).map Item.chunk).trans (others_sublist _ h)

end Behind

/-! ## Streams in order -/

section Order

variable (existing : List Char) (limit : Nat) (handsOver : StreamChunk → Bool)

/-- The answer text comes out, behind other chunks: it is decided on before the end of the stream,
    or there is real output before its end. -/
def Overtaken (l : List StreamChunk) : Prop :=
  ¬ answerText l <:+: recent existing limit ∨
    (∃ t ∈ l, t.isTerminal = true) ∧ l.any isReal = true

/-- The answer text comes out at the end of the stream, before the chunks that are still held. -/
def OutFirst (l : List StreamChunk) : Prop :=
  answerText l <:+: recent existing limit ∧ l.any isReal = false ∧
    ∃ t ∈ l, t.isTerminal = true ∧ handsOver t = false

/-- Where the answer text comes out behind other chunks, no more than the overlap was sent before
    one of them while it was held back; where it comes out before them, all of it was. -/
structure Orderly (l : List StreamChunk) : Prop where
  passed : Overtaken existing limit l → ∀ n front c after,
    LongestOverlap existing limit (answerText l) n → l = front ++ c :: after →
    c.isTerminal = false → Public front c → answerText front <:+: recent existing limit →
      (answerText front).length ≤ n
  kept : OutFirst existing limit handsOver l → ∀ n front c after,
    LongestOverlap existing limit (answerText l) n → l = front ++ c :: after →
    c.isTerminal = false → Public front c → n < (answerText l).length → answerText after = []

/-- How a continuation is shown: `Streamed source out`. -/
inductive Streamed : List StreamChunk → List StreamChunk → Prop
  /-- The answer is held back, and the stream has no end. -/
  | silent {l out : List StreamChunk} (open_ : NoTerminal l)
      (held : answerText l <:+: recent existing limit) (shown : out.Sublist (otherChunks l)) :
      Streamed l out
  /-- The answer is held back to the end, and real output is not. -/
  | started {l text rest : List StreamChunk} {t : StreamChunk} {n : Nat} (open_ : NoTerminal l)
      (terminal : t.isTerminal = true) (held : answerText l <:+: recent existing limit)
      (overlap : LongestOverlap existing limit (answerText l) n)
      (isText : ∀ c ∈ text, isAnswer c = true) (said : answerText text = (answerText l).drop n)
      (real : l.any isReal = true) (shown : rest.Sublist [t]) :
      Streamed (l ++ [t]) (publicFrom false l ++ (text ++ rest))
  /-- Everything is held back to the end. -/
  | unstarted {l text : List StreamChunk} {t : StreamChunk} {n : Nat} (open_ : NoTerminal l)
      (terminal : t.isTerminal = true) (held : answerText l <:+: recent existing limit)
      (overlap : LongestOverlap existing limit (answerText l) n)
      (isText : ∀ c ∈ text, isAnswer c = true) (said : answerText text = (answerText l).drop n)
      (real : l.any isReal = false) :
      Streamed (l ++ [t]) (text ++ if handsOver t then [] else publicFrom false l ++ [t])
  /-- The answer comes out with a chunk of it. -/
  | released {l l' rest : List StreamChunk} {c c' : StreamChunk} {n : Nat} (open_ : NoTerminal l)
      (held : answerText l <:+: recent existing limit) (isText : isAnswer c = true)
      (decided : ¬ answerText (l ++ [c]) <:+: recent existing limit)
      (overlap : ∀ more, LongestOverlap existing limit (answerText (l ++ [c]) ++ more) n)
      (something : n < (answerText (l ++ [c])).length) (isText' : isAnswer c' = true)
      (said : answerOf c' = (answerText (l ++ [c])).drop n)
      (rest_text : answerText rest = answerText l')
      (rest_items : ∀ m, (itemsFrom m rest).Sublist (itemsFrom m l')) :
      Streamed (l ++ c :: l') (publicFrom false l ++ c' :: rest)

end Order

section Streamed

variable {existing : List Char} {limit : Nat} {handsOver : StreamChunk → Bool}
  {l out front after : List StreamChunk} {c t : StreamChunk} {n : Nat}

theorem exists_longestOverlap (existing : List Char) (limit : Nat) (text : List Char) :
    ∃ n, LongestOverlap existing limit text n := by
  have hreading : Overlap.Reading existing limit
      { Overlap.start existing limit with pending := text } text := ⟨rfl, .inl ⟨rfl, rfl⟩⟩
  obtain ⟨n, -, hlongest⟩ := hreading.finish
  exact ⟨n, hlongest⟩

/-- The order is that of the items from the end of the overlap on. -/
theorem inOrder_iff_sublist (hoverlap : LongestOverlap existing limit (answerText l) n)
    (hbegins : answerText out <+: (answerText l).drop n) :
    InOrder existing limit l out ↔ (itemsFrom n out).Sublist (itemsFrom 0 l) := by
  constructor
  · rintro ⟨m, hm, -, hsub⟩
    rw [hoverlap.unique hm]
    exact hsub
  · intro hsub
    exact ⟨n, hoverlap, hbegins, hsub⟩

theorem prefix_held (hbegins : front <+: l) (h : answerText l <:+: recent existing limit) :
    answerText front <:+: recent existing limit := by
  obtain ⟨back, rfl⟩ := hbegins
  rw [answerText_append] at h
  exact (prefix_append _ _).isInfix.trans h

theorem answerText_public (l : List StreamChunk) : answerText (publicFrom false l) = [] :=
  answerText_eq_nil fun _ hc => (mem_others.mp ((publicFrom_sublist false l).subset hc)).2

theorem itemsFrom_public (n : Nat) (l : List StreamChunk) :
    itemsFrom n (publicFrom false l) = (publicFrom false l).map Item.chunk :=
  itemsFrom_of_not fun _ hc => (mem_others.mp ((publicFrom_sublist false l).subset hc)).2

theorem split_before (ht : t.isTerminal = true) (hc : c.isTerminal = false)
    (h : l ++ [t] = front ++ c :: after) : ∃ back, after = back ++ [t] ∧ l = front ++ c :: back := by
  rcases eq_nil_or_concat' after with rfl | ⟨back, d, rfl⟩
  · have hlast := (append_inj' h rfl).2
    rw [(cons.inj hlast).1, hc] at ht
    cases ht
  · have h' : l ++ [t] = (front ++ c :: back) ++ [d] := by
      rw [h, append_assoc, cons_append]
    obtain ⟨hl, hd⟩ := append_inj' h' rfl
    exact ⟨back, by rw [(cons.inj hd).1], hl⟩

theorem any_concat_terminal (ht : t.isTerminal = true) : (l ++ [t]).any isReal = l.any isReal := by
  have hreal : isReal t = false := by rw [isReal, ht, Bool.not_true, Bool.and_false]
  rw [any_append, any_cons, any_nil, hreal, Bool.or_false, Bool.or_false]

theorem answerText_concat (ht : t.isTerminal = true) : answerText (l ++ [t]) = answerText l := by
  rw [answerText_append, answerText_cons, answerOf_of_not (isAnswer_of_terminal ht),
    nil_append]
  exact append_nil _

theorem itemsFrom_concat (ht : t.isTerminal = true) :
    itemsFrom n (l ++ [t]) = itemsFrom n l ++ [Item.chunk t] := by
  rw [itemsFrom_append, itemsFrom_of_not (l := [t]) fun d hd => by
    rw [mem_singleton.mp hd]
    exact isAnswer_of_terminal ht]
  rfl

theorem itemsFrom_said {text : List StreamChunk} (hn : n ≤ (answerText l).length)
    (hisText : ∀ c ∈ text, isAnswer c = true) (hsaid : answerText text = (answerText l).drop n) :
    itemsFrom n text = chars n (answerText l).length ∧
      n + (answerText text).length = (answerText l).length := by
  have hlength : n + (answerText text).length = (answerText l).length := by
    rw [hsaid, length_drop]
    omega
  rw [itemsFrom_of_answer hisText, hlength]
  exact ⟨rfl, rfl⟩

/-- **Nothing comes out.** -/
theorem silent_inOrder (hopen : NoTerminal l) (hheld : answerText l <:+: recent existing limit)
    (hshown : out.Sublist (otherChunks l)) :
    InOrder existing limit l out ↔ Orderly existing limit handsOver l := by
  have hnot : ∀ c ∈ out, isAnswer c = false := fun c hc => (mem_others.mp (hshown.subset hc)).2
  have hno : ∀ {p : StreamChunk → Prop}, ¬ ∃ t ∈ l, t.isTerminal = true ∧ p t := by
    rintro p ⟨t, ht, hterm, -⟩
    rw [hopen t ht] at hterm
    cases hterm
  obtain ⟨n, hoverlap⟩ := exists_longestOverlap existing limit (answerText l)
  refine iff_of_true ⟨n, hoverlap, ?_, ?_⟩ ⟨fun hovertaken => ?_, fun houtFirst => ?_⟩
  · rw [answerText_eq_nil hnot]
    exact nil_prefix
  · rw [itemsFrom_of_not hnot]
    exact (hshown.map Item.chunk).trans (others_sublist 0 l)
  · rcases hovertaken with hdecided | ⟨⟨t, ht, hterm⟩, -⟩
    · exact absurd hheld hdecided
    · exact absurd ⟨t, ht, hterm, trivial⟩ (hno (p := fun _ => True))
  · exact absurd houtFirst.2.2 hno

/-- **The text comes out at the end, behind real output.** -/
theorem started_inOrder {text rest : List StreamChunk} (hopen : NoTerminal l)
    (hterm : t.isTerminal = true) (hheld : answerText l <:+: recent existing limit)
    (hoverlap : LongestOverlap existing limit (answerText l) n)
    (hisText : ∀ c ∈ text, isAnswer c = true) (hsaid : answerText text = (answerText l).drop n)
    (hreal : l.any isReal = true) (hshown : rest.Sublist [t]) :
    InOrder existing limit (l ++ [t]) (publicFrom false l ++ (text ++ rest)) ↔
      Orderly existing limit handsOver (l ++ [t]) := by
  have hrest : ∀ c ∈ rest, isAnswer c = false := fun c hc => by
    rw [mem_singleton.mp (hshown.subset hc)]
    exact isAnswer_of_terminal hterm
  obtain ⟨htextItems, hend⟩ := itemsFrom_said hoverlap.prefix_ hisText hsaid
  have hwhole : LongestOverlap existing limit (answerText (l ++ [t])) n := by
    rw [answerText_concat hterm]
    exact hoverlap
  have hbegins : answerText (publicFrom false l ++ (text ++ rest)) <+:
      (answerText (l ++ [t])).drop n := by
    refine ⟨[], ?_⟩
    rw [append_nil, answerText_append, answerText_append, answerText_public,
      answerText_eq_nil hrest, nil_append, append_nil, hsaid, answerText_concat hterm]
  have hitems : itemsFrom n (publicFrom false l ++ (text ++ rest)) =
      (publicFrom false l).map Item.chunk ++
        (chars n (answerText l).length ++ rest.map Item.chunk) := by
    rw [itemsFrom_append, itemsFrom_public, answerText_public, length_nil, Nat.add_zero,
      itemsFrom_append, htextItems, itemsFrom_of_not hrest]
  rw [inOrder_iff_sublist hwhole hbegins, hitems, itemsFrom_concat hterm]
  have hkept : ¬ OutFirst existing limit handsOver (l ++ [t]) := fun houtFirst => by
    have hnone := houtFirst.2.1
    rw [any_concat_terminal hterm, hreal] at hnone
    cases hnone
  have hovertaken : Overtaken existing limit (l ++ [t]) :=
    .inr ⟨⟨t, mem_append_right l (mem_singleton_self t), hterm⟩, by
      rw [any_concat_terminal hterm, hreal]⟩
  rcases hoverlap.prefix_.lt_or_eq with hlt | heq
  · have hshownItems : (rest.map Item.chunk).Sublist [Item.chunk t] := hshown.map Item.chunk
    rw [passed_iff hlt hshownItems fun p hp => by cases mem_singleton.mp hp]
    constructor
    · intro h
      refine ⟨fun _ m front c after hm hsplit hc hpublic _ => ?_, fun hout => absurd hout hkept⟩
      obtain ⟨back, rfl, hl⟩ := split_before hterm hc hsplit
      rw [hm.unique hwhole]
      exact h front c back hl hpublic
    · intro h front c after hl hpublic
      refine h.passed hovertaken n front c (after ++ [t]) hwhole ?_ ?_ hpublic ?_
      · rw [hl, append_assoc, cons_append]
      · exact hopen c (hl ▸ mem_append_right front mem_cons_self)
      · exact prefix_held ⟨c :: after, hl.symm⟩ hheld
  · refine iff_of_true ?_ ⟨fun _ m front c after hm hsplit hc hpublic _ => ?_,
      fun hout => absurd hout hkept⟩
    · have hnone : chars n (answerText l).length = [] := by
        rw [← heq, chars, Nat.sub_self]
        rfl
      rw [hnone, nil_append]
      exact (((publicFrom_sublist false l).map Item.chunk).trans (others_sublist 0 l)).append
        (hshown.map Item.chunk)
    · obtain ⟨back, rfl, hl⟩ := split_before hterm hc hsplit
      rw [hm.unique hwhole, heq, hl, answerText_append, length_append]
      omega

/-- **Everything comes out at the end**, the text first. -/
theorem unstarted_inOrder {text : List StreamChunk} (hopen : NoTerminal l)
    (hterm : t.isTerminal = true) (hheld : answerText l <:+: recent existing limit)
    (hoverlap : LongestOverlap existing limit (answerText l) n)
    (hisText : ∀ c ∈ text, isAnswer c = true) (hsaid : answerText text = (answerText l).drop n)
    (hreal : l.any isReal = false) :
    InOrder existing limit (l ++ [t])
        (text ++ if handsOver t then [] else publicFrom false l ++ [t]) ↔
      Orderly existing limit handsOver (l ++ [t]) := by
  obtain ⟨htextItems, hend⟩ := itemsFrom_said hoverlap.prefix_ hisText hsaid
  have hwhole : LongestOverlap existing limit (answerText (l ++ [t])) n := by
    rw [answerText_concat hterm]
    exact hoverlap
  have hpassed : ¬ Overtaken existing limit (l ++ [t]) := by
    rintro (hdecided | ⟨-, hany⟩)
    · rw [answerText_concat hterm] at hdecided
      exact hdecided hheld
    · rw [any_concat_terminal hterm, hreal] at hany
      cases hany
  have hfront : (chars n (answerText l).length).Sublist (itemsFrom 0 l) := by
    have hall := chars_sublist 0 l
    rw [Nat.zero_add, ← chars_append (Nat.zero_le n) hoverlap.prefix_] at hall
    exact (sublist_append_right _ _).trans hall
  have hplaces : ∀ d ∈ publicFrom false l ++ [t], isAnswer d = false := fun d hd => by
    rcases mem_append.mp hd with hd | hd
    · exact (mem_others.mp ((publicFrom_sublist false l).subset hd)).2
    · rw [mem_singleton.mp hd]
      exact isAnswer_of_terminal hterm
  cases hhands : handsOver t with
  | true =>
    rw [if_pos rfl, append_nil]
    refine iff_of_true ?_ ⟨fun hover => absurd hover hpassed, ?_⟩
    · have hbegins : answerText text <+: (answerText (l ++ [t])).drop n := by
        refine ⟨[], ?_⟩
        rw [append_nil, hsaid, answerText_concat hterm]
      rw [inOrder_iff_sublist hwhole hbegins, htextItems, itemsFrom_concat hterm]
      exact hfront.trans (sublist_append_left _ _)
    · rintro ⟨-, -, d, hd, hdTerm, hdHands⟩
      rcases mem_append.mp hd with hd | hd
      · rw [hopen d hd] at hdTerm
        cases hdTerm
      · rw [mem_singleton.mp hd, hhands] at hdHands
        cases hdHands
  | false =>
    rw [if_neg Bool.false_ne_true]
    have hbegins : answerText (text ++ (publicFrom false l ++ [t])) <+:
        (answerText (l ++ [t])).drop n := by
      refine ⟨[], ?_⟩
      rw [append_nil, answerText_append, answerText_eq_nil hplaces, append_nil, hsaid,
        answerText_concat hterm]
    have hitems : itemsFrom n (text ++ (publicFrom false l ++ [t])) =
        chars n (answerText l).length ++ (publicFrom false l ++ [t]).map Item.chunk := by
      rw [itemsFrom_append, htextItems, itemsFrom_of_not hplaces]
    have hout : OutFirst existing limit handsOver (l ++ [t]) := by
      refine ⟨?_, ?_, t, mem_append_right l (mem_singleton_self t), hterm, hhands⟩
      · rw [answerText_concat hterm]
        exact hheld
      · rw [any_concat_terminal hterm, hreal]
    rw [inOrder_iff_sublist hwhole hbegins, hitems, itemsFrom_concat hterm]
    rcases hoverlap.prefix_.lt_or_eq with hlt | heq
    · rw [kept_iff hlt hreal]
      constructor
      · intro h
        refine ⟨fun hover => absurd hover hpassed, fun _ m front c after hm hsplit hc hpublic _ => ?_⟩
        obtain ⟨back, rfl, hl⟩ := split_before hterm hc hsplit
        rw [answerText_concat hterm]
        exact h front c back hl hpublic
      · intro h front c after hl hpublic
        have hafter := h.kept hout n front c (after ++ [t]) hwhole
          (by rw [hl, append_assoc, cons_append])
          (hopen c (hl ▸ mem_append_right front mem_cons_self)) hpublic
          (by rw [answerText_concat hterm]; exact hlt)
        rw [answerText_concat hterm] at hafter
        exact hafter
    · refine iff_of_true ?_ ⟨fun hover => absurd hover hpassed,
        fun _ m front c after hm hsplit hc hpublic hlt => ?_⟩
      · have hnone : chars n (answerText l).length = [] := by
          rw [← heq, chars, Nat.sub_self]
          rfl
        rw [hnone, nil_append, map_append]
        exact (((publicFrom_sublist false l).map Item.chunk).trans (others_sublist 0 l)).append
          (List.Sublist.refl _)
      · rw [hm.unique hwhole, answerText_concat hterm, heq] at hlt
        exact absurd hlt (Nat.lt_irrefl _)

/-- **The text comes out with a chunk of it**, behind what was shown before. -/
theorem released_inOrder {l' rest : List StreamChunk} {c' : StreamChunk} (hopen : NoTerminal l)
    (hheld : answerText l <:+: recent existing limit) (hc : isAnswer c = true)
    (hdecided : ¬ answerText (l ++ [c]) <:+: recent existing limit)
    (hoverlap : ∀ more, LongestOverlap existing limit (answerText (l ++ [c]) ++ more) n)
    (hsome : n < (answerText (l ++ [c])).length) (hc' : isAnswer c' = true)
    (hsaid : answerOf c' = (answerText (l ++ [c])).drop n)
    (hrestText : answerText rest = answerText l')
    (hrestItems : ∀ m, (itemsFrom m rest).Sublist (itemsFrom m l')) :
    InOrder existing limit (l ++ c :: l') (publicFrom false l ++ c' :: rest) ↔
      Orderly existing limit handsOver (l ++ c :: l') := by
  have hsource : l ++ c :: l' = (l ++ [c]) ++ l' := by
    rw [append_assoc, singleton_append]
  have hshown : publicFrom false l = publicFrom false (l ++ [c]) := by
    rw [publicFrom_append, publicFrom, hc, Bool.true_or, if_pos rfl]
    exact (append_nil _).symm
  have hlength : (answerOf c').length = (answerText (l ++ [c])).length - n := by
    rw [hsaid, length_drop]
  rw [hsource]
  have hwhole : LongestOverlap existing limit (answerText ((l ++ [c]) ++ l')) n := by
    rw [answerText_append]
    exact hoverlap _
  have hbegins : answerText (publicFrom false l ++ c' :: rest) <+:
      (answerText ((l ++ [c]) ++ l')).drop n := by
    refine ⟨[], ?_⟩
    rw [append_nil, answerText_append, answerText_public, nil_append, answerText_cons, hsaid,
      hrestText, answerText_append (l ++ [c]), drop_append_of_le_length hsome.le]
  have hitems : itemsFrom n (publicFrom false l ++ c' :: rest) =
      (publicFrom false (l ++ [c])).map Item.chunk ++
        (chars n (answerText (l ++ [c])).length ++ itemsFrom (answerText (l ++ [c])).length rest) := by
    rw [itemsFrom_append, itemsFrom_public, answerText_public, length_nil, Nat.add_zero,
      itemsFrom, itemsOf, if_pos hc', hlength, Nat.add_sub_cancel' hsome.le, hshown]
  rw [inOrder_iff_sublist hwhole hbegins, hitems, itemsFrom_append, Nat.zero_add,
    passed_iff hsome (hrestItems _) fun p hp => (mem_itemsFrom.mp hp).1]
  have hkept : ¬ OutFirst existing limit handsOver ((l ++ [c]) ++ l') := fun hout =>
    hdecided (prefix_held (prefix_append _ _) hout.1)
  constructor
  · intro h
    refine ⟨fun _ m front d after hm hsplit hd hpublic hfront => ?_, fun hout => absurd hout hkept⟩
    rw [hm.unique hwhole]
    rcases append_eq_append_iff.mp hsplit with ⟨mid, rfl, -⟩ | ⟨mid, hmid, hrest⟩
    · exact absurd (prefix_held (prefix_append _ _) hfront) hdecided
    · cases mid with
      | nil =>
        rw [append_nil] at hmid
        rw [← hmid] at hfront
        exact absurd hfront hdecided
      | cons e mid =>
        obtain ⟨rfl, -⟩ := cons.inj hrest
        exact h front d mid hmid hpublic
  · intro h front d after hsplit hpublic
    have hfront : front <+: l := by
      rcases prefix_concat_iff.mp ⟨d :: after, hsplit.symm⟩ with hall | hfront
      · rw [hall] at hsplit
        cases self_eq_append_right.mp hsplit
      · exact hfront
    refine h.passed (.inl fun hall => hdecided (prefix_held (prefix_append _ _) hall)) n front d
      (after ++ l') hwhole ?_ ?_ hpublic (prefix_held hfront hheld)
    · rw [hsplit, append_assoc, cons_append]
    · have hmem : d ∈ l ++ [c] := hsplit ▸ mem_append_right front mem_cons_self
      rcases mem_append.mp hmem with hd | hd
      · exact hopen d hd
      · have hanswer := hpublic.1
        rw [mem_singleton.mp hd, hc] at hanswer
        cases hanswer

/-- **The order is kept iff the stream is orderly.** -/
theorem Streamed.inOrder_iff (h : Streamed existing limit handsOver l out) :
    InOrder existing limit l out ↔ Orderly existing limit handsOver l := by
  cases h with
  | silent open_ held shown => exact silent_inOrder open_ held shown
  | started open_ terminal held overlap isText said real shown =>
    exact started_inOrder open_ terminal held overlap isText said real shown
  | unstarted open_ terminal held overlap isText said real =>
    exact unstarted_inOrder open_ terminal held overlap isText said real
  | released open_ held isText decided overlap something isText' said rest_text rest_items =>
    exact released_inOrder open_ held isText decided overlap something isText' said rest_text
      rest_items

end Streamed

end NexusCode.Router
