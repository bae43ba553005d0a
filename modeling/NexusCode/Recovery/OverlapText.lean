/-
  The overlap remover on texts, whatever the chunks of the continuation.

  The matcher of `Recovery.Overlap` works on code points; `ContinuationOverlapDeduplicator` feeds it
  from chunks of code units, and carries a high surrogate at the end of a chunk over to the next
  one, for its pair may have been cut.

  1. `LongestOverlap`  — what is to be removed, said on whole texts.
  2. `resolve_spec`    — where the matcher decides, it has the longest overlap of every text that
     goes on like that.
  3. `normalizeChunk_step` — no pair is cut between what was read and what is carried.
  4. **`deduplicate_exact`** — the induction on the chunks: while the matcher holds back, it holds
     all that was read (`Holding`).
-/
import NexusCode.Lib.CodePoints
import NexusCode.Recovery.Overlap

namespace NexusCode.Recovery

open Lib Lib.JsString List

/-! ## The deduplicator -/

/-- `ContinuationOverlapDeduplicator`. -/
structure ContinuationOverlapDeduplicator where
  overlap : Overlap (List Nat)
  highSurrogateCarry : List Nat := []

namespace ContinuationOverlapDeduplicator

/-- `new ContinuationOverlapDeduplicator(existingPartialText, maxOverlapCodePoints)`. -/
def new (existingPartialText : List Nat) (maxOverlapCodePoints : Option JsNumber) :
    ContinuationOverlapDeduplicator where
  overlap := Overlap.start (codePoints existingPartialText)
    (nonNegativeInteger maxOverlapCodePoints DEFAULT_MAX_PARTIAL_CONTEXT_CODE_POINTS)

/-- `normalizeChunk(chunk)`: the chunk behind what was carried, and what is carried on. -/
def normalizeChunk (highSurrogateCarry chunk : List Nat) : List Nat × List Nat :=
  let value := highSurrogateCarry ++ chunk
  match value.getLast? with
  | some final => if isHigh final then (value.dropLast, [final]) else (value, [])
  | none => (value, [])

/-- `push(chunk)`. -/
def push (chunk : List Nat) (d : ContinuationOverlapDeduplicator) :
    ContinuationOverlapDeduplicator × List Nat :=
  let (normalized, carry) := normalizeChunk d.highSurrogateCarry chunk
  if d.overlap.resolved then ({ d with highSurrogateCarry := carry }, normalized)
  else
    let (overlap, output) := Overlap.resolve false
      { d.overlap with pending := d.overlap.pending ++ codePoints normalized }
    ({ overlap, highSurrogateCarry := carry }, output.flatten)

/-- `finish()`. -/
def finish (d : ContinuationOverlapDeduplicator) : List Nat :=
  if d.overlap.resolved then d.highSurrogateCarry
  else
    let pending := if d.highSurrogateCarry = [] then d.overlap.pending
      else d.overlap.pending ++ [d.highSurrogateCarry]
    (Overlap.resolve true { d.overlap with pending }).2.flatten

/-- One chunk after the other: the results of `push`, joined. -/
def pushAll : List (List Nat) → ContinuationOverlapDeduplicator →
    ContinuationOverlapDeduplicator × List Nat
  | [], d => (d, [])
  | chunk :: chunks, d =>
    let (d, output) := push chunk d
    let (d, rest) := pushAll chunks d
    (d, output ++ rest)

end ContinuationOverlapDeduplicator

open ContinuationOverlapDeduplicator

/-- A continuation in chunks, up to `finish()`. -/
def deduplicate (existingPartialText : List Nat) (maxOverlapCodePoints : Option JsNumber)
    (chunks : List (List Nat)) : List Nat :=
  let (d, output) := pushAll chunks (new existingPartialText maxOverlapCodePoints)
  output ++ finish d

/-- `deduplicateContinuation(existingPartialText, continuationText, maxOverlapCodePoints)`. -/
def deduplicateContinuation (existingPartialText continuationText : List Nat)
    (maxOverlapCodePoints : Option JsNumber) : List Nat :=
  deduplicate existingPartialText maxOverlapCodePoints [continuationText]

/-! ## The longest overlap -/

section Matcher

variable {α : Type}

/-- The longest prefix of a continuation, within a limit, that the existing text ends with. -/
structure LongestOverlap (existing : List α) (limit : Nat) (continuation : List α) (n : Nat) :
    Prop where
  within : n ≤ limit
  prefix_ : n ≤ continuation.length
  repeated : continuation.take n <:+ existing
  longest : ∀ m ≤ limit, m ≤ continuation.length → continuation.take m <:+ existing → m ≤ n

theorem mem_suffixes {existing s : List α} {limit : Nat} :
    s ∈ (Overlap.start existing limit).suffixes ↔ s ≠ [] ∧ s.length ≤ limit ∧ s <:+ existing := by
  unfold Overlap.start
  rw [mem_map]
  constructor
  · rintro ⟨n, hn, rfl⟩
    rw [mem_range, Nat.lt_min] at hn
    refine ⟨fun hnil => ?_, ?_, drop_suffix _ _⟩
    · have hlength := congrArg List.length hnil
      rw [length_drop, length_nil] at hlength
      omega
    · rw [length_drop]
      omega
  · rintro ⟨hne, hlimit, front, rfl⟩
    have hpos := length_pos_iff.mpr hne
    refine ⟨s.length - 1, ?_, ?_⟩
    · rw [mem_range, Nat.lt_min, length_append]
      omega
    · rw [length_append, Nat.sub_add_cancel hpos, Nat.add_sub_cancel, drop_left]

theorem suffixes_sorted (existing : List α) (limit : Nat) :
    (Overlap.start existing limit).suffixes.Pairwise fun s t => s.length ≤ t.length := by
  unfold Overlap.start
  refine pairwise_map.mpr (List.pairwise_lt_range.imp_of_mem ?_)
  intro m n hm hn hlt
  rw [mem_range, Nat.lt_min] at hm hn
  rw [length_drop, length_drop]
  omega

theorem length_le_last {l : List (List α)} (hsorted : l.Pairwise fun s t => s.length ≤ t.length)
    {s t : List α} (hlast : l.getLast? = some t) (hs : s ∈ l) : s.length ≤ t.length := by
  obtain ⟨init, rfl⟩ := List.getLast?_eq_some_iff.mp hlast
  rcases mem_append.mp hs with hs | hs
  · exact (pairwise_append.mp hsorted).2.2 s hs t (mem_singleton_self t)
  · rw [mem_singleton.mp hs]

variable [DecidableEq α]

/-- Two texts agree if one of them is the start of the other. -/
theorem agrees_iff {s : List α} : ∀ {p : List α},
    Overlap.agrees s p = true ↔ s <+: p ∨ p <+: s := by
  induction s with
  | nil => exact iff_of_true rfl (Or.inl nil_prefix)
  | cons a s ih =>
    intro p
    cases p with
    | nil => exact iff_of_true rfl (Or.inr nil_prefix)
    | cons b p =>
      have hcons : Overlap.agrees (a :: s) (b :: p) = (decide (a = b) && Overlap.agrees s p) := rfl
      rw [hcons, Bool.and_eq_true, decide_eq_true_eq, ih, cons_prefix_cons,
        cons_prefix_cons]
      constructor
      · rintro ⟨rfl, hs | hp⟩
        · exact .inl ⟨rfl, hs⟩
        · exact .inr ⟨rfl, hp⟩
      · rintro (⟨rfl, hs⟩ | ⟨rfl, hp⟩)
        · exact ⟨rfl, .inl hs⟩
        · exact ⟨rfl, .inr hp⟩

/-- **Where the matcher decides**, what it drops is the longest overlap, however the continuation
    goes on; at its end it decides at once. -/
theorem resolve_spec (existing : List α) (limit : Nat) {o : Overlap α} (final : Bool)
    (hsuffixes : o.suffixes = (Overlap.start existing limit).suffixes) (hopen : o.resolved = false) :
    (final = false ∧ Overlap.resolve final o = (o, [])) ∨
      ∃ n, Overlap.resolve final o =
          ({ o with pending := [], resolved := true }, o.pending.drop n) ∧ n ≤ o.pending.length ∧
        ∀ more, (final = true → more = []) → LongestOverlap existing limit (o.pending ++ more) n := by
  unfold Overlap.resolve
  rw [hopen, if_neg Bool.false_ne_true]
  dsimp only
  split
  · next hheld => exact .inl ⟨hheld.elim And.left And.left, rfl⟩
  · next hdecided =>
    right
    have hmem : ∀ {s}, s ∈ (o.suffixes.filter fun s => Overlap.agrees s o.pending) ↔
        (s ≠ [] ∧ s.length ≤ limit ∧ s <:+ existing) ∧ (s <+: o.pending ∨ o.pending <+: s) := by
      intro s
      rw [mem_filter, agrees_iff, hsuffixes, mem_suffixes]
    have hsorted : ((o.suffixes.filter fun s => Overlap.agrees s o.pending).filter fun s =>
        decide (s.length ≤ o.pending.length)).Pairwise fun s t => s.length ≤ t.length := by
      rw [hsuffixes]
      exact ((suffixes_sorted existing limit).filter _).filter _
    -- while the continuation may go on, no suffix that agrees is longer than what was read
    have hread : final = false →
        ∀ s ∈ (o.suffixes.filter fun s => Overlap.agrees s o.pending),
          s.length ≤ o.pending.length := by
      intro hfinal s hs
      by_contra hlong
      refine hdecided (Or.inl ⟨hfinal, ?_⟩)
      exact any_eq_true.mpr ⟨s, hs, decide_eq_true (by omega)⟩
    generalize (o.suffixes.filter fun s => Overlap.agrees s o.pending) = matching at *
    have hcomplete : ∀ {s}, s ∈ (matching.filter fun s => decide (s.length ≤ o.pending.length)) ↔
        s ∈ matching ∧ s.length ≤ o.pending.length := by
      intro s
      rw [mem_filter, decide_eq_true_eq]
    generalize (matching.filter fun s => decide (s.length ≤ o.pending.length)) = complete at *
    refine ⟨_, rfl, ?_, fun more hmore => ?_⟩
    · cases hlast : complete.getLast? with
      | none => exact Nat.zero_le _
      | some t => exact (hcomplete.mp (mem_of_getLast? hlast)).2
    -- every prefix that is repeated is among the complete ones
    have hall : ∀ m ≤ limit, m ≤ (o.pending ++ more).length → m ≠ 0 →
        (o.pending ++ more).take m <:+ existing → (o.pending ++ more).take m ∈ complete := by
      intro m hlimit hlength hpos hrepeated
      have hsize : ((o.pending ++ more).take m).length = m := length_take_of_le hlength
      have hmatching : (o.pending ++ more).take m ∈ matching := by
        refine hmem.mpr ⟨⟨fun hnil => hpos ?_, by rw [hsize]; exact hlimit, hrepeated⟩,
          prefix_or_prefix_of_prefix ( take_prefix m _) (prefix_append _ _)⟩
        rw [← hsize, hnil, length_nil]
      refine hcomplete.mpr ⟨hmatching, ?_⟩
      cases final with
      | false => exact hread rfl _ hmatching
      | true =>
        rw [hsize]
        rwa [hmore rfl, append_nil] at hlength
    cases hlast : complete.getLast? with
    | none =>
      have hnone : complete = [] := List.getLast?_eq_none_iff.mp hlast
      refine ⟨Nat.zero_le _, Nat.zero_le _, nil_suffix, fun m hlimit hlength hrepeated => ?_⟩
      by_contra hpos
      have hmem := hall m hlimit hlength (fun hzero => hpos (by rw [hzero]; exact Nat.le_refl 0))
        hrepeated
      rw [hnone] at hmem
      nomatch hmem
    | some t =>
      obtain ⟨htmatching, htlength⟩ := hcomplete.mp (mem_of_getLast? hlast)
      obtain ⟨⟨-, htlimit, htrepeated⟩, htagrees⟩ := hmem.mp htmatching
      have htbegins : t <+: o.pending := by
        rcases htagrees with h | h
        · exact h
        · exact ⟨[], (append_nil t).trans (h.eq_of_length_le htlength).symm⟩
      have hlong : t.length ≤ (o.pending ++ more).length := by
        rw [length_append]
        omega
      have htake : (o.pending ++ more).take t.length = t :=
        (prefix_iff_eq_take.mp (htbegins.trans (prefix_append _ _))).symm
      refine ⟨htlimit, hlong, ?_, fun m hlimit hlength hrepeated => ?_⟩
      · show (o.pending ++ more).take t.length <:+ existing
        rw [htake]
        exact htrepeated
      · show m ≤ t.length
        by_cases hpos : m = 0
        · omega
        · have hle := length_le_last hsorted hlast (hall m hlimit hlength hpos hrepeated)
          rwa [length_take_of_le hlength] at hle

end Matcher

/-! ## How long the matcher reads -/

section Reading

variable {α : Type} {existing : List α} {limit : Nat}

/-- The end of the existing text that is looked at. -/
def recent (existing : List α) (limit : Nat) : List α := existing.drop (existing.length - limit)

theorem length_recent : (recent existing limit).length = min existing.length limit := by
  rw [recent, length_drop]
  omega

theorem suffix_recent_iff {s : List α} :
    s <:+ recent existing limit ↔ s <:+ existing ∧ s.length ≤ limit := by
  constructor
  · intro h
    refine ⟨h.trans (drop_suffix _ _), ?_⟩
    have hlength := h.length_le
    rw [length_recent] at hlength
    omega
  · rintro ⟨h, hlimit⟩
    refine suffix_of_suffix_length_le h (drop_suffix _ _) ?_
    have hlength := h.length_le
    show s.length ≤ (recent existing limit).length
    rw [length_recent]
    omega

/-- A text that starts one of the suffixes lies in the end of the existing text. -/
theorem exists_suffix_iff {text : List α} (hne : recent existing limit ≠ []) :
    (∃ s ∈ (Overlap.start existing limit).suffixes, text <+: s) ↔
      text <:+: recent existing limit := by
  constructor
  · rintro ⟨s, hs, hbegins⟩
    obtain ⟨-, hlimit, hsuffix⟩ := mem_suffixes.mp hs
    exact hbegins.isInfix.trans (suffix_recent_iff.mpr ⟨hsuffix, hlimit⟩).isInfix
  · rintro ⟨front, back, heq⟩
    by_cases hnil : text ++ back = []
    · rw [(append_eq_nil_iff.mp hnil).1]
      obtain ⟨hsuffix, hlimit⟩ := suffix_recent_iff.mp (suffix_refl (recent existing limit))
      exact ⟨_, mem_suffixes.mpr ⟨hne, hlimit, hsuffix⟩, nil_prefix⟩
    · have hs : text ++ back <:+ recent existing limit := by
        rw [← heq, append_assoc]
        exact suffix_append front _
      obtain ⟨hsuffix, hlimit⟩ := suffix_recent_iff.mp hs
      exact ⟨_, mem_suffixes.mpr ⟨hnil, hlimit, hsuffix⟩, prefix_append text back⟩

theorem suffixes_nil (h : recent existing limit = []) :
    (Overlap.start existing limit).suffixes = [] := by
  rw [eq_nil_iff_forall_not_mem]
  intro s hs
  obtain ⟨hne, hlimit, hsuffix⟩ := mem_suffixes.mp hs
  have hrecent := suffix_recent_iff.mpr ⟨hsuffix, hlimit⟩
  rw [h] at hrecent
  exact hne (suffix_nil.mp hrecent)

theorem longestOverlap_nil (h : recent existing limit = []) (text : List α) :
    LongestOverlap existing limit text 0 where
  within := Nat.zero_le _
  prefix_ := Nat.zero_le _
  repeated := nil_suffix
  longest m hlimit hlength hrepeated := by
    have hrecent : text.take m <:+ recent existing limit := by
      refine suffix_recent_iff.mpr ⟨hrepeated, ?_⟩
      rw [length_take_of_le hlength]
      exact hlimit
    rw [h] at hrecent
    have hsize := congrArg List.length (suffix_nil.mp hrecent)
    rw [length_take_of_le hlength, length_nil] at hsize
    exact hsize.le

theorem LongestOverlap.unique {text : List α} {m n : Nat}
    (h : LongestOverlap existing limit text m) (h' : LongestOverlap existing limit text n) :
    m = n :=
  Nat.le_antisymm (h'.longest m h.within h.prefix_ h.repeated)
    (h.longest n h'.within h'.prefix_ h'.repeated)

/-- The matcher has read a text of which it has shown nothing; where nothing is looked at, it may
    have decided on the empty text. -/
structure Overlap.Reading (existing : List α) (limit : Nat) (o : Overlap α) (text : List α) :
    Prop where
  suffixes : o.suffixes = (Overlap.start existing limit).suffixes
  state : o.resolved = false ∧ o.pending = text ∨
    o.resolved = true ∧ text = [] ∧ recent existing limit = []

theorem Overlap.Reading.start (existing : List α) (limit : Nat) :
    Overlap.Reading existing limit (Overlap.start existing limit) [] :=
  ⟨rfl, .inl ⟨rfl, rfl⟩⟩

variable [DecidableEq α] {o : Overlap α} {text : List α}

/-- The matcher holds back while what it has read starts a suffix. -/
theorem resolve_eq_self_iff (hsuffixes : o.suffixes = (Overlap.start existing limit).suffixes)
    (hopen : o.resolved = false) :
    Overlap.resolve false o = (o, []) ↔ ∃ s ∈ o.suffixes, o.pending <+: s := by
  unfold Overlap.resolve
  rw [hopen, if_neg Bool.false_ne_true]
  dsimp only
  -- a suffix that agrees and is not shorter
  have hmem : ∀ {s}, s ∈ (o.suffixes.filter fun s => Overlap.agrees s o.pending) ∧
      o.pending.length ≤ s.length ↔ s ∈ o.suffixes ∧ o.pending <+: s := by
    intro s
    rw [mem_filter, agrees_iff]
    constructor
    · rintro ⟨⟨hs, hbegins | hbegins⟩, hlength⟩
      · rw [hbegins.eq_of_length_le hlength]
        rw [hbegins.eq_of_length_le hlength] at hs
        exact ⟨hs, prefix_refl _⟩
      · exact ⟨hs, hbegins⟩
    · rintro ⟨hs, hbegins⟩
      exact ⟨⟨hs, .inr hbegins⟩, hbegins.length_le⟩
  have hsorted : (o.suffixes.filter fun s => Overlap.agrees s o.pending).Pairwise
      fun s t => s.length ≤ t.length := by
    rw [hsuffixes]
    exact (suffixes_sorted existing limit).filter _
  generalize (o.suffixes.filter fun s => Overlap.agrees s o.pending) = matching at *
  split
  · next hheld =>
    refine iff_of_true rfl ?_
    rcases hheld with ⟨-, hany⟩ | ⟨-, largest, hlast, hlength⟩
    · obtain ⟨s, hs, hlt⟩ := any_eq_true.mp hany
      exact ⟨s, hmem.mp ⟨hs, (of_decide_eq_true hlt).le⟩⟩
    · exact ⟨largest, hmem.mp ⟨mem_of_getLast? hlast, hlength⟩⟩
  · next hdecided =>
    refine iff_of_false (fun heq => ?_) ?_
    · have hresolved := congrArg (fun r => r.1.resolved) heq
      dsimp only at hresolved
      rw [hopen] at hresolved
      cases hresolved
    · rintro ⟨s, hs, hbegins⟩
      obtain ⟨hmatching, hlength⟩ := hmem.mpr ⟨hs, hbegins⟩
      cases hlast : matching.getLast? with
      | none =>
        rw [List.getLast?_eq_none_iff.mp hlast] at hmatching
        exact not_mem_nil hmatching
      | some largest =>
        have hlongest := length_le_last hsorted hlast hmatching
        exact hdecided (.inr ⟨rfl, largest, hlast, hlength.trans hlongest⟩)

/-- **A chunk is held back, all of it, as long as the text lies in the end of the existing text**;
    then what follows the longest overlap is shown, which is something. -/
theorem Overlap.Reading.push (h : Overlap.Reading existing limit o text) (chunk : List α) :
    (text ++ chunk <:+: recent existing limit ∧ ∃ o', Overlap.push chunk o = (o', []) ∧
        Overlap.Reading existing limit o' (text ++ chunk)) ∨
      (¬ text ++ chunk <:+: recent existing limit ∧ ∃ o' n,
        Overlap.push chunk o = (o', (text ++ chunk).drop n) ∧ o'.resolved = true ∧
        n < (text ++ chunk).length ∧
        ∀ more, LongestOverlap existing limit (text ++ chunk ++ more) n) := by
  rcases h.state with ⟨hopen, hpending⟩ | ⟨hresolved, rfl, hrecent⟩
  · have hpush : Overlap.push chunk o = Overlap.resolve false { o with pending := text ++ chunk } := by
      unfold Overlap.push
      rw [hopen, if_neg Bool.false_ne_true, hpending]
    have hspec := resolve_spec existing limit
      (o := { o with pending := text ++ chunk }) false h.suffixes hopen
    rw [hpush]
    by_cases hinside : text ++ chunk <:+: recent existing limit
    · refine .inl ⟨hinside, ?_⟩
      by_cases hrecent : recent existing limit = []
      · -- nothing to look at: the empty text is decided
        rw [hrecent] at hinside
        have hnil := infix_nil.mp hinside
        rcases hspec with ⟨-, hheld⟩ | ⟨n, hdecided, -⟩
        · exact ⟨_, hheld, h.suffixes, .inl ⟨hopen, rfl⟩⟩
        · have hnothing : (text ++ chunk).drop n = [] := by rw [hnil, drop_nil]
          rw [show ({ o with pending := text ++ chunk } : Overlap α).pending = text ++ chunk from rfl,
            hnothing] at hdecided
          exact ⟨_, hdecided, h.suffixes, .inr ⟨rfl, hnil, hrecent⟩⟩
      · have hheld := (resolve_eq_self_iff (o := { o with pending := text ++ chunk }) h.suffixes
          hopen).mpr (h.suffixes ▸ (exists_suffix_iff hrecent).mpr hinside)
        exact ⟨_, hheld, h.suffixes, .inl ⟨hopen, rfl⟩⟩
    · refine .inr ⟨hinside, ?_⟩
      rcases hspec with ⟨-, hheld⟩ | ⟨n, hdecided, hn, hlongest⟩
      · have hstarts := (resolve_eq_self_iff (o := { o with pending := text ++ chunk }) h.suffixes
          hopen).mp hheld
        rw [h.suffixes] at hstarts
        by_cases hrecent : recent existing limit = []
        · rw [suffixes_nil hrecent] at hstarts
          obtain ⟨_, hmem, -⟩ := hstarts
          exact absurd hmem not_mem_nil
        · exact absurd ((exists_suffix_iff hrecent).mp hstarts) hinside
      · have hread : ∀ more, LongestOverlap existing limit (text ++ chunk ++ more) n := fun more =>
          hlongest more nofun
        refine ⟨_, n, hdecided, rfl, lt_of_le_of_ne hn fun heq => hinside ?_, hread⟩
        -- an overlap of everything would lie in the end of the existing text
        have hwhole := hread []
        have htake : (text ++ chunk ++ []).take n = text ++ chunk := by
          rw [append_nil, heq]
          exact take_length
        have hrepeated := hwhole.repeated
        rw [htake] at hrepeated
        exact (suffix_recent_iff.mpr ⟨hrepeated, heq ▸ hwhole.within⟩).isInfix
  · have hpush : Overlap.push chunk o = (o, chunk) := by
      unfold Overlap.push
      rw [hresolved, if_pos rfl]
    rw [hpush, nil_append, hrecent]
    by_cases hchunk : chunk = []
    · subst hchunk
      exact .inl ⟨ nil_infix, o, rfl, h.suffixes, .inr ⟨hresolved, rfl, hrecent⟩⟩
    · refine .inr ⟨fun hinside => hchunk (infix_nil.mp hinside), o, 0, rfl, hresolved,
        length_pos_iff.mpr hchunk, fun more => longestOverlap_nil hrecent _⟩

theorem Overlap.Reading.finish (h : Overlap.Reading existing limit o text) :
    ∃ n, (Overlap.finish o).2 = text.drop n ∧ LongestOverlap existing limit text n := by
  rcases h.state with ⟨hopen, rfl⟩ | ⟨hresolved, rfl, hrecent⟩
  · rcases resolve_spec existing limit true h.suffixes hopen with
      ⟨hfalse, -⟩ | ⟨n, hdecided, -, hlongest⟩
    · cases hfalse
    · have hwhole := hlongest [] fun _ => rfl
      rw [append_nil] at hwhole
      exact ⟨n, congrArg Prod.snd hdecided, hwhole⟩
  · refine ⟨0, ?_, longestOverlap_nil hrecent _⟩
    unfold Overlap.finish Overlap.resolve
    rw [hresolved, if_pos rfl]
    rfl

end Reading

/-! ## Chunks of code units -/

/-- What was read and what is carried on: a high surrogate, or nothing behind a text that does not
    end in one. -/
def Settled (front carry : List Nat) : Prop :=
  (carry = [] ∧ front.getLast?.any isHigh = false) ∨ ∃ u, carry = [u] ∧ isHigh u = true

theorem Settled.splitsPair {front carry : List Nat} (h : Settled front carry) (rest : List Nat) :
    JsString.splitsPair front (carry ++ rest) = false := by
  unfold JsString.splitsPair
  rcases h with ⟨-, hlast⟩ | ⟨u, rfl, hhigh⟩
  · rw [hlast, Bool.false_and]
  · have hlow : isLow u = false := by
      unfold isHigh at hhigh
      unfold isLow
      simp only [Bool.and_eq_true, decide_eq_true_eq] at hhigh
      rw [Bool.and_eq_false_imp]
      intro hle
      rw [decide_eq_true_eq] at hle
      omega
    rw [singleton_append, List.head?_cons, Option.any_some, hlow, Bool.and_false]

theorem splitsPair_front {front a b : List Nat} (h : JsString.splitsPair front (a ++ b) = false) :
    JsString.splitsPair front a = false := by
  cases a with
  | nil => exact Bool.and_false _
  | cons => exact h

/-- **A chunk is read**, but for a high surrogate at its end. -/
theorem normalizeChunk_step {front carry : List Nat} (h : Settled front carry) (chunk : List Nat) :
    (normalizeChunk carry chunk).1 ++ (normalizeChunk carry chunk).2 = carry ++ chunk ∧
      Settled (front ++ (normalizeChunk carry chunk).1) (normalizeChunk carry chunk).2 := by
  unfold normalizeChunk
  dsimp only
  cases hlast : (carry ++ chunk).getLast? with
  | none =>
    -- there is nothing
    have hnil : carry ++ chunk = [] := List.getLast?_eq_none_iff.mp hlast
    refine ⟨append_nil _, .inl ⟨rfl, ?_⟩⟩
    rw [hnil, append_nil]
    rcases h with ⟨-, hfront⟩ | ⟨u, rfl, -⟩
    · exact hfront
    · nomatch hnil
  | some final =>
    obtain ⟨init, hsplit⟩ := List.getLast?_eq_some_iff.mp hlast
    dsimp only
    cases hhigh : isHigh final with
    | true =>
      rw [if_pos rfl]
      refine ⟨?_, .inr ⟨final, rfl, hhigh⟩⟩
      rw [hsplit, dropLast_concat]
    | false =>
      rw [if_neg Bool.false_ne_true]
      refine ⟨append_nil _, .inl ⟨rfl, ?_⟩⟩
      dsimp only
      rw [hsplit, ← append_assoc, List.getLast?_concat, Option.any_some, hhigh]

/-- **Once the matcher has decided**, everything passes. -/
theorem pushAll_resolved : ∀ (chunks : List (List Nat)) (front : List Nat)
    (d : ContinuationOverlapDeduplicator), d.overlap.resolved = true →
      Settled front d.highSurrogateCarry →
        (pushAll chunks d).2 ++ finish (pushAll chunks d).1 =
          d.highSurrogateCarry ++ chunks.flatten := by
  intro chunks
  induction chunks with
  | nil =>
    intro front d hresolved _
    show [] ++ finish d = d.highSurrogateCarry ++ []
    unfold finish
    rw [hresolved, if_pos rfl, nil_append, append_nil]
  | cons chunk chunks ih =>
    intro front d hresolved hsettled
    obtain ⟨hread, hsettled'⟩ := normalizeChunk_step hsettled chunk
    have hpush : push chunk d = ({ d with
        highSurrogateCarry := (normalizeChunk d.highSurrogateCarry chunk).2 },
          (normalizeChunk d.highSurrogateCarry chunk).1) := by
      unfold push
      dsimp only
      rw [hresolved, if_pos rfl]
    have hrest := ih _ { d with
      highSurrogateCarry := (normalizeChunk d.highSurrogateCarry chunk).2 } hresolved hsettled'
    unfold pushAll
    rw [hpush]
    dsimp only at hrest ⊢
    rw [append_assoc, hrest, ← append_assoc, hread, flatten_cons, append_assoc]

/-- While the matcher holds back, it holds all that was read. -/
structure Holding (existing : List Nat) (limit : Nat) (front : List Nat)
    (d : ContinuationOverlapDeduplicator) : Prop where
  suffixes : d.overlap.suffixes = (Overlap.start (codePoints existing) limit).suffixes
  open_ : d.overlap.resolved = false
  pending : d.overlap.pending = codePoints front
  settled : Settled front d.highSurrogateCarry

/-- The continuation without its longest overlap. -/
def Removed (existing : List Nat) (limit : Nat) (continuation output : List Nat) : Prop :=
  ∃ n, LongestOverlap (codePoints existing) limit (codePoints continuation) n ∧
    output = ((codePoints continuation).drop n).flatten

/-- **The chunks from a holding state on.** -/
theorem pushAll_holding {existing : List Nat} {limit : Nat} : ∀ (chunks : List (List Nat))
    (front : List Nat) (d : ContinuationOverlapDeduplicator), Holding existing limit front d →
      Removed existing limit (front ++ d.highSurrogateCarry ++ chunks.flatten)
        ((pushAll chunks d).2 ++ finish (pushAll chunks d).1) := by
  intro chunks
  induction chunks with
  | nil =>
    intro front d h
    -- the end of the continuation decides
    have hpending : (if d.highSurrogateCarry = [] then d.overlap.pending
        else d.overlap.pending ++ [d.highSurrogateCarry]) =
          codePoints (front ++ d.highSurrogateCarry) := by
      have hsplit := h.settled.splitsPair []
      rw [append_nil] at hsplit
      rw [codePoints_append _ _ hsplit, h.pending]
      rcases h.settled with ⟨hcarry, -⟩ | ⟨u, hcarry, -⟩
      · rw [hcarry, if_pos rfl]
        exact (append_nil _).symm
      · rw [hcarry, if_neg (cons_ne_nil _ _)]
        rfl
    have hspec := resolve_spec (codePoints existing) limit
      (o := { d.overlap with pending := codePoints (front ++ d.highSurrogateCarry) }) true
      h.suffixes h.open_
    rcases hspec with ⟨hfalse, -⟩ | ⟨n, hresolve, -, hlongest⟩
    · nomatch hfalse
    · refine ⟨n, ?_, ?_⟩
      · have hwhole := hlongest [] fun _ => rfl
        rw [append_nil] at hwhole
        rw [flatten_nil, append_nil]
        exact hwhole
      · show [] ++ finish d = _
        unfold finish
        rw [h.open_, if_neg Bool.false_ne_true]
        dsimp only
        rw [hpending, hresolve, nil_append, flatten_nil, append_nil]
  | cons chunk chunks ih =>
    intro front d h
    obtain ⟨hread, hsettled⟩ := normalizeChunk_step h.settled chunk
    obtain ⟨value, carry, hvalue⟩ :
      ∃ value carry, normalizeChunk d.highSurrogateCarry chunk = (value, carry) := ⟨_, _, rfl⟩
    rw [hvalue] at hread hsettled
    dsimp only at hread hsettled
    have hsplit : JsString.splitsPair front value = false := by
      refine splitsPair_front (b := carry) ?_
      rw [hread]
      exact h.settled.splitsPair chunk
    have hwhole : front ++ d.highSurrogateCarry ++ (chunk :: chunks).flatten =
        front ++ value ++ (carry ++ chunks.flatten) := by
      rw [flatten_cons, append_assoc front, ← append_assoc d.highSurrogateCarry,
        ← hread, append_assoc, append_assoc]
    rw [hwhole]
    unfold pushAll push
    rw [hvalue, h.open_]
    dsimp only
    rw [if_neg Bool.false_ne_true, h.pending, ← codePoints_append _ _ hsplit]
    have hspec := resolve_spec (codePoints existing) limit
      (o := { d.overlap with pending := codePoints (front ++ value) }) false h.suffixes h.open_
    rcases hspec with ⟨-, hheld⟩ | ⟨n, hdecided, hn, hlongest⟩
    · -- still held back
      rw [hheld]
      have hrest := ih (front ++ value)
        { overlap := { d.overlap with pending := codePoints (front ++ value) }
          highSurrogateCarry := carry } ⟨h.suffixes, h.open_, rfl, hsettled⟩
      rw [append_assoc] at hrest
      exact hrest
    · rw [hdecided]
      have hrest := pushAll_resolved chunks (front ++ value)
        { overlap := { d.overlap with pending := [], resolved := true }
          highSurrogateCarry := carry } rfl hsettled
      have hcut := codePoints_append _ _ (hsettled.splitsPair chunks.flatten)
      refine ⟨n, ?_, ?_⟩
      · rw [hcut]
        exact hlongest _ nofun
      · dsimp only at hrest hn ⊢
        rw [append_assoc, hrest, hcut, drop_append_of_le_length hn, flatten_append,
          flatten_codePoints (carry ++ chunks.flatten)]

theorem deduplicate_removed (existingPartialText : List Nat) (maxOverlapCodePoints : Option JsNumber)
    (chunks : List (List Nat)) :
    Removed existingPartialText
      (nonNegativeInteger maxOverlapCodePoints DEFAULT_MAX_PARTIAL_CONTEXT_CODE_POINTS)
      chunks.flatten (deduplicate existingPartialText maxOverlapCodePoints chunks) :=
  pushAll_holding chunks [] (new existingPartialText maxOverlapCodePoints)
    ⟨rfl, rfl, rfl, .inl ⟨rfl, rfl⟩⟩

theorem Removed.unique {existing continuation output output' : List Nat} {limit : Nat}
    (h : Removed existing limit continuation output)
    (h' : Removed existing limit continuation output') : output = output' := by
  obtain ⟨n, hn, rfl⟩ := h
  obtain ⟨n', hn', rfl⟩ := h'
  have hle := hn.longest n' hn'.within hn'.prefix_ hn'.repeated
  have hge := hn'.longest n hn.within hn.prefix_ hn.repeated
  rw [Nat.le_antisymm hge hle]

/-- **Overlap removal does not depend on the chunks, and is maximal**: however a continuation is cut
    into chunks of code units, within a surrogate pair too, what comes out is the continuation
    without its longest prefix of at most the limit that the existing text ends with. -/
theorem deduplicate_exact (existingPartialText continuationText : List Nat)
    (maxOverlapCodePoints : Option JsNumber) (chunks : List (List Nat))
    (hchunks : chunks.flatten = continuationText) :
    Removed existingPartialText
      (nonNegativeInteger maxOverlapCodePoints DEFAULT_MAX_PARTIAL_CONTEXT_CODE_POINTS)
      continuationText (deduplicate existingPartialText maxOverlapCodePoints chunks) ∧
    deduplicate existingPartialText maxOverlapCodePoints chunks =
      deduplicateContinuation existingPartialText continuationText maxOverlapCodePoints := by
  have hremoved := deduplicate_removed existingPartialText maxOverlapCodePoints chunks
  rw [hchunks] at hremoved
  refine ⟨hremoved, hremoved.unique ?_⟩
  have hwhole :=
    deduplicate_removed existingPartialText maxOverlapCodePoints [continuationText]
  rwa [flatten_singleton] at hwhole

/-- An answer that ends in a pair, which the continuation repeats in two chunks. -/
theorem deduplicate_exact_pair :
    Removed [0x61, 0xD83D, 0xDE00] 32768 [0xD83D, 0xDE00, 0x62]
        (deduplicate [0x61, 0xD83D, 0xDE00] none [[0xD83D], [0xDE00, 0x62]]) ∧
      deduplicate [0x61, 0xD83D, 0xDE00] none [[0xD83D], [0xDE00, 0x62]] =
        deduplicateContinuation [0x61, 0xD83D, 0xDE00] [0xD83D, 0xDE00, 0x62] none :=
  deduplicate_exact [0x61, 0xD83D, 0xDE00] [0xD83D, 0xDE00, 0x62] none [[0xD83D], [0xDE00, 0x62]] rfl

end NexusCode.Recovery
