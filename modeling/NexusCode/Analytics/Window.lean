/-
  The time windows of the analytics: labels of UTC days, ISO weeks and months.

  Days are numbered from 1970-01-01, which was a Thursday; a year is found from the number of its
  first day, a month from the days of the year before it.

  1. `yearOf_spec`, `monthOf_spec` — the year and the month of a day.
  2. `isoWeekLabel_eq`    — a week's label is the year of its Thursday, and the number of Thursdays of
                            that year up to it.
  3. `lt_bucket_iff`      — labels are compared by their numbers, as they are of one width.
  4. **`buckets_ordered`** — two weeks have one label iff they are the same, and labels are in the
                            order of time.
-/
import NexusCode.Lib.JsDate
import NexusCode.Lib.JsonValue

namespace NexusCode.Analytics

open Lib JsString List Bool

/-! ## The calendar -/

/-- The day of a time in milliseconds. -/
def dayOf (ts : Int) : Int := ts / 86400000

/-- The number of the first day of a year. -/
def dayFromYear (y : Int) : Int :=
  365 * (y - 1970) + (y - 1969) / 4 - (y - 1901) / 100 + (y - 1601) / 400

/-- The year of a day: the mean length of a year misses it by one at most. -/
def yearOf (day : Int) : Int :=
  let y := 1970 + day * 400 / 146097
  if day < dayFromYear y then y - 1 else if dayFromYear (y + 1) ≤ day then y + 1 else y

theorem yearOf_spec (day : Int) :
    dayFromYear (yearOf day) ≤ day ∧ day < dayFromYear (yearOf day + 1) := by
  unfold yearOf
  dsimp only
  have hlow : dayFromYear (1970 + day * 400 / 146097 - 1) ≤ day := by
    unfold dayFromYear
    omega
  have hhigh : day < dayFromYear (1970 + day * 400 / 146097 + 1 + 1) := by
    unfold dayFromYear
    omega
  split
  · rename_i hbefore
    rw [Int.sub_add_cancel]
    exact ⟨hlow, hbefore⟩
  · rename_i hnotBefore
    split
    · rename_i hnext
      exact ⟨hnext, hhigh⟩
    · rename_i hnotNext
      exact ⟨Int.not_lt.mp hnotBefore, Int.not_le.mp hnotNext⟩

theorem le_yearOf_iff (y day : Int) : y ≤ yearOf day ↔ dayFromYear y ≤ day := by
  obtain ⟨hle, hlt⟩ := yearOf_spec day
  unfold dayFromYear at hle hlt ⊢
  omega

theorem yearOf_mono {day day' : Int} (h : day ≤ day') : yearOf day ≤ yearOf day' :=
  (le_yearOf_iff _ _).mpr ((yearOf_spec day).1.trans h)

/-- A year of 366 days. -/
def isLeap (y : Int) : Bool := dayFromYear (y + 1) - dayFromYear y = 366

/-- The days of a year before a month. -/
def monthStart (leap : Bool) (month : Nat) : Int :=
  [0, 31, 59, 90, 120, 151, 181, 212, 243, 273, 304, 334, 365].getD month 0 +
    if leap && 2 ≤ month then 1 else 0

/-- The month of a day of the year: the first one that is not over. -/
def monthOf (leap : Bool) (dayInYear : Int) : Nat :=
  ((List.range 12).find? fun m => dayInYear < monthStart leap (m + 1)).getD 11

theorem monthStart_mono : ∀ leap : Bool, ∀ m' < 12, ∀ m < m',
    monthStart leap (m + 1) ≤ monthStart leap m' := by decide

theorem monthStart_step : ∀ leap : Bool, ∀ m < 12,
    monthStart leap (m + 1) ≤ monthStart leap m + 31 := by decide

theorem monthOf_spec {leap : Bool} {n : Int} (h : 0 ≤ n) (hn : n < monthStart leap 12) :
    monthOf leap n < 12 ∧ monthStart leap (monthOf leap n) ≤ n ∧
      n < monthStart leap (monthOf leap n + 1) := by
  unfold monthOf
  cases hfind : (List.range 12).find? fun m => decide (n < monthStart leap (m + 1)) with
  | none =>
    have hlast := List.find?_eq_none.mp hfind 11 (mem_range.mpr (by decide))
    exact absurd (decide_eq_true hn) hlast
  | some m =>
    obtain ⟨hp, hm, hbefore⟩ := List.find?_range_eq_some.mp hfind
    refine ⟨mem_range.mp hm, ?_, of_decide_eq_true hp⟩
    cases m with
    | zero =>
      have hzero : monthStart leap 0 = 0 := by cases leap <;> rfl
      rw [Option.getD_some, hzero]
      exact h
    | succ m =>
      have hnot := hbefore m (by omega)
      rw [not_eq_true', decide_eq_false_iff_not] at hnot
      exact Int.not_lt.mp hnot

/-! ## Dates -/

/-- `getUTCFullYear()`. -/
def getUTCFullYear (ts : Int) : Int := yearOf (dayOf ts)

/-- The day's number in its year, from 0. -/
def dayInYear (ts : Int) : Int := dayOf ts - dayFromYear (getUTCFullYear ts)

/-- `getUTCMonth()`. -/
def getUTCMonth (ts : Int) : Nat := monthOf (isLeap (getUTCFullYear ts)) (dayInYear ts)

/-- `getUTCDate()`. -/
def getUTCDate (ts : Int) : Int :=
  dayInYear ts - monthStart (isLeap (getUTCFullYear ts)) (getUTCMonth ts) + 1

/-- `getUTCDay()`, from Sunday on. -/
def getUTCDay (ts : Int) : Int := (dayOf ts + 4) % 7

/-- The day of a date; the date may lie outside of its month. -/
def makeDay (y : Int) (month : Nat) (date : Int) : Int :=
  dayFromYear y + monthStart (isLeap y) month + date - 1

/-- `Date.UTC(y, month, date)`: the years from 0 to 99 are those of the last century. -/
def dateUTC (y : Int) (month : Nat) (date : Int) : Int :=
  makeDay (if 0 ≤ y ∧ y ≤ 99 then 1900 + y else y) month date * 86400000

theorem makeDay_self (ts k : Int) :
    makeDay (getUTCFullYear ts) (getUTCMonth ts) (getUTCDate ts + k) = dayOf ts + k := by
  unfold makeDay getUTCDate dayInYear
  omega

theorem dayOf_midnight (day : Int) : dayOf (day * 86400000) = day :=
  Int.mul_ediv_cancel day (by decide)

theorem month_spec (ts : Int) : getUTCMonth ts < 12 ∧
    monthStart (isLeap (getUTCFullYear ts)) (getUTCMonth ts) ≤ dayInYear ts ∧
    dayInYear ts < monthStart (isLeap (getUTCFullYear ts)) (getUTCMonth ts + 1) := by
  obtain ⟨hle, hlt⟩ := yearOf_spec (dayOf ts)
  refine monthOf_spec (Int.sub_nonneg.mpr hle) ?_
  unfold dayInYear getUTCFullYear
  cases hleap : isLeap (yearOf (dayOf ts)) with
  | true =>
    have hdays := of_decide_eq_true hleap
    have hend : monthStart true 12 = 366 := rfl
    omega
  | false =>
    have hdays := of_decide_eq_false hleap
    have hend : monthStart false 12 = 365 := rfl
    unfold dayFromYear at *
    omega

/-! ## Labels -/

/-- `TimeWindow`. -/
inductive TimeWindow where
  | day
  | week
  | month
deriving DecidableEq

/-- `pad(n)` of a number that is not negative. -/
def pad (n : Int) : String := JsDate.padded 2 n.toNat

/-- `isoWeekLabel(date)`. -/
def isoWeekLabel (date : Int) : String :=
  let d := dateUTC (getUTCFullYear date) (getUTCMonth date) (getUTCDate date)
  let dayNum := if getUTCDay d = 0 then 7 else getUTCDay d
  let d := makeDay (getUTCFullYear d) (getUTCMonth d) (getUTCDate d + (4 - dayNum)) * 86400000
  let isoYear := getUTCFullYear d
  let yearStart := dateUTC isoYear 0 1
  -- both are midnights, and `Math.ceil(x / 7)` is `-⌊-x / 7⌋`
  let week := -(-((d - yearStart) / 86400000 + 1) / 7)
  toString isoYear ++ "-W" ++ pad week

/-- `bucketOf(ts, window)`. -/
def bucketOf (ts : Int) : TimeWindow → String
  | .month => toString (getUTCFullYear ts) ++ "-" ++ pad (getUTCMonth ts + 1)
  | .week => isoWeekLabel ts
  | .day => toString (getUTCFullYear ts) ++ "-" ++ pad (getUTCMonth ts + 1) ++ "-" ++
      pad (getUTCDate ts)

example : bucketOf (-315619200000) .week = "1959-W53" := by decide +kernel

/-- The Thursday of the week of a time. -/
def thursday (ts : Int) : Int := 7 * ((dayOf ts + 3) / 7)

/-- The number of the week of a Thursday in its year. -/
def weekOf (day : Int) : Int := (day - dayFromYear (yearOf day)) / 7 + 1

/-- **The label of a week** is made of the year of its Thursday and the number of the week there. -/
theorem isoWeekLabel_eq {ts : Int} (h : 99 < getUTCFullYear ts) (hiso : 99 < yearOf (thursday ts)) :
    isoWeekLabel ts = toString (yearOf (thursday ts)) ++ "-W" ++ pad (weekOf (thursday ts)) := by
  have hmidnight : dateUTC (getUTCFullYear ts) (getUTCMonth ts) (getUTCDate ts) =
      dayOf ts * 86400000 := by
    have hself := makeDay_self ts 0
    rw [Int.add_zero, Int.add_zero] at hself
    have hcentury : ¬ (0 ≤ getUTCFullYear ts ∧ getUTCFullYear ts ≤ 99) := by omega
    rw [dateUTC, if_neg hcentury, hself]
  have hshift : dayOf ts + (4 - if (dayOf ts + 4) % 7 = 0 then 7 else (dayOf ts + 4) % 7) =
      thursday ts := by
    unfold thursday
    split <;> omega
  have hstart : dateUTC (yearOf (thursday ts)) 0 1 =
      dayFromYear (yearOf (thursday ts)) * 86400000 := by
    have hzero : ∀ leap, monthStart leap 0 = 0 := by decide
    have hcentury : ¬ (0 ≤ yearOf (thursday ts) ∧ yearOf (thursday ts) ≤ 99) := by omega
    rw [dateUTC, if_neg hcentury, makeDay, hzero]
    omega
  have hweek : ∀ a b : Int, -(-((a * 86400000 - b * 86400000) / 86400000 + 1) / 7) =
      (a - b) / 7 + 1 := by
    intro a b
    omega
  unfold isoWeekLabel
  dsimp only
  rw [hmidnight, makeDay_self, getUTCDay, dayOf_midnight, hshift, getUTCFullYear, dayOf_midnight,
    hstart, hweek]
  rfl

/-! ## Numbers of one width -/

/-- The last digits of a number, as code units. -/
def fixed : Nat → Nat → List Nat
  | 0, _ => []
  | w + 1, n => fixed w (n / 10) ++ [48 + n % 10]

theorem fixed_length (w n : Nat) : (fixed w n).length = w := by
  induction w generalizing n with
  | zero => rfl
  | succ w ih => rw [fixed, length_append, ih, length_singleton]

theorem ltList_append {l l' : List Nat} (r r' : List Nat) (h : l.length = l'.length) :
    ltList (l ++ r) (l' ++ r') = true ↔ ltList l l' = true ∨ l = l' ∧ ltList r r' = true := by
  induction l generalizing l' with
  | nil =>
    cases l' with
    | nil => simp [ltList]
    | cons b l' => cases h
  | cons a l ih =>
    cases l' with
    | nil => cases h
    | cons b l' =>
      have htail := ih (Nat.succ.inj h)
      simp only [cons_append, ltList, or_eq_true, decide_eq_true_eq, and_eq_true,
        beq_iff_eq, htail, cons.injEq]
      tauto

theorem fixed_inj {w n n' : Nat} (hn : n < 10 ^ w) (hn' : n' < 10 ^ w) (h : fixed w n = fixed w n') :
    n = n' := by
  induction w generalizing n n' with
  | zero => omega
  | succ w ih =>
    obtain ⟨hrest, hlast⟩ := append_inj' h rfl
    have hdigit := cons.inj hlast
    have hdiv := ih (by rw [Nat.pow_succ] at hn; omega) (by rw [Nat.pow_succ] at hn'; omega) hrest
    omega

/-- **Numbers of one width** are compared as numbers. -/
theorem ltList_fixed {w n n' : Nat} (r r' : List Nat) (hn : n < 10 ^ w) (hn' : n' < 10 ^ w) :
    ltList (fixed w n ++ r) (fixed w n' ++ r') = true ↔
      n < n' ∨ n = n' ∧ ltList r r' = true := by
  have hdigits : ∀ {w n n' : Nat}, n < 10 ^ w → n' < 10 ^ w →
      (ltList (fixed w n) (fixed w n') = true ↔ n < n') := by
    intro w
    induction w with
    | zero =>
      intro n n' hn hn'
      simp [fixed, ltList]
      omega
    | succ w ih =>
      intro n n' hn hn'
      rw [Nat.pow_succ] at hn hn'
      rw [fixed, fixed, ltList_append _ _ (by rw [fixed_length, fixed_length]),
        ih (by omega) (by omega)]
      have hsame : fixed w (n / 10) = fixed w (n' / 10) ↔ n / 10 = n' / 10 :=
        ⟨fixed_inj (by omega) (by omega), congrArg _⟩
      rw [hsame]
      simp only [ltList, Bool.and_false, Bool.or_false, decide_eq_true_eq]
      omega
  rw [ltList_append r r' (by rw [fixed_length, fixed_length]), hdigits hn hn']
  exact or_congr_right (and_congr_left fun _ => ⟨fixed_inj hn hn', congrArg _⟩)

theorem units_digits : ∀ {w n : Nat}, n < 10 ^ w → 0 < w →
    units (JsDate.padded w n) = fixed w n := by
  have hdigit : ∀ d < 10, unitsOf (Nat.digitChar d) = [48 + d] := by decide
  have hzeros : ∀ k, (List.replicate k '0').flatMap unitsOf = fixed k 0 := by
    intro k
    induction k with
    | zero => rfl
    | succ k ih =>
      rw [replicate_succ', flatMap_append, ih]
      rfl
  intro w
  induction w with
  | zero => exact fun _ => nofun
  | succ w ih =>
    intro n hn _
    rw [Nat.pow_succ] at hn
    unfold units JsDate.padded
    rw [String.toList_ofList, flatMap_append]
    rcases Nat.lt_or_ge n 10 with hsmall | hlarge
    · rw [Nat.toDigits_of_lt_base hsmall, length_singleton, Nat.add_sub_cancel, hzeros, fixed,
        Nat.div_eq_of_lt hsmall, Nat.mod_eq_of_lt hsmall]
      exact congrArg (fixed w 0 ++ ·) ((append_nil _).trans (hdigit n hsmall))
    · have hw : 0 < w := by
        rcases Nat.eq_zero_or_pos w with rfl | hw
        · omega
        · exact hw
      have hrest := ih (n := n / 10) (by omega) hw
      unfold units JsDate.padded at hrest
      rw [String.toList_ofList, flatMap_append] at hrest
      rw [Nat.toDigits_of_base_le (by decide) hlarge, length_append, length_singleton,
        Nat.add_sub_add_right, flatMap_append, ← append_assoc, hrest, fixed]
      exact congrArg (fixed w (n / 10) ++ ·)
        ((append_nil _).trans (hdigit _ (Nat.mod_lt n (by decide))))

theorem units_year {y : Int} (h : 1000 ≤ y) (h' : y ≤ 9999) :
    units (toString y) = fixed 4 y.toNat := by
  obtain ⟨n, rfl⟩ := Int.eq_ofNat_of_zero_le (Int.le_trans (by decide) h)
  have hlength : (Nat.toDigits 10 n).length = 4 := by
    refine Nat.le_antisymm ((Nat.length_toDigits_le_iff (by decide) (by decide)).mpr (by omega)) ?_
    refine Nat.lt_of_not_le fun hle => ?_
    have hsmall := (Nat.length_toDigits_le_iff (by decide) (by decide)).mp hle
    omega
  have hpadded : JsDate.padded 4 n = toString n := by
    rw [JsDate.padded, hlength, Nat.toString_eq_ofList_toDigits]
    rfl
  have hstring : toString (n : Int) = toString n := rfl
  rw [hstring, ← hpadded]
  exact units_digits (by omega) (by decide)

theorem units_pad {n : Int} (h : 0 ≤ n) (h' : n < 100) : units (pad n) = fixed 2 n.toNat :=
  units_digits (by omega) (by decide)

/-! ## The parts of a label -/

/-- Numbers of two digits, each behind a separator. -/
def joined (separator : List Nat) : List Nat → List Nat
  | [] => []
  | n :: ns => separator ++ (fixed 2 n ++ joined separator ns)

/-- **Numbers behind separators** are compared one after another. -/
theorem ltList_joined (separator : List Nat) : ∀ {ns ns' : List Nat}, ns.length = ns'.length →
    (∀ n ∈ ns, n < 100) → (∀ n ∈ ns', n < 100) →
    (ltList (joined separator ns) (joined separator ns') = true ↔ ltList ns ns' = true)
  | [], [], _, _, _ => Iff.rfl
  | n :: ns, n' :: ns', hlen, h, h' => by
    obtain ⟨hn, hns⟩ := forall_mem_cons.mp h
    obtain ⟨hn', hns'⟩ := forall_mem_cons.mp h'
    rw [joined, joined, ltList_append _ _ rfl, ltList_irrefl, ltList_fixed _ _ hn hn',
      ltList_joined separator (Nat.succ.inj hlen) hns hns']
    simp [ltList]

/-- The separator of a window's labels. -/
def separatorOf : TimeWindow → String
  | .week => "-W"
  | .day | .month => "-"

/-- The year of a label, and its other numbers. -/
def partsOf (ts : Int) : TimeWindow → Int × List Int
  | .day => (getUTCFullYear ts, [(getUTCMonth ts : Int) + 1, getUTCDate ts])
  | .week => (yearOf (thursday ts), [weekOf (thursday ts)])
  | .month => (getUTCFullYear ts, [(getUTCMonth ts : Int) + 1])

/-- Times of the years from 1000 to 9998. -/
def InRange (ts : Int) : Prop := 1000 ≤ getUTCFullYear ts ∧ getUTCFullYear ts ≤ 9998

variable {ts ts' : Int}

theorem weekOf_spec (h : InRange ts) : (1000 ≤ yearOf (thursday ts) ∧ yearOf (thursday ts) ≤ 9999) ∧
    0 ≤ weekOf (thursday ts) ∧ weekOf (thursday ts) < 100 := by
  have hfirst := (le_yearOf_iff 1000 (dayOf ts)).mp h.1
  have hlast : dayOf ts < dayFromYear 9999 := by
    refine Int.lt_of_not_ge fun hle => ?_
    have hover : 9999 ≤ getUTCFullYear ts := (le_yearOf_iff 9999 (dayOf ts)).mpr hle
    have hyear := h.2
    omega
  have hstart : dayFromYear 1000 = -354285 := by decide
  have hend : dayFromYear 9999 = 2932532 := by decide
  have hafter : dayFromYear 10000 = 2932897 := by decide
  refine ⟨⟨(le_yearOf_iff _ _).mpr ?_, Int.le_of_lt_add_one (Int.lt_of_not_ge fun hle => ?_)⟩, ?_⟩
  · unfold thursday
    omega
  · have hover := (le_yearOf_iff 10000 (thursday ts)).mp hle
    unfold thursday at hover
    omega
  · obtain ⟨hle, hlt⟩ := yearOf_spec (thursday ts)
    unfold weekOf
    unfold dayFromYear at hle hlt ⊢
    omega

theorem date_spec (ts : Int) : 0 ≤ getUTCDate ts ∧ getUTCDate ts < 100 := by
  obtain ⟨hmonth, hle, hlt⟩ := month_spec ts
  have hstep := monthStart_step (isLeap (getUTCFullYear ts)) _ hmonth
  unfold getUTCDate
  omega

theorem parts_spec (h : InRange ts) (window : TimeWindow) :
    (1000 ≤ (partsOf ts window).1 ∧ (partsOf ts window).1 ≤ 9999) ∧
      ∀ n ∈ (partsOf ts window).2, 0 ≤ n ∧ n < 100 := by
  have hmonth := (month_spec ts).1
  have hyear : 1000 ≤ getUTCFullYear ts ∧ getUTCFullYear ts ≤ 9999 :=
    ⟨h.1, Int.le_trans h.2 (by decide)⟩
  cases window with
  | day =>
    refine ⟨hyear, forall_mem_cons.mpr ⟨by omega, ?_⟩⟩
    exact forall_mem_singleton.mpr (date_spec ts)
  | week => exact ⟨(weekOf_spec h).1, forall_mem_singleton.mpr (weekOf_spec h).2⟩
  | month => exact ⟨hyear, forall_mem_singleton.mpr (by omega)⟩

theorem units_bucket (h : InRange ts) (window : TimeWindow) :
    units (bucketOf ts window) = fixed 4 (partsOf ts window).1.toNat ++
      joined (units (separatorOf window)) ((partsOf ts window).2.map Int.toNat) := by
  obtain ⟨hyear, hrest⟩ := parts_spec h window
  rw [← units_year hyear.1 hyear.2]
  cases window with
  | day =>
    show units (toString _ ++ "-" ++ pad _ ++ "-" ++ pad _) = _
    obtain ⟨hmonth, hdate⟩ := forall_mem_cons.mp hrest
    have hdate := forall_mem_singleton.mp hdate
    simp only [units_append, units_pad hmonth.1 hmonth.2, units_pad hdate.1 hdate.2,
      append_assoc]
    rfl
  | week =>
    show units (isoWeekLabel ts) = _
    have hweek := forall_mem_singleton.mp hrest
    have hin := h.1
    have hiso : 99 < yearOf (thursday ts) := Int.lt_of_lt_of_le (by decide) hyear.1
    rw [isoWeekLabel_eq (by omega) hiso, units_append, units_append, units_pad hweek.1 hweek.2,
      append_assoc]
    rfl
  | month =>
    show units (toString _ ++ "-" ++ pad _) = _
    have hmonth := forall_mem_singleton.mp hrest
    rw [units_append, units_append, units_pad hmonth.1 hmonth.2, append_assoc]
    rfl

/-- **Labels are compared by their numbers**, the year first. -/
theorem lt_bucket_iff (h : InRange ts) (h' : InRange ts') (window : TimeWindow) :
    ltUnits (bucketOf ts window) (bucketOf ts' window) = true ↔
      (partsOf ts window).1 < (partsOf ts' window).1 ∨
        (partsOf ts window).1 = (partsOf ts' window).1 ∧
          ltList ((partsOf ts window).2.map Int.toNat) ((partsOf ts' window).2.map Int.toNat) = true := by
  obtain ⟨hyear, hrest⟩ := parts_spec h window
  obtain ⟨hyear', hrest'⟩ := parts_spec h' window
  have hsmall : ∀ {l : List Int}, (∀ n ∈ l, 0 ≤ n ∧ n < 100) → ∀ n ∈ l.map Int.toNat, n < 100 := by
    intro l hl
    refine forall_mem_map.mpr fun n hn => ?_
    have hbound := hl n hn
    omega
  rw [ltUnits, units_bucket h, units_bucket h', ltList_fixed _ _ (by omega) (by omega),
    ltList_joined _ ?_ (hsmall hrest) (hsmall hrest')]
  · refine or_congr ?_ (and_congr_left fun _ => ?_)
    · omega
    · omega
  · cases window <;> rfl

/-! ## Buckets -/

/-- Both times lie in one week, from a Monday to a Sunday. -/
def SameWeek (ts ts' : Int) : Prop :=
  ∃ monday, getUTCDay (monday * 86400000) = 1 ∧ (monday ≤ dayOf ts ∧ dayOf ts ≤ monday + 6) ∧
    monday ≤ dayOf ts' ∧ dayOf ts' ≤ monday + 6

theorem sameWeek_iff (ts ts' : Int) : SameWeek ts ts' ↔ thursday ts = thursday ts' := by
  unfold SameWeek thursday
  constructor
  · rintro ⟨monday, hmonday, hin, hin'⟩
    rw [getUTCDay, dayOf_midnight] at hmonday
    omega
  · intro h
    refine ⟨7 * ((dayOf ts + 3) / 7) - 3, ?_, ?_, ?_⟩
    · rw [getUTCDay, dayOf_midnight]
      omega
    · omega
    · omega

theorem thursday_eq {ts ts' : Int} (hyear : yearOf (thursday ts) = yearOf (thursday ts'))
    (hweek : weekOf (thursday ts) = weekOf (thursday ts')) : thursday ts = thursday ts' := by
  unfold weekOf at hweek
  rw [hyear] at hweek
  unfold thursday at hweek ⊢
  omega

theorem month_mono (hle : dayOf ts ≤ dayOf ts') (hyear : getUTCFullYear ts' = getUTCFullYear ts) :
    getUTCMonth ts ≤ getUTCMonth ts' := by
  obtain ⟨hmonth, hstart, -⟩ := month_spec ts
  obtain ⟨-, -, hend⟩ := month_spec ts'
  refine Nat.le_of_not_lt fun hlt => ?_
  -- the earlier month is over before the later one starts
  have hover := monthStart_mono (isLeap (getUTCFullYear ts)) _ hmonth _ hlt
  rw [hyear] at hend
  unfold dayInYear at hstart hend
  rw [hyear] at hend
  omega

theorem date_mono (hle : dayOf ts ≤ dayOf ts') (hyear : getUTCFullYear ts' = getUTCFullYear ts)
    (hmonth : getUTCMonth ts' = getUTCMonth ts) : getUTCDate ts ≤ getUTCDate ts' := by
  unfold getUTCDate dayInYear
  rw [hyear, hmonth]
  omega

theorem parts_mono (hle : dayOf ts ≤ dayOf ts') (window : TimeWindow) :
    (partsOf ts window).1 ≤ (partsOf ts' window).1 ∧
      ((partsOf ts' window).1 = (partsOf ts window).1 →
        ltList ((partsOf ts' window).2.map Int.toNat) ((partsOf ts window).2.map Int.toNat) =
          false) := by
  have hyear : getUTCFullYear ts ≤ getUTCFullYear ts' := yearOf_mono hle
  cases window with
  | day =>
    refine ⟨hyear, fun heq => ?_⟩
    have hmonth := month_mono hle heq
    have hdate : getUTCMonth ts' = getUTCMonth ts → getUTCDate ts ≤ getUTCDate ts' :=
      date_mono hle heq
    simp [partsOf, ltList]
    omega
  | week =>
    have hthursday : thursday ts ≤ thursday ts' := by
      unfold thursday
      omega
    refine ⟨yearOf_mono hthursday, fun heq => ?_⟩
    have hweek : weekOf (thursday ts) ≤ weekOf (thursday ts') := by
      have hsame : yearOf (thursday ts') = yearOf (thursday ts) := heq
      unfold weekOf
      rw [hsame]
      omega
    simp [partsOf, ltList]
    omega
  | month =>
    refine ⟨hyear, fun heq => ?_⟩
    have hmonth := month_mono hle heq
    simp [partsOf, ltList]
    omega

/-- **Weeks are ISO weeks, and labels are in the order of time**, for years of four digits. -/
theorem buckets_ordered (ts ts' : Int) (h : InRange ts) (h' : InRange ts') :
    (bucketOf ts .week = bucketOf ts' .week ↔ SameWeek ts ts') ∧
      ∀ window, ts ≤ ts' → ltUnits (bucketOf ts' window) (bucketOf ts window) = false := by
  constructor
  · rw [sameWeek_iff]
    constructor
    · intro heq
      have hparts : ∀ {ts ts' : Int}, InRange ts → InRange ts' →
          bucketOf ts .week = bucketOf ts' .week → ¬ (yearOf (thursday ts) < yearOf (thursday ts') ∨
            yearOf (thursday ts) = yearOf (thursday ts') ∧
              ltList [(weekOf (thursday ts)).toNat] [(weekOf (thursday ts')).toNat] = true) := by
        intro ts ts' h h' heq hlt
        have hself := (lt_bucket_iff h h' .week).mpr hlt
        rw [heq, ltUnits, ltList_irrefl] at hself
        nomatch hself
      have hnot := hparts h h' heq
      have hnot' := hparts h' h heq.symm
      have hweek := (weekOf_spec h).2
      have hweek' := (weekOf_spec h').2
      simp [ltList] at hnot hnot'
      exact thursday_eq (by omega) (by omega)
    · intro heq
      have hyear := (weekOf_spec h).1
      have hyear' := (weekOf_spec h').1
      have hin := h.1
      have hin' := h'.1
      show isoWeekLabel ts = isoWeekLabel ts'
      rw [isoWeekLabel_eq (by omega) (by omega), isoWeekLabel_eq (by omega) (by omega), heq]
  · intro window hle
    obtain ⟨hyear, hrest⟩ := parts_mono (Int.ediv_le_ediv (by decide) hle) window
    rw [← not_eq_true, lt_bucket_iff h' h]
    rintro (hlt | ⟨heq, hlt⟩)
    · omega
    · rw [hrest heq] at hlt
      nomatch hlt

/-- The last day of 2020 and the first of 2021, in the 53rd week of 2020. -/
theorem buckets_ordered_turn : SameWeek 1609372800000 1609459200000 ∧
    bucketOf 1609372800000 .week = bucketOf 1609459200000 .week := by
  have hweek : SameWeek 1609372800000 1609459200000 := (sameWeek_iff _ _).mpr (by decide)
  exact ⟨hweek, (buckets_ordered 1609372800000 1609459200000 ⟨by decide, by decide⟩
    ⟨by decide, by decide⟩).1.mpr hweek⟩

end NexusCode.Analytics
