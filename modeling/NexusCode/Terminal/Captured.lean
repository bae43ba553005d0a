/-
  Output does not depend on how it was cut, or does it?

  The operating system cuts the output of a child where it likes, also inside a character.  Both
  `shell_exec` and the jobs decode every data event for itself, so the two halves of such a
  character become replacement characters, and are counted as those.

  1. `Capture`            — the part both share: a text, its pieces, a count and a cap.
  2. `Capture.run_iff`    — when the whole output is captured.
  3. `shell_capture`, `job_capture` — both do as a capture does.
  4. **`captured_iff`**   — exactly if no data event begins inside a character; `split_character`.
-/
import NexusCode.Terminal.Shell

namespace NexusCode.Terminal

open Lib Utf8 List Bool

/-! ## Capturing -/

/-- What was captured of one stream: the text, the pieces handed on, the bytes counted, and whether
    the cap was passed. -/
@[ext] structure Capture where
  text : List Char
  pieces : List (List Char)
  bytes : Nat
  capped : Bool

namespace Capture

/-- Nothing yet. -/
def initial : Capture := ⟨[], [], 0, false⟩

/-- One data event. -/
def take (max : Nat) (c : Capture) (d : List UInt8) : Capture :=
  if c.capped then c
  else
    let bytes := c.bytes + (encode (decode d)).length
    ⟨c.text ++ decode d, c.pieces ++ [decode d], bytes, decide (max < bytes)⟩

/-- The data events of a child. -/
def run (max : Nat) (c : Capture) (chunks : List (List UInt8)) : Capture :=
  chunks.foldl (take max) c

variable {max : Nat}

theorem run_cons (c : Capture) (d : List UInt8) (chunks : List (List UInt8)) :
    run max c (d :: chunks) = run max (take max c d) chunks := rfl

variable {c : Capture}

theorem take_capped (h : c.capped = true) (d : List UInt8) : take max c d = c :=
  if_pos h

theorem take_open (h : c.capped = false) (d : List UInt8) : take max c d =
    ⟨c.text ++ decode d, c.pieces ++ [decode d], c.bytes + (encode (decode d)).length,
      decide (max < c.bytes + (encode (decode d)).length)⟩ :=
  if_neg (eq_false_iff.mp h)

theorem run_capped (h : c.capped = true) (chunks : List (List UInt8)) :
    run max c chunks = c := by
  induction chunks with
  | nil => rfl
  | cons d chunks ih => rw [run_cons, take_capped h, ih]

/-- The cap has been passed exactly if there are more bytes than it allows, all along. -/
theorem run_capped_iff (h : c.capped = true ↔ max < c.bytes)
    (chunks : List (List UInt8)) :
    (run max c chunks).capped = true ↔ max < (run max c chunks).bytes := by
  induction chunks generalizing c with
  | nil => exact h
  | cons d chunks ih =>
    rw [run_cons]
    apply ih
    cases hcapped : c.capped with
    | true =>
      rw [take_capped hcapped]
      exact h
    | false =>
      rw [take_open hcapped]
      exact decide_eq_true_iff

theorem run_pieces (h : c.pieces.flatten = c.text) (chunks : List (List UInt8)) :
    (run max c chunks).pieces.flatten = (run max c chunks).text := by
  induction chunks generalizing c with
  | nil => exact h
  | cons d chunks ih =>
    rw [run_cons]
    apply ih
    cases hcapped : c.capped with
    | true =>
      rw [take_capped hcapped]
      exact h
    | false =>
      rw [take_open hcapped, flatten_append, h]
      exact congrArg (c.text ++ ·) (append_nil _)

variable {chunks : List (List UInt8)}

theorem run_uncapped
    (h : (run max c chunks).capped = false) :
    (run max c chunks).text = c.text ++ chunks.flatMap decode := by
  induction chunks generalizing c with
  | nil => exact (append_nil _).symm
  | cons d chunks ih =>
    have hopen : c.capped = false := by
      apply not_eq_true _ |>.mp
      intro hcapped
      rw [run_capped hcapped, hcapped] at h
      nomatch h
    rw [run_cons] at h ⊢
    rw [ih h, flatMap_cons, ← append_assoc, take_open hopen]

theorem run_within (hopen : c.capped = false)
    (h : c.bytes + (encode (chunks.flatMap decode)).length ≤ max) :
    (run max c chunks).text = c.text ++ chunks.flatMap decode ∧
      (run max c chunks).bytes = c.bytes + (encode (chunks.flatMap decode)).length := by
  induction chunks generalizing c with
  | nil => exact ⟨(append_nil _).symm, rfl⟩
  | cons d chunks ih =>
    have hlength : (encode ((d :: chunks).flatMap decode)).length =
        (encode (decode d)).length + (encode (chunks.flatMap decode)).length := by
      rw [flatMap_cons, encode, flatMap_append, length_append]
      rfl
    rw [hlength] at h ⊢
    have htake : take max c d = ⟨c.text ++ decode d, c.pieces ++ [decode d],
        c.bytes + (encode (decode d)).length, false⟩ := by
      rw [take_open hopen]
      exact Capture.ext rfl rfl rfl (decide_eq_false (by omega))
    have hroom : (take max c d).bytes + (encode (chunks.flatMap decode)).length ≤ max := by
      rw [htake]
      dsimp only
      omega
    obtain ⟨htext, hbytes⟩ := ih (by rw [htake]) hroom
    rw [run_cons, htext, hbytes, htake, flatMap_cons, append_assoc]
    exact ⟨rfl, Nat.add_assoc _ _ _⟩

/-- **The whole text is captured and counted** exactly if every event starts with a character. -/
theorem run_iff {text : List Char} (h : chunks.flatten = encode text)
    (hmax : (encode text).length ≤ max) :
    ((run max initial chunks).text = text ∧ (run max initial chunks).bytes = (encode text).length) ↔
      ∀ chunk ∈ chunks, StartsClean chunk := by
  rw [← decode_chunks_iff h]
  constructor
  · rintro ⟨htext, hbytes⟩
    have hopen : (run max initial chunks).capped = false := by
      apply not_eq_true _ |>.mp
      intro hcapped
      have hstart : initial.capped = true ↔ max < initial.bytes :=
        ⟨nofun, fun h => absurd h (Nat.not_lt_zero _)⟩
      have hover := (run_capped_iff hstart chunks).mp hcapped
      omega
    rw [← htext, run_uncapped hopen]
    rfl
  · intro htext
    have hroom : initial.bytes + (encode (chunks.flatMap decode)).length ≤ max := by
      rw [htext]
      show 0 + _ ≤ _
      omega
    obtain ⟨hall, hbytes⟩ := run_within rfl hroom
    rw [htext] at hall hbytes
    exact ⟨hall, hbytes.trans (Nat.zero_add _)⟩

end Capture

/-! ## Both capture -/

namespace ShellRun

/-- A call whose child puts out these data events on stdout, and ends. -/
def ofOutput (input : ShellInput) (chunks : List (List UInt8)) (code : Option Int)
    (sig : Option Signal) : ShellRun :=
  step input (chunks.foldl (fun run d => step input run (.data .stdout d)) initial)
    (.close code sig)

/-- What a call has captured. -/
def capture (run : ShellRun) : Capture :=
  ⟨run.stdout, run.queue.values, run.outputBytes, run.outputCapped⟩

/-- All of the bytes were captured: in the text and in the events, and they were counted. -/
def Captures (run : ShellRun) (bytes : List UInt8) : Prop :=
  run.stdout = decode bytes ∧ run.queue.values.flatten = decode bytes ∧
    run.outputBytes = bytes.length

theorem capture_onData (input : ShellInput) {run : ShellRun} (hopen : run.queue.closed = false)
    (d : List UInt8) :
    (run.onData input .stdout d).capture = run.capture.take input.maxOutputBytes d ∧
      (run.onData input .stdout d).queue.closed = false := by
  by_cases hcapped : run.outputCapped = true
  · have htake : run.capture.take input.maxOutputBytes d = run.capture :=
      Capture.take_capped hcapped d
    rw [htake, onData, if_pos hcapped]
    exact ⟨rfl, hopen⟩
  · have hfalse : run.outputCapped = false := eq_false_iff.mpr hcapped
    rw [Capture.take_open (c := run.capture) hfalse, onData, if_neg hcapped]
    have hpush : run.queue.push (decode d) = ⟨run.queue.values ++ [decode d], false⟩ := by
      rw [Feed.push, hopen]
      rfl
    dsimp only
    rw [hpush]
    split
    · rename_i hover
      exact ⟨Capture.ext rfl rfl rfl (decide_eq_true hover).symm, rfl⟩
    · rename_i hwithin
      exact ⟨Capture.ext rfl rfl rfl (hfalse.trans (decide_eq_false hwithin).symm), rfl⟩

theorem capture_settle (run : ShellRun) : run.settle.capture = run.capture := by
  unfold settle
  split <;> rfl

theorem capture_foldl (input : ShellInput) (chunks : List (List UInt8)) {run : ShellRun}
    (hopen : run.queue.closed = false) :
    (chunks.foldl (fun run d => step input run (.data .stdout d)) run).capture =
      run.capture.run input.maxOutputBytes chunks := by
  induction chunks generalizing run with
  | nil => rfl
  | cons d chunks ih =>
    obtain ⟨hcapture, hopen'⟩ := capture_onData input hopen d
    rw [Capture.run_cons, ← hcapture]
    exact ih hopen'

theorem capture_ofOutput (input : ShellInput) (chunks : List (List UInt8)) (code : Option Int)
    (sig : Option Signal) :
    (ofOutput input chunks code sig).capture =
      Capture.run input.maxOutputBytes Capture.initial chunks := by
  have hopen : initial.queue.closed = false := rfl
  refine Eq.trans ?_ (capture_foldl input chunks hopen)
  unfold ofOutput
  generalize chunks.foldl (fun run d => step input run (.data .stdout d)) initial = run
  exact capture_settle _

end ShellRun

namespace Job

/-- A job whose child puts out these data events on stdout, and ends. -/
def ofOutput (job : Job) (chunks : List (List UInt8)) (now : Int) (code : Option Int)
    (sig : Option Signal) : Job :=
  (chunks.foldl (fun job d => job.onData .stdout d) job).onClose now code sig

/-- What a job has captured. -/
def capture (job : Job) : Capture :=
  ⟨job.stdoutBuf, job.broadcast.values.map OutputChunk.data, job.outputBytes, job.outputCapped⟩

/-- All of the bytes were captured: in the text and in the stream, and they were counted. -/
def Captures (job : Job) (bytes : List UInt8) : Prop :=
  job.stdout = decode bytes ∧ job.stream.flatMap OutputChunk.data = decode bytes ∧
    job.info.outputBytes = bytes.length

/-- Nothing has ended the job. -/
structure Listening (job : Job) : Prop where
  timedOut : job.timedOut = false
  settled : job.settled = false
  closed : job.broadcast.closed = false

theorem capture_onData {job : Job} (h : job.Listening) (d : List UInt8) :
    (job.onData .stdout d).capture = job.capture.take job.maxOutputBytes d ∧
      (job.onData .stdout d).Listening ∧
      (job.onData .stdout d).maxOutputBytes = job.maxOutputBytes := by
  obtain ⟨htimedOut, hsettled, hclosed⟩ := h
  by_cases hcapped : job.outputCapped = true
  · have htake : job.capture.take job.maxOutputBytes d = job.capture :=
      Capture.take_capped hcapped d
    rw [htake, onData, hcapped]
    exact ⟨rfl, ⟨htimedOut, hsettled, hclosed⟩, rfl⟩
  · have hfalse : job.outputCapped = false := eq_false_iff.mpr hcapped
    have hpush : job.broadcast.push (OutputChunk.mk .stdout (decode d)) =
        Feed.mk (job.broadcast.values ++ [OutputChunk.mk .stdout (decode d)]) false := by
      rw [Feed.push, hclosed]
      rfl
    have hpieces : (job.broadcast.values ++ [OutputChunk.mk .stdout (decode d)]).map
        OutputChunk.data = job.capture.pieces ++ [decode d] := map_append
    have hguard : ¬ (job.outputCapped || job.timedOut || job.settled) = true := by
      rw [hfalse, htimedOut, hsettled]
      exact Bool.false_ne_true
    rw [Capture.take_open (c := job.capture) hfalse, onData, if_neg hguard]
    dsimp only
    rw [hpush]
    split
    · rename_i hover
      exact ⟨Capture.ext rfl hpieces rfl (decide_eq_true hover).symm,
        ⟨htimedOut, hsettled, rfl⟩, rfl⟩
    · rename_i hwithin
      exact ⟨Capture.ext rfl hpieces rfl (hfalse.trans (decide_eq_false hwithin).symm),
        ⟨htimedOut, hsettled, rfl⟩, rfl⟩

theorem capture_foldl (chunks : List (List UInt8)) {job : Job} (h : job.Listening) :
    (chunks.foldl (fun job d => job.onData .stdout d) job).capture =
      job.capture.run job.maxOutputBytes chunks := by
  induction chunks generalizing job with
  | nil => rfl
  | cons d chunks ih =>
    obtain ⟨hcapture, hlistening, hmax⟩ := capture_onData h d
    rw [Capture.run_cons, ← hcapture, ← hmax]
    exact ih hlistening

theorem capture_settle (job : Job) (now : Int) : (job.settle now).capture = job.capture := by
  unfold settle
  split <;> rfl

theorem capture_ofOutput {job : Job} (h : job.Listening) (chunks : List (List UInt8)) (now : Int)
    (code : Option Int) (sig : Option Signal) :
    (job.ofOutput chunks now code sig).capture = job.capture.run job.maxOutputBytes chunks := by
  refine Eq.trans ?_ (capture_foldl chunks h)
  unfold ofOutput
  generalize chunks.foldl (fun job d => job.onData .stdout d) job = last
  exact capture_settle _ now

/-- A new job listens, has captured nothing, and has the cap of its spec. -/
theorem listening_create (id : Nat) (spec : JobSpec) (cwd : Place) (defaults : Defaults) (now : Int)
    (pid : Option Nat) :
    (create id spec cwd defaults now pid).Listening ∧
      (create id spec cwd defaults now pid).capture = Capture.initial ∧
      (create id spec cwd defaults now pid).maxOutputBytes =
        spec.maxOutputBytes.getD defaults.maxOutputBytes := by
  unfold create
  dsimp only
  split <;> exact ⟨⟨rfl, rfl, rfl⟩, rfl, rfl⟩

end Job

/-! ## Cut anywhere -/

/-- What a capture of a child's whole output must be, for its text, its pieces and its count. -/
theorem captures_iff {bytes : List UInt8} {text : List Char} (hvalid : encode text = bytes)
    {chunks : List (List UInt8)} (hchunks : chunks.flatten = bytes) {max : Nat}
    (hmax : bytes.length < max) :
    ((Capture.run max .initial chunks).text = decode bytes ∧
        (Capture.run max .initial chunks).pieces.flatten = decode bytes ∧
        (Capture.run max .initial chunks).bytes = bytes.length) ↔
      ∀ chunk ∈ chunks, StartsClean chunk := by
  subst hvalid
  rw [decode_encode, Capture.run_pieces rfl, ← Capture.run_iff hchunks (Nat.le_of_lt hmax)]
  exact ⟨fun ⟨htext, _, hbytes⟩ => ⟨htext, hbytes⟩, fun ⟨htext, hbytes⟩ => ⟨htext, htext, hbytes⟩⟩

/-- **Output below the cap is captured as a whole**, by a call of `shell_exec` and by a job, exactly
    if no data event begins with a byte that continues a character. -/
theorem captured_iff {bytes : List UInt8} (hvalid : ∃ text, encode text = bytes)
    {chunks : List (List UInt8)} (hchunks : chunks.flatten = bytes)
    {input : ShellInput} (hinput : bytes.length < input.maxOutputBytes)
    {spec : JobSpec} {defaults : Defaults}
    (hspec : bytes.length < spec.maxOutputBytes.getD defaults.maxOutputBytes)
    (id : Nat) (cwd : Place) (started ended : Int) (pid : Option Nat) (code : Option Int)
    (sig : Option Signal) :
    ((ShellRun.ofOutput input chunks code sig).Captures bytes ∧
        ((Job.create id spec cwd defaults started pid).ofOutput chunks ended code sig).Captures
          bytes) ↔
      ∀ chunk ∈ chunks, StartsClean chunk := by
  obtain ⟨text, hvalid⟩ := hvalid
  have hshell := ShellRun.capture_ofOutput input chunks code sig
  obtain ⟨hlistening, hinitial, hmax⟩ := Job.listening_create id spec cwd defaults started pid
  have hjob := Job.capture_ofOutput hlistening chunks ended code sig
  rw [hinitial, hmax] at hjob
  have hshellIff : (ShellRun.ofOutput input chunks code sig).Captures bytes ↔
      ∀ chunk ∈ chunks, StartsClean chunk := by
    rw [← captures_iff hvalid hchunks hinput, ← hshell]
    exact Iff.rfl
  have hjobIff : ((Job.create id spec cwd defaults started pid).ofOutput chunks ended code
      sig).Captures bytes ↔ ∀ chunk ∈ chunks, StartsClean chunk := by
    rw [← captures_iff hvalid hchunks hspec, ← hjob]
    unfold Job.Captures
    rw [flatMap_def]
    exact Iff.rfl
  rw [hshellIff, hjobIff]
  exact and_self_iff

/-- The two bytes of an `é` in one event. -/
theorem whole_character :
    (ShellRun.ofOutput ⟨"printf", ["é"], 8⟩ [[0xC3, 0xA9]] (some 0) none).Captures [0xC3, 0xA9] ∧
      ((Job.create 0 ⟨"printf", ["é"], none, none, false⟩ [] ⟨"/", 8⟩ 0 (some 7)).ofOutput
        [[0xC3, 0xA9]] 1 (some 0) none).Captures [0xC3, 0xA9] :=
  (captured_iff ⟨['é'], by decide +kernel⟩ (append_nil _) (by decide) (by decide) 0 [] 0 1
    (some 7) (some 0) none).mpr (forall_mem_singleton.mpr fun _ hb => Option.some.inj hb ▸ rfl)

/-- The two bytes of an `é` in two events. -/
theorem split_character : ¬ ∀ (bytes : List UInt8), (∃ text, encode text = bytes) →
    ∀ chunks : List (List UInt8), chunks.flatten = bytes →
    ∀ (input : ShellInput) (spec : JobSpec) (defaults : Defaults),
      bytes.length < input.maxOutputBytes →
      bytes.length < spec.maxOutputBytes.getD defaults.maxOutputBytes →
      (ShellRun.ofOutput input chunks (some 0) none).Captures bytes ∧
        ((Job.create 0 spec [] defaults 0 (some 7)).ofOutput chunks 1 (some 0) none).Captures
          bytes := by
  intro hall
  obtain ⟨⟨hstdout, -, -⟩, -⟩ := hall [0xC3, 0xA9] ⟨['é'], by decide +kernel⟩ [[0xC3], [0xA9]] rfl
    ⟨"printf", ["é"], 8⟩ ⟨"printf", ["é"], none, none, false⟩ ⟨"/", 8⟩ (by decide) (by decide)
  exact absurd hstdout (by decide +kernel)

end NexusCode.Terminal
