/-
  `fs_patch`: parsing unified diffs and applying their hunks.

  Texts and lines are lists of characters.  The parser goes by the first characters of a line; the
  counts of a hunk header are read past, and kept here as `announced`, which no function of the
  source looks at.  Line numbers are exact.

    1. `splitLines`, `joinLines`  — texts and their lines.
    2. `hunkHeader`, `parseUnifiedDiff` — the parser.
    3. `applyHunk`, `applyHunks`  — the applier.
-/
import NexusCode.Lib.Json
import NexusCode.Lib.Lines

namespace NexusCode.Patch

open Lib

/-- A line, or a text. -/
abbrev Text := List Char

/-! ## Lines of a text -/

/-- `splitLines(text)`. -/
def splitLines (text : Text) : List Text :=
  if text.isEmpty then []
  else if (lines text).getLast? = some [] then (lines text).dropLast
  else lines text

/-- `out.length ? out.join("\n") + "\n" : ""`. -/
def joinLines (out : List Text) : Text :=
  if out.isEmpty then [] else ['\n'].intercalate out ++ ['\n']

/-! ## The parser -/

/-- `Hunk`, with the counts its header announces. -/
structure Hunk where
  oldStart : Nat
  newStart : Nat
  lines : List Text
  announced : Nat × Nat
deriving DecidableEq

/-- `FilePatch`. -/
structure FilePatch where
  oldPath : String
  newPath : String
  hunks : List Hunk
deriving DecidableEq

/-- The value of decimal digits. -/
def decimalOf (ds : Text) : Nat := Nat.ofDigitChars 10 ds 0

/-- `(\d+)`. -/
def digits (cs : Text) : Option (Nat × Text) :=
  if (cs.takeWhile Char.isDigit).isEmpty then none
  else some (decimalOf (cs.takeWhile Char.isDigit), cs.dropWhile Char.isDigit)

/-- `(\d+)(?:,\d+)?`: the number, the count behind it, and the rest. -/
def digitsAndCount (cs : Text) : Option (Nat × Nat × Text) := do
  let (start, rest) ← digits cs
  match rest with
  | ',' :: rest' =>
    match digits rest' with
    | some (count, rest'') => some (start, count, rest'')
    | none => some (start, 1, rest)
  | _ => some (start, 1, rest)

/-- A literal part of an expression. -/
def literal (word : String) (cs : Text) : Option Text :=
  if word.toList <+: cs then some (cs.drop word.toList.length) else none

/-- `/^@@ -(\d+)(?:,\d+)? \+(\d+)(?:,\d+)? @@/`. -/
def hunkHeader (line : Text) : Option Hunk := do
  let rest ← literal "@@ -" line
  let (oldStart, oldCount, rest) ← digitsAndCount rest
  let rest ← literal " +" rest
  let (newStart, newCount, rest) ← digitsAndCount rest
  let _ ← literal " @@" rest
  return { oldStart, newStart, lines := [], announced := (oldCount, newCount) }

/-- Characters that `.` does not match. -/
def isTerminator (c : Char) : Bool :=
  c = '\n' || c = '\r' || c = Char.ofNat 0x2028 || c = Char.ofNat 0x2029

/-- `.replace(/\t.*$/, "")`. -/
def cutTab : Text → Text
  | [] => []
  | c :: cs => if c = '\t' && !cs.any isTerminator then [] else c :: cutTab cs

/-- The path in a file header. -/
def headerPath (line : Text) : String :=
  String.ofList (JsString.trimList (cutTab (line.drop 4)))

/-- The state of the parser: the patches before the current one, it, and the open hunk. -/
structure Parsing where
  done : List FilePatch
  current : Option FilePatch
  hunk : Option Hunk

/-- `closeHunk()`. -/
def Parsing.closeHunk (st : Parsing) : Parsing :=
  match st.current, st.hunk with
  | some patch, some hunk =>
    { st with current := some { patch with hunks := patch.hunks ++ [hunk] }, hunk := none }
  | _, _ => { st with hunk := none }

/-- `patches`. -/
def Parsing.patches (st : Parsing) : List FilePatch := st.done ++ st.current.toList

/-- The lines a hunk keeps start with one of these. -/
def isHunkLine (line : Text) : Bool := [' '] <+: line || ['-'] <+: line || ['+'] <+: line

/-- The loop of `parseUnifiedDiff`. -/
def parseLines : Parsing → List Text → Except String Parsing
  | st, [] => .ok st
  | st, line :: rest =>
    if "--- ".toList <+: line then
      match rest with
      | [] => .error "malformed diff: \"--- \" header not followed by \"+++ \""
      | next :: rest =>
        if "+++ ".toList <+: next then
          parseLines { done := st.closeHunk.patches
                       current := some ⟨headerPath line, headerPath next, []⟩
                       hunk := none } rest
        else .error "malformed diff: \"--- \" header not followed by \"+++ \""
    else if "@@".toList <+: line then
      if st.current.isNone then .error "hunk found before any file header"
      else match hunkHeader line with
        | none => .error ("malformed hunk header: " ++ String.ofList line)
        | some hunk => parseLines { st.closeHunk with hunk := some hunk } rest
    else match st.hunk with
      | none => parseLines st rest
      | some hunk =>
        if ['\\'] <+: line then parseLines st rest
        else if isHunkLine line then
          parseLines { st with hunk := some { hunk with lines := hunk.lines ++ [line] } } rest
        -- anything else ends the hunk
        else parseLines st.closeHunk rest

/-- `parseUnifiedDiff(diff)`. -/
def parseUnifiedDiff (diff : Text) : Except String (List FilePatch) :=
  match parseLines ⟨[], none, none⟩ (lines diff) with
  | .ok st => .ok st.closeHunk.patches
  | .error message => .error message

/-! ## The applier -/

/-- The state of `applyHunks`: the cursor, the lines from it on, and the output. -/
structure Applying where
  cursor : Nat
  rest : List Text
  out : List Text

/-- `JSON.stringify` of a line that may be missing. -/
def stringified : Option Text → String
  | some line => (Json.str (String.ofList line)).text
  | none => "undefined"

/-- `src[cursor]` is the line, and the cursor moves on. -/
def Applying.expect (st : Applying) (label : String) (text : Text) : Except String Applying :=
  match st.rest with
  | found :: rest =>
    if found = text then .ok { st with cursor := st.cursor + 1, rest }
    else .error (label ++ " mismatch at line " ++ toString (st.cursor + 1) ++ ": expected " ++
      stringified (some text) ++ ", found " ++ stringified (some found))
  | [] => .error (label ++ " mismatch at line " ++ toString (st.cursor + 1) ++ ": expected " ++
      stringified (some text) ++ ", found " ++ stringified none)

/-- One line of a hunk. -/
def applyLine (st : Applying) : Text → Except String Applying
  | ' ' :: text => do
    let st ← st.expect "context" text
    return { st with out := st.out ++ [text] }
  | '-' :: text => st.expect "remove" text
  | '+' :: text => .ok { st with out := st.out ++ [text] }
  | _ => .ok st

/-- The lines of a hunk. -/
def applyLines : Applying → List Text → Except String Applying
  | st, [] => .ok st
  | st, line :: rest => do
    let st ← applyLine st line
    applyLines st rest

/-- `Math.max(0, hunk.oldStart - 1)`. -/
def Hunk.start (hunk : Hunk) : Nat := hunk.oldStart - 1

/-- Untouched lines up to an index are copied. -/
def Applying.copyTo (st : Applying) (start : Nat) : Applying where
  cursor := st.cursor + (st.rest.take (start - st.cursor)).length
  rest := st.rest.drop (start - st.cursor)
  out := st.out ++ st.rest.take (start - st.cursor)

/-- One hunk. -/
def applyHunk (st : Applying) (hunk : Hunk) : Except String Applying :=
  if hunk.start < st.cursor then
    .error ("overlapping or out-of-order hunk at line " ++ toString hunk.oldStart)
  else applyLines (st.copyTo hunk.start) hunk.lines

/-- The loop of `applyHunks`. -/
def applyAll : Applying → List Hunk → Except String Applying
  | st, [] => .ok st
  | st, hunk :: hunks => do
    let st ← applyHunk st hunk
    applyAll st hunks

/-- `applyHunks(original, hunks)`. -/
def applyHunks (original : Text) (hunks : List Hunk) : Except String Text := do
  let st ← applyAll ⟨0, splitLines original, []⟩ hunks
  return joinLines (st.out ++ st.rest)

end NexusCode.Patch
