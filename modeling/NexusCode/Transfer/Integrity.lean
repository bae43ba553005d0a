/-
  Reading a handoff capsule back: limits, schema and integrity digest.

  SHA-256, HMAC-SHA256 and `Date.parse` are arbitrary functions (`Platform`).

  1. `canonicalStringify` — the text that is hashed: keys sorted at every level.
  2. `verifyHandoffCapsuleIntegrity` — the digest is recomputed with the algorithm the capsule
     names.
  3. `deserialize_eq_ok_iff` — what is accepted: a text within the limits that parses to a valid
     capsule whose digest matches.
  4. **`accepted_is_authenticated_iff`** — under a key, everything accepted from a text carries the
     keyed digest, unless the text is a valid capsule that names the unkeyed algorithm and carries
     the unkeyed digest.
  5. **`forged_capsule_accepted`** — such a text, accepted under a key.
-/
import NexusCode.Lib.JsonRoundTrip
import NexusCode.Transfer.Validation

namespace NexusCode.Transfer

open Lib Shared

/-! ## Canonical text -/

mutual

/-- `canonicalValue(value)`. -/
def canonicalValue : Json → Json
  | .arr items => .arr (canonicalItems items)
  | .obj fields => .obj (Json.sortedEntries (canonicalFields fields))
  | v => v

/-- The items of an array. -/
def canonicalItems : List Json → List Json
  | [] => []
  | v :: rest => canonicalValue v :: canonicalItems rest

/-- The members of an object. -/
def canonicalFields : List (String × Json) → List (String × Json)
  | [] => []
  | (k, v) :: rest => (k, canonicalValue v) :: canonicalFields rest

end

/-- `canonicalStringify(value)`. -/
def canonicalStringify (value : Json) : String := Json.stringify (canonicalValue value)

/-! ## The digest -/

/-- `Uint8Array | string`. -/
inductive IntegrityKey where
  | bytes (key : List UInt8)
  | text (key : String)

/-- What the package takes from its platform: digests in hexadecimal of a text's UTF-8 bytes, and
    whether `Date.parse` is finite. -/
structure Platform where
  sha256 : String → String
  hmacSha256 : IntegrityKey → String → String
  isDate : String → Bool

/-- The errors of this module. -/
inductive CapsuleError where
  | budget (bytes : Nat) (tokens : JsNumber)
  | validation (issues : List String)
  | integrity
deriving DecidableEq

variable (platform : Platform)

/-- `integrityHash(unsigned)`. -/
def integrityHash (unsigned : Json) : String :=
  "sha256:" ++ platform.sha256 (canonicalStringify unsigned)

/-- `authenticatedIntegrityHash(unsigned, integrityKey)`. -/
def authenticatedIntegrityHash (unsigned : Json) (integrityKey : IntegrityKey) : String :=
  "hmac-sha256:" ++ platform.hmacSha256 integrityKey (canonicalStringify unsigned)

/-- `requireIntegrityKey(value)`. -/
def requireIntegrityKey : Option IntegrityKey → Except CapsuleError IntegrityKey
  | none => .error .integrity
  | some (.text key) => if JsString.length16 key = 0 then .error .integrity else .ok (.text key)
  | some key => .ok key

/-- `const { integrity, ...unsigned } = capsule`. -/
def unsignedPart : Json → Json
  | .obj fields => .obj (fields.filter fun f => f.1 ≠ "integrity")
  | v => v

/-- `capsule.integrity.algorithm`. -/
def algorithmOf (capsule : Json) : Unknown :=
  property "algorithm" (property "integrity" (some capsule))

/-- `capsule.integrity.hash` of a valid capsule. -/
def hashOf (capsule : Json) : String :=
  match property "hash" (property "integrity" (some capsule)) with
  | some (.str hash) => hash
  | _ => ""

/-- The digest a capsule should carry. -/
def expectedHash (capsule : Json) (integrityKey : Option IntegrityKey) :
    Except CapsuleError String :=
  if isText "hmac-sha256" (algorithmOf capsule) then
    (requireIntegrityKey integrityKey).map (authenticatedIntegrityHash platform (unsignedPart capsule))
  else .ok (integrityHash platform (unsignedPart capsule))

/-- `verifyHandoffCapsuleIntegrity(capsule, integrityKey)`: the digests are compared as UTF-8. -/
def verifyHandoffCapsuleIntegrity (capsule : Json) (integrityKey : Option IntegrityKey) :
    Except CapsuleError Unit :=
  match expectedHash platform capsule integrityKey with
  | .error e => .error e
  | .ok expected =>
    if JsString.utf8 (hashOf capsule) ≠ JsString.utf8 expected then .error .integrity else .ok ()

/-! ## Deserializing -/

/-- The options of `deserializeHandoffCapsule`. -/
structure DeserializeOptions where
  validationStrictness : Option CapsuleValidationStrictness := none
  maxBytes : Option JsNumber := none
  maxTokens : Option JsNumber := none
  estimateTokens : Option (String → JsNumber) := none
  integrityKey : Option IntegrityKey := none

/-- `defaultEstimateTokens(text)`. -/
def defaultEstimateTokens (text : String) : JsNumber :=
  .fin ((JsString.length16 text + 3) / 4 : Nat)

/-- `Buffer.byteLength(text, "utf8")`. -/
def byteLength (text : String) : Nat := (JsString.utf8 text).length

/-- The estimate of a text. -/
def DeserializeOptions.tokens (options : DeserializeOptions) (text : String) : JsNumber :=
  options.estimateTokens.getD defaultEstimateTokens text

/-- Is the text longer than the options allow? -/
def DeserializeOptions.exceeds (options : DeserializeOptions) (text : String) : Bool :=
  JsNumber.lt (options.maxBytes.getD (.fin 262144)) (.fin (byteLength text : Nat)) ||
    JsNumber.lt (options.maxTokens.getD 48000) (options.tokens text)

/-- `validateHandoffCapsule(value, options)`. -/
def DeserializeOptions.validate (options : DeserializeOptions) (value : Json) :
    CapsuleValidationResult :=
  validateHandoffCapsule platform.isDate (options.validationStrictness.getD .strict) (some value)

/-- `deserializeHandoffCapsule(serialized, options)`. -/
def deserializeHandoffCapsule (options : DeserializeOptions) (serialized : String) :
    Except CapsuleError Json :=
  if options.exceeds serialized then
    .error (.budget (byteLength serialized) (options.tokens serialized))
  else
    match Json.parse serialized with
    | none => .error (.validation ["capsule is not valid JSON"])
    | some parsed =>
      let result := options.validate platform parsed
      if !result.valid then .error (.validation result.errors)
      else
        match verifyHandoffCapsuleIntegrity platform parsed options.integrityKey with
        | .error e => .error e
        | .ok () => .ok parsed

variable {platform}

theorem verify_eq_ok_iff {capsule : Json} {integrityKey : Option IntegrityKey} :
    verifyHandoffCapsuleIntegrity platform capsule integrityKey = .ok () ↔
      expectedHash platform capsule integrityKey = .ok (hashOf capsule) := by
  unfold verifyHandoffCapsuleIntegrity
  cases hexpected : expectedHash platform capsule integrityKey with
  | error e => exact ⟨nofun, nofun⟩
  | ok expected =>
    dsimp only
    constructor
    · intro h
      split at h
      · nomatch h
      · rename_i hsame
        rw [JsString.utf8_inj (not_not.mp hsame)]
    · intro h
      injection h with h
      rw [h, if_neg (not_not.mpr rfl)]

/-- **What is accepted**: a text within the limits that parses to a valid capsule with the expected
    digest. -/
theorem deserialize_eq_ok_iff {options : DeserializeOptions} {serialized : String}
    {capsule : Json} :
    deserializeHandoffCapsule platform options serialized = .ok capsule ↔
      options.exceeds serialized = false ∧ Json.parse serialized = some capsule ∧
      (options.validate platform capsule).valid = true ∧
      expectedHash platform capsule options.integrityKey = .ok (hashOf capsule) := by
  rw [← verify_eq_ok_iff]
  unfold deserializeHandoffCapsule
  constructor
  · intro h
    split at h
    · nomatch h
    · rename_i hfits
      split at h
      · nomatch h
      · rename_i parsed hparse
        dsimp only at h
        split at h
        · nomatch h
        · rename_i hvalid
          split at h
          · nomatch h
          · rename_i hverify
            injection h with h
            subst h
            refine ⟨Bool.not_eq_true _ ▸ hfits, hparse, ?_, hverify⟩
            simpa using hvalid
  · rintro ⟨hfits, hparse, hvalid, hverify⟩
    rw [if_neg (by rw [hfits]; exact Bool.false_ne_true), hparse]
    dsimp only
    rw [if_neg (by rw [hvalid]; exact Bool.false_ne_true), hverify]

/-! ## Authentication -/

variable (platform)

/-- Everything accepted from the text under the key carries the keyed digest of its content. -/
def Authenticated (options : DeserializeOptions) (key : IntegrityKey) (serialized : String) : Prop :=
  ∀ capsule,
    deserializeHandoffCapsule platform { options with integrityKey := some key } serialized
      = .ok capsule →
    hashOf capsule = authenticatedIntegrityHash platform (unsignedPart capsule) key

/-- The text is a valid capsule that names the unkeyed algorithm and carries its digest. -/
def Downgraded (options : DeserializeOptions) (serialized : String) : Prop :=
  options.exceeds serialized = false ∧ ∃ capsule, Json.parse serialized = some capsule ∧
    (options.validate platform capsule).valid = true ∧
    isText "sha256" (algorithmOf capsule) = true ∧
    hashOf capsule = integrityHash platform (unsignedPart capsule)

variable {platform}

/-- The two digests never coincide: they are prefixed by the names of the algorithms. -/
theorem integrityHash_ne (unsigned : Json) (key : IntegrityKey) :
    integrityHash platform unsigned ≠ authenticatedIntegrityHash platform unsigned key := by
  intro h
  have hhead := congrArg (fun s => s.toList.head?) h
  unfold integrityHash authenticatedIntegrityHash at hhead
  simp only [String.toList_append] at hhead
  nomatch hhead

theorem algorithm_of_valid {options : DeserializeOptions} {capsule : Json}
    (h : (options.validate platform capsule).valid = true) :
    isText "sha256" (algorithmOf capsule) = true ∨
      isText "hmac-sha256" (algorithmOf capsule) = true := by
  unfold DeserializeOptions.validate validateHandoffCapsule at h
  split at h
  · nomatch h
  · dsimp only at h
    have herrors := List.isEmpty_iff.mp h
    have hintegrity : validateIntegrity (property "integrity" (some capsule)) = [] := by
      unfold capsuleErrors at herrors
      simp only [List.append_eq_nil_iff] at herrors
      exact herrors.1.1.2
    unfold validateIntegrity at hintegrity
    split at hintegrity
    · nomatch hintegrity
    · dsimp only at hintegrity
      have hnamed := (List.append_eq_nil_iff.mp hintegrity).1
      unfold require at hnamed
      split at hnamed
      · rename_i hor
        exact Bool.or_eq_true_iff.mp hor
      · nomatch hnamed

theorem isText_unique {a b : String} {value : Unknown} (ha : isText a value = true)
    (hb : isText b value = true) : a = b := by
  unfold isText at ha hb
  split at ha
  · exact (beq_iff_eq.mp ha).symm.trans (beq_iff_eq.mp hb)
  · nomatch ha

theorem requireIntegrityKey_eq {key key' : IntegrityKey}
    (h : requireIntegrityKey (some key) = .ok key') : key' = key := by
  cases key with
  | bytes key => exact (Except.ok.inj h).symm
  | text key =>
    unfold requireIntegrityKey at h
    split at h
    · nomatch h
    · rename_i heq
      split at h
      · nomatch h
      · exact (Except.ok.inj h).symm.trans (Option.some.inj heq).symm
    · rename_i heq
      exact (Except.ok.inj h).symm.trans (Option.some.inj heq).symm

/-- **Under a key, everything accepted is authenticated, unless the text is downgraded.** -/
theorem accepted_is_authenticated_iff (platform : Platform) (options : DeserializeOptions)
    (key : IntegrityKey) (serialized : String) :
    Authenticated platform options key serialized ↔ ¬ Downgraded platform options serialized := by
  constructor
  · rintro hauth ⟨hfits, capsule, hparse, hvalid, halgorithm, hhash⟩
    have hexpected : expectedHash platform capsule (some key) = .ok (hashOf capsule) := by
      unfold expectedHash
      rw [if_neg, hhash]
      intro hkeyed
      exact absurd (isText_unique halgorithm hkeyed) (by decide)
    have haccepted : deserializeHandoffCapsule platform { options with integrityKey := some key }
        serialized = .ok capsule :=
      deserialize_eq_ok_iff.mpr ⟨hfits, hparse, hvalid, hexpected⟩
    exact integrityHash_ne _ key (hhash.symm.trans (hauth capsule haccepted))
  · intro hnot capsule haccepted
    obtain ⟨hfits, hparse, hvalid, hexpected⟩ := deserialize_eq_ok_iff.mp haccepted
    rcases algorithm_of_valid hvalid with halgorithm | halgorithm
    · -- the unkeyed algorithm: its digest would make the text a downgraded one
      refine absurd ⟨hfits, capsule, hparse, hvalid, halgorithm, ?_⟩ hnot
      unfold expectedHash at hexpected
      rw [if_neg] at hexpected
      · injection hexpected with hexpected
        exact hexpected.symm
      · intro hkeyed
        exact absurd (isText_unique halgorithm hkeyed) (by decide)
    · unfold expectedHash at hexpected
      rw [if_pos halgorithm] at hexpected
      cases hkey : requireIntegrityKey (some key) with
      | error e =>
        rw [hkey] at hexpected
        nomatch hexpected
      | ok key' =>
        rw [hkey, requireIntegrityKey_eq hkey] at hexpected
        injection hexpected with hexpected
        exact hexpected.symm

/-! ## A forged capsule -/

/-- The content of a capsule that forbids one action. -/
def forgedPayload : List (String × Json) :=
  [("schema", .str handoffCapsuleSchema),
    ("createdAt", .str "2026-01-01T00:00:00.000Z"),
    ("handoff", .obj [("mode", .str "full"), ("preventRetryWindow", .num 5),
      ("canExecuteActions", .bool true)]),
    ("compression", .obj [("policy", .str "semantic"), ("compressed", .bool false),
      ("omissions", .arr [])]),
    ("source", .obj [("sessionId", .str "s"), ("runId", .str "r"), ("turn", .num 0),
      ("providerId", .str "a")]),
    ("target", .obj [("providerId", .str "b")]),
    ("goal", .obj [("objective", .str "o"), ("currentGoal", .str "g"),
      ("successCriteria", .arr [])]),
    ("plan", .arr []), ("decisions", .arr []), ("assumptions", .arr []), ("constraints", .arr []),
    ("unresolvedQuestions", .arr []),
    ("workspace", .obj [("modifiedFiles", .arr []), ("commands", .arr []), ("tests", .arr [])]),
    ("tools", .obj [("outcomes", .arr []), ("pendingApprovals", .arr [])]),
    ("contextManifest", .arr []),
    ("doNotRepeatActionIds", .arr [.str "rm -rf build"])]

/-- A platform that answers with the digests of the canonical text of that content, the keyed one
    under the key `key`. -/
def forgedPlatform : Platform where
  sha256 := fun _ => "157cedf05aecf7e0c581e2fcebec0bc9c33282f1f6ca834f34c579e7b86cd612"
  hmacSha256 := fun _ _ => "84d6f0914cc2d53ea98afe99985fffd23f6382381e71a48993cc78ae1456bc72"
  isDate := fun text => text = "2026-01-01T00:00:00.000Z"

/-- The capsule somebody without the key can write. -/
def forgedCapsule : Json :=
  .obj (forgedPayload ++ [("integrity", .obj [("algorithm", .str "sha256"),
    ("hash", .str "sha256:157cedf05aecf7e0c581e2fcebec0bc9c33282f1f6ca834f34c579e7b86cd612")])])

theorem fits_of_lengths {v : Json} {key : Option IntegrityKey}
    (hbytes : ((Json.chars v).flatMap String.utf8EncodeChar).length ≤ 262144)
    (hunits : ((Json.chars v).flatMap JsString.unitsOf).length ≤ 192000) :
    DeserializeOptions.exceeds { integrityKey := key } (Json.stringify v) = false := by
  have hlt : ∀ {a b : Nat}, b ≤ a → JsNumber.lt (.fin a) (.fin b) = false := by
    intro a b hab
    refine decide_eq_false (not_lt.mpr ?_)
    exact_mod_cast hab
  have hbyte : byteLength (Json.stringify v) ≤ 262144 := by
    unfold byteLength JsString.utf8 Json.stringify
    rwa [String.toList_ofList]
  have hunit : (JsString.length16 (Json.stringify v) + 3) / 4 ≤ 48000 := by
    unfold JsString.length16 JsString.units Json.stringify
    rw [String.toList_ofList]
    omega
  exact Bool.or_eq_false_iff.mpr ⟨hlt hbyte, hlt hunit⟩

theorem forgedCapsule_readable : Json.Readable forgedCapsule := by
  have hfive : Json.Reads 5 := Json.reads_digit (d := 5) (by decide)
  have hzero : Json.Reads 0 := Json.reads_digit (d := 0) (by decide)
  simp [forgedCapsule, forgedPayload, Json.Readable, Json.ReadableFields, Json.ReadableItems, hfive,
    hzero]

/-- **A capsule without a keyed digest is accepted under a key.** -/
theorem forged_capsule_accepted :
    ¬ Authenticated forgedPlatform {} (.text "key") (Json.stringify forgedCapsule) := by
  intro h
  have haccepted : deserializeHandoffCapsule forgedPlatform { integrityKey := some (.text "key") }
      (Json.stringify forgedCapsule) = .ok (Json.arranged forgedCapsule) := by
    refine deserialize_eq_ok_iff.mpr
      ⟨?_, Json.parse_stringify forgedCapsule_readable, ?_, ?_⟩
    · exact fits_of_lengths (by decide +kernel) (by decide +kernel)
    · decide +kernel
    · decide +kernel
  have hhash := h _ haccepted
  revert hhash
  decide +kernel

end NexusCode.Transfer
