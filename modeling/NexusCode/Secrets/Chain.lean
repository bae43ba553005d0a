/-
  The chain of secret stores: environment, keychain, encrypted file.

  `set` writes to the first backend that accepts the value, `get` prefers the keychain, and `delete`
  goes through both; each call of the keychain may succeed, fail or time out.

    1. `ChainedSecretStore`     — the three operations.
    2. `Good`                   — what a `get` may answer.
    3. `right_step_iff`         — over one step, what keeps every later `get` good.
    4. **`never_outdated_iff`** — over whole runs.

  The cipher is a parameter with its own law: what is encrypted under a passphrase can be
  decrypted under it.
-/
import NexusCode.Secrets.Vault

namespace NexusCode.Secrets

open Lib

/-! ## The backends -/

/-- AES-256-GCM under a key derived from a passphrase; `salt` and `iv` are drawn at random. -/
structure Cipher where
  encrypt : (pass value salt iv : String) → VaultRecord
  decrypt : (pass : String) → VaultRecord → Option String
  decrypt_encrypt : ∀ pass value salt iv, decrypt pass (encrypt pass value salt iv) = some value

/-- How a call of the keychain ends; only a call that succeeds has an effect. -/
inductive KeychainCall where
  | succeeds
  | fails
  | timesOut
deriving DecidableEq

namespace KeychainBackend

/-- `get(ref)`, given what the keychain holds for the ref. -/
def get (entry : Option String) : KeychainCall → Option String
  | .succeeds => entry.filter (· ≠ "")
  | _ => none

/-- `set(ref, value)`: whether it was written, and what the keychain holds afterwards. -/
def set (entry : Option String) (value : String) : KeychainCall → Bool × Option String
  | .succeeds => (true, some value)
  | _ => (false, entry)

/-- `delete(ref)`: what the keychain holds afterwards. -/
def delete (entry : Option String) : KeychainCall → Option String
  | .succeeds => none
  | _ => entry

end KeychainBackend

/-- Why a call of the store rejects. -/
inductive SecretError where
  | noPassphrase
  | undecryptable (ref : String)
deriving DecidableEq

/-- What does not change: the cipher, the passphrase, and the ref that is looked at. -/
structure Setting where
  cipher : Cipher
  passphrase : Option String
  ref : String

namespace EncryptedFileBackend

variable (x : Setting)

/-- `get(ref)`; what every object inherits is found, too, but cannot be decrypted. -/
def get (file : VaultFile) : Except SecretError (Option String) :=
  if isUndefined (readAll file) x.ref then .ok none
  else
    match x.passphrase.filter (· ≠ "") with
    | none => .ok none
    | some pass =>
      match (recordOf file x.ref).bind (x.cipher.decrypt pass) with
      | some value => .ok (some value)
      | none => .error (.undecryptable x.ref)

/-- `set(ref, value)`. -/
def set (file : VaultFile) (value salt iv : String) : Except SecretError VaultFile :=
  match x.passphrase.filter (· ≠ "") with
  | none => .error .noPassphrase
  | some pass => .ok (setRecord x.ref (x.cipher.encrypt pass value salt iv) file)

/-- `delete(ref)`. -/
def delete (file : VaultFile) : VaultFile :=
  if isUndefined (readAll file) x.ref then file else removeRecord x.ref file

end EncryptedFileBackend

/-! ## The chain -/

/-- What the two backends hold: the keychain's entry for the ref, and the file. -/
structure Backends where
  keychain : Option String
  file : VaultFile

/-- A call; every call of the keychain in it ends in some way. -/
inductive Op where
  | get (keychain : KeychainCall)
  | set (value salt iv : String) (keychain : KeychainCall)
  | delete (keychain : KeychainCall)

/-- What a call answers. -/
abbrev Answer := Except SecretError (Option String)

namespace ChainedSecretStore

variable (x : Setting)

/-- `get(ref)`, for a ref with no environment variable. -/
def get (s : Backends) (call : KeychainCall) : Answer :=
  match KeychainBackend.get s.keychain call with
  | some value => .ok (some value)
  | none => EncryptedFileBackend.get x s.file

/-- `set(ref, value)`. -/
def set (s : Backends) (value salt iv : String) (call : KeychainCall) : Answer × Backends :=
  match KeychainBackend.set s.keychain value call with
  | (true, keychain) => (.ok none, { s with keychain })
  | (false, keychain) =>
    match EncryptedFileBackend.set x s.file value salt iv with
    | .ok file => (.ok none, ⟨keychain, file⟩)
    | .error e => (.error e, { s with keychain })

/-- `delete(ref)`. -/
def delete (s : Backends) (call : KeychainCall) : Backends where
  keychain := KeychainBackend.delete s.keychain call
  file := EncryptedFileBackend.delete x s.file

/-- One call. -/
def call (s : Backends) : Op → Answer × Backends
  | .get c => (get x s c, s)
  | .set value salt iv c => set x s value salt iv c
  | .delete c => (.ok none, delete x s c)

end ChainedSecretStore

/-! ## What a `get` may answer -/

/-- The value of the latest completed `set`, if there is one and no `delete` has completed since. -/
inductive Latest where
  | never
  | value (value : String)
  | deleted
deriving DecidableEq

/-- The latest value after a call. -/
def Latest.after (latest : Latest) : Op → Answer → Latest
  | .set v _ _ _, .ok _ => .value v
  | .delete _, .ok _ => .deleted
  | _, _ => latest

/-- The backends, and what they should hold. -/
structure State where
  store : Backends
  latest : Latest

/-- One call, beside the latest value. -/
def step (x : Setting) (s : State) (op : Op) : Answer × State :=
  let (answer, store) := ChainedSecretStore.call x s.store op
  (answer, ⟨store, s.latest.after op answer⟩)

/-- The store as a machine. -/
def machine (x : Setting) : Machine State Op Answer := ⟨step x⟩

/-- Nothing has been stored. -/
def empty : State := ⟨⟨none, none⟩, .never⟩

/-- A value that is returned is the latest; after a `delete` the answer is `null`. -/
structure Good (latest : Latest) (answer : Answer) : Prop where
  current : ∀ value, answer = .ok (some value) → latest = .value value
  gone : latest = .deleted → answer = .ok none

/-- Whatever the keychain does, a `get` in this state is good. -/
def Right (x : Setting) (s : State) : Prop := ∀ call, Good s.latest (ChainedSecretStore.get x s.store call)

/-- No outdated copy is left behind: a value goes to the keychain only if the file has no other, and
    to the file only if the keychain has no other; a `delete` either reaches the keychain or finds
    nothing there; and the ref is not an inherited name when it is deleted. -/
def LeavesNoCopy (x : Setting) (s : State) : Op → Prop
  | .get _ => True
  | .set value _ _ .succeeds =>
    ∀ copy, EncryptedFileBackend.get x s.store.file = .ok (some copy) → copy = value
  | .set value _ _ _ => (x.passphrase.filter (· ≠ "")).isSome = true →
    ∀ copy, s.store.keychain = some copy → copy ≠ "" → copy = value
  | .delete call => (call ≠ .succeeds → ∀ copy, s.store.keychain = some copy → copy = "") ∧
    (inheritedNames.contains x.ref = true → (x.passphrase.filter (· ≠ "")).isNone = true)

variable {x : Setting} {s : State}

/-- All the keychain can do to a `get` is to answer or not to. -/
theorem right_iff : Right x s ↔
    (∀ copy, s.store.keychain = some copy → copy ≠ "" → s.latest = .value copy) ∧
      Good s.latest (EncryptedFileBackend.get x s.store.file) := by
  have hfile : ∀ call, KeychainBackend.get s.store.keychain call = none →
      ChainedSecretStore.get x s.store call = EncryptedFileBackend.get x s.store.file := fun call h => by rw [ChainedSecretStore.get, h]
  have hkeychain : ∀ copy, s.store.keychain = some copy → copy ≠ "" →
      ChainedSecretStore.get x s.store .succeeds = .ok (some copy) := by
    intro copy hcopy hne
    have hfound : KeychainBackend.get s.store.keychain .succeeds = some copy := by
      rw [KeychainBackend.get, hcopy]
      exact Option.filter_some_pos (decide_eq_true hne)
    rw [ChainedSecretStore.get, hfound]
  constructor
  · intro h
    refine ⟨fun copy hcopy hne => (h .succeeds).current copy (hkeychain copy hcopy hne), ?_⟩
    rw [← hfile .fails rfl]
    exact h .fails
  · rintro ⟨hcopies, hgood⟩ call
    cases hget : KeychainBackend.get s.store.keychain call with
    | none =>
      rw [hfile call hget]
      exact hgood
    | some copy =>
      have hcopy : s.store.keychain = some copy ∧ copy ≠ "" := by
        cases call with
        | succeeds =>
          obtain ⟨hsome, hne⟩ := Option.filter_eq_some_iff.mp hget
          exact ⟨hsome, of_decide_eq_true hne⟩
        | fails => nomatch hget
        | timesOut => nomatch hget
      have hlatest := hcopies copy hcopy.1 hcopy.2
      rw [ChainedSecretStore.get, hget, hlatest]
      exact ⟨fun value h => by rw [← Option.some.inj (Except.ok.inj h)], nofun⟩

/-- What `set` has written to the file is what it finds there, if anything. -/
theorem get_set {old file : VaultFile} {value salt iv copy : String}
    (hset : EncryptedFileBackend.set x old value salt iv = .ok file)
    (hget : EncryptedFileBackend.get x file = .ok (some copy)) : copy = value := by
  unfold EncryptedFileBackend.set at hset
  split at hset
  · cases hset
  · rename_i pass hpass
    obtain rfl := Except.ok.inj hset
    unfold EncryptedFileBackend.get at hget
    rw [hpass] at hget
    split at hget
    · cases hget
    · dsimp only at hget
      rw [recordOf_setRecord] at hget
      split at hget
      · rename_i found hfound
        split at hfound
        · rw [Option.bind_some, x.cipher.decrypt_encrypt] at hfound
          rw [← Option.some.inj (Except.ok.inj hget)]
          exact (Option.some.inj hfound).symm
        · rename_i hproto
          rw [not_and_or, not_not] at hproto
          rcases hproto with h | ⟨-, hnone⟩
          · exact absurd rfl h
          · rw [hnone] at hfound
            cases hfound
      · cases hget

/-- After a `delete`, the file answers `null` unless the ref is an inherited name. -/
theorem get_delete_iff (file : VaultFile) :
    EncryptedFileBackend.get x (EncryptedFileBackend.delete x file) = .ok none ↔
      (inheritedNames.contains x.ref = true → (x.passphrase.filter (· ≠ "")).isNone = true) := by
  have hnone : recordOf (EncryptedFileBackend.delete x file) x.ref = none := by
    unfold EncryptedFileBackend.delete
    split
    · rename_i h
      exact Option.isNone_iff_eq_none.mp (Bool.and_eq_true _ _ ▸ h).1
    · rw [recordOf_removeRecord, if_pos rfl]
  have hundefined : isUndefined (readAll (EncryptedFileBackend.delete x file)) x.ref =
      !inheritedNames.contains x.ref := by
    unfold isUndefined
    rw [show (readAll (EncryptedFileBackend.delete x file)).get? x.ref = none from hnone]
    rfl
  unfold EncryptedFileBackend.get
  rw [hundefined, hnone]
  cases inheritedNames.contains x.ref with
  | false => exact iff_of_true rfl nofun
  | true =>
    cases x.passphrase.filter (· ≠ "") with
    | none => exact iff_of_true rfl fun _ => rfl
    | some pass => exact iff_of_false (nofun) fun h => nomatch h rfl

/-- **One step** keeps every later `get` good exactly if it leaves no outdated copy behind. -/
theorem right_step_iff (op : Op) (hs : Right x s) :
    Right x (step x s op).2 ↔ LeavesNoCopy x s op := by
  have hs' := right_iff.mp hs
  cases op with
  | get call => exact iff_of_true hs trivial
  | delete call =>
    rw [right_iff]
    show (∀ copy, KeychainBackend.delete s.store.keychain call = some copy → copy ≠ "" → _) ∧
      Good .deleted (EncryptedFileBackend.get x (EncryptedFileBackend.delete x s.store.file)) ↔ _
    refine and_congr ?_ ?_
    · constructor
      · intro h hcall copy hcopy
        by_contra hne
        refine nomatch h copy ?_ hne
        cases call with
        | succeeds => exact absurd rfl hcall
        | fails => exact hcopy
        | timesOut => exact hcopy
      · intro h copy hcopy hne
        cases call with
        | succeeds => nomatch hcopy
        | fails => exact absurd (h (by decide) copy hcopy) hne
        | timesOut => exact absurd (h (by decide) copy hcopy) hne
    · rw [← get_delete_iff s.store.file]
      constructor
      · intro h
        exact h.gone rfl
      · intro h
        rw [h]
        exact ⟨fun value hv => (nomatch hv), fun _ => rfl⟩
  | set value salt iv call =>
    have hfile : call ≠ .succeeds → (Right x (step x s (.set value salt iv call)).2 ↔
        ((x.passphrase.filter (· ≠ "")).isSome = true →
          ∀ copy, s.store.keychain = some copy → copy ≠ "" → copy = value)) := by
      intro hcall
      have hkeychain : KeychainBackend.set s.store.keychain value call = (false, s.store.keychain) := by
        cases call with
        | succeeds => exact absurd rfl hcall
        | fails => rfl
        | timesOut => rfl
      have hstep : step x s (.set value salt iv call) =
          match EncryptedFileBackend.set x s.store.file value salt iv with
          | .ok file => (.ok none, ⟨⟨s.store.keychain, file⟩, .value value⟩)
          | .error e => (.error e, s) := by
        unfold step ChainedSecretStore.call ChainedSecretStore.set
        dsimp only
        rw [hkeychain]
        dsimp only
        cases EncryptedFileBackend.set x s.store.file value salt iv <;> rfl
      rw [hstep]
      cases hset : EncryptedFileBackend.set x s.store.file value salt iv with
      | error e =>
        -- nothing was written
        refine iff_of_true hs fun hpass => ?_
        unfold EncryptedFileBackend.set at hset
        split at hset
        · rename_i hnone
          rw [hnone] at hpass
          nomatch hpass
        · nomatch hset
      | ok file =>
        have hpass : (x.passphrase.filter (· ≠ "")).isSome = true := by
          unfold EncryptedFileBackend.set at hset
          split at hset
          · nomatch hset
          · rename_i hsome
            rw [hsome]
            rfl
        rw [right_iff]
        constructor
        · intro h _ copy hcopy hne
          exact (Latest.value.inj (h.1 copy hcopy hne)).symm
        · intro h
          refine ⟨fun copy hcopy hne => congrArg Latest.value (h hpass copy hcopy hne).symm,
            fun copy hcopy => ?_, nofun⟩
          exact congrArg Latest.value (get_set hset hcopy).symm
    cases call with
    | fails => exact hfile (by decide)
    | timesOut => exact hfile (by decide)
    | succeeds =>
      rw [right_iff]
      constructor
      · intro h copy hcopy
        exact (Latest.value.inj (h.2.current copy hcopy)).symm
      · intro h
        refine ⟨fun copy hcopy _ => congrArg Latest.value (Option.some.inj hcopy), fun copy hcopy => ?_,
          nofun⟩
        exact congrArg Latest.value (h copy hcopy).symm

/-- **The store never returns an outdated secret exactly in the runs in which no step leaves an
    outdated copy behind.** -/
theorem never_outdated_iff (x : Setting) (ops : List Op) :
    (∀ pre, pre <+: ops → Right x ((machine x).run empty pre)) ↔
      (machine x).Always (LeavesNoCopy x) empty ops := by
  have key : ∀ (ops : List Op) (s : State), Right x s →
      ((∀ pre, pre <+: ops → Right x ((machine x).run s pre)) ↔
        (machine x).Always (LeavesNoCopy x) s ops) := by
    intro ops
    induction ops with
    | nil =>
      intro s hs
      refine iff_of_true (fun pre h => ?_) trivial
      rw [List.prefix_nil.mp h]
      exact hs
    | cons op ops ih =>
      intro s hs
      have hstep := right_step_iff op hs
      constructor
      · intro h
        have hnext : Right x (step x s op).2 := h [op] ⟨ops, rfl⟩
        refine ⟨hstep.mp hnext, (ih _ hnext).mp fun pre hpre => ?_⟩
        obtain ⟨rest, rfl⟩ := hpre
        exact h (op :: pre) ⟨rest, rfl⟩
      · rintro ⟨hop, hrest⟩ pre hpre
        cases pre with
        | nil => exact hs
        | cons op' pre =>
          obtain ⟨rest, heq⟩ := hpre
          obtain ⟨rfl, rfl⟩ := List.cons.inj heq
          exact (ih _ (hstep.mpr hop)).mpr hrest pre ⟨rest, rfl⟩
  refine key ops empty (right_iff.mpr ⟨fun _ => nofun, fun value h => ?_, nofun⟩)
  unfold EncryptedFileBackend.get at h
  split at h
  · nomatch h
  · split at h
    · nomatch h
    · nomatch h

/-- A stand-in for the cipher that keeps the value in the open. -/
def openCipher : Cipher where
  encrypt pass value salt iv := ⟨salt, iv, value, pass⟩
  decrypt pass record := if record.tag = pass then some record.ct else none
  decrypt_encrypt _ _ _ _ := if_pos rfl

/-- A new secret that goes to the file because the keychain timed out: the keychain goes on
    answering the old one. -/
theorem outdated_secret : ¬ ∀ (x : Setting) (ops : List Op) (call : KeychainCall),
    Good ((machine x).run empty ops).latest 
      (ChainedSecretStore.get x ((machine x).run empty ops).store call) := by
  intro h
  have hgood := h ⟨openCipher, some "pw", "openai"⟩
    [.set "sk-old" "s1" "i1" .succeeds, .set "sk-new" "s2" "i2" .timesOut] .succeeds
  have hlatest := hgood.current "sk-old" (by decide +kernel)
  revert hlatest
  decide +kernel

end NexusCode.Secrets
