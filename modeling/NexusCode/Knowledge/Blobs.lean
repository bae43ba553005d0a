/-
  The content-addressed blob store, with and without encryption at rest.

  Digests and AES-256-GCM are a parameter (`Crypto`); the keys are the ones that the stores of one
  directory are ever opened with.

  1. `put`, `get` — a blob is written under its digest unless a file is there already; a store with a
     key writes over a file that does not look encrypted.
  2. `stored_afterPuts` — what the file of some data holds after a history of puts: the data itself,
     or the data sealed under one of the keys it was put with, and which one.
  3. **`round_trip_iff`** — what was put is read back exactly if the store's key is the first key the
     data was ever put with, and data that looks encrypted was never put before without it.
  4. **`blobs_lost`** — what is not read back: what starts with the magic, without a key, and what
     another key sealed first.
-/
import NexusCode.Lib.JsMap
import Mathlib.Data.List.Induction

namespace NexusCode.Knowledge.Blobs

open Lib List Option

/-! ## Bytes and keys -/

/-- `data: Uint8Array | string`. -/
inductive BlobData where
  | bytes (data : List UInt8)
  | text (data : String)

/-- The bytes of the data, UTF-8 for a text. -/
def BlobData.toBytes : BlobData → List UInt8
  | .bytes data => data
  | .text data => data.toUTF8.toList

/-- Twelve random bytes. -/
abbrev Nonce := { bytes : List UInt8 // bytes.length = 12 }

/-- SHA-256, cut to 16 hexadecimal digits and free of collisions, and AES-256-GCM, which opens what
    it sealed under the same key and under no other. -/
structure Crypto (κ : Type) where
  hash : List UInt8 → String
  hash_inj : Function.Injective hash
  encipher : κ → List UInt8 → List UInt8 → List UInt8
  authTag : κ → List UInt8 → List UInt8 → List UInt8
  authTag_length : ∀ key nonce plain, (authTag key nonce plain).length = 16
  decipher : κ → List UInt8 → List UInt8 → List UInt8 → Option (List UInt8)
  decipher_own : ∀ key nonce plain,
    decipher key nonce (authTag key nonce plain) (encipher key nonce plain) = some plain
  decipher_other : ∀ {key key'} nonce plain, key ≠ key' →
    decipher key' nonce (authTag key nonce plain) (encipher key nonce plain) = none
  decipher_length : ∀ {key nonce tag cipher plain}, decipher key nonce tag cipher = some plain →
    plain.length = cipher.length

variable {κ : Type} (crypto : Crypto κ)

/-- `ENVELOPE_MAGIC`, the text `NXB1`. -/
def envelopeMagic : List UInt8 := [0x4e, 0x58, 0x42, 0x31]

/-- `isEncryptedEnvelope(bytes)`. -/
def isEncryptedEnvelope (bytes : List UInt8) : Bool :=
  decide (32 ≤ bytes.length) && bytes.take 4 == envelopeMagic

/-- `encrypt(bytes, key)`. -/
def encrypt (key : κ) (nonce : Nonce) (bytes : List UInt8) : List UInt8 :=
  envelopeMagic ++
    (nonce.1 ++ (crypto.authTag key nonce.1 bytes ++ crypto.encipher key nonce.1 bytes))

/-- `decrypt(bytes, key)`. -/
def decrypt (key : κ) (bytes : List UInt8) : Option (List UInt8) :=
  if !isEncryptedEnvelope bytes then some bytes
  else crypto.decipher key ((bytes.drop 4).take 12) ((bytes.drop 16).take 16) (bytes.drop 32)

/-! ## The store -/

/-- The files of `<dir>/blobs/`. -/
abbrev BlobDir := JsMap String (List UInt8)

/-- One call of `put` by a store opened with this key, or without one. -/
structure Put (κ : Type) where
  encryptionKey : Option κ
  data : BlobData
  nonce : Nonce

/-- The reference of some bytes. -/
def refOf (bytes : List UInt8) : String := "blob_" ++ crypto.hash bytes

/-- `!existing || (key && !isEncryptedEnvelope(existing))`: a plaintext blob is upgraded when
    encryption is enabled. -/
def Put.writes (p : Put κ) : Option (List UInt8) → Bool
  | none => true
  | some existing => p.encryptionKey.isSome && !isEncryptedEnvelope existing

/-- `key ? encrypt(bytes, key) : bytes`. -/
def Put.written (p : Put κ) : List UInt8 :=
  match p.encryptionKey with
  | some key => encrypt crypto key p.nonce p.data.toBytes
  | none => p.data.toBytes

/-- `put(data)`. -/
def put (dir : BlobDir) (p : Put κ) : String × BlobDir :=
  let ref := refOf crypto p.data.toBytes
  (ref, if p.writes (dir.get? ref) then dir.set ref (p.written crypto) else dir)

/-- `get(ref)`. -/
def get (encryptionKey : Option κ) (dir : BlobDir) (ref : String) : Option (List UInt8) :=
  match dir.get? ref with
  | none => none
  | some buf =>
    if isEncryptedEnvelope buf then
      match encryptionKey with
      | none => none
      | some key => decrypt crypto key buf
    else some buf

/-- The directory after a history of puts. -/
def afterPuts (history : List (Put κ)) : BlobDir :=
  history.foldl (fun dir p => (put crypto dir p).2) .empty

/-! ## Envelopes -/

theorem isEncryptedEnvelope_encrypt (key : κ) (nonce : Nonce) (bytes : List UInt8) :
    isEncryptedEnvelope (encrypt crypto key nonce bytes) = true := by
  unfold isEncryptedEnvelope encrypt
  have htag := crypto.authTag_length key nonce.1 bytes
  have hnonce := nonce.2
  simp only [length_append, htag, hnonce, Bool.and_eq_true, decide_eq_true_eq]
  refine ⟨?_, rfl⟩
  show 32 ≤ 4 + _
  omega

theorem decrypt_encrypt (key key' : κ) (nonce : Nonce) (bytes : List UInt8) :
    decrypt crypto key' (encrypt crypto key nonce bytes) = crypto.decipher key' nonce.1
      (crypto.authTag key nonce.1 bytes) (crypto.encipher key nonce.1 bytes) := by
  have htag := crypto.authTag_length key nonce.1 bytes
  have hnonce := nonce.2
  rw [decrypt, isEncryptedEnvelope_encrypt]
  -- what follows the magic: the nonce, the tag, the ciphertext
  let cipher := crypto.encipher key nonce.1 bytes
  let tagged := crypto.authTag key nonce.1 bytes ++ cipher
  have htagged : (nonce.1 ++ tagged).drop 12 = tagged := drop_left' hnonce
  have hfirst : (nonce.1 ++ tagged).take 12 = nonce.1 := take_left' hnonce
  have htake : tagged.take 16 = crypto.authTag key nonce.1 bytes := take_left' htag
  have hdrop : tagged.drop 16 = cipher := drop_left' htag
  show crypto.decipher key' ((nonce.1 ++ tagged).take 12) (((nonce.1 ++ tagged).drop 12).take 16)
    ((nonce.1 ++ tagged).drop 28) = _
  have hrest : (nonce.1 ++ tagged).drop 28 = cipher := by
    rw [← hdrop, ← htagged, drop_drop]
    rw [htagged]
  rw [hfirst, htagged, htake, hrest]

theorem decrypt_own (key : κ) (nonce : Nonce) (bytes : List UInt8) :
    decrypt crypto key (encrypt crypto key nonce bytes) = some bytes := by
  rw [decrypt_encrypt, crypto.decipher_own]

theorem decrypt_other {key key' : κ} (h : key ≠ key') (nonce : Nonce) (bytes : List UInt8) :
    decrypt crypto key' (encrypt crypto key nonce bytes) = none := by
  rw [decrypt_encrypt, crypto.decipher_other _ _ h]

theorem decrypt_ne_self (key : κ) {bytes : List UInt8} (h : isEncryptedEnvelope bytes = true) :
    decrypt crypto key bytes ≠ some bytes := by
  intro hdecrypt
  rw [decrypt, h] at hdecrypt
  have hlength := crypto.decipher_length hdecrypt
  rw [length_drop] at hlength
  have hlong : 32 ≤ bytes.length := of_decide_eq_true (Bool.and_eq_true_iff.mp h).1
  omega

/-! ## What the file of some data holds -/

variable (bytes : List UInt8)

/-- With which key a file is sealed: `none` for a missing file, `some none` for the data itself. -/
def Stored : Option (Option κ) → Option (List UInt8) → Prop
  | none, file => file = none
  | some none, file => file = some bytes
  | some (some key), file => ∃ nonce, file = some (encrypt crypto key nonce bytes)

/-- The keys, or none, with which stores have put the data, in order. -/
def keysOf (history : List (Put κ)) : List (Option κ) :=
  (history.filter fun p => p.data.toBytes == bytes).map (·.encryptionKey)

/-- How the file is sealed after one more put: once sealed it stays, and so does data that looks
    like an envelope. -/
def resealed : Option (Option κ) → Option κ → Option (Option κ)
  | none, key => some key
  | some (some sealing), _ => some (some sealing)
  | some none, key => if isEncryptedEnvelope bytes then some none else some key

/-- How the file is sealed after puts with these keys. -/
def sealedBy (keys : List (Option κ)) : Option (Option κ) := keys.foldl (resealed bytes) none

variable {bytes}

theorem get?_put_other {dir : BlobDir} {p : Put κ} (h : p.data.toBytes ≠ bytes) :
    (put crypto dir p).2.get? (refOf crypto bytes) = dir.get? (refOf crypto bytes) := by
  have href : refOf crypto p.data.toBytes ≠ refOf crypto bytes := fun heq =>
    h (crypto.hash_inj ((String.append_right_inj _).mp heq))
  show (if _ then _ else _ : BlobDir).get? _ = _
  split
  · exact JsMap.get?_set_of_ne _ _ href
  · rfl

theorem get?_put_own {dir : BlobDir} {p : Put κ} (h : p.data.toBytes = bytes) :
    (put crypto dir p).2.get? (refOf crypto bytes) =
      if p.writes (dir.get? (refOf crypto bytes)) then some (p.written crypto)
      else dir.get? (refOf crypto bytes) := by
  subst h
  show (if _ then _ else _ : BlobDir).get? _ = _
  split
  · exact JsMap.get?_set_self ..
  · rfl

theorem stored_written {p : Put κ} (h : p.data.toBytes = bytes) :
    Stored crypto bytes (some p.encryptionKey) (some (p.written crypto)) := by
  subst h
  unfold Put.written
  cases p.encryptionKey with
  | none => rfl
  | some key => exact ⟨p.nonce, rfl⟩

theorem Stored.put {sealing : Option (Option κ)} {file : Option (List UInt8)} {p : Put κ}
    (h : Stored crypto bytes sealing file) (hp : p.data.toBytes = bytes) :
    Stored crypto bytes (resealed bytes sealing p.encryptionKey)
      (if p.writes file then some (p.written crypto) else file) := by
  match sealing, h with
  | none, h =>
    have hfile : file = none := h
    subst hfile
    exact stored_written crypto hp
  | some none, h =>
    have hfile : file = some bytes := h
    subst hfile
    show Stored crypto bytes (if isEncryptedEnvelope bytes then some none else some p.encryptionKey)
      (if (p.encryptionKey.isSome && !isEncryptedEnvelope bytes) = true then _ else _)
    cases hlooks : isEncryptedEnvelope bytes with
    | true =>
      rw [Bool.not_true, Bool.and_false]
      exact rfl
    | false =>
      rw [Bool.not_false, Bool.and_true]
      cases hkey : p.encryptionKey with
      | none => exact rfl
      | some key =>
        have hwritten := stored_written crypto hp
        rwa [hkey] at hwritten
  | some (some key), h =>
    obtain ⟨nonce, rfl⟩ := h
    refine ⟨nonce, if_neg ?_⟩
    show ¬ (p.encryptionKey.isSome && !isEncryptedEnvelope (encrypt crypto key nonce bytes)) = true
    rw [isEncryptedEnvelope_encrypt, Bool.not_true, Bool.and_false]
    exact Bool.false_ne_true

theorem stored_afterPuts (bytes : List UInt8) (history : List (Put κ)) : Stored crypto bytes
    (sealedBy bytes (keysOf bytes history))
    ((afterPuts crypto history).get? (refOf crypto bytes)) := by
  induction history using List.reverseRecOn with
  | nil => exact rfl
  | append_singleton history p ih =>
    have hafter : afterPuts crypto (history ++ [p]) = (put crypto (afterPuts crypto history) p).2 :=
      foldl_concat ..
    rw [hafter, keysOf, filter_append, map_append]
    by_cases hp : p.data.toBytes = bytes
    · have hkeys : [p].filter (fun p => p.data.toBytes == bytes) = [p] :=
        filter_cons_of_pos (beq_iff_eq.mpr hp)
      rw [hkeys, sealedBy, foldl_append, get?_put_own crypto hp]
      exact ih.put crypto hp
    · have hkeys : [p].filter (fun p => p.data.toBytes == bytes) = [] :=
        filter_cons_of_neg fun h => hp (beq_iff_eq.mp h)
      rw [hkeys, get?_put_other crypto hp, map_nil, append_nil]
      exact ih

theorem get_eq_iff {sealing : Option (Option κ)} {dir : BlobDir}
    {encryptionKey : Option κ}
    (h : Stored crypto bytes sealing (dir.get? (refOf crypto bytes))) :
    get crypto encryptionKey dir (refOf crypto bytes) = some bytes ↔
      (sealing = some encryptionKey ∧ encryptionKey ≠ none) ∨
      (sealing = some none ∧ isEncryptedEnvelope bytes = false) := by
  match sealing, h with
  | none, h =>
    have hfile : dir.get? (refOf crypto bytes) = none := h
    rw [get, hfile]
    simp
  | some none, h =>
    have hfile : dir.get? (refOf crypto bytes) = some bytes := h
    cases hlooks : isEncryptedEnvelope bytes with
    | false => simp [get, hfile, hlooks]
    | true =>
      cases encryptionKey with
      | none => simp [get, hfile, hlooks]
      | some key =>
        have hne := decrypt_ne_self crypto key hlooks
        simp [get, hfile, hlooks, hne]
  | some (some key), h =>
    obtain ⟨nonce, hfile⟩ := h
    have hlooks := isEncryptedEnvelope_encrypt crypto key nonce bytes
    cases encryptionKey with
    | none => simp [get, hfile, hlooks]
    | some key' =>
      by_cases hkey : key = key'
      · subst hkey
        simp [get, hfile, hlooks, decrypt_own]
      · simp [get, hfile, hlooks, decrypt_other crypto hkey, hkey]

/-! ## The round trip -/

theorem foldl_resealed_sealed (sealing : κ) (keys : List (Option κ)) :
    keys.foldl (resealed bytes) (some (some sealing)) = some (some sealing) := by
  induction keys with
  | nil => rfl
  | cons key keys ih => exact ih

/-- Data that looks like an envelope is kept as it was first written. -/
theorem sealedBy_of_looks (hlooks : isEncryptedEnvelope bytes = true) (keys : List (Option κ)) :
    sealedBy bytes keys = keys.head? := by
  have hplain : ∀ keys : List (Option κ), keys.foldl (resealed bytes) (some none) = some none := by
    intro keys
    induction keys with
    | nil => rfl
    | cons key keys ih =>
      have hstep : resealed bytes (some none) key = some none := if_pos hlooks
      rw [foldl_cons, hstep, ih]
  match keys with
  | [] => rfl
  | none :: keys => exact hplain keys
  | some sealing :: keys => exact foldl_resealed_sealed sealing keys

theorem sealedBy_of_plain (hlooks : isEncryptedEnvelope bytes = false) {keys : List (Option κ)}
    (hne : keys ≠ []) : sealedBy bytes keys = some (keys.findSome? id) := by
  have hplain : ∀ keys : List (Option κ),
      keys.foldl (resealed bytes) (some none) = some (keys.findSome? id) := by
    intro keys
    induction keys with
    | nil => rfl
    | cons key keys ih =>
      have hstep : resealed bytes (some none) key = some key :=
        if_neg (ne_true_of_eq_false hlooks)
      rw [foldl_cons, hstep]
      cases key with
      | none => exact ih
      | some sealing => exact foldl_resealed_sealed sealing keys
  match keys with
  | [] => exact absurd rfl hne
  | none :: keys => exact hplain keys
  | some sealing :: keys => exact foldl_resealed_sealed sealing keys

/-- The condition on the keys with which some data was put, the last one included: the first key is
    the store's own, none for a store without; data that looks like an envelope was put with it, and
    first of all. -/
def KeptReadable (bytes : List UInt8) (keys : List (Option κ)) (encryptionKey : Option κ) : Prop :=
  if isEncryptedEnvelope bytes then encryptionKey ≠ none ∧ keys.head? = some encryptionKey
  else keys.findSome? id = encryptionKey

/-- **What was put is read back by the same store** exactly under that condition, after every
    history. -/
theorem round_trip_iff (history : List (Put κ)) (p : Put κ) :
    get crypto p.encryptionKey (put crypto (afterPuts crypto history) p).2
        (put crypto (afterPuts crypto history) p).1 = some p.data.toBytes ↔
      KeptReadable p.data.toBytes (keysOf p.data.toBytes history ++ [p.encryptionKey])
        p.encryptionKey := by
  have hstored := stored_afterPuts crypto p.data.toBytes (history ++ [p])
  have hafter : afterPuts crypto (history ++ [p]) = (put crypto (afterPuts crypto history) p).2 :=
    foldl_concat ..
  have hkeys : keysOf p.data.toBytes (history ++ [p]) =
      keysOf p.data.toBytes history ++ [p.encryptionKey] := by
    have hown : [p].filter (fun q => q.data.toBytes == p.data.toBytes) = [p] :=
      filter_cons_of_pos (beq_self_eq_true _)
    rw [keysOf, filter_append, hown, map_append]
    rfl
  rw [hafter, hkeys] at hstored
  refine (get_eq_iff crypto hstored).trans ?_
  unfold KeptReadable
  cases hlooks : isEncryptedEnvelope p.data.toBytes with
  | true =>
    rw [sealedBy_of_looks hlooks]
    simp [and_comm]
  | false =>
    rw [sealedBy_of_plain hlooks (append_ne_nil_of_right_ne_nil _ (cons_ne_nil _ _))]
    constructor
    · rintro (⟨h, -⟩ | ⟨h, -⟩)
      · exact some.inj h
      · -- no store had a key, this one included
        have hall := List.findSome?_eq_none_iff.mp (some.inj h)
        rw [some.inj h]
        exact (hall _ (mem_append_right _ (.head _))).symm
    · intro h
      rw [if_neg Bool.false_ne_true] at h
      cases hkey : p.encryptionKey with
      | none =>
        rw [hkey] at h
        exact .inr ⟨congrArg some h, rfl⟩
      | some key =>
        rw [hkey] at h
        exact .inl ⟨congrArg some h, some_ne_none key⟩

/-- Digests that are the data itself, and a cipher that only tags: enough for two keys. -/
def plainCrypto : Crypto Bool where
  hash bytes := String.ofList (bytes.map Char.ofUInt8)
  hash_inj bytes bytes' h := by
    refine List.map_injective_iff.mpr (fun b b' hb => ?_) (String.ofList_injective h)
    have hval : b.toUInt32 = b'.toUInt32 := congrArg Char.val hb
    exact UInt8.toUInt32_inj.mp hval
  encipher _ _ plain := plain
  authTag key _ _ := List.replicate 16 (if key then 1 else 0)
  authTag_length _ _ _ := List.length_replicate
  decipher key _ tag cipher :=
    if tag = List.replicate 16 (if key then 1 else 0) then some cipher else none
  decipher_own key nonce plain := if_pos rfl
  decipher_other {key key'} nonce plain h := by
    refine if_neg ?_
    cases key <;> cases key' <;> simp_all
  decipher_length {key nonce tag cipher plain} h := by
    obtain ⟨-, h⟩ := ite_none_right_eq_some.mp h
    rw [some.inj h]

/-- Twelve zero bytes. -/
def zeroNonce : Nonce := ⟨List.replicate 12 0, rfl⟩

/-- Data that starts with the magic. -/
def magicData : BlobData := .bytes (envelopeMagic ++ List.replicate 28 0)

/-- The put of data by a store with this key, after others. -/
def readBack (history : List (Put Bool)) (p : Put Bool) : Option (List UInt8) :=
  let stored := put plainCrypto (afterPuts plainCrypto history) p
  get plainCrypto p.encryptionKey stored.2 stored.1

/-- **A store does not read back what it put**: data that looks like an envelope, without a key; and
    data that a store with another key put before. -/
theorem blobs_lost : readBack [] ⟨none, magicData, zeroNonce⟩ = none ∧
    readBack [⟨some true, .bytes [7], zeroNonce⟩] ⟨some false, .bytes [7], zeroNonce⟩ = none := by
  decide +kernel

end NexusCode.Knowledge.Blobs
