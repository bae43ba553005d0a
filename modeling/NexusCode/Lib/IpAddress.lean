/-
  IP addresses, their texts, and the blocks that are not part of the public network.

    1. `IPv4.text`, `IPv6.text`              — the texts the URL standard gives to addresses.
    2. `zeroRun_spec`                        — the zeros that `::` stands for.
    3. `IPv4.IsSpecial`, `IPv6.IsSpecial`    — loopback, private, link-local and other addresses.
-/
import Mathlib.Data.List.Basic
import Mathlib.Tactic.Common
import Mathlib.Algebra.GroupWithZero.Nat

namespace NexusCode.Lib

open List

/-! ## Addresses -/

/-- An IPv4 address. -/
structure IPv4 where
  a : Fin 256
  b : Fin 256
  c : Fin 256
  d : Fin 256
deriving DecidableEq

/-- An IPv6 address: eight pieces of 16 bits. -/
structure IPv6 where
  pieces : List Nat
  length_pieces : pieces.length = 8
  pieces_lt : ∀ p ∈ pieces, p < 65536
deriving DecidableEq

/-- An address of either kind. -/
inductive Address where
  | v4 (x : IPv4)
  | v6 (x : IPv6)
deriving DecidableEq

/-! ## Texts -/

/-- A number in decimal digits. -/
def decimal (n : Nat) : List Char := Nat.toDigits 10 n

/-- A number in hexadecimal digits, in lower case. -/
def hex (n : Nat) : List Char := Nat.toDigits 16 n

/-- A digit of `hex`. -/
def isHexDigit (c : Char) : Bool := c.isDigit || ('a' ≤ c && c ≤ 'f')

/-- What a digit of `hex` stands for. -/
def hexValue (c : Char) : Nat := if c.isDigit then c.toNat - '0'.toNat else c.toNat - 'a'.toNat + 10

/-- The number a text of such digits stands for. -/
def hexNumber (text : List Char) : Nat := text.foldl (fun n c => 16 * n + hexValue c) 0

theorem digitChar_hex : ∀ d < 16, isHexDigit d.digitChar = true ∧ hexValue d.digitChar = d := by
  decide

theorem isHexDigit_of_mem_hex (n : Nat) : ∀ c ∈ hex n, isHexDigit c = true := by
  induction n using Nat.strongRecOn with
  | ind n ih =>
    unfold hex
    rw [Nat.toDigits_eq_if (by decide)]
    split
    · rename_i hlt
      exact fun c hc => mem_singleton.mp hc ▸ (digitChar_hex n hlt).1
    · rename_i hle
      intro c hc
      rcases mem_append.mp hc with hc | hc
      · exact ih (n / 16) (by omega) c hc
      · exact mem_singleton.mp hc ▸ (digitChar_hex (n % 16) (by omega)).1

theorem hexNumber_hex (n : Nat) : hexNumber (hex n) = n := by
  induction n using Nat.strongRecOn with
  | ind n ih =>
    unfold hex
    rw [Nat.toDigits_eq_if (by decide)]
    split
    · rename_i hlt
      show 16 * 0 + hexValue n.digitChar = n
      rw [(digitChar_hex n hlt).2, Nat.zero_add]
    · rename_i hle
      have hfront := ih (n / 16) (by omega)
      unfold hex hexNumber at hfront
      unfold hexNumber
      rw [foldl_append, hfront]
      show 16 * (n / 16) + hexValue (n % 16).digitChar = n
      rw [(digitChar_hex (n % 16) (by omega)).2]
      omega

/-- The four bytes in decimal, with points between them. -/
def IPv4.text (x : IPv4) : List Char :=
  ['.'].intercalate ([x.a.val, x.b.val, x.c.val, x.d.val].map decimal)

/-- How many zeros there are from an index on. -/
def runAt (pieces : List Nat) (i : Nat) : Nat := ((pieces.drop i).takeWhile (· = 0)).length

/-- The first of the longest runs of zeros, if it is longer than one: where it begins, and its
    length. -/
def zeroRun (pieces : List Nat) : Option (Nat × Nat) :=
  let i := (List.range pieces.length).foldl
    (fun best i => if runAt pieces best < runAt pieces i then i else best) 0
  if 1 < runAt pieces i then some (i, runAt pieces i) else none

/-- The pieces in hexadecimal with colons between them; `::` stands for the first of the longest runs
    of zeros. -/
def IPv6.text (x : IPv6) : List Char :=
  match zeroRun x.pieces with
  | none => [':'].intercalate (x.pieces.map hex)
  | some (i, n) =>
    [':'].intercalate ((x.pieces.take i).map hex) ++
      ':' :: ':' :: [':'].intercalate ((x.pieces.drop (i + n)).map hex)

theorem takeWhile_zeros (l : List Nat) :
    l.takeWhile (· = 0) = List.replicate (l.takeWhile (· = 0)).length 0 := by
  refine eq_replicate_iff.mpr ⟨rfl, fun p hp => ?_⟩
  simpa using all_eq_true.mp (all_takeWhile (p := (· = 0)) (l := l)) p hp

theorem zeroRun_spec {pieces : List Nat} {i n : Nat} (h : zeroRun pieces = some (i, n)) :
    1 < n ∧ pieces = pieces.take i ++ (List.replicate n 0 ++ pieces.drop (i + n)) := by
  unfold zeroRun at h
  dsimp only at h
  split at h
  · rename_i hrun
    obtain ⟨rfl, rfl⟩ := Prod.mk.inj (Option.some.inj h)
    generalize List.foldl _ 0 _ = i at hrun ⊢
    refine ⟨hrun, ?_⟩
    have hrest : List.replicate (runAt pieces i) 0 ++ pieces.drop (i + runAt pieces i) =
        pieces.drop i := by
      unfold runAt
      rw [← takeWhile_zeros, ← drop_drop]
      exact prefix_iff_eq_append.mp ( takeWhile_prefix _)
    rw [hrest, take_append_drop]
  · nomatch h

/-! ## Blocks of addresses -/

namespace IPv4

/-- An address as a number. -/
def toNat (x : IPv4) : Nat := ((x.a.val * 256 + x.b.val) * 256 + x.c.val) * 256 + x.d.val

/-- The address of a number. -/
def ofNat (n : Nat) : IPv4 :=
  ⟨Fin.ofNat 256 (n / 2 ^ 24), Fin.ofNat 256 (n / 2 ^ 16), Fin.ofNat 256 (n / 2 ^ 8),
    Fin.ofNat 256 n⟩

/-- The blocks that are not part of the public network, with the length of their prefixes. -/
def specialBlocks : List (IPv4 × Nat) :=
  [(⟨0, 0, 0, 0⟩, 8),       -- this host
   (⟨10, 0, 0, 0⟩, 8),      -- private
   (⟨127, 0, 0, 0⟩, 8),     -- loopback
   (⟨169, 254, 0, 0⟩, 16),  -- link-local
   (⟨172, 16, 0, 0⟩, 12),   -- private
   (⟨192, 168, 0, 0⟩, 16),  -- private
   (⟨100, 64, 0, 0⟩, 10),   -- carrier-grade NAT
   (⟨192, 0, 0, 0⟩, 24),    -- protocol assignments
   (⟨198, 18, 0, 0⟩, 15),   -- benchmarking
   (⟨224, 0, 0, 0⟩, 4),     -- multicast
   (⟨240, 0, 0, 0⟩, 4)]     -- reserved

/-- An address and the first one of its block have the same prefix. -/
def InBlock (x : IPv4) (block : IPv4 × Nat) : Prop :=
  x.toNat / 2 ^ (32 - block.2) = block.1.toNat / 2 ^ (32 - block.2)

instance (x : IPv4) (block : IPv4 × Nat) : Decidable (x.InBlock block) :=
  inferInstanceAs (Decidable (_ = _))

def IsSpecial (x : IPv4) : Prop := ∃ block ∈ specialBlocks, x.InBlock block

instance (x : IPv4) : Decidable x.IsSpecial :=
  inferInstanceAs (Decidable (∃ block ∈ specialBlocks, x.InBlock block))

end IPv4

namespace IPv6

/-- An address as a number. -/
def toNat (x : IPv6) : Nat := x.pieces.foldl (fun n p => 65536 * n + p) 0

/-- Unspecified, loopback, unique-local (`fc00::/7`), link-local (`fe80::/10`), or an IPv4-mapped form
    (`::ffff:0:0/96`) of a special address. -/
def IsSpecial (x : IPv6) : Prop :=
  x.toNat = 0 ∨ x.toNat = 1 ∨ x.toNat / 2 ^ 121 = 0xfc00 / 2 ^ 9 ∨
    x.toNat / 2 ^ 118 = 0xfe80 / 2 ^ 6 ∨
    (x.toNat / 2 ^ 32 = 0xffff ∧ (IPv4.ofNat x.toNat).IsSpecial)

instance (x : IPv6) : Decidable x.IsSpecial :=
  inferInstanceAs (Decidable (_ ∨ _ ∨ _ ∨ _ ∨ _ ∧ _))

end IPv6

/-- An address that is not part of the public network. -/
def Address.IsSpecial : Address → Prop
  | .v4 x => x.IsSpecial
  | .v6 x => x.IsSpecial

instance : ∀ x : Address, Decidable x.IsSpecial
  | .v4 x => inferInstanceAs (Decidable x.IsSpecial)
  | .v6 x => inferInstanceAs (Decidable x.IsSpecial)

end NexusCode.Lib
