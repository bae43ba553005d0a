/-
  The guard of URLs that a caller supplies: `assertAllowedUrl`.

  The guard reads the host of a parsed URL back from its text, and classifies what it has read.

    1. `isPrivateIPv4`, `expandIPv6`, `isPrivateIPv6` — addresses as texts.
    2. `expandIPv6_text`                             — reading an address back gives its bytes.
    3. `assertAllowedUrl`                            — the whole guard, with one lookup of a name.
    4. **`not_special_of_allowed`**                  — no special address is let through.

  The URL parser and the resolver are those of the runtime; a parsed URL has the host text the URL
  standard gives it.  Letters are lowered as those of ASCII.
-/
import NexusCode.Lib.IpAddress

namespace NexusCode.Webhooks

open Lib List

abbrev Text := List Char

/-! ## IPv4 -/

/-- `(\d{1,3})`, as a number. -/
def decimalGroup (group : Text) : Option Nat :=
  if 1 ≤ group.length ∧ group.length ≤ 3 ∧ group.all Char.isDigit then
    some (Nat.ofDigitChars 10 group 0)
  else none

/-- `parseIPv4(ip)`. -/
def parseIPv4 (ip : Text) : Option (Nat × Nat × Nat × Nat) :=
  match (ip.splitOn '.').map decimalGroup with
  | [some a, some b, some c, some d] =>
    if a > 255 ∨ b > 255 ∨ c > 255 ∨ d > 255 then none else some (a, b, c, d)
  | _ => none

/-- `isPrivateIPv4(parts)`. -/
def isPrivateIPv4 (parts : Nat × Nat × Nat × Nat) : Bool :=
  let (a, b, c, _) := parts
  if a = 0 then true
  else if a = 10 then true
  else if a = 127 then true
  else if a = 169 ∧ b = 254 then true
  else if a = 172 ∧ b ≥ 16 ∧ b ≤ 31 then true
  else if a = 192 ∧ b = 168 then true
  else if a = 100 ∧ b ≥ 64 ∧ b ≤ 127 then true
  else if a = 192 ∧ b = 0 ∧ c = 0 then true
  else if a = 198 ∧ (b = 18 ∨ b = 19) then true
  else if a ≥ 224 then true
  else false

/-- The ranges that `isPrivateIPv4` tests are the special blocks. -/
theorem isPrivateIPv4_iff (x : IPv4) :
    isPrivateIPv4 (x.a.val, x.b.val, x.c.val, x.d.val) = true ↔ x.IsSpecial := by
  obtain ⟨⟨a, ha⟩, ⟨b, hb⟩, ⟨c, hc⟩, ⟨d, hd⟩⟩ := x
  have hcode : isPrivateIPv4 (a, b, c, d) = true ↔ a = 0 ∨ a = 10 ∨ a = 127 ∨
      (a = 169 ∧ b = 254) ∨ (a = 172 ∧ b ≥ 16 ∧ b ≤ 31) ∨ (a = 192 ∧ b = 168) ∨
      (a = 100 ∧ b ≥ 64 ∧ b ≤ 127) ∨ (a = 192 ∧ b = 0 ∧ c = 0) ∨
      (a = 198 ∧ (b = 18 ∨ b = 19)) ∨ a ≥ 224 := by
    simp only [isPrivateIPv4, Bool.if_true_left, Bool.or_eq_true, decide_eq_true_eq,
      Bool.if_false_right, Bool.and_true]
  rw [hcode]
  generalize hn : ((a * 256 + b) * 256 + c) * 256 + d = n
  have hblock : ∀ block : IPv4 × Nat, IPv4.InBlock ⟨⟨a, ha⟩, ⟨b, hb⟩, ⟨c, hc⟩, ⟨d, hd⟩⟩ block ↔
      n / 2 ^ (32 - block.2) = block.1.toNat / 2 ^ (32 - block.2) := by
    intro block
    unfold IPv4.InBlock
    rw [show IPv4.toNat ⟨⟨a, ha⟩, ⟨b, hb⟩, ⟨c, hc⟩, ⟨d, hd⟩⟩ = n from hn]
  simp only [IPv4.IsSpecial, IPv4.specialBlocks, hblock, exists_mem_cons_iff,
    not_mem_nil, false_and, exists_false, or_false]
  show _ ↔ n / 16777216 = 0 ∨ n / 16777216 = 10 ∨ n / 16777216 = 127 ∨ n / 65536 = 43518 ∨
    n / 1048576 = 2753 ∨ n / 65536 = 49320 ∨ n / 4194304 = 401 ∨ n / 256 = 12582912 ∨
    n / 131072 = 25353 ∨ n / 268435456 = 14 ∨ n / 268435456 = 15
  clear hcode hblock
  -- a prefix of the number is made of its first bytes
  have h₄ : n / 268435456 = a / 16 := by omega
  have h₈ : n / 16777216 = a := by omega
  have h₁₀ : n / 4194304 = a * 4 + b / 64 := by omega
  have h₁₂ : n / 1048576 = a * 16 + b / 16 := by omega
  have h₁₅ : n / 131072 = a * 128 + b / 2 := by omega
  have h₁₆ : n / 65536 = a * 256 + b := by omega
  have h₂₄ : n / 256 = (a * 256 + b) * 256 + c := by omega
  rw [h₄, h₈, h₁₀, h₁₂, h₁₅, h₁₆, h₂₄]
  clear hn h₄ h₈ h₁₀ h₁₂ h₁₅ h₁₆ h₂₄
  -- the source tests the blocks in this order
  refine or_congr ?_ (or_congr ?_ (or_congr ?_ (or_congr ?_ (or_congr ?_ (or_congr ?_ (or_congr ?_
    (or_congr ?_ (or_congr ?_ ?_)))))))) <;> omega

theorem decimalGroup_decimal : ∀ n < 256, decimalGroup (decimal n) = some n := by
  decide +kernel

theorem point_notMem_decimal (n : Nat) : '.' ∉ decimal n := by
  intro h
  have hdigit := Nat.isDigit_of_mem_toDigits (by decide) (by decide) h
  revert hdigit
  decide

theorem splitOn_text (x : IPv4) :
    x.text.splitOn '.' = [x.a.val, x.b.val, x.c.val, x.d.val].map decimal := by
  unfold IPv4.text
  refine splitOn_intercalate '.' (fun group hgroup => ?_) nofun
  obtain ⟨n, -, rfl⟩ := mem_map.mp hgroup
  exact point_notMem_decimal n

theorem parseIPv4_text (x : IPv4) :
    parseIPv4 x.text = some (x.a.val, x.b.val, x.c.val, x.d.val) := by
  have hle : ∀ n : Fin 256, ¬ n.val > 255 := fun n => by omega
  unfold parseIPv4
  rw [splitOn_text]
  simp only [map_cons, map_nil, decimalGroup_decimal _ x.a.isLt,
    decimalGroup_decimal _ x.b.isLt, decimalGroup_decimal _ x.c.isLt,
    decimalGroup_decimal _ x.d.isLt]
  rw [if_neg (by simp [hle])]

/-! ## IPv6 -/

/-- `s.split("::")`. -/
def splitDouble : Text → List Text
  | [] => [[]]
  | [c] => [[c]]
  | c :: d :: rest =>
    if c = ':' ∧ d = ':' then [] :: splitDouble rest
    else (splitDouble (d :: rest)).modifyHead (c :: ·)

/-- `toGroups(part)`. -/
def toGroups (part : Text) : List Text := if part.isEmpty then [] else part.splitOn ':'

/-- A trailing dotted IPv4 address is folded into two groups. -/
def foldTail (s : Text) : Option Text :=
  let tail := (s.splitOn ':').getLastD []
  if tail.contains '.' then
    match parseIPv4 tail with
    | none => none
    | some (a, b, c, d) =>
      some (s.take (s.length - tail.length) ++ hex (a * 256 + b) ++ ':' :: hex (c * 256 + d))
  else some s

/-- The groups of the two halves, with zeros between them. -/
def fillGroups (halves : List Text) : Option (List Text) :=
  match halves with
  | [whole] => if (toGroups whole).length = 8 then some (toGroups whole) else none
  | [l, r] =>
    let left := toGroups l
    let right := toGroups r
    if left.length + right.length > 8 then none
    else some (left ++ List.replicate (8 - (left.length + right.length)) ['0'] ++ right)
  | _ => none

/-- The two bytes of a group of one to four digits. -/
def groupBytes (group : Text) : Option (List Nat) :=
  if 1 ≤ group.length ∧ group.length ≤ 4 ∧ group.all isHexDigit then
    some [hexNumber group / 256 % 256, hexNumber group % 256]
  else none

/-- `expandIPv6(input)`. -/
def expandIPv6 (input : Text) : Option (List Nat) :=
  let s := ((input.splitOn '%').headD []).map Char.toLower
  if s.isEmpty then none
  else
    match foldTail s with
    | none => none
    | some s =>
      match fillGroups (splitDouble s) with
      | none => none
      | some groups =>
        match groups.mapM groupBytes with
        | none => none
        | some bytes => if bytes.flatten.length = 16 then some bytes.flatten else none

/-- The bytes of an address, two for each piece. -/
def bytesOf (pieces : List Nat) : List Nat := pieces.flatMap fun p => [p / 256, p % 256]

/-- `isPrivateIPv6(ip)`. -/
def isPrivateIPv6 (ip : Text) : Bool :=
  match expandIPv6 ip with
  | none =>
    let s := ip.map Char.toLower
    s == "::1".toList || s == "::".toList || "fc".toList.isPrefixOf s || "fd".toList.isPrefixOf s ||
      "fe8".toList.isPrefixOf s
  | some b =>
    if (b.take 15).all (· == 0) && (b.getD 15 0 == 0 || b.getD 15 0 == 1) then true
    else if b.getD 0 0 &&& 0xfe = 0xfc then true
    else if b.getD 0 0 = 0xfe ∧ b.getD 1 0 &&& 0xc0 = 0x80 then true
    else if (b.take 10).all (· == 0) ∧ b.getD 10 0 = 0xff ∧ b.getD 11 0 = 0xff then
      isPrivateIPv4 (b.getD 12 0, b.getD 13 0, b.getD 14 0, b.getD 15 0)
    else false

/-! ## Reading back the text of an IPv6 address -/

/-- A group of hexadecimal digits. -/
def IsGroup (group : Text) : Prop := group ≠ [] ∧ ∀ c ∈ group, isHexDigit c = true

theorem isGroup_hex (n : Nat) : IsGroup (hex n) :=
  ⟨Nat.toDigits_ne_nil, isHexDigit_of_mem_hex n⟩

variable {c : Char}

theorem ne_colon_of_isHexDigit (h : isHexDigit c = true) : c ≠ ':' := by
  rintro rfl
  revert h
  decide

variable {groups : List Text}

theorem mem_join {sep : Char} (h : c ∈ [sep].intercalate groups) :
    c = sep ∨ ∃ group ∈ groups, c ∈ group := by
  induction groups with
  | nil => nomatch h
  | cons group groups ih =>
    cases groups with
    | nil =>
      rw [intercalate_singleton] at h
      exact .inr ⟨group, mem_cons_self, h⟩
    | cons next groups =>
      rw [intercalate_cons_cons, append_assoc] at h
      rcases mem_append.mp h with h | h
      · exact .inr ⟨group, mem_cons_self, h⟩
      · rcases mem_append.mp h with h | h
        · exact .inl (mem_singleton.mp h)
        · rcases ih h with h | ⟨other, hother, h⟩
          · exact .inl h
          · exact .inr ⟨other, mem_cons_of_mem _ hother, h⟩

theorem mem_join_of_mem {group : Text} (hgroup : group ∈ groups)
    (h : c ∈ group) : c ∈ [':'].intercalate groups := by
  induction groups with
  | nil => nomatch hgroup
  | cons first groups ih =>
    cases groups with
    | nil =>
      rw [mem_singleton.mp hgroup] at h
      rwa [intercalate_singleton]
    | cons next groups =>
      rw [intercalate_cons_cons, append_assoc]
      rcases mem_cons.mp hgroup with rfl | hgroup
      · exact mem_append_left _ h
      · exact mem_append_right _ (mem_append_right _ (ih hgroup))

theorem splitDouble_cons_cons (c d : Char) (rest : Text) :
    splitDouble (c :: d :: rest) = if c = ':' ∧ d = ':' then [] :: splitDouble rest
      else (splitDouble (d :: rest)).modifyHead (c :: ·) := by
  rw [splitDouble]

theorem modifyHead_nil_append (groups : List Text) :
    groups.modifyHead ([] ++ ·) = groups := by
  cases groups <;> rfl

theorem splitDouble_append {group : Text} (h : ∀ c ∈ group, c ≠ ':') (rest : Text) :
    splitDouble (group ++ rest) = (splitDouble rest).modifyHead (group ++ ·) := by
  induction group with
  | nil => exact (modifyHead_nil_append _).symm
  | cons c group ih =>
    obtain ⟨hc, hgroup⟩ := forall_mem_cons.mp h
    have htail := ih hgroup
    cases hrest : group ++ rest with
    | nil =>
      obtain ⟨rfl, rfl⟩ := append_eq_nil_iff.mp hrest
      rfl
    | cons d tail =>
      rw [hrest] at htail
      show splitDouble (c :: (group ++ rest)) = _
      rw [hrest, splitDouble_cons_cons, if_neg fun hboth => hc hboth.1, htail,
        modifyHead_modifyHead]
      rfl

theorem splitDouble_colon {rest : Text} (h : ∀ c ∈ rest.head?, c ≠ ':') :
    splitDouble (':' :: rest) = (splitDouble rest).modifyHead (':' :: ·) := by
  cases rest with
  | nil => rfl
  | cons d tail => exact if_neg fun hboth => h d rfl hboth.2

theorem splitDouble_join (h : ∀ group ∈ groups, IsGroup group) (rest : Text) :
    splitDouble ([':'].intercalate groups ++ rest) =
      (splitDouble rest).modifyHead ([':'].intercalate groups ++ ·) := by
  induction groups with
  | nil => exact (modifyHead_nil_append _).symm
  | cons group groups ih =>
    obtain ⟨hgroup, hgroups⟩ := forall_mem_cons.mp h
    have hplain : ∀ c ∈ group, c ≠ ':' := fun c hc => ne_colon_of_isHexDigit (hgroup.2 c hc)
    cases groups with
    | nil =>
      rw [intercalate_singleton]
      exact splitDouble_append hplain rest
    | cons next groups =>
      have hnext := hgroups next mem_cons_self
      have hhead : ∀ c ∈ ([':'].intercalate (next :: groups) ++ rest).head?, c ≠ ':' := by
        obtain ⟨d, tail, hd⟩ := exists_cons_of_ne_nil hnext.1
        have hdigit := ne_colon_of_isHexDigit (hnext.2 d (hd ▸ mem_cons_self))
        cases groups with
        | nil =>
          rw [intercalate_singleton, hd]
          intro c hc
          rwa [← Option.some.inj hc]
        | cons third groups =>
          rw [intercalate_cons_cons, hd]
          intro c hc
          rwa [← Option.some.inj hc]
      rw [intercalate_cons_cons, append_assoc, append_assoc,
        splitDouble_append hplain, singleton_append, splitDouble_colon hhead, ih hgroups,
        modifyHead_modifyHead, modifyHead_modifyHead]
      congr 1
      funext t
      simp

theorem toGroups_join (h : ∀ group ∈ groups, IsGroup group) :
    toGroups ([':'].intercalate groups) = groups := by
  cases groups with
  | nil => rfl
  | cons group groups =>
    have hsplit : ([':'].intercalate (group :: groups)).splitOn ':' = group :: groups :=
      splitOn_intercalate ':' (fun g hg hc =>
        ne_colon_of_isHexDigit ((h g hg).2 ':' hc) rfl) (cons_ne_nil _ _)
    obtain ⟨c, tail, hc⟩ := exists_cons_of_ne_nil (h group mem_cons_self).1
    have hmem : c ∈ [':'].intercalate (group :: groups) :=
      mem_join_of_mem mem_cons_self (hc ▸ mem_cons_self)
    have hne : ¬ ([':'].intercalate (group :: groups)).isEmpty := by
      intro hempty
      rw [List.isEmpty_iff.mp hempty] at hmem
      nomatch hmem
    unfold toGroups
    rw [if_neg hne, hsplit]

/-- The characters of the text of an address. -/
def IsPlain (c : Char) : Prop := isHexDigit c = true ∨ c = ':'

theorem IsPlain.toLower (h : IsPlain c) : c.toLower = c := by
  have hlow : ¬ (c.val ≥ 'A'.val ∧ c.val ≤ 'Z'.val) := by
    rintro ⟨hA, hZ⟩
    rcases h with h | rfl
    · unfold isHexDigit Char.isDigit at h
      simp only [Bool.or_eq_true, Bool.and_eq_true, decide_eq_true_eq] at h
      rcases h with ⟨-, h⟩ | ⟨h, -⟩
      · exact absurd (UInt32.le_trans hA h) (by decide)
      · exact absurd (UInt32.le_trans h hZ) (by decide)
    · exact absurd hA (by decide)
  unfold Char.toLower
  rw [dif_neg hlow]

theorem not_isPlain_percent : ¬ IsPlain '%' := by
  rintro (h | h)
  · revert h
    decide
  · revert h
    decide

theorem not_isPlain_point : ¬ IsPlain '.' := by
  rintro (h | h)
  · revert h
    decide
  · revert h
    decide

theorem isPlain_join (h : ∀ group ∈ groups, IsGroup group) :
    ∀ c ∈ [':'].intercalate groups, IsPlain c := by
  intro c hc
  rcases mem_join hc with hc | ⟨group, hgroup, hc⟩
  · exact .inr hc
  · exact .inl ((h group hgroup).2 c hc)

theorem groups_hex (pieces : List Nat) : ∀ group ∈ pieces.map hex, IsGroup group := by
  intro group hgroup
  obtain ⟨n, -, rfl⟩ := mem_map.mp hgroup
  exact isGroup_hex n

theorem isPlain_text (x : IPv6) : ∀ c ∈ x.text, IsPlain c := by
  intro c hc
  unfold IPv6.text at hc
  split at hc
  · exact isPlain_join (groups_hex _) c hc
  · rcases mem_append.mp hc with hc | hc
    · exact isPlain_join (groups_hex _) c hc
    · rcases mem_cons.mp hc with hc | hc
      · exact .inr hc
      · rcases mem_cons.mp hc with hc | hc
        · exact .inr hc
        · exact isPlain_join (groups_hex _) c hc

/-- The text of an address has all pieces, or those on both sides of a run of zeros. -/
theorem splitDouble_text (x : IPv6) :
    splitDouble x.text = [[':'].intercalate (x.pieces.map hex)] ∨
      ∃ left right n, 1 < n ∧ x.pieces = left ++ (List.replicate n 0 ++ right) ∧
        splitDouble x.text =
          [[':'].intercalate (left.map hex), [':'].intercalate (right.map hex)] := by
  have hjoin : ∀ pieces : List Nat,
      splitDouble ([':'].intercalate (pieces.map hex)) = [[':'].intercalate (pieces.map hex)] := by
    intro pieces
    have hwhole := splitDouble_join (groups_hex pieces) []
    rw [append_nil] at hwhole
    rw [hwhole]
    show [[':'].intercalate (pieces.map hex) ++ []] = _
    rw [append_nil]
  unfold IPv6.text
  split
  · exact .inl (hjoin x.pieces)
  · rename_i i n hrun
    obtain ⟨hn, hpieces⟩ := zeroRun_spec hrun
    refine .inr ⟨x.pieces.take i, x.pieces.drop (i + n), n, hn, hpieces, ?_⟩
    rw [splitDouble_join (groups_hex _), splitDouble_cons_cons, if_pos ⟨rfl, rfl⟩, hjoin]
    show [[':'].intercalate _ ++ [], [':'].intercalate _] = _
    rw [append_nil]

theorem length_of_run {x : IPv6} {left right : List Nat} {n : Nat}
    (h : x.pieces = left ++ (List.replicate n 0 ++ right)) :
    left.length + right.length + n = 8 := by
  have hlength := congrArg List.length h
  rw [x.length_pieces, length_append, length_append, length_replicate] at hlength
  omega

theorem fillGroups_text (x : IPv6) :
    fillGroups (splitDouble x.text) = some (x.pieces.map hex) := by
  rcases splitDouble_text x with hwhole | ⟨left, right, n, -, hpieces, hhalves⟩
  · rw [hwhole]
    unfold fillGroups
    dsimp only
    rw [toGroups_join (groups_hex _), if_pos (by rw [length_map, x.length_pieces])]
  · have hlength := length_of_run hpieces
    have hfill : 8 - (left.length + right.length) = n := by omega
    rw [hhalves, hpieces]
    unfold fillGroups
    dsimp only
    rw [toGroups_join (groups_hex _), toGroups_join (groups_hex _), length_map,
      length_map, if_neg (by omega), hfill, map_append, map_append,
      map_replicate, append_assoc]
    rfl

theorem groupBytes_hex {p : Nat} (h : p < 65536) : groupBytes (hex p) = some [p / 256, p % 256] :=
    by
  have hlength : (hex p).length ≤ 4 := (Nat.length_toDigits_le_iff (by decide) (by decide)).mpr h
  have hpos : 1 ≤ (hex p).length := Nat.length_toDigits_pos
  unfold groupBytes
  rw [if_pos ⟨hpos, hlength, all_eq_true.mpr (isHexDigit_of_mem_hex p)⟩, hexNumber_hex,
    Nat.mod_eq_of_lt (show p / 256 < 256 by omega)]

theorem mapM_groupBytes {pieces : List Nat} (h : ∀ p ∈ pieces, p < 65536) :
    (pieces.map hex).mapM groupBytes = some (pieces.map fun p => [p / 256, p % 256]) := by
  induction pieces with
  | nil => rfl
  | cons p pieces ih =>
    obtain ⟨hp, hpieces⟩ := forall_mem_cons.mp h
    rw [map_cons, mapM_cons, groupBytes_hex hp, ih hpieces]
    rfl

theorem mem_of_mem_splitOn {text group : Text} (hgroup : group ∈ text.splitOn ':')
    (h : c ∈ group) : c ∈ text := by
  have hmem := mem_join_of_mem hgroup h
  rwa [intercalate_splitOn] at hmem

theorem foldTail_text (x : IPv6) : foldTail x.text = some x.text := by
  unfold foldTail
  dsimp only
  rw [if_neg]
  intro hpoint
  have hmem : '.' ∈ (x.text.splitOn ':').getLastD [] := by simpa using hpoint
  rw [getLastD_eq_getLast?, List.getLast?_eq_some_getLast (splitOn_ne_nil _ _)] at hmem
  exact not_isPlain_point (isPlain_text x '.' (mem_of_mem_splitOn
    (getLast_mem _) hmem))

theorem length_bytesOf (pieces : List Nat) : (bytesOf pieces).length = 2 * pieces.length := by
  induction pieces with
  | nil => rfl
  | cons p pieces ih =>
    show (bytesOf pieces).length + 1 + 1 = 2 * (pieces.length + 1)
    omega

/-- **Reading an address back gives its bytes.** -/
theorem expandIPv6_text (x : IPv6) : expandIPv6 x.text = some (bytesOf x.pieces) := by
  have hpercent : x.text.splitOn '%' = [x.text] :=
    splitOn_eq_singleton fun h => not_isPlain_percent (isPlain_text x '%' h)
  have hlower : x.text.map Char.toLower = x.text := by
    rw [map_congr_left fun c hc => (isPlain_text x c hc).toLower, map_id']
  have hne : ¬ x.text.isEmpty := by
    intro hempty
    have hgroups := fillGroups_text x
    rw [List.isEmpty_iff.mp hempty, show fillGroups (splitDouble []) = none from rfl] at hgroups
    nomatch hgroups
  have hread : ((x.text.splitOn '%').headD []).map Char.toLower = x.text := by
    rw [hpercent]
    exact hlower
  have hlength : (x.pieces.map fun p => [p / 256, p % 256]).flatten.length = 16 := by
    have hbytes := length_bytesOf x.pieces
    rwa [x.length_pieces] at hbytes
  unfold expandIPv6
  simp only [hread, foldTail_text, fillGroups_text, mapM_groupBytes x.pieces_lt]
  rw [if_neg hne, if_pos hlength]
  rfl

/-! ## The classification of IPv6 addresses -/

theorem and_fe : ∀ b < 256, (b &&& 0xfe = 0xfc ↔ b / 2 = 126) := by
  decide +kernel

theorem and_c0 : ∀ b < 256, (b &&& 0xc0 = 0x80 ↔ b / 64 = 2) := by
  decide +kernel

theorem bytes_eq_zero {p : Nat} {r : Prop} : (p / 256 = 0 ∧ p % 256 = 0 ∧ r) ↔ (p = 0 ∧ r) := by
  constructor
  · rintro ⟨hhigh, hlow, hr⟩
    exact ⟨by omega, hr⟩
  · rintro ⟨rfl, hr⟩
    exact ⟨rfl, rfl, hr⟩

theorem bytes_eq_max {p : Nat} {r : Prop} :
    (p / 256 = 255 ∧ p % 256 = 255 ∧ r) ↔ (p = 65535 ∧ r) := by
  constructor
  · rintro ⟨hhigh, hlow, hr⟩
    exact ⟨by omega, hr⟩
  · rintro ⟨rfl, hr⟩
    exact ⟨rfl, rfl, hr⟩

theorem isPrivateIPv6_pieces {text : Text} {p₀ p₁ p₂ p₃ p₄ p₅ p₆ p₇ : Nat}
    (h₀ : p₀ < 65536) (hread : expandIPv6 text = some (bytesOf [p₀, p₁, p₂, p₃, p₄, p₅, p₆, p₇])) :
    isPrivateIPv6 text = true ↔
      (p₀ = 0 ∧ p₁ = 0 ∧ p₂ = 0 ∧ p₃ = 0 ∧ p₄ = 0 ∧ p₅ = 0 ∧ p₆ = 0 ∧ (p₇ = 0 ∨ p₇ = 1)) ∨
      p₀ / 512 = 126 ∨ p₀ / 64 = 1018 ∨
      (p₀ = 0 ∧ p₁ = 0 ∧ p₂ = 0 ∧ p₃ = 0 ∧ p₄ = 0 ∧ p₅ = 65535 ∧
        isPrivateIPv4 (p₆ / 256, p₆ % 256, p₇ / 256, p₇ % 256) = true) := by
  have hlast : (p₇ / 256 = 0 ∧ (p₇ % 256 = 0 ∨ p₇ % 256 = 1)) ↔ (p₇ = 0 ∨ p₇ = 1) := by omega
  have hlocal : p₀ / 256 / 2 = 126 ↔ p₀ / 512 = 126 := by omega
  have hlink : (p₀ / 256 = 254 ∧ p₀ % 256 / 64 = 2) ↔ p₀ / 64 = 1018 := by omega
  unfold isPrivateIPv6
  rw [hread]
  simp only [bytesOf, flatMap_cons, flatMap_nil, cons_append, nil_append,
    append_nil, take_succ_cons, take_zero, all_cons, all_nil,
    getD_cons_zero, getD_cons_succ, Bool.and_true, Bool.and_eq_true, Bool.or_eq_true,
    beq_iff_eq, Bool.if_true_left, Bool.if_false_right, decide_eq_true_eq,
    and_fe (p₀ / 256) (by omega), and_c0 (p₀ % 256) (by omega), hlocal, hlink, and_assoc,
    bytes_eq_zero, bytes_eq_max, hlast]

/-- The tests on the bytes are those on the address as a number. -/
theorem isPrivateIPv6_text (x : IPv6) : isPrivateIPv6 x.text = true ↔ x.IsSpecial := by
  obtain ⟨pieces, hlength, hlt⟩ := x
  match pieces, hlength with
  | [p₀, p₁, p₂, p₃, p₄, p₅, p₆, p₇], hlength =>
    have hread := expandIPv6_text ⟨[p₀, p₁, p₂, p₃, p₄, p₅, p₆, p₇], hlength, hlt⟩
    have hbound := hlt
    simp only [forall_mem_cons, not_mem_nil, false_implies, implies_true, and_true]
      at hbound
    obtain ⟨h₀, h₁, h₂, h₃, h₄, h₅, h₆, h₇⟩ := hbound
    rw [isPrivateIPv6_pieces h₀ hread]
    clear hread
    unfold IPv6.IsSpecial
    generalize hn : IPv6.toNat ⟨[p₀, p₁, p₂, p₃, p₄, p₅, p₆, p₇], hlength, hlt⟩ = n
    have hnumber : n = 65536 * (65536 * (65536 * (65536 * (65536 * (65536 * (65536 *
        p₀ + p₁) + p₂) + p₃) + p₄) + p₅) + p₆) + p₇ := by
      rw [← hn]
      show 65536 * (65536 * (65536 * (65536 * (65536 * (65536 * (65536 *
        (65536 * 0 + p₀) + p₁) + p₂) + p₃) + p₄) + p₅) + p₆) + p₇ = _
      rw [Nat.mul_zero, Nat.zero_add]
    clear hn
    have hmapped : isPrivateIPv4 (p₆ / 256, p₆ % 256, p₇ / 256, p₇ % 256) = true ↔
        (IPv4.ofNat n).IsSpecial := by
      have ha : (IPv4.ofNat n).a.val = p₆ / 256 := by
        show n / 16777216 % 256 = p₆ / 256
        omega
      have hb : (IPv4.ofNat n).b.val = p₆ % 256 := by
        show n / 65536 % 256 = p₆ % 256
        omega
      have hc : (IPv4.ofNat n).c.val = p₇ / 256 := by
        show n / 256 % 256 = p₇ / 256
        omega
      have hd : (IPv4.ofNat n).d.val = p₇ % 256 := by
        show n % 256 = p₇ % 256
        omega
      rw [← isPrivateIPv4_iff, ha, hb, hc, hd]
    have hsmall : (p₀ = 0 ∧ p₁ = 0 ∧ p₂ = 0 ∧ p₃ = 0 ∧ p₄ = 0 ∧ p₅ = 0 ∧ p₆ = 0 ∧
        (p₇ = 0 ∨ p₇ = 1)) ↔ (n = 0 ∨ n = 1) := by
      constructor
      · rintro ⟨rfl, rfl, rfl, rfl, rfl, rfl, rfl, h⟩
        omega
      · intro h
        have hle : n ≤ 1 := by omega
        clear h
        exact ⟨by omega, by omega, by omega, by omega, by omega, by omega, by omega, by omega⟩
    have hlocal : p₀ / 512 = 126 ↔ n / 2 ^ 121 = 0xfc00 / 2 ^ 9 := by
      show _ ↔ n / 2658455991569831745807614120560689152 = 126
      omega
    have hlink : p₀ / 64 = 1018 ↔ n / 2 ^ 118 = 0xfe80 / 2 ^ 6 := by
      show _ ↔ n / 332306998946228968225951765070086144 = 1018
      omega
    have hprefix : (p₀ = 0 ∧ p₁ = 0 ∧ p₂ = 0 ∧ p₃ = 0 ∧ p₄ = 0 ∧ p₅ = 65535) ↔
        n / 2 ^ 32 = 0xffff := by
      show _ ↔ n / 4294967296 = 65535
      constructor
      · rintro ⟨rfl, rfl, rfl, rfl, rfl, rfl⟩
        omega
      · intro h
        exact ⟨by omega, by omega, by omega, by omega, by omega, by omega⟩
    rw [hsmall, hlocal, hlink, ← hmapped, ← hprefix, or_assoc]
    simp only [and_assoc]

/-! ## `net.isIP` -/

/-- A byte in decimal without leading zeros. -/
def isByte (group : Text) : Bool :=
  (decimalGroup group).any fun n => n ≤ 255 && decimal n == group

def isIPv4 (text : Text) : Bool :=
  (text.splitOn '.').length == 4 && (text.splitOn '.').all isByte

/-- One to four hexadecimal digits, in either case. -/
def isHexGroup (group : Text) : Bool :=
  1 ≤ group.length && group.length ≤ 4 && group.all fun c => isHexDigit c.toLower

/-- How many pieces groups stand for; the last one may be an IPv4 address. -/
def countPieces : List Text → Option Nat
  | [] => some 0
  | [group] => if isHexGroup group then some 1 else if isIPv4 group then some 2 else none
  | group :: groups => if isHexGroup group then (countPieces groups).map (· + 1) else none

def isIPv6Groups (text : Text) : Bool :=
  match splitDouble text with
  | [whole] => countPieces (toGroups whole) == some 8
  | [left, right] =>
    (toGroups left).all isHexGroup &&
      (countPieces (toGroups right)).any fun n => (toGroups left).length + n ≤ 7
  | _ => false

/-- A character of a zone id. -/
def isZoneChar (c : Char) : Bool := c.isAlphanum || c == '-' || c == '.' || c == ':'

def isIPv6 (text : Text) : Bool :=
  match text.splitOn '%' with
  | [text] => isIPv6Groups text
  | [text, zone] => !zone.isEmpty && zone.all isZoneChar && isIPv6Groups text
  | _ => false

/-- `isIP(host)`. -/
def isIP (text : Text) : Nat := if isIPv4 text then 4 else if isIPv6 text then 6 else 0

theorem isByte_decimal : ∀ n < 256, isByte (decimal n) = true := by
  decide +kernel

theorem isIP_text_v4 (x : IPv4) : isIP x.text = 4 := by
  refine if_pos ?_
  unfold isIPv4
  rw [splitOn_text]
  simp [isByte_decimal]

theorem isHexGroup_hex {p : Nat} (h : p < 65536) : isHexGroup (hex p) = true := by
  have hlength : (hex p).length ≤ 4 := (Nat.length_toDigits_le_iff (by decide) (by decide)).mpr h
  have hpos : 1 ≤ (hex p).length := Nat.length_toDigits_pos
  have hdigits : (hex p).all (fun c => isHexDigit c.toLower) = true := by
    refine all_eq_true.mpr fun c hc => ?_
    have hdigit := isHexDigit_of_mem_hex p c hc
    rwa [IsPlain.toLower (.inl hdigit)]
  unfold isHexGroup
  rw [decide_eq_true hpos, decide_eq_true hlength, hdigits]
  rfl

theorem countPieces_hex {pieces : List Nat} (h : ∀ p ∈ pieces, p < 65536) :
    countPieces (pieces.map hex) = some pieces.length := by
  induction pieces with
  | nil => rfl
  | cons p pieces ih =>
    obtain ⟨hp, hpieces⟩ := forall_mem_cons.mp h
    have htail := ih hpieces
    cases pieces with
    | nil => exact if_pos (isHexGroup_hex hp)
    | cons q pieces =>
      rw [map_cons, map_cons, countPieces, if_pos (isHexGroup_hex hp),
        ← map_cons, htail]
      · rfl
      · exact nofun

theorem isIP_text_v6 (x : IPv6) : isIP x.text = 6 := by
  have hpoint : x.text.splitOn '.' = [x.text] :=
    splitOn_eq_singleton fun h => not_isPlain_point (isPlain_text x '.' h)
  have hpercent : x.text.splitOn '%' = [x.text] :=
    splitOn_eq_singleton fun h => not_isPlain_percent (isPlain_text x '%' h)
  have hgroups : isIPv6Groups x.text = true := by
    unfold isIPv6Groups
    rcases splitDouble_text x with hwhole | ⟨left, right, n, hn, hpieces, hhalves⟩
    · rw [hwhole]
      dsimp only
      rw [toGroups_join (groups_hex _), countPieces_hex x.pieces_lt, x.length_pieces]
      rfl
    · have hlength := length_of_run hpieces
      have hleft : ∀ p ∈ left, p < 65536 := fun p hp =>
        x.pieces_lt p (hpieces ▸ mem_append_left _ hp)
      have hright : ∀ p ∈ right, p < 65536 := fun p hp =>
        x.pieces_lt p (hpieces ▸ mem_append_right _ (mem_append_right _ hp))
      rw [hhalves]
      dsimp only
      rw [toGroups_join (groups_hex _), toGroups_join (groups_hex _), countPieces_hex hright]
      have hall : (left.map hex).all isHexGroup = true := by
        rw [all_map]
        exact all_eq_true.mpr fun p hp => isHexGroup_hex (hleft p hp)
      rw [hall, Option.any_some, length_map]
      simp
      omega
  have h4 : isIPv4 x.text = false := by
    unfold isIPv4
    rw [hpoint]
    rfl
  have h6 : isIPv6 x.text = true := by
    unfold isIPv6
    rw [hpercent]
    exact hgroups
  unfold isIP
  rw [if_neg (by rw [h4]; exact Bool.false_ne_true), if_pos h6]

/-! ## The guard -/

/-- The host of a URL with a scheme of the web: an address, or a name. -/
inductive Host where
  | address (x : Address)
  | name (name : Text)
deriving DecidableEq

/-- What the guard and `fetch` read of a parsed URL. -/
structure Url where
  protocol : String
  host : Host
  href : String

/-- `url.hostname` -/
def Url.hostname (url : Url) : Text :=
  match url.host with
  | .address (.v4 x) => x.text
  | .address (.v6 x) => '[' :: (x.text ++ [']'])
  | .name name => name

structure SsrfOptions where
  allowPrivate : Bool := false
  resolveDns : Bool := true
  allowlist : List Text := []

/-- One of the addresses that `dns.lookup` resolves to. -/
structure Resolved where
  address : Text
  family : Nat

/-- `stripBrackets(host)`. -/
def stripBrackets (host : Text) : Text :=
  let host := if host.head? = some '[' then host.tail else host
  if host.getLast? = some ']' then host.dropLast else host

/-- `host.toLowerCase().replace(/\.$/, "")`. -/
def plainName (host : Text) : Text :=
  let host := host.map Char.toLower
  if host.getLast? = some '.' then host.dropLast else host

/-- `isAllowlisted(host, allowlist)`. -/
def isAllowlisted (host : Text) (allowlist : List Text) : Bool :=
  allowlist.any fun entry => plainName entry == plainName host

/-- `isPrivateHostname(host)`. -/
def isPrivateHostname (host : Text) : Bool :=
  let h := plainName host
  h == "localhost".toList || ".localhost".toList.isSuffixOf h || ".local".toList.isSuffixOf h

/-- The test of a resolved address. -/
def isPrivateResolved (a : Resolved) : Bool :=
  if a.family = 4 then (parseIPv4 a.address).any isPrivateIPv4 else isPrivateIPv6 a.address

/-- `assertAllowedUrl(rawUrl, opts)`, with the text of the `BlockedUrlError`.  `lookup` is what the
    resolver answers at this moment; `none` if it fails. -/
def assertAllowedUrl (parse : String → Option Url) (lookup : Text → Option (List Resolved))
    (rawUrl : String) (opts : SsrfOptions) : Except String Url :=
  match parse rawUrl with
  | none => .error ("invalid URL: " ++ rawUrl)
  | some url =>
    if url.protocol ≠ "http:" ∧ url.protocol ≠ "https:" then
      .error ("blocked non-http(s) URL scheme: " ++ url.protocol)
    else if opts.allowPrivate then .ok url
    else
      let host := stripBrackets url.hostname
      if isAllowlisted host opts.allowlist then .ok url
      else if isIP host = 4 then
        if (parseIPv4 host).any isPrivateIPv4 then
          .error ("blocked private/loopback address: " ++ String.ofList host)
        else .ok url
      else if isIP host = 6 then
        if isPrivateIPv6 host then
          .error ("blocked private/loopback address: " ++ String.ofList host)
        else .ok url
      else if isPrivateHostname host then
        .error ("blocked local hostname: " ++ String.ofList host)
      else if !opts.resolveDns then .ok url
      else
        match lookup host with
        | none => .ok url  -- resolution failure is not a policy decision
        | some addrs =>
          match addrs.find? isPrivateResolved with
          | some a =>
            .error ("blocked: " ++ String.ofList host ++ " resolves to private address " ++
              String.ofList a.address)
          | none => .ok url

theorem stripBrackets_of_plain {host : Text} (h : ∀ c ∈ host, c ≠ '[' ∧ c ≠ ']') :
    stripBrackets host = host := by
  have hhead : ¬ host.head? = some '[' := fun hhead => (h '[' (mem_of_head? hhead)).1 rfl
  have hlast : ¬ host.getLast? = some ']' := fun hlast =>
    (h ']' (mem_of_getLast? hlast)).2 rfl
  unfold stripBrackets
  rw [if_neg hhead]
  exact if_neg hlast

theorem stripBrackets_v4 (x : IPv4) : stripBrackets x.text = x.text := by
  refine stripBrackets_of_plain fun c hc => ?_
  have hdigit : c = '.' ∨ c.isDigit = true := by
    rcases mem_join hc with hc | ⟨group, hgroup, hc⟩
    · exact .inl hc
    · obtain ⟨n, -, rfl⟩ := mem_map.mp hgroup
      exact .inr (Nat.isDigit_of_mem_toDigits (by decide) (by decide) hc)
  constructor
  · rintro rfl
    revert hdigit
    decide
  · rintro rfl
    revert hdigit
    decide

theorem stripBrackets_v6 (x : IPv6) : stripBrackets ('[' :: (x.text ++ [']'])) = x.text := by
  unfold stripBrackets
  dsimp only
  rw [if_pos (show ('[' :: (x.text ++ [']'])).head? = some '[' from rfl)]
  show (if (x.text ++ [']']).getLast? = some ']' then (x.text ++ [']']).dropLast
    else x.text ++ [']']) = x.text
  rw [List.getLast?_concat, if_pos rfl, dropLast_concat]

variable {parse : String → Option Url} {lookup : Text → Option (List Resolved)} {opts : SsrfOptions}

theorem blocked_of_special
    {rawUrl : String} {url : Url} {x : Address}
    (hprivate : opts.allowPrivate = false) (hlist : opts.allowlist = [])
    (hparse : parse rawUrl = some url) (hhost : url.host = .address x) (hx : x.IsSpecial) :
    ∃ message, assertAllowedUrl parse lookup rawUrl opts = .error message := by
  have hallow : ∀ host, isAllowlisted host opts.allowlist = false := by
    intro host
    rw [hlist]
    rfl
  unfold assertAllowedUrl
  rw [hparse]
  dsimp only
  split
  · exact ⟨_, rfl⟩
  · rw [hprivate, if_neg Bool.false_ne_true]
    cases x with
    | v4 x =>
      have hname : stripBrackets url.hostname = x.text := by
        unfold Url.hostname
        rw [hhost]
        exact stripBrackets_v4 x
      have hspecial : (parseIPv4 x.text).any isPrivateIPv4 = true := by
        rw [parseIPv4_text]
        exact (isPrivateIPv4_iff x).mpr hx
      simp only [hname, hallow, isIP_text_v4, hspecial]
      exact ⟨_, rfl⟩
    | v6 x =>
      have hname : stripBrackets url.hostname = x.text := by
        unfold Url.hostname
        rw [hhost]
        exact stripBrackets_v6 x
      have hspecial : isPrivateIPv6 x.text = true := (isPrivateIPv6_text x).mpr hx
      simp only [hname, hallow, isIP_text_v6, hspecial]
      exact ⟨_, rfl⟩

theorem parse_of_allowed
    {rawUrl : String} {url : Url}
    (h : assertAllowedUrl parse lookup rawUrl opts = .ok url) : parse rawUrl = some url := by
  unfold assertAllowedUrl at h
  split at h
  · nomatch h
  · rename_i parsed hparse
    have hsame : parsed = url := by
      dsimp only at h
      repeat' split at h
      all_goals first | exact Except.ok.inj h | nomatch h
    rw [hparse, hsame]

/-- **What the guard lets through**, where nothing is excepted, is not at a special address. -/
theorem not_special_of_allowed {rawUrl : String} {url : Url}
    (hprivate : opts.allowPrivate = false) (hlist : opts.allowlist = [])
    (h : assertAllowedUrl parse lookup rawUrl opts = .ok url) :
    parse rawUrl = some url ∧ ∀ x, url.host = .address x → ¬ x.IsSpecial := by
  have hparse := parse_of_allowed h
  refine ⟨hparse, fun x hhost hx => ?_⟩
  obtain ⟨message, hblocked⟩ : ∃ message, assertAllowedUrl parse lookup rawUrl opts =
      .error message := blocked_of_special hprivate hlist hparse hhost hx
  rw [h] at hblocked
  nomatch hblocked

end NexusCode.Webhooks
