/-
  What the log writes: an entry, its line, and what is read back of it.

    1. `Entry`             — the place, the previous hash and the event of a record.
    2. `Entry.isValue_json`— a record is a JSON value, whatever the event holds.
    3. `Entry.parse_line`  — its line reads back; `Entry.torn` and `Entry.overwritten` say what is
       left of a line that was cut off is unreadable, also with a further line behind it.
    4. `exists_entry`      — what a log commits is an entry at the end of its records.
-/
import NexusCode.Lib.JsonFields
import NexusCode.Audit.Log

namespace NexusCode.Audit

open Lib Shared List

variable (redaction : Redaction)

/-! ## Redaction keeps values -/

theorem redactFields_eq (depth : Nat) : ∀ fields : List (String × Json),
    redactFields redaction depth fields = fields.map fun f =>
      (f.1, if redaction.secretKey f.1 then .str "[REDACTED]" else redactArgs redaction (depth + 1) f.2)
  | [] => rfl
  | (k, v) :: rest => by
    rw [redactFields, redactFields_eq depth rest]
    rfl

theorem mem_redactItems {depth : Nat} {w : Json} : ∀ {n : Nat} {items : List Json},
    w ∈ redactItems redaction depth n items → ∃ v ∈ items, w = redactArgs redaction (depth + 1) v
  | 0, [], h => nomatch h
  | 0, _ :: _, h => nomatch h
  | _ + 1, [], h => nomatch h
  | n + 1, v :: rest, h => by
    rcases mem_cons.mp h with rfl | h
    · exact ⟨v, mem_cons_self, rfl⟩
    · obtain ⟨v', hv', rfl⟩ := mem_redactItems h
      exact ⟨v', mem_cons_of_mem v hv', rfl⟩

/-- **Redaction keeps values**: it renames no key and makes no number. -/
theorem isValue_redactArgs {v : Json} (hv : v.IsValue) (depth : Nat) :
    (redactArgs redaction depth v).IsValue := by
  induction v using Json.ind generalizing depth with
  | hnull => unfold redactArgs; split <;> trivial
  | hbool => unfold redactArgs; split <;> trivial
  | hnum =>
    unfold redactArgs
    split
    · trivial
    · exact hv
  | hstr => unfold redactArgs; split <;> trivial
  | harr items ih =>
    have hitems := (Json.isValueItems_iff items).mp hv
    unfold redactArgs
    split
    · trivial
    · refine (Json.isValueItems_iff _).mpr fun w hw => ?_
      obtain ⟨v, hv, rfl⟩ := mem_redactItems redaction hw
      exact ih v hv (hitems v hv) _
  | hobj fields ih =>
    obtain ⟨hnodup, hfields⟩ := hv
    have hfields := (Json.isValueFields_iff fields).mp hfields
    unfold redactArgs
    split
    · trivial
    · have hperm := Json.enumerated_perm (redactFields redaction depth fields)
      refine ⟨?_, (Json.isValueFields_iff _).mpr fun f hf => ?_⟩
      · refine List.Nodup.sublist (List.Sublist.map Prod.fst filter_sublist) ?_
        refine (hperm.map Prod.fst).nodup_iff.mpr ?_
        rw [redactFields_eq, map_map]
        exact hnodup
      · have hmem := hperm.mem_iff.mp (mem_of_mem_filter hf)
        rw [redactFields_eq] at hmem
        obtain ⟨g, hg, rfl⟩ := mem_map.mp hmem
        dsimp only
        split
        · trivial
        · exact ih g hg (hfields g hg) _

/-! ## Entries -/

/-- A record as it is appended. -/
structure Entry where
  seq : Nat
  prevHash : String
  event : AuditEvent
  inRange : seq < maxArrayLength

variable (hmac : String → String)

namespace Entry

variable (e : Entry)

/-- The record without its hash. -/
def base : Json := .obj (baseRecord redaction e.seq e.prevHash e.event)

/-- The hash of the record. -/
def hash : String := hmac (e.prevHash ++ canonicalize (e.base redaction))

/-- The record. -/
def json : Json := withHash (baseRecord redaction e.seq e.prevHash e.event) (e.hash redaction hmac)

/-- The line of the record. -/
def line : List Char := (e.json redaction hmac).chars

/-- What is read back from the line. -/
def stored : Json := (e.json redaction hmac).plain.arranged

theorem keys_base : (baseRecord redaction e.seq e.prevHash e.event).map Prod.fst =
    ["v", "seq", "ts", "actor", "action", "decision", "prevHash"] ++
      (if e.event.input.role.isSome then ["role"] else []) ++
      (if e.event.input.resource.isSome then ["resource"] else []) ++
      (if e.event.input.sessionId.isSome then ["sessionId"] else []) ++
      (if e.event.input.details.isSome then ["details"] else []) := by
  obtain ⟨seq, prevHash, ⟨⟨actor, action, role, resource, decision, details, sessionId, ts⟩, _, _⟩, _⟩ := e
  cases role <;> cases resource <;> cases sessionId <;> cases details <;> rfl

theorem nodup_keys : ((baseRecord redaction e.seq e.prevHash e.event ++
    [("hash", Json.str (e.hash redaction hmac))]).map Prod.fst).Nodup := by
  rw [map_append, keys_base]
  show (_ ++ ["hash"]).Nodup
  cases e.event.input.role.isSome <;> cases e.event.input.resource.isSome <;>
    cases e.event.input.sessionId.isSome <;> cases e.event.input.details.isSome <;> decide

/-- **A record is a value**, whatever the event holds. -/
theorem isValue_json : (e.json redaction hmac).IsValue := by
  refine ⟨e.nodup_keys redaction hmac, (Json.isValueFields_iff _).mpr fun f hf => ?_⟩
  have hdouble : JsNumber.IsDouble (e.seq : ℚ) := by
    have hrange : e.seq < maxArrayLength := e.inRange
    refine JsNumber.isDouble_natCast ?_
    unfold maxArrayLength at hrange
    omega
  have htwo : JsNumber.IsDouble 2 := JsNumber.isDouble_natCast (n := 2) (by decide)
  obtain ⟨hdetails, hts⟩ := e.event.isValue
  have hoption : ∀ (key : String) (value : Option String),
      f ∈ (value.map fun text => (key, Json.str (redaction.redactSecrets text))).toList →
        f.2.IsValue := by
    intro key value hmem
    cases value with
    | none => nomatch hmem
    | some text =>
      rw [mem_singleton.mp hmem]
      trivial
  simp only [baseRecord, mem_append, or_assoc] at hf
  rcases hf with hf | hf | hf | hf | hf | hf
  · simp only [mem_cons, not_mem_nil, or_false] at hf
    rcases hf with rfl | rfl | rfl | rfl | rfl | rfl | rfl
    · exact htwo
    · exact hdouble
    · exact hts
    all_goals trivial
  · exact hoption _ _ hf
  · exact hoption _ _ hf
  · exact hoption _ _ hf
  · cases h : e.event.input.details with
    | none =>
      rw [h] at hf
      nomatch hf
    | some fields =>
      rw [h] at hf
      rw [mem_singleton.mp hf]
      exact isValue_redactArgs redaction (hdetails fields h) 0
  · rw [mem_singleton.mp hf]
    trivial

/-! ## Its properties -/

theorem get?_json {k : String} {v : Json} : (e.json redaction hmac).get? k = some v ↔
    (k, v) ∈ baseRecord redaction e.seq e.prevHash e.event ++
      [("hash", Json.str (e.hash redaction hmac))] :=
  Json.field?_eq_some (e.nodup_keys redaction hmac)

theorem get?_stored (k : String) : (e.stored redaction hmac).get? k =
    (((e.json redaction hmac).get? k).map Json.plain).map Json.arranged := by
  rw [stored, Json.get?_arranged (Json.isValue_plain (e.isValue_json redaction hmac)),
    Json.get?_plain]

theorem stored_seq :
    (e.stored redaction hmac).get? "seq" = some (.num (.fin e.seq)) := by
  rw [get?_stored, (e.get?_json redaction hmac).mpr
    (mem_append_left _ (by simp [baseRecord]) : ("seq", Json.num (.fin e.seq)) ∈ _)]
  rfl

theorem stored_prevHash :
    (e.stored redaction hmac).get? "prevHash" = some (.str e.prevHash) := by
  rw [get?_stored, (e.get?_json redaction hmac).mpr
    (mem_append_left _ (by simp [baseRecord]) : ("prevHash", Json.str e.prevHash) ∈ _)]
  rfl

theorem stored_hash :
    (e.stored redaction hmac).get? "hash" = some (.str (e.hash redaction hmac)) := by
  rw [get?_stored, (e.get?_json redaction hmac).mpr
    (mem_append_right _ (mem_singleton.mpr rfl))]
  rfl

theorem stored_obj : ∃ fields, e.stored redaction hmac = .obj fields := ⟨_, rfl⟩

/-! ## Its line -/

theorem keys_named : ∀ k ∈ (baseRecord redaction e.seq e.prevHash e.event ++
    [("hash", Json.str (e.hash redaction hmac))]).map Prod.fst, Json.arrayIndex? k = none := by
  intro k hk
  rw [map_append, keys_base] at hk
  change k ∈ _ ++ ["hash"] at hk
  have hall : ∀ k ∈ ["v", "seq", "ts", "actor", "action", "decision", "prevHash", "role",
      "resource", "sessionId", "details", "hash"], Json.arrayIndex? k = none := by decide
  refine hall k ?_
  revert hk
  cases e.event.input.role.isSome <;> cases e.event.input.resource.isSome <;>
    cases e.event.input.sessionId.isSome <;> cases e.event.input.details.isSome <;>
    simp +contextual [or_imp]

theorem line_close : ∃ front, e.line redaction hmac = '{' :: (front ++ ['}']) :=
  ⟨_, Json.chars_obj _⟩

theorem line_open : ∃ inner, e.line redaction hmac = '{' :: '"' :: 'v' :: inner := by
  have hline : e.line redaction hmac = _ := Json.chars_obj _
  rw [Json.enumerate_named (e.keys_named redaction hmac)] at hline
  obtain ⟨rest, hrest⟩ : ∃ rest, baseRecord redaction e.seq e.prevHash e.event ++
      [("hash", Json.str (e.hash redaction hmac))] = ("v", .num 2) :: rest := ⟨_, rfl⟩
  rw [hrest, List.map_cons] at hline
  obtain ⟨more, hmore⟩ := Json.commaList_cons (Json.memberChars ("v", .num 2))
    (rest.map Json.memberChars)
  rw [hmore] at hline
  obtain ⟨value, hvalue⟩ : ∃ value, Json.memberChars ("v", .num 2) = '"' :: 'v' :: value :=
    ⟨_, rfl⟩
  rw [hvalue] at hline
  exact ⟨_, hline⟩

theorem newline_notMem_line : '\n' ∉ e.line redaction hmac := Json.newline_notMem_chars _

theorem trim_line : JsString.trimList (e.line redaction hmac) = e.line redaction hmac := by
  obtain ⟨front, hline⟩ := e.line_close redaction hmac
  rw [hline]
  exact JsString.trimList_between (by decide) (by decide) front

/-- **A line reads back.** -/
theorem parse_line : Json.parse (String.ofList (e.line redaction hmac)) =
    some (e.stored redaction hmac) :=
  Json.parse_stringify_plain (e.isValue_json redaction hmac)

theorem readsAs_line :
    Json.ReadsAs .value (e.line redaction hmac) (e.stored redaction hmac) [] := by
  have hread := Json.readable_plain (e.isValue_json redaction hmac)
  have hvalue := Json.value_chars hread _ [] le_rfl (fun _ => nofun)
  rw [Json.chars_plain, append_nil] at hvalue
  exact Json.readsAs_of_value hvalue

end Entry

/-! ## Unreadable lines -/

/-- The line is reported as malformed. -/
def Unreadable (line : List Char) : Prop :=
  JsString.trimList line ≠ [] ∧ Json.parse (String.ofList (JsString.trimList line)) = none

namespace Entry

variable (e : Entry)

/-- **A line that was cut off is unreadable.** -/
theorem torn {kept lost : List Char} (h : kept ++ lost = e.line redaction hmac) (hkept : kept ≠ [])
    (hlost : lost ≠ []) : Unreadable kept := by
  obtain ⟨inner, hline⟩ := e.line_open redaction hmac
  obtain ⟨c, cs, rfl⟩ := exists_cons_of_ne_nil hkept
  obtain rfl : c = '{' := by
    rw [hline] at h
    exact (cons.inj h).1
  obtain ⟨part, htrim, ⟨rest, hrest⟩⟩ := JsString.trimList_cons (c := '{') (by decide) cs
  refine ⟨by rw [htrim]; exact cons_ne_nil _ _, ?_⟩
  have hreads := e.readsAs_line redaction hmac
  rw [← h, ← hrest, append_assoc] at hreads
  rw [htrim]
  refine Json.torn_unreadable hreads rfl fun hnil => hlost ?_
  exact (append_eq_nil_iff.mp hnil).2

/-- **So is a line with another one written behind what was left of it.** -/
theorem overwritten (next : Entry) {kept lost : List Char}
    (h : kept ++ lost = e.line redaction hmac) (hkept : kept ≠ []) :
    Unreadable (kept ++ next.line redaction hmac) := by
  obtain ⟨inner, hline⟩ := e.line_open redaction hmac
  obtain ⟨inner', hnext⟩ := next.line_open redaction hmac
  obtain ⟨front, hend⟩ := next.line_close redaction hmac
  obtain ⟨c, cs, rfl⟩ := exists_cons_of_ne_nil hkept
  obtain rfl : c = '{' := by
    rw [hline] at h
    exact (cons.inj h).1
  have htrim : JsString.trimList ('{' :: cs ++ next.line redaction hmac) =
      '{' :: cs ++ next.line redaction hmac := by
    have hbetween := JsString.trimList_between (c := '{') (d := '}') (by decide) (by decide)
      (cs ++ '{' :: front)
    rw [hend]
    rw [append_assoc] at hbetween
    exact hbetween
  unfold Unreadable
  rw [htrim]
  refine ⟨cons_ne_nil _ _, ?_⟩
  by_cases hlost : lost = []
  · -- the whole record is there and only the line feed is missing
    rw [hlost, append_nil] at h
    rw [h, hnext]
    exact Json.followed_unreadable (e.isValue_json redaction hmac) (by decide)
      (fun c hc => by
        obtain rfl := Option.some.inj hc
        decide)
  · have hreads := e.readsAs_line redaction hmac
    rw [← h] at hreads
    have hwhole := next.readsAs_line redaction hmac
    rw [hnext] at hwhole ⊢
    exact Json.torn_followed_unreadable hreads rfl hlost hwhole

end Entry

/-! ## Appending -/

variable {redaction hmac}

/-- A log with a head hash builds the record of an entry, as long as there is room in the array. -/
theorem record_linked {log : AuditLog} {prev : String} (h : log.headHash = some (.str prev))
    (hroom : log.records.length < maxArrayLength) (event : AuditEvent) :
    ∃ e : Entry, e.seq = log.records.length ∧ e.prevHash = prev ∧
      log.record hmac redaction event = some (e.json redaction hmac, e.hash redaction hmac) := by
  refine ⟨⟨log.records.length, prev, event, hroom⟩, rfl, rfl, ?_⟩
  unfold AuditLog.record
  rw [h]
  rfl

/-- **What a log commits** is an entry at the end of its records. -/
theorem exists_entry {log : AuditLog} {event : AuditEvent} {record : Json} {hash : String}
    (h : log.record hmac redaction event = some (record, hash))
    (hrange : log.records.length < maxArrayLength) :
    ∃ e : Entry, e.seq = log.records.length ∧ log.headHash = some (.str e.prevHash) ∧
      e.event = event ∧ record = e.json redaction hmac ∧ hash = e.hash redaction hmac := by
  unfold AuditLog.record at h
  split at h
  · rename_i prevHash hhead
    let e : Entry := ⟨log.records.length, prevHash, event, hrange⟩
    have hrecord : some (e.json redaction hmac, e.hash redaction hmac) = some (record, hash) := h
    obtain ⟨rfl, rfl⟩ := Prod.mk.inj (Option.some.inj hrecord)
    exact ⟨e, rfl, hhead, rfl, rfl, rfl⟩
  · nomatch h

end NexusCode.Audit
