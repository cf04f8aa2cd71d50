import Lucha.Combat.Log
import Mathlib.Data.List.Infix

/-!
# The records of a log

A log keeps entries, and its records are these with their places for numbers. So the numbers count
from zero, a log that goes on like another begins with the same records, and what is asked about the
event of a record can be asked about the entry.
-/

namespace Lucha.Combat

/-- The entry with a number. -/
def Entry.record (id : Nat) (entry : Entry) : Record :=
  ⟨id, entry.round, entry.event⟩

/-- An event whose turn, if it is the start of one, starts in a round. -/
def Event.inRound (round : Nat) : Event → Event
  | .deed actor (.startTurn _) => .deed actor (.startTurn round)
  | event => event

namespace Log

variable {log log' : Log}

/-- Events recorded at the end of a log. -/
theorem toList_extend (log : Log) (round : Nat) (events : List Event) :
    (log.extend round events).entries.toList = log.entries.toList ++ events.map (⟨round, ·⟩) := by
  rw [extend]
  induction events generalizing log with
  | nil => simp
  | cons event events ih =>
    rw [List.foldl_cons, ih]
    simp [push]

/-- The records are the entries with their numbers. -/
theorem records_eq (log : Log) : log.records = log.entries.toList.mapIdx Entry.record := rfl

/-- The numbers of the records count from zero. -/
theorem map_id_records (log : Log) : log.records.map Record.id = List.range log.size := by
  rw [records_eq, size]
  refine List.ext_getElem (by simp) fun id hid hid' => ?_
  simp [Entry.record]

/-- The records tell the events of the log. -/
theorem map_event_records (log : Log) : log.records.map Record.event = log.events := by
  rw [records_eq, events]
  refine List.ext_getElem (by simp) fun id hid hid' => ?_
  simp [Entry.record]

/-- What holds of the events of all entries holds of those of all records. -/
theorem forall_mem_records {P : Event → Prop} :
    (∀ r ∈ log.records, P r.event) ↔ ∀ entry ∈ log.entries.toList, P entry.event := by
  rw [records_eq]
  constructor
  · intro h entry hentry
    obtain ⟨id, hid, rfl⟩ := List.mem_iff_getElem.mp hentry
    exact h _ (List.mem_mapIdx.mpr ⟨id, hid, rfl⟩)
  · intro h r hr
    obtain ⟨id, hid, rfl⟩ := List.mem_mapIdx.mp hr
    exact h _ (List.getElem_mem hid)

/-- Logs with the same entries are the same. -/
theorem ext_toList (h : log.entries.toList = log'.entries.toList) : log = log' := by
  cases log
  cases log'
  exact congrArg mk (Array.toList_inj.mp h)

/-- The last record has the number of records before it. -/
theorem records_of_concat {entries : List Entry} {entry : Entry}
    (h : log.entries.toList = entries ++ [entry]) :
    log.records = entries.mapIdx Entry.record ++ [entry.record (log.size - 1)] := by
  have hsize : log.size - 1 = entries.length := by
    rw [size, ← Array.length_toList, h]
    simp
  rw [records_eq, h, List.mapIdx_concat, hsize]

/-- A log that goes on like another one begins with its records. -/
theorem prefix_mapIdx_record {entries : List Entry} (h : entries <+: log.entries.toList) :
    entries.mapIdx Entry.record <+: log.records := by
  obtain ⟨more, hmore⟩ := h
  rw [records_eq, ← hmore, List.mapIdx_append]
  exact List.prefix_append _ _

/-- The records that are kept, where the entries that are kept come first. -/
theorem filter_records {kept dropped : List Entry} {p : Record → Bool}
    (hlog : log.entries.toList = kept ++ dropped)
    (hkept : ∀ entry ∈ kept, ∀ id, p (entry.record id) = true)
    (hdropped : ∀ entry ∈ dropped, ∀ id, p (entry.record id) = false) :
    log.records.filter p = kept.mapIdx Entry.record := by
  rw [records_eq, hlog, List.mapIdx_append, List.filter_append, List.filter_eq_self.mpr,
    List.filter_eq_nil_iff.mpr, List.append_nil]
  · intro r hr
    obtain ⟨id, hid, rfl⟩ := List.mem_mapIdx.mp hr
    rw [hdropped _ (List.getElem_mem hid)]
    exact Bool.false_ne_true
  · intro r hr
    obtain ⟨id, hid, rfl⟩ := List.mem_mapIdx.mp hr
    exact hkept _ (List.getElem_mem hid) id

/-- Numbering items does not change where a test of the items first fails. -/
private theorem takeWhile_mapIdx {α β : Type} {p : β → Bool} {q : α → Bool} {f : Nat → α → β}
    (h : ∀ i a, p (f i a) = q a) (items : List α) :
    (items.mapIdx f).takeWhile p = (items.takeWhile q).mapIdx f := by
  induction items generalizing f with
  | nil => rfl
  | cons a items ih =>
    rw [List.mapIdx_cons, List.takeWhile_cons, List.takeWhile_cons, h, ih fun i => h (i + 1)]
    split
    · rw [List.mapIdx_cons]
    · rfl

/-- The records before the first one whose event is of some kind. -/
theorem takeWhile_records (p : Event → Bool) (log : Log) :
    log.records.takeWhile (fun r => p r.event)
      = (log.entries.toList.takeWhile fun entry => p entry.event).mapIdx Entry.record :=
  takeWhile_mapIdx (f := Entry.record) (fun _ _ => rfl) log.entries.toList

end Log

end Lucha.Combat
