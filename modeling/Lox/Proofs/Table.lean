import Lox.Table

/-! What a table holds after an entry has been added. -/

namespace Lox.Table

variable {α : Type}

/-- Nothing is found in the empty table. -/
theorem get?_empty (name : String) : (empty : Table α).get? name = none :=
  rfl

/-- An inserted entry is found under its name, and the others as before. -/
theorem lookup_insertEntry (entries : List (String × α)) (name other : String) (value : α)
    : (insertEntry name value entries).lookup other
        = if other = name then some value else entries.lookup other := by
  induction entries with
  | nil =>
      by_cases same : other = name
      · simp [insertEntry, same]
      · have differs : (other == name) = false := beq_eq_false_iff_ne.2 same
        simp [insertEntry, List.lookup_cons, same, differs]
  | cons entry rest ih =>
      obtain ⟨found, old⟩ := entry
      by_cases same : other = found
      · subst same
        by_cases here : other = name <;> simp [insertEntry, here]
      · have differs : (other == found) = false := beq_eq_false_iff_ne.2 same
        by_cases here : found = name
        · subst here
          simp [insertEntry, List.lookup_cons, same, differs]
        · simp [insertEntry, List.lookup_cons, here, differs, ih]

/-- An inserted value is found under its name, and the others as before. -/
theorem get?_insert (table : Table α) (name other : String) (value : α)
    : (table.insert name value).get? other
        = if other = name then some value else table.get? other :=
  lookup_insertEntry table.entries name other value

/-- An inserted value is found under its name. -/
theorem get?_insert_self (table : Table α) (name : String) (value : α)
    : (table.insert name value).get? name = some value := by
  rw [get?_insert, if_pos rfl]

/-- Another name finds what it found before. -/
theorem get?_insert_of_ne (table : Table α) {name other : String} (value : α)
    (apart : other ≠ name)
    : (table.insert name value).get? other = table.get? other := by
  rw [get?_insert, if_neg apart]

/-- A value inserted if its name is new is found only where nothing was. -/
theorem get?_insertIfNew (table : Table α) (name other : String) (value : α)
    : (table.insertIfNew name value).get? other
        = if other = name ∧ table.get? name = none then some value else table.get? other := by
  unfold insertIfNew contains
  cases found : table.get? name with
  | none => simp [get?_insert]
  | some old => simp

/-- Another name finds what it found before, whether the name was new or not. -/
theorem get?_insertIfNew_of_ne (table : Table α) {name other : String} (value : α)
    (apart : other ≠ name)
    : (table.insertIfNew name value).get? other = table.get? other := by
  unfold insertIfNew
  split
  · rfl
  · exact get?_insert_of_ne table value apart

/-- An entry of the table with one more is that one or was there. -/
theorem mem_insertEntry {name : String} {value : α} {entry : String × α}
    {entries : List (String × α)} (member : entry ∈ insertEntry name value entries)
    : entry = (name, value) ∨ entry ∈ entries := by
  induction entries with
  | nil => exact .inl (List.mem_singleton.1 member)
  | cons first rest ih =>
      obtain ⟨other, old⟩ := first
      unfold insertEntry at member
      split at member
      · next same =>
          rcases List.mem_cons.1 member with rfl | later
          · exact .inl (by rw [same])
          · exact .inr (List.mem_cons_of_mem _ later)
      · rcases List.mem_cons.1 member with rfl | later
        · exact .inr List.mem_cons_self
        · exact (ih later).imp_right (List.mem_cons_of_mem _)

/-- The later value counts. -/
theorem insert_insert (table : Table α) (name : String) (value value' : α)
    : (table.insert name value).insert name value' = table.insert name value' := by
  obtain ⟨entries⟩ := table
  refine congrArg Table.mk ?_
  change insertEntry name value' (insertEntry name value entries) = insertEntry name value' entries
  induction entries with
  | nil => simp [insertEntry]
  | cons entry rest ih =>
      by_cases here : entry.1 = name
      · simp [insertEntry, here]
      · simp [insertEntry, here, ih]

/-- Inserting over a name that was inserted just before is inserting once. -/
theorem insert_insertIfNew (table : Table α) (name : String) (value value' : α)
    : (table.insertIfNew name value).insert name value' = table.insert name value' := by
  unfold insertIfNew
  split
  · rfl
  · exact table.insert_insert name value value'

/-- A name is in the table with one more if it is that one or was there. -/
theorem contains_insert {table : Table α} {name other : String} {value : α}
    : (table.insert name value).contains other = true
        ↔ other = name ∨ table.contains other = true := by
  unfold contains
  rw [get?_insert]
  by_cases same : other = name <;> simp [same]

/-- A name inserted if it is new is in the table either way. -/
theorem contains_insertIfNew {table : Table α} {name other : String} {value : α}
    : (table.insertIfNew name value).contains other = true
        ↔ other = name ∨ table.contains other = true := by
  unfold insertIfNew
  split
  · next present =>
      refine ⟨.inr, fun either => ?_⟩
      rcases either with rfl | found
      · exact present
      · exact found
  · exact contains_insert

/-- An erased name finds nothing, and the others find what they found. -/
theorem get?_erase (table : Table α) (name other : String)
    : (table.erase name).get? other = if other = name then none else table.get? other := by
  obtain ⟨entries⟩ := table
  change (entries.filter fun entry => entry.1 != name).lookup other
    = if other = name then none else entries.lookup other
  induction entries with
  | nil => simp
  | cons entry rest ih =>
      obtain ⟨found, value⟩ := entry
      by_cases here : found = name
      · subst here
        rw [List.filter_cons_of_neg (by simp), ih, List.lookup_cons]
        by_cases same : other = found
        · simp [same]
        · simp [same, beq_eq_false_iff_ne.2 same]
      · rw [List.filter_cons_of_pos (by simp [here]), List.lookup_cons, List.lookup_cons, ih]
        by_cases same : other = found
        · subst same
          simp [here]
        · simp [beq_eq_false_iff_ne.2 same]

/-- The names of a table are those that have a value. -/
theorem mem_names {table : Table α} {name : String}
    : name ∈ table.names ↔ (table.get? name).isSome = true := by
  obtain ⟨entries⟩ := table
  change name ∈ entries.map (·.1) ↔ (entries.lookup name).isSome = true
  induction entries with
  | nil => simp
  | cons entry rest ih =>
      obtain ⟨other, value⟩ := entry
      by_cases same : name = other
      · simp [same]
      · have differs : (name == other) = false := beq_eq_false_iff_ne.2 same
        simp only [List.map_cons, List.mem_cons, same, false_or, ih, List.lookup_cons, differs]

/-- Marking names one after another marks these and no others. -/
theorem get?_marked (names : List String) (table : Table Bool) (name : String)
    : (names.foldl (fun table name => table.insert name true) table).get? name
        = if name ∈ names then some true else table.get? name := by
  induction names generalizing table with
  | nil => simp
  | cons first rest ih =>
      rw [List.foldl_cons, ih, get?_insert]
      by_cases same : name = first <;> simp [same]

-----
-- Tables in which a name stands once

/-- No name stands twice. -/
def Distinct (table : Table α) : Prop :=
  table.names.Nodup

/-- No name stands twice in the empty table. -/
theorem distinct_empty : (empty : Table α).Distinct :=
  List.nodup_nil

/-- No name stands twice behind erasing one. -/
theorem Distinct.erase {table : Table α} (distinct : table.Distinct) (name : String)
    : (table.erase name).Distinct :=
  distinct.sublist (List.filter_sublist.map _)

/-- The names behind an insertion are the new one and those before. -/
theorem mem_names_insertEntry {name other : String} {value : α} {entries : List (String × α)}
    : other ∈ (insertEntry name value entries).map (·.1)
        ↔ other = name ∨ other ∈ entries.map (·.1) := by
  induction entries with
  | nil => simp [insertEntry]
  | cons entry rest ih =>
      unfold insertEntry
      by_cases here : entry.1 = name
      · simp [here]
      · simp only [here, if_false, List.map_cons, List.mem_cons, ih]
        exact or_left_comm

/-- Where a name is added does not depend on the values. -/
theorem names_insert_congr {table table' : Table α} (same : table'.names = table.names)
    (name : String) (value value' : α)
    : (table'.insert name value').names = (table.insert name value).names := by
  obtain ⟨entries⟩ := table
  obtain ⟨entries'⟩ := table'
  change entries'.map (·.1) = entries.map (·.1) at same
  change (insertEntry name value' entries').map (·.1) = (insertEntry name value entries).map (·.1)
  induction entries generalizing entries' with
  | nil => rw [List.map_eq_nil_iff.1 same]; rfl
  | cons entry rest ih =>
      obtain ⟨entry', rest', rfl, here, sameRest⟩ := List.map_eq_cons_iff.1 same
      have here : entry'.1 = entry.1 := here
      unfold insertEntry
      rw [here]
      split
      · simp only [List.map_cons, sameRest]
      · simp only [List.map_cons, ih rest' sameRest]

/-- No name stands twice behind inserting one, since the entry is replaced. -/
theorem Distinct.insert {table : Table α} (distinct : table.Distinct) (name : String) (value : α)
    : (table.insert name value).Distinct := by
  obtain ⟨entries⟩ := table
  change ((insertEntry name value entries).map (·.1)).Nodup
  change (entries.map (·.1)).Nodup at distinct
  induction entries with
  | nil => simp [insertEntry]
  | cons entry rest ih =>
      obtain ⟨new, others⟩ := List.nodup_cons.1 distinct
      unfold insertEntry
      by_cases here : entry.1 = name
      · simp only [here, if_true, List.map_cons]
        exact List.nodup_cons.2 ⟨here ▸ new, others⟩
      · simp only [here, if_false, List.map_cons]
        refine List.nodup_cons.2 ⟨fun member => ?_, ih others⟩
        rcases mem_names_insertEntry.1 member with same | member
        · exact here same
        · exact new member

/-- Where names stand once, the entries are what is found under their names. -/
theorem Distinct.get?_of_mem {table : Table α} (distinct : table.Distinct) {name : String}
    {value : α} (member : (name, value) ∈ table.entries)
    : table.get? name = some value := by
  obtain ⟨entries⟩ := table
  change (entries.map (·.1)).Nodup at distinct
  change entries.lookup name = some value
  induction entries with
  | nil => cases member
  | cons entry rest ih =>
      obtain ⟨new, others⟩ := List.nodup_cons.1 distinct
      rcases List.mem_cons.1 member with rfl | member
      · simp
      · have apart : name ≠ entry.1 := fun same =>
          new (List.mem_map.2 ⟨(name, value), member, same⟩)
        rw [List.lookup_cons, beq_eq_false_iff_ne.2 apart]
        exact ih member others

/-- A table in which nothing is found has no entries. -/
theorem entries_of_get?_none {table : Table α} (none : ∀ name, table.get? name = none)
    : table.entries = [] := by
  obtain ⟨entries⟩ := table
  cases entries with
  | nil => rfl
  | cons entry rest =>
      have found := none entry.1
      simp [get?] at found

end Lox.Table
