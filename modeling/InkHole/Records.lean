import InkHole.Json

/-! Records in JSON texts: an object that names its fields, or an array that gives them in their order.
What is written of a record is read back field by field. -/

namespace Json

variable [Floats] {α : Type}

/-- The fields of a record. An array may leave off some of the last ones. -/
def Value.record (names : List String) : Value → Option (List (String × Value))
  | .object fields => some fields
  | .array items => if items.length ≤ names.length then some (names.zip items) else none
  | _ => none

/-- What is given under a name. A name that is given twice is refused. -/
def given (fields : List (String × Value)) (name : String) : Option (Option Value) :=
  match fields.filter (·.1 == name) with
  | [] => some none
  | [field] => some (some field.2)
  | _ => none

def required (read : Value → Option α) (name : String) (fields : List (String × Value)) : Option α :=
  match given fields name with
  | some (some value) => read value
  | _ => none

def defaulted (default : α) (read : Value → Option α) (name : String) (fields : List (String × Value)) : Option α :=
  match given fields name with
  | some (some value) => read value
  | some none => some default
  | none => none

def Value.toBool : Value → Option Bool
  | .bool b => some b
  | _ => none

def Value.toText : Value → Option String
  | .string s => some s
  | _ => none

/-- An unsigned integer that is at most `max`. -/
def Value.toUnsigned (max : Nat) : Value → Option Nat
  | .number (.posInt n) => if n ≤ max then some n else none
  | _ => none

def Value.toItems (read : Value → Option α) : Value → Option (List α)
  | .array items => items.mapM read
  | _ => none

/-- The name of a variant without fields, which may also stand as the one key of an object. -/
def Value.toVariant : Value → Option String
  | .string s => some s
  | .object [(name, .null)] => some name
  | _ => none

/-- The fields of a record that are written, with those that are skipped. -/
def written (named : List (String × Option Value)) : List (String × Value) :=
  named.filterMap fun field => field.2.map fun value => (field.1, value)

theorem written_cons_some (name : String) (value : Value) (named : List (String × Option Value)) :
    written ((name, some value) :: named) = (name, value) :: written named := rfl

theorem written_cons_none (name : String) (named : List (String × Option Value)) :
    written ((name, none) :: named) = written named := rfl

theorem mem_names {named : List (String × Option Value)} {field : String × Value} (h : field ∈ written named) :
    field.1 ∈ named.map Prod.fst := by
  obtain ⟨source, hsource, hfield⟩ := List.mem_filterMap.mp h
  obtain ⟨value, -, rfl⟩ := Option.map_eq_some_iff.mp hfield
  exact List.mem_map_of_mem hsource

theorem filter_written_absent {named : List (String × Option Value)} {name : String}
    (h : name ∉ named.map Prod.fst) : (written named).filter (·.1 == name) = [] := by
  apply List.filter_eq_nil_iff.mpr
  intro field hfield hname
  have hsame : field.1 = name := by simpa using hname
  exact h (hsame ▸ mem_names hfield)

theorem filter_written {named : List (String × Option Value)} {name : String} {value : Option Value}
    (hn : (named.map Prod.fst).Nodup) (h : (name, value) ∈ named) :
    (written named).filter (·.1 == name) = (value.map fun v => (name, v)).toList := by
  induction named with
  | nil => cases h
  | cons field named ih =>
    obtain ⟨first, held⟩ := field
    obtain ⟨hfirst, hrest⟩ := List.nodup_cons.mp hn
    rcases List.mem_cons.mp h with heq | hmem
    · obtain ⟨rfl, rfl⟩ := Prod.mk.inj heq
      have hnone := filter_written_absent hfirst
      cases value with
      | none => rw [written_cons_none, hnone]; rfl
      | some v => rw [written_cons_some, List.filter_cons_of_pos (by simp), hnone]; rfl
    · have hne : first ≠ name := by
        intro hsame
        have hname := List.mem_map_of_mem (f := Prod.fst) hmem
        exact hfirst (hsame ▸ hname)
      cases held with
      | none => rw [written_cons_none]; exact ih hrest hmem
      | some v =>
        rw [written_cons_some, List.filter_cons_of_neg (by simpa using hne)]
        exact ih hrest hmem

theorem given_written {named : List (String × Option Value)} {name : String} {value : Option Value}
    (hn : (named.map Prod.fst).Nodup) (h : (name, value) ∈ named) : given (written named) name = some value := by
  rw [given, filter_written hn h]
  cases value with
  | none => rfl
  | some v => rfl

theorem required_written {read : Value → Option α} {named : List (String × Option Value)} {name : String}
    {value : Value} (hn : (named.map Prod.fst).Nodup) (h : (name, some value) ∈ named) :
    required read name (written named) = read value := by
  rw [required, given_written hn h]

/-- A field is skipped where it holds its default. -/
theorem defaulted_written {read : Value → Option α} {default a : α} {named : List (String × Option Value)}
    {name : String} {value : Option Value} (hn : (named.map Prod.fst).Nodup) (h : (name, value) ∈ named)
    (hnone : value = none → a = default) (hsome : ∀ v, value = some v → read v = some a) :
    defaulted default read name (written named) = some a := by
  rw [defaulted, given_written hn h]
  cases value with
  | none => exact congrArg some (hnone rfl).symm
  | some v => exact hsome v rfl

theorem toItems_array {read : Value → Option α} {write : α → Value} {items : List α}
    (h : ∀ a ∈ items, read (write a) = some a) : (Value.array (items.map write)).toItems read = some items := by
  rw [Value.toItems]
  induction items with
  | nil => rfl
  | cons a items ih =>
    obtain ⟨hfirst, hrest⟩ := List.forall_mem_cons.mp h
    rw [List.map_cons, List.mapM_cons, hfirst, ih hrest]
    rfl

theorem toUnsigned_posInt {max n : Nat} (h : n ≤ max) :
    (Value.number (.posInt n)).toUnsigned max = some n := if_pos h

end Json
