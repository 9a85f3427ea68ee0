import Mathlib.Data.List.Nodup

/-!
# Insertion-ordered dictionaries

A dictionary keeps its keys in the order in which they were first stored: storing
under a present key replaces the value in place, storing under a new key appends
an entry, and removing an entry closes the gap. No key occurs twice; this is a
field of the structure, so an entry list that violates it cannot be built.

The order is observable in this development (a dictionary is serialised in it),
which is why Mathlib's association lists, whose insertion moves an entry to the
front, are not used.
-/

namespace QChat

variable {κ ν : Type}

/-- Entries in insertion order, one for each key. A key that is assigned again keeps its place,
so the order of a dictionary is part of what it is and shows in what is written and sent. -/
@[ext] structure Dict (κ ν : Type) where
  entries : List (κ × ν)
  distinct : (entries.map Prod.fst).Nodup

namespace Dict

section Entries

variable [DecidableEq κ]

/-- The value stored under a key in an entry list. -/
def lookup (key : κ) : List (κ × ν) → Option ν
  | [] => none
  | (other, value) :: rest => if other = key then some value else lookup key rest

/-- Replace the value of a present key in place; append a new entry otherwise. -/
def assign (key : κ) (value : ν) : List (κ × ν) → List (κ × ν)
  | [] => [(key, value)]
  | (other, old) :: rest =>
      if other = key then (other, value) :: rest else (other, old) :: assign key value rest

/-- Drop the entry of a key, keeping the order of the others. -/
def remove (key : κ) : List (κ × ν) → List (κ × ν)
  | [] => []
  | (other, value) :: rest =>
      if other = key then rest else (other, value) :: remove key rest

/-- Nothing is found under exactly the keys that are not listed. -/
theorem lookup_none (key : κ) (entries : List (κ × ν)) :
    lookup key entries = none ↔ key ∉ entries.map Prod.fst := by
  induction entries with
  | nil => simp [lookup]
  | cons entry rest inductionHypothesis =>
    obtain ⟨other, value⟩ := entry
    by_cases same : other = key
    · simp [lookup, same]
    · simp [lookup, same, Ne.symm same, inductionHypothesis]

/-- With distinct keys, a key's value is the one it is listed with. -/
theorem lookup_some (key : κ) (value : ν) (entries : List (κ × ν))
    (distinct : (entries.map Prod.fst).Nodup) :
    lookup key entries = some value ↔ (key, value) ∈ entries := by
  induction entries with
  | nil => simp [lookup]
  | cons entry rest inductionHypothesis =>
    obtain ⟨other, old⟩ := entry
    obtain ⟨absent, restDistinct⟩ := List.nodup_cons.mp distinct
    by_cases same : other = key
    · subst same
      have elsewhere : (other, value) ∉ rest := fun member =>
        absent (List.mem_map.mpr ⟨_, member, rfl⟩)
      simp [lookup, elsewhere, eq_comm]
    · simp [lookup, same, Ne.symm same, inductionHypothesis restDistinct]

/-- A key keeps its place, and a new one comes last. -/
theorem assign_keys (key : κ) (value : ν) (entries : List (κ × ν)) :
    (assign key value entries).map Prod.fst =
      if key ∈ entries.map Prod.fst then entries.map Prod.fst
      else entries.map Prod.fst ++ [key] := by
  induction entries with
  | nil => simp [assign]
  | cons entry rest inductionHypothesis =>
    obtain ⟨other, old⟩ := entry
    by_cases same : other = key
    · simp [assign, same]
    · simp only [assign, same, ↓reduceIte, List.map_cons, inductionHypothesis, List.mem_cons,
        Ne.symm same, false_or]
      split <;> rfl

theorem lookup_assign_self (key : κ) (value : ν) (entries : List (κ × ν)) :
    lookup key (assign key value entries) = some value := by
  induction entries with
  | nil => simp [lookup, assign]
  | cons entry rest inductionHypothesis =>
    obtain ⟨other, old⟩ := entry
    by_cases same : other = key
    · simp [lookup, assign, same]
    · simpa [lookup, assign, same] using inductionHypothesis

theorem lookup_assign_ne (key other : κ) (distinct : other ≠ key) (value : ν)
    (entries : List (κ × ν)) :
    lookup other (assign key value entries) = lookup other entries := by
  induction entries with
  | nil => simp [lookup, assign, distinct.symm]
  | cons entry rest inductionHypothesis =>
    obtain ⟨listed, old⟩ := entry
    by_cases same : listed = key
    · subst same
      simp [lookup, assign, distinct.symm]
    · simp only [lookup, assign, same, ↓reduceIte, inductionHypothesis]

/-- A new key goes behind every present one. -/
theorem assign_new (key : κ) (value : ν) (entries : List (κ × ν))
    (absent : key ∉ entries.map Prod.fst) :
    assign key value entries = entries ++ [(key, value)] := by
  induction entries with
  | nil => rfl
  | cons entry rest inductionHypothesis =>
    obtain ⟨other, old⟩ := entry
    simp only [List.map_cons, List.mem_cons, not_or] at absent
    simp [assign, Ne.symm absent.1, inductionHypothesis absent.2]

/-- Of two values that are assigned to one key the second stays. -/
theorem assign_assign (key : κ) (value other : ν) (entries : List (κ × ν)) :
    assign key other (assign key value entries) = assign key other entries := by
  induction entries with
  | nil => simp [assign]
  | cons entry rest inductionHypothesis =>
    obtain ⟨listed, old⟩ := entry
    by_cases same : listed = key
    · simp [assign, same]
    · simpa [assign, same] using inductionHypothesis

/-- Removing leaves the other entries in their order. -/
theorem remove_sublist (key : κ) (entries : List (κ × ν)) :
    (remove key entries).Sublist entries := by
  induction entries with
  | nil => exact List.Sublist.slnil
  | cons entry rest inductionHypothesis =>
    obtain ⟨other, old⟩ := entry
    by_cases same : other = key
    · simp [remove, same]
    · simpa [remove, same] using inductionHypothesis

/-- Removing a key changes nothing under the others. -/
theorem lookup_remove_ne (key other : κ) (distinct : other ≠ key) (entries : List (κ × ν)) :
    lookup other (remove key entries) = lookup other entries := by
  induction entries with
  | nil => rfl
  | cons entry rest inductionHypothesis =>
    obtain ⟨listed, old⟩ := entry
    by_cases same : listed = key
    · subst same
      simp [lookup, remove, distinct.symm]
    · simp only [lookup, remove, same, ↓reduceIte, inductionHypothesis]

/-- With distinct keys, a removed key is gone. -/
theorem absent_remove (key : κ) (entries : List (κ × ν))
    (distinct : (entries.map Prod.fst).Nodup) : key ∉ (remove key entries).map Prod.fst := by
  induction entries with
  | nil => simp [remove]
  | cons entry rest inductionHypothesis =>
    obtain ⟨other, value⟩ := entry
    obtain ⟨absent, restDistinct⟩ := List.nodup_cons.mp distinct
    by_cases same : other = key
    · subst same
      simpa [remove] using absent
    · simpa [remove, same, Ne.symm same] using inductionHypothesis restDistinct

/-- Assigning what a key is listed with changes nothing. -/
theorem assign_same (key : κ) (value : ν) (entries : List (κ × ν))
    (stored : lookup key entries = some value) : assign key value entries = entries := by
  induction entries with
  | nil => cases stored
  | cons entry rest inductionHypothesis =>
    obtain ⟨other, old⟩ := entry
    by_cases same : other = key
    · rw [lookup, if_pos same] at stored
      rw [assign, if_pos same, Option.some.inj stored]
    · rw [lookup, if_neg same] at stored
      rw [assign, if_neg same, inductionHypothesis stored]

theorem remove_absent (key : κ) (entries : List (κ × ν))
    (absent : key ∉ entries.map Prod.fst) : remove key entries = entries := by
  induction entries with
  | nil => rfl
  | cons entry rest inductionHypothesis =>
    obtain ⟨other, old⟩ := entry
    simp only [List.map_cons, List.mem_cons, not_or] at absent
    simp [remove, Ne.symm absent.1, inductionHypothesis absent.2]

/-- An assigned entry is the new one or was there. -/
theorem mem_assign {key : κ} {value : ν} {entries : List (κ × ν)} {entry : κ × ν}
    (member : entry ∈ assign key value entries) : entry = (key, value) ∨ entry ∈ entries := by
  induction entries with
  | nil => exact Or.inl (List.mem_singleton.mp member)
  | cons first rest inductionHypothesis =>
    obtain ⟨other, old⟩ := first
    by_cases same : other = key
    · subst same
      rw [assign, if_pos rfl] at member
      exact (List.mem_cons.mp member).imp_right (List.mem_cons_of_mem _)
    · rw [assign, if_neg same] at member
      rcases List.mem_cons.mp member with here | later
      · exact Or.inr (here ▸ List.mem_cons_self)
      · exact (inductionHypothesis later).imp_right (List.mem_cons_of_mem _)

/-- Removing an assigned entry leaves what removing the old one leaves. -/
theorem remove_assign (key : κ) (value : ν) (entries : List (κ × ν)) :
    remove key (assign key value entries) = remove key entries := by
  induction entries with
  | nil => simp [assign, remove]
  | cons first rest inductionHypothesis =>
    obtain ⟨other, old⟩ := first
    by_cases same : other = key
    · simp [assign, remove, same]
    · simp [assign, remove, same, inductionHypothesis]

/-- Only a missing key can be removed without a trace. -/
theorem lookup_of_remove_same (key : κ) (entries : List (κ × ν))
    (same : remove key entries = entries) : lookup key entries = none := by
  induction entries with
  | nil => rfl
  | cons first rest inductionHypothesis =>
    obtain ⟨other, old⟩ := first
    by_cases here : other = key
    · rw [remove, if_pos here] at same
      exact absurd (congrArg List.length same) (by simp)
    · rw [remove, if_neg here] at same
      rw [lookup, if_neg here]
      exact inductionHypothesis (List.cons.inj same).2

end Entries

/-- No entries. -/
def empty : Dict κ ν := ⟨[], List.nodup_nil⟩

/-- One entry. -/
def single (key : κ) (value : ν) : Dict κ ν := ⟨[(key, value)], List.nodup_singleton key⟩

/-- The keys in insertion order. -/
def keys (dict : Dict κ ν) : List κ := dict.entries.map Prod.fst

variable [DecidableEq κ]

/-- The value stored under a key. -/
def get? (dict : Dict κ ν) (key : κ) : Option ν := lookup key dict.entries

/-- Whether something is stored under a key. -/
def has (dict : Dict κ ν) (key : κ) : Bool := (dict.get? key).isSome

/-- Store a value under a key. -/
def set (dict : Dict κ ν) (key : κ) (value : ν) : Dict κ ν where
  entries := assign key value dict.entries
  distinct := by
    rw [assign_keys]
    split
    · exact dict.distinct
    · next absent => exact List.nodup_append_comm.mp (List.nodup_cons.mpr ⟨absent, dict.distinct⟩)

/-- Remove the entry of a key, if there is one. -/
def erase (dict : Dict κ ν) (key : κ) : Dict κ ν where
  entries := remove key dict.entries
  distinct := ((remove_sublist key dict.entries).map Prod.fst).nodup dict.distinct

/-- Store all entries of another dictionary, in its order. -/
def update (dict other : Dict κ ν) : Dict κ ν :=
  other.entries.foldl (fun merged entry => merged.set entry.1 entry.2) dict

/-- The dictionary of a display with several entries, stored from left to right. -/
def ofList (entries : List (κ × ν)) : Dict κ ν :=
  entries.foldl (fun dict entry => dict.set entry.1 entry.2) empty

@[simp] theorem get?_empty (key : κ) : (empty : Dict κ ν).get? key = none := rfl

@[simp] theorem get?_single (key other : κ) (value : ν) :
    (single key value).get? other = if key = other then some value else none := rfl

@[simp] theorem get?_set_self (dict : Dict κ ν) (key : κ) (value : ν) :
    (dict.set key value).get? key = some value :=
  lookup_assign_self key value dict.entries

theorem get?_set_ne (dict : Dict κ ν) (key other : κ) (value : ν) (distinct : other ≠ key) :
    (dict.set key value).get? other = dict.get? other :=
  lookup_assign_ne key other distinct value dict.entries

/-- Storing decides the value at its own key and leaves every other key alone. -/
theorem get?_set (dict : Dict κ ν) (key other : κ) (value : ν) :
    (dict.set key value).get? other = if other = key then some value else dict.get? other := by
  by_cases same : other = key
  · subst same
    simp
  · simp [same, get?_set_ne]

/-- Nothing is read under exactly the keys that are not there. -/
theorem get?_eq_none (dict : Dict κ ν) (key : κ) : dict.get? key = none ↔ key ∉ dict.keys :=
  lookup_none key dict.entries

/-- A value is read exactly if its entry is there, as keys are distinct. -/
theorem get?_eq_some (dict : Dict κ ν) (key : κ) (value : ν) :
    dict.get? key = some value ↔ (key, value) ∈ dict.entries :=
  lookup_some key value dict.entries dict.distinct

theorem get?_erase_ne (dict : Dict κ ν) (key other : κ) (distinct : other ≠ key) :
    (dict.erase key).get? other = dict.get? other :=
  lookup_remove_ne key other distinct dict.entries

theorem get?_erase_self (dict : Dict κ ν) (key : κ) : (dict.erase key).get? key = none := by
  rw [get?_eq_none]
  exact fun member => absent_remove key dict.entries dict.distinct member

/-- Storing what is stored already changes nothing. -/
theorem set_same (dict : Dict κ ν) (key : κ) (value : ν) (stored : dict.get? key = some value) :
    dict.set key value = dict :=
  Dict.ext (assign_same key value dict.entries stored)

/-- Storing under a new key appends an entry. -/
theorem set_new (dict : Dict κ ν) (key : κ) (value : ν) (absent : dict.get? key = none) :
    (dict.set key value).entries = dict.entries ++ [(key, value)] :=
  assign_new key value dict.entries ((lookup_none key dict.entries).mp absent)

/-- Of two values stored under one key the last one stays. -/
theorem set_set (dict : Dict κ ν) (key : κ) (value other : ν) :
    (dict.set key value).set key other = dict.set key other :=
  Dict.ext (assign_assign key value other dict.entries)

/-- Where the merged-in dictionary has a value it wins; elsewhere nothing changes. -/
theorem get?_update (dict other : Dict κ ν) (key : κ) :
    (dict.update other).get? key = (other.get? key).or (dict.get? key) := by
  obtain ⟨entries, distinct⟩ := other
  change (entries.foldl (fun merged entry => merged.set entry.1 entry.2) dict).get? key =
    (lookup key entries).or (dict.get? key)
  induction entries generalizing dict with
  | nil => rfl
  | cons entry rest inductionHypothesis =>
    obtain ⟨stored, value⟩ := entry
    obtain ⟨absent, restDistinct⟩ := List.nodup_cons.mp distinct
    rw [List.foldl_cons, inductionHypothesis _ restDistinct, get?_set]
    by_cases same : key = stored
    · subst same
      simp [lookup, (lookup_none key rest).mpr absent]
    · simp [lookup, same, Ne.symm same]

/-- Merging in what is stored already changes nothing. -/
theorem update_same (dict other : Dict κ ν)
    (stored : ∀ key value, other.get? key = some value → dict.get? key = some value) :
    dict.update other = dict := by
  obtain ⟨entries, distinct⟩ := other
  have listed : ∀ entry ∈ entries, dict.get? entry.1 = some entry.2 := fun entry member =>
    stored entry.1 entry.2 ((lookup_some entry.1 entry.2 entries distinct).mpr member)
  clear stored
  change entries.foldl (fun merged entry => merged.set entry.1 entry.2) dict = dict
  induction entries with
  | nil => rfl
  | cons entry rest inductionHypothesis =>
    rw [List.foldl_cons, set_same dict _ _ (listed entry List.mem_cons_self)]
    exact inductionHypothesis (List.nodup_cons.mp distinct).2
      fun other member => listed other (List.mem_cons_of_mem _ member)

/-- A display with distinct keys is stored as it is written. -/
theorem ofList_entries (entries : List (κ × ν)) (distinct : (entries.map Prod.fst).Nodup) :
    (ofList entries).entries = entries := by
  have stored (rest : List (κ × ν)) (dict : Dict κ ν)
      (distinct : ((dict.entries ++ rest).map Prod.fst).Nodup) :
      (rest.foldl (fun dict entry => dict.set entry.1 entry.2) dict).entries =
        dict.entries ++ rest := by
    induction rest generalizing dict with
    | nil => simp
    | cons entry rest inductionHypothesis =>
      have absent : dict.get? entry.1 = none := by
        rw [get?_eq_none]
        rw [List.map_append, List.map_cons] at distinct
        exact fun member => (List.disjoint_of_nodup_append distinct) member List.mem_cons_self
      have grown := set_new dict entry.1 entry.2 absent
      rw [List.foldl_cons, inductionHypothesis, grown, List.append_assoc]
      · rfl
      · rwa [grown, List.append_assoc]
  exact stored entries empty (by simpa [empty] using distinct)

end Dict

end QChat
