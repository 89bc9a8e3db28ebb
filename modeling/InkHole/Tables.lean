import Mathlib.Data.List.AList

/-! Tables with one value under each key: what is found in one after an update. -/

namespace InkHole

abbrev Table (α β : Type) := AList fun _ : α => β

namespace Table

variable {α β : Type} {t : Table α β} {a : α} {b : β}

def values (t : Table α β) : List β := t.entries.map Sigma.snd

def retain (t : Table α β) (keep : β → Bool) : Table α β :=
  ⟨t.entries.filter fun e => keep e.2, t.nodupKeys.sublist List.filter_sublist⟩

theorem nodupKeys_map (t : Table α β) (f : α → β → β) :
    (t.entries.map fun e => (⟨e.1, f e.1 e.2⟩ : Sigma fun _ : α => β)).NodupKeys := by
  have hkeys : (t.entries.map fun e => (⟨e.1, f e.1 e.2⟩ : Sigma fun _ : α => β)).keys = t.entries.keys := by
    simp only [List.keys, List.map_map]
    rfl
  rw [List.NodupKeys, hkeys]
  exact t.nodupKeys

def mapValues (t : Table α β) (f : α → β → β) : Table α β := ⟨_, nodupKeys_map t f⟩

theorem length_keys (t : Table α β) : t.keys.length = t.entries.length := List.length_map ..

variable [DecidableEq α]

theorem lookup_insert_cases {key : α} {v : β} (h : (t.insert key v).lookup a = some b) :
    (a = key ∧ v = b) ∨ (a ≠ key ∧ t.lookup a = some b) := by
  by_cases ha : a = key
  · subst ha
    rw [AList.lookup_insert] at h
    exact .inl ⟨rfl, Option.some.inj h⟩
  · rw [AList.lookup_insert_ne ha] at h
    exact .inr ⟨ha, h⟩

theorem lookup_of_erase {key : α} (h : (t.erase key).lookup a = some b) : t.lookup a = some b := by
  by_cases ha : a = key
  · subst ha
    simp at h
  · rwa [AList.lookup_erase_ne ha] at h

theorem mem_values : b ∈ t.values ↔ ∃ a, t.lookup a = some b := by
  constructor
  · intro h
    obtain ⟨⟨a, b⟩, hmem, rfl⟩ := List.mem_map.mp h
    exact ⟨a, AList.mem_lookup_iff.mpr hmem⟩
  · rintro ⟨a, h⟩
    exact List.mem_map.mpr ⟨⟨a, b⟩, AList.mem_lookup_iff.mp h, rfl⟩

theorem lookup_of_retain {keep : β → Bool} (h : (retain t keep).lookup a = some b) : t.lookup a = some b := by
  have hmem : ⟨a, b⟩ ∈ (retain t keep).entries := AList.mem_lookup_iff.mp h
  exact AList.mem_lookup_iff.mpr (List.mem_of_mem_filter hmem)

theorem lookup_retain (ht : t.lookup a = some b) (keep : β → Bool) :
    (retain t keep).lookup a = if keep b then some b else none := by
  split
  · next hkeep =>
    exact AList.mem_lookup_iff.mpr (List.mem_filter.mpr ⟨AList.mem_lookup_iff.mp ht, hkeep⟩)
  · next hkeep =>
    rcases hl : (retain t keep).lookup a with _ | c
    · rfl
    · have hmem : ⟨a, c⟩ ∈ (retain t keep).entries := AList.mem_lookup_iff.mp hl
      obtain rfl := Option.some.inj (ht.symm.trans (lookup_of_retain hl))
      exact absurd (List.mem_filter.mp hmem).2 hkeep

theorem length_insert_of_some {v : β} (h : t.lookup a = some b) :
    (t.insert a v).entries.length = t.entries.length := by
  have hmem : a ∈ t.keys := AList.lookup_isSome.mp (by rw [h]; rfl)
  have hpos := List.length_pos_of_mem hmem
  rw [← length_keys, ← length_keys, AList.keys_insert, List.length_cons, List.length_erase_of_mem hmem]
  omega

theorem length_insert_le (t : Table α β) (a : α) (v : β) :
    (t.insert a v).entries.length ≤ t.entries.length + 1 := by
  rw [← length_keys, ← length_keys, AList.keys_insert, List.length_cons]
  have := List.length_erase_le (a := a) (l := t.keys)
  omega

theorem length_erase_le (t : Table α β) (a : α) : (t.erase a).entries.length ≤ t.entries.length := by
  rw [← length_keys, ← length_keys, AList.keys_erase]
  exact List.length_erase_le

theorem length_insert_of_not_mem (h : a ∉ t) (b : β) : (t.insert a b).entries.length = t.entries.length + 1 := by
  have hkeys : a ∉ t.keys := h
  rw [← length_keys, ← length_keys, AList.keys_insert, List.length_cons, List.erase_of_not_mem hkeys]

theorem length_erase_of_mem (h : a ∈ t) : (t.erase a).entries.length + 1 = t.entries.length := by
  have hkeys : a ∈ t.keys := h
  have hpos := List.length_pos_of_mem hkeys
  rw [← length_keys, ← length_keys, AList.keys_erase, List.length_erase_of_mem hkeys]
  omega

theorem lookup_mapValues (t : Table α β) (f : α → β → β) (a : α) :
    (mapValues t f).lookup a = (t.lookup a).map (f a) := by
  cases ht : t.lookup a with
  | some b =>
    have hmem : ⟨a, f a b⟩ ∈ (mapValues t f).entries :=
      List.mem_map.mpr ⟨⟨a, b⟩, AList.mem_lookup_iff.mp ht, rfl⟩
    exact AList.mem_lookup_iff.mpr hmem
  | none =>
    rw [Option.map_none, AList.lookup_eq_none]
    intro ha
    obtain ⟨b, hb⟩ := Option.isSome_iff_exists.mp (AList.lookup_isSome.mpr ha)
    obtain ⟨⟨a', c⟩, hc, he⟩ := List.mem_map.mp (AList.mem_lookup_iff.mp hb)
    cases he
    rw [AList.mem_lookup_iff.mpr hc] at ht
    cases ht

end Table

end InkHole
