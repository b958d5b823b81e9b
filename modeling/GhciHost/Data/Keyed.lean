/-! # Values by key

A list of keys with their values, in the order in which the keys were first put.

* `find?_put_self`, `find?_put_of_ne`   what is found after `put`;
* `put_comm`   values of known keys can be put in any order;
* `find?_erase_self`, `find?_erase_of_ne`   what is found after `erase`;
* `mem_values_put`, `mem_values_erase`   which values there are afterwards. -/

namespace GhciHost

/-- Values by key; no key stands twice as long as only `put` and `erase` are used. -/
structure Keyed (κ : Type u) (α : Type v) where
  entries : List (κ × α) := []
deriving Repr

namespace Keyed

variable {κ : Type u} {α : Type v} [DecidableEq κ]

/-- The value of a key among entries. -/
def findIn (k : κ) : List (κ × α) → Option α
  | [] => none
  | (k', a) :: es => if k' = k then some a else findIn k es

/-- The value of a key. -/
def find? (m : Keyed κ α) (k : κ) : Option α := findIn k m.entries

/-- Put a value among entries. -/
def putIn (k : κ) (a : α) : List (κ × α) → List (κ × α)
  | [] => [(k, a)]
  | (k', a') :: es => if k' = k then (k, a) :: es else (k', a') :: putIn k a es

/-- Give a key a value.  A known key keeps its place. -/
def put (m : Keyed κ α) (k : κ) (a : α) : Keyed κ α := ⟨putIn k a m.entries⟩

/-- Forget a key. -/
def erase (m : Keyed κ α) (k : κ) : Keyed κ α := ⟨m.entries.filter (·.1 ≠ k)⟩

/-- The keys in order. -/
def keys (m : Keyed κ α) : List κ := m.entries.map (·.1)

/-- The values in order. -/
def values (m : Keyed κ α) : List α := m.entries.map (·.2)

@[simp] theorem findIn_nil (k : κ) : findIn k ([] : List (κ × α)) = none := rfl

@[simp] theorem findIn_cons (k k' : κ) (a : α) (es : List (κ × α)) :
    findIn k ((k', a) :: es) = if k' = k then some a else findIn k es := rfl

@[simp] theorem putIn_nil (k : κ) (a : α) : putIn k a [] = [(k, a)] := rfl

@[simp] theorem putIn_cons (k k' : κ) (a a' : α) (es : List (κ × α)) :
    putIn k a ((k', a') :: es) = if k' = k then (k, a) :: es else (k', a') :: putIn k a es := rfl

@[simp] theorem find?_empty (k : κ) : (⟨[]⟩ : Keyed κ α).find? k = none := rfl

@[simp] theorem find?_put_self (m : Keyed κ α) (k : κ) (a : α) : (m.put k a).find? k = some a := by
  obtain ⟨es⟩ := m
  simp only [find?, put]
  induction es with
  | nil => simp
  | cons e es ih =>
    obtain ⟨k', a'⟩ := e
    by_cases h : k' = k <;> simp [h, ih]

theorem find?_put_of_ne {k k' : κ} (h : k' ≠ k) (m : Keyed κ α) (a : α) :
    (m.put k a).find? k' = m.find? k' := by
  obtain ⟨es⟩ := m
  simp only [find?, put]
  induction es with
  | nil => simp [h.symm]
  | cons e es ih =>
    obtain ⟨k₁, a₁⟩ := e
    by_cases e : k₁ = k
    · subst e; simp [h.symm]
    · simp [e, ih]

/-- To put what is there changes nothing. -/
theorem put_of_find? {m : Keyed κ α} {k : κ} {a : α} (h : m.find? k = some a) : m.put k a = m := by
  obtain ⟨es⟩ := m
  simp only [find?, put, mk.injEq] at h ⊢
  induction es with
  | nil => cases h
  | cons e es ih =>
    obtain ⟨k', a'⟩ := e
    by_cases hk : k' = k
    · simp_all
    · simp_all

@[simp] theorem put_put_self (m : Keyed κ α) (k : κ) (a b : α) : (m.put k a).put k b = m.put k b := by
  obtain ⟨es⟩ := m
  simp only [put, mk.injEq]
  induction es with
  | nil => simp
  | cons e es ih =>
    obtain ⟨k', a'⟩ := e
    by_cases hk : k' = k <;> simp [hk, ih]

/-- Keys that are known keep their places, so their values can be put in any order. -/
theorem put_comm {m : Keyed κ α} {k k' : κ} {a b : α} (hne : k' ≠ k) (hk : (m.find? k).isSome)
    (hk' : (m.find? k').isSome) : (m.put k a).put k' b = (m.put k' b).put k a := by
  obtain ⟨es⟩ := m
  simp only [find?, put, mk.injEq] at hk hk' ⊢
  induction es with
  | nil => cases hk
  | cons e es ih =>
    obtain ⟨k₁, a₁⟩ := e
    by_cases e : k₁ = k
    · subst e; simp [hne.symm]
    · by_cases e' : k₁ = k'
      · subst e'; simp [e]
      · simp_all

@[simp] theorem find?_erase_self (m : Keyed κ α) (k : κ) : (m.erase k).find? k = none := by
  obtain ⟨es⟩ := m
  simp only [find?, erase]
  induction es with
  | nil => rfl
  | cons e es ih =>
    obtain ⟨k', a'⟩ := e
    by_cases h : k' = k
    · simpa [h] using ih
    · simpa [h] using ih

theorem find?_erase_of_ne {k k' : κ} (h : k' ≠ k) (m : Keyed κ α) :
    (m.erase k).find? k' = m.find? k' := by
  obtain ⟨es⟩ := m
  simp only [find?, erase]
  induction es with
  | nil => rfl
  | cons e es ih =>
    obtain ⟨k₁, a₁⟩ := e
    by_cases e : k₁ = k
    -- The entry is left out, and is not the one looked for.
    · subst e; simpa [h.symm] using ih
    -- The entry stays: it is the one looked for, or it is passed over.
    · by_cases e' : k₁ = k'
      · subst e'; simp [e]
      · simpa [e, e'] using ih

theorem mem_values_of_find? {m : Keyed κ α} {k : κ} {a : α} (h : m.find? k = some a) :
    a ∈ m.values := by
  obtain ⟨es⟩ := m
  simp only [find?, values] at h ⊢
  induction es with
  | nil => cases h
  | cons e es ih =>
    obtain ⟨k', a'⟩ := e
    by_cases hk : k' = k
    · simp_all
    · simp_all

theorem mem_keys_of_find? {m : Keyed κ α} {k : κ} {a : α} (h : m.find? k = some a) :
    k ∈ m.keys := by
  obtain ⟨es⟩ := m
  simp only [find?, keys] at h ⊢
  induction es with
  | nil => cases h
  | cons e es ih =>
    obtain ⟨k', a'⟩ := e
    by_cases hk : k' = k
    · simp_all
    · simp_all

theorem mem_values_put {m : Keyed κ α} {k : κ} {a b : α} (h : b ∈ (m.put k a).values) :
    b = a ∨ b ∈ m.values := by
  obtain ⟨es⟩ := m
  simp only [put, values] at h ⊢
  induction es with
  | nil => simpa using h
  | cons e es ih =>
    obtain ⟨k', a'⟩ := e
    by_cases hk : k' = k
    · simp only [putIn_cons, hk, if_true, List.map_cons, List.mem_cons] at h ⊢
      exact h.imp_right .inr
    · simp only [putIn_cons, hk, if_false, List.map_cons, List.mem_cons] at h ⊢
      rcases h with h | h
      · exact .inr (.inl h)
      · exact (ih h).imp_right .inr

theorem mem_values_erase {m : Keyed κ α} {k : κ} {b : α} (h : b ∈ (m.erase k).values) :
    b ∈ m.values := by
  obtain ⟨e, he, hb⟩ := List.mem_map.1 h
  exact List.mem_map.2 ⟨e, (List.mem_filter.1 he).1, hb⟩

/-- A new value stands under one key. -/
theorem nodup_values_put {m : Keyed κ α} (h : m.values.Nodup) (k : κ) {a : α} (ha : a ∉ m.values) :
    (m.put k a).values.Nodup := by
  obtain ⟨es⟩ := m
  simp only [put, values] at h ha ⊢
  induction es with
  | nil => simp
  | cons e es ih =>
    obtain ⟨k', a'⟩ := e
    obtain ⟨hnot, hrest⟩ := List.nodup_cons.1 h
    obtain ⟨hne, ha⟩ := not_or.1 (fun h => ha (List.mem_cons.2 h))
    by_cases hk : k' = k
    · rw [putIn_cons, if_pos hk]
      exact List.nodup_cons.2 ⟨ha, hrest⟩
    · rw [putIn_cons, if_neg hk]
      refine List.nodup_cons.2 ⟨fun hmem => ?_, ih hrest ha⟩
      rcases mem_values_put (m := ⟨es⟩) hmem with e | hmem
      · exact hne e.symm
      · exact hnot hmem

theorem nodup_values_erase {m : Keyed κ α} (h : m.values.Nodup) (k : κ) :
    (m.erase k).values.Nodup :=
  h.sublist (List.Sublist.map _ List.filter_sublist)

/-- A value that stands under one key is gone with it. -/
theorem not_mem_values_erase {m : Keyed κ α} (h : m.values.Nodup) {k : κ} {a : α}
    (hk : m.find? k = some a) : a ∉ (m.erase k).values := by
  obtain ⟨es⟩ := m
  simp only [find?, erase, values] at h hk ⊢
  induction es with
  | nil => cases hk
  | cons e es ih =>
    obtain ⟨k', a'⟩ := e
    obtain ⟨hnot, hrest⟩ := List.nodup_cons.1 h
    by_cases hkk : k' = k
    · rw [findIn_cons, if_pos hkk] at hk
      cases hk
      have hes : (((k', a) :: es).filter (·.1 ≠ k)).map (·.2) = (erase ⟨es⟩ k).values := by
        simp [hkk, erase, values]
      rw [hes]
      exact fun hmem => hnot (mem_values_erase hmem)
    · rw [findIn_cons, if_neg hkk] at hk
      have ha : a ∈ es.map (·.2) := mem_values_of_find? (m := ⟨es⟩) hk
      rw [List.filter_cons_of_pos (by simpa using hkk), List.map_cons, List.mem_cons, not_or]
      refine ⟨?_, ih hrest hk⟩
      rintro rfl
      exact hnot ha

end Keyed

end GhciHost
