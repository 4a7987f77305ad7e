/-! Ordered maps as lists of entries. A key stands at most once; putting a key that is there
keeps its place, a new one comes last. -/
namespace Assay

abbrev Entries (α : Type) := List (String × α)

namespace Entries

variable {α : Type}

def get? (key : String) : Entries α → Option α
  | [] => none
  | (k, v) :: rest => if k = key then some v else get? key rest

def put (key : String) (value : α) : Entries α → Entries α
  | [] => [(key, value)]
  | (k, v) :: rest => if k = key then (k, value) :: rest else (k, v) :: put key value rest

def putNew (key : String) (value : α) : Entries α → Entries α
  | [] => [(key, value)]
  | (k, v) :: rest => if k = key then (k, v) :: rest else (k, v) :: putNew key value rest

def keys (m : Entries α) : List String := m.map (·.1)

def has (key : String) (m : Entries α) : Bool := (m.get? key).isSome

@[simp] theorem get?_nil (key : String) : get? key ([] : Entries α) = none := rfl

@[simp] theorem get?_put (key other : String) (value : α) (m : Entries α) :
    (m.put key value).get? other = if key = other then some value else m.get? other := by
  induction m with
  | nil => rfl
  | cons e m ih =>
    obtain ⟨k, v⟩ := e
    by_cases hk : k = key
    · subst hk
      by_cases ho : k = other <;> simp [put, get?, ho]
    · by_cases ho : k = other
      · subst ho
        simp [put, get?, hk, Ne.symm hk]
      · simp [put, get?, hk, ho, ih]

@[simp] theorem get?_putNew (key other : String) (value : α) (m : Entries α) :
    (m.putNew key value).get? other =
      if key = other then some ((m.get? key).getD value) else m.get? other := by
  induction m with
  | nil => by_cases h : key = other <;> simp [putNew, get?, h]
  | cons e m ih =>
    obtain ⟨k, v⟩ := e
    by_cases hk : k = key
    · subst hk
      by_cases ho : k = other <;> simp [putNew, get?, ho]
    · by_cases ho : k = other
      · subst ho
        simp [putNew, get?, hk, Ne.symm hk]
      · simp [putNew, get?, hk, ho, ih]

@[simp] theorem keys_cons (key : String) (value : α) (m : Entries α) :
    keys ((key, value) :: m) = key :: keys m := rfl

theorem mem_keys {key : String} {m : Entries α} : key ∈ m.keys ↔ m.get? key ≠ none := by
  induction m with
  | nil => simp [keys]
  | cons e m ih =>
    obtain ⟨k, v⟩ := e
    by_cases hk : k = key
    · simp [get?, hk]
    · simp [get?, hk, Ne.symm hk, ih]

theorem keys_put (key : String) (value : α) (m : Entries α) :
    (m.put key value).keys = if key ∈ m.keys then m.keys else m.keys ++ [key] := by
  induction m with
  | nil => rfl
  | cons e m ih =>
    obtain ⟨k, v⟩ := e
    by_cases hk : k = key
    · simp [put, hk]
    · by_cases there : key ∈ keys m <;> simp [put, hk, Ne.symm hk, ih, there]

theorem keys_putNew (key : String) (value : α) (m : Entries α) :
    (m.putNew key value).keys = (m.put key value).keys := by
  induction m with
  | nil => rfl
  | cons e m ih =>
    obtain ⟨k, v⟩ := e
    by_cases hk : k = key
    · simp [putNew, put, hk]
    · simp [putNew, put, hk, ih]

theorem nodup_keys_put (key : String) (value : α) (m : Entries α) (distinct : m.keys.Nodup) :
    (m.put key value).keys.Nodup := by
  rw [keys_put]
  split
  · exact distinct
  · rename_i absent
    simpa [List.nodup_append, distinct] using fun k there (same : k = key) => absent (same ▸ there)

theorem get?_of_mem {key : String} {value : α} {m : Entries α} (distinct : m.keys.Nodup)
    (member : (key, value) ∈ m) : m.get? key = some value := by
  induction m with
  | nil => simp at member
  | cons e m ih =>
    obtain ⟨k, v⟩ := e
    obtain ⟨absent, distinct⟩ := List.nodup_cons.mp distinct
    rcases List.mem_cons.mp member with same | member
    · cases same
      simp [get?]
    · have other : k ≠ key := by
        rintro rfl
        exact absent (List.mem_map_of_mem (f := fun e => e.1) member)
      simp [get?, other, ih distinct member]

theorem mem_of_get? {key : String} {value : α} {m : Entries α} (found : m.get? key = some value) :
    (key, value) ∈ m := by
  induction m with
  | nil => simp at found
  | cons e m ih =>
    obtain ⟨k, v⟩ := e
    by_cases hk : k = key
    · have same : v = value := by simpa [get?, hk] using found
      simp [hk, same]
    · exact List.mem_cons_of_mem _ (ih (by simpa [get?, hk] using found))

end Entries

end Assay
