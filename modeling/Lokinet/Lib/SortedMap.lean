import Mathlib

/-!
An ordered map as the list of its entries sorted by strictly increasing key, the shape of an
ordered associative container: lookup, insertion that replaces, insertion that keeps an entry
already there (`emplace`), erasure and filtering, all iterated in key order. Sortedness is a
field, so that every map built by these operations has one entry per key.
-/

structure SortedMap (κ : Type) [LinearOrder κ] (α : Type) where
  entries : List (κ × α)
  sorted : entries.Pairwise (fun a b => a.1 < b.1)

namespace SortedMap

variable {κ α : Type} [LinearOrder κ]

/-- The value of the first entry with key `k`. -/
def lookup (k : κ) : List (κ × α) → Option α
  | [] => none
  | e :: es => if k = e.1 then some e.2 else lookup k es

/-- Insertion into a sorted entry list, replacing an entry with the same key. -/
def insertEntry (k : κ) (v : α) : List (κ × α) → List (κ × α)
  | [] => [(k, v)]
  | e :: es =>
    if k < e.1 then (k, v) :: e :: es
    else if k = e.1 then (k, v) :: es
    else e :: insertEntry k v es

theorem mem_insertEntry {k : κ} {v : α} {e : κ × α} {es : List (κ × α)}
    (h : e ∈ insertEntry k v es) : e = (k, v) ∨ e ∈ es := by
  induction es with
  | nil => simpa [insertEntry] using h
  | cons d ds ih =>
    unfold insertEntry at h
    split_ifs at h with h₁ h₂
    · simpa using h
    · simp only [List.mem_cons] at h
      rcases h with h | h
      · exact .inl h
      · exact .inr (List.mem_cons_of_mem d h)
    · simp only [List.mem_cons] at h
      rcases h with h | h
      · exact .inr (h ▸ List.mem_cons_self)
      · rcases ih h with h | h
        · exact .inl h
        · exact .inr (List.mem_cons_of_mem d h)

theorem sorted_insertEntry (k : κ) (v : α) {es : List (κ × α)}
    (h : es.Pairwise (fun a b => a.1 < b.1)) :
    (insertEntry k v es).Pairwise (fun a b => a.1 < b.1) := by
  induction es with
  | nil => simp [insertEntry]
  | cons d ds ih =>
    have hd : ∀ a ∈ ds, d.1 < a.1 := fun a ha => List.rel_of_pairwise_cons h ha
    unfold insertEntry
    split_ifs with h₁ h₂
    · refine h.cons fun a ha => ?_
      rcases List.mem_cons.mp ha with rfl | ha
      · exact h₁
      · exact h₁.trans (hd a ha)
    · subst h₂
      exact h.of_cons.cons fun a ha => hd a ha
    · refine (ih h.of_cons).cons fun a ha => ?_
      rcases mem_insertEntry ha with rfl | ha
      · exact lt_of_le_of_ne (not_lt.mp h₁) (Ne.symm h₂)
      · exact hd a ha

theorem lookup_insertEntry (k j : κ) (v : α) (es : List (κ × α)) :
    lookup j (insertEntry k v es) = if j = k then some v else lookup j es := by
  induction es with
  | nil => simp [insertEntry, lookup]
  | cons d ds ih =>
    unfold insertEntry
    split_ifs with h₁ h₂ <;> by_cases hj : j = k <;> simp_all [lookup]

theorem lookup_eq_none {j : κ} {es : List (κ × α)} (h : ∀ e ∈ es, e.1 ≠ j) :
    lookup j es = none := by
  induction es with
  | nil => rfl
  | cons d ds ih =>
    have hd : j ≠ d.1 := fun he => h d List.mem_cons_self he.symm
    simp only [lookup, hd, if_false]
    exact ih fun e he => h e (List.mem_cons_of_mem d he)

theorem lookup_filter (j : κ) (p : κ × α → Bool) {es : List (κ × α)}
    (hs : es.Pairwise (fun a b => a.1 < b.1)) :
    lookup j (es.filter p) = (lookup j es).filter (fun v => p (j, v)) := by
  induction es with
  | nil => rfl
  | cons d ds ih =>
    obtain ⟨k, v⟩ := d
    have ih := ih hs.of_cons
    by_cases hj : j = k
    · subst hj
      -- the keys after this entry are above its key, so the filter leaves no other entry for it
      have hrest : lookup j (ds.filter p) = none :=
        lookup_eq_none fun e he => ne_of_gt (List.rel_of_pairwise_cons hs (List.mem_filter.mp he).1)
      by_cases hp : p (j, v) <;> simp [lookup, Option.filter_some, hp, hrest]
    · by_cases hp : p (k, v) <;> simp [lookup, hp, hj, ih]

theorem insertEntry_insertEntry (k : κ) (v v' : α) (es : List (κ × α)) :
    insertEntry k v' (insertEntry k v es) = insertEntry k v' es := by
  induction es with
  | nil => simp [insertEntry]
  | cons e es ih =>
    by_cases h₁ : k < e.1
    · simp [insertEntry, h₁]
    · by_cases h₂ : k = e.1
      · simp [insertEntry, h₂]
      · simp [insertEntry, h₁, h₂, ih]

theorem lookup_of_mem {k : κ} {v : α} {es : List (κ × α)}
    (hs : es.Pairwise (fun a b => a.1 < b.1)) (h : (k, v) ∈ es) : lookup k es = some v := by
  induction es with
  | nil => cases h
  | cons e es ih =>
    rcases List.mem_cons.mp h with rfl | h
    · simp [lookup]
    · have hlt : e.1 < k := List.rel_of_pairwise_cons hs h
      simp only [lookup, ne_of_gt hlt, if_false]
      exact ih hs.of_cons h

theorem mem_of_lookup {k : κ} {v : α} {es : List (κ × α)} (h : lookup k es = some v) :
    (k, v) ∈ es := by
  induction es with
  | nil => cases h
  | cons e es ih =>
    unfold lookup at h
    split at h
    · rename_i he
      cases h
      subst he
      exact List.mem_cons_self
    · exact List.mem_cons_of_mem e (ih h)

instance : EmptyCollection (SortedMap κ α) := ⟨⟨[], .nil⟩⟩

def find? (m : SortedMap κ α) (k : κ) : Option α := lookup k m.entries

def size (m : SortedMap κ α) : Nat := m.entries.length

/-- Insertion that replaces the value at `k`. -/
def insert (m : SortedMap κ α) (k : κ) (v : α) : SortedMap κ α :=
  ⟨insertEntry k v m.entries, sorted_insertEntry k v m.sorted⟩

/-- `emplace`: insertion that keeps an entry already at `k`, with whether it inserted. -/
def emplace (m : SortedMap κ α) (k : κ) (v : α) : SortedMap κ α × Bool :=
  if (m.find? k).isSome then (m, false) else (m.insert k v, true)

/-- The entries whose key and value satisfy `p`, in key order. -/
def filter (m : SortedMap κ α) (p : κ → α → Bool) : SortedMap κ α :=
  ⟨m.entries.filter (fun e => p e.1 e.2), m.sorted.filter _⟩

def erase (m : SortedMap κ α) (k : κ) : SortedMap κ α := m.filter (fun j _ => j ≠ k)

theorem ext {m m' : SortedMap κ α} (h : m.entries = m'.entries) : m = m' := by
  cases m
  cases m'
  cases h
  rfl

instance [DecidableEq α] : DecidableEq (SortedMap κ α) := fun m m' =>
  decidable_of_iff (m.entries = m'.entries) ⟨ext, fun h => h ▸ rfl⟩

variable (m : SortedMap κ α) (k j : κ) (v : α)

@[simp] theorem find?_empty : (∅ : SortedMap κ α).find? k = none := rfl

theorem find?_insert : (m.insert k v).find? j = if j = k then some v else m.find? j :=
  lookup_insertEntry k j v m.entries

@[simp] theorem find?_insert_self : (m.insert k v).find? k = some v := by
  simp [find?_insert]

theorem find?_insert_of_ne {j k : κ} (h : j ≠ k) : (m.insert k v).find? j = m.find? j := by
  simp [find?_insert, h]

theorem find?_filter (p : κ → α → Bool) : (m.filter p).find? j = (m.find? j).filter (p j) :=
  lookup_filter j _ m.sorted

@[simp] theorem find?_erase_self : (m.erase k).find? k = none := by
  simp [erase, find?_filter]

theorem find?_erase_of_ne {j k : κ} (h : j ≠ k) : (m.erase k).find? j = m.find? j := by
  simp only [erase, find?_filter]
  cases m.find? j <;> simp [h]

theorem find?_eq_some_iff {k : κ} {v : α} : m.find? k = some v ↔ (k, v) ∈ m.entries :=
  ⟨mem_of_lookup, lookup_of_mem m.sorted⟩

theorem mem_of_mem_filter {p : κ → α → Bool} {e : κ × α} (h : e ∈ (m.filter p).entries) :
    e ∈ m.entries :=
  (List.mem_filter.mp h).1

theorem mem_of_mem_erase {e : κ × α} (h : e ∈ (m.erase k).entries) : e ∈ m.entries :=
  m.mem_of_mem_filter h

theorem mem_insert {e : κ × α} (h : e ∈ (m.insert k v).entries) : e = (k, v) ∨ e ∈ m.entries :=
  mem_insertEntry h

theorem nodup_keys : (m.entries.map Prod.fst).Nodup :=
  List.pairwise_map.mpr (m.sorted.imp ne_of_lt)

@[simp] theorem insert_insert (v' : α) : (m.insert k v).insert k v' = m.insert k v' :=
  ext (insertEntry_insertEntry k v v' m.entries)

theorem emplace_of_isSome {k : κ} (h : (m.find? k).isSome) : m.emplace k v = (m, false) := by
  simp [emplace, h]

theorem emplace_of_none {k : κ} (h : m.find? k = none) : m.emplace k v = (m.insert k v, true) := by
  simp [emplace, h]

end SortedMap
