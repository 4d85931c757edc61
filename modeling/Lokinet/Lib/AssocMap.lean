import Mathlib

/-!
An unordered associative container as the list of its entries in iteration order, one entry per
key: lookup, assignment (`m[k] = v`, which keeps an existing entry in its place and puts a new
key last), `operator[]` read (which first inserts a default value), `emplace` (which keeps an
entry already there) and erasure. Where a new key goes in the iteration order is the
container's choice; results that scan the entries hold for the order given here.
-/

structure AssocMap (κ α : Type) where
  entries : List (κ × α)
  nodup : (entries.map Prod.fst).Nodup

namespace AssocMap

variable {κ α : Type} [DecidableEq κ]

instance : EmptyCollection (AssocMap κ α) := ⟨⟨[], List.nodup_nil⟩⟩

/-- The value of the entry with key `k`. -/
def lookup (k : κ) : List (κ × α) → Option α
  | [] => none
  | e :: es => if e.1 = k then some e.2 else lookup k es

/-- The entries with the one for `k` given the value `v`. -/
def assign (k : κ) (v : α) (es : List (κ × α)) : List (κ × α) :=
  es.map fun e => if e.1 = k then (k, v) else e

theorem lookup_eq_none_iff {k : κ} {es : List (κ × α)} : lookup k es = none ↔ ∀ e ∈ es, e.1 ≠ k := by
  induction es with
  | nil => simp [lookup]
  | cons e es ih => by_cases h : e.1 = k <;> simp [lookup, h, ih]

theorem lookup_assign (j k : κ) (v : α) (es : List (κ × α)) :
    lookup j (assign k v es) = if j = k then (lookup k es).map (fun _ => v) else lookup j es := by
  induction es with
  | nil => simp [assign, lookup]
  | cons e es ih =>
    simp only [assign, List.map_cons] at ih ⊢
    by_cases hek : e.1 = k
    · by_cases hjk : j = k
      · subst hjk
        simp [lookup, hek]
      · have hej : e.1 ≠ j := fun h => hjk (h ▸ hek)
        simp [lookup, hek, hjk, Ne.symm hjk, ih]
    · by_cases hej : e.1 = j
      · subst hej
        simp [lookup, hek]
      · simp [lookup, hek, hej, ih]

theorem lookup_snoc (j k : κ) (v : α) (es : List (κ × α)) :
    lookup j (es ++ [(k, v)]) = (lookup j es).or (if k = j then some v else none) := by
  induction es with
  | nil => simp [lookup]
  | cons e es ih => by_cases h : e.1 = j <;> simp [lookup, h, ih]

theorem lookup_filter (j k : κ) (es : List (κ × α)) :
    lookup j (es.filter fun e => e.1 ≠ k) = if j = k then none else lookup j es := by
  induction es with
  | nil => simp [lookup]
  | cons e es ih =>
    by_cases hek : e.1 = k
    · -- the entry for `k` is dropped
      have hdrop : (e :: es).filter (fun e => e.1 ≠ k) = es.filter (fun e => e.1 ≠ k) := by
        simp [hek]
      rw [hdrop, ih]
      by_cases hjk : j = k
      · simp [hjk]
      · simp [lookup, hjk, show e.1 ≠ j from fun h => hjk (h ▸ hek)]
    · have hkeep : (e :: es).filter (fun e => e.1 ≠ k) = e :: es.filter (fun e => e.1 ≠ k) := by
        simp [hek]
      rw [hkeep]
      by_cases hej : e.1 = j
      · subst hej
        simp [lookup, hek]
      · rw [lookup, if_neg hej, ih, lookup, if_neg hej]

theorem mem_of_lookup_eq_some {k : κ} {v : α} {es : List (κ × α)} (h : lookup k es = some v) :
    (k, v) ∈ es := by
  induction es with
  | nil => simp [lookup] at h
  | cons e es ih =>
    by_cases hek : e.1 = k
    · simp only [lookup, hek, ↓reduceIte, Option.some.injEq] at h
      subst h
      simp [← hek]
    · simp only [lookup, hek, ↓reduceIte] at h
      exact List.mem_cons_of_mem e (ih h)

theorem lookup_eq_some_of_mem {k : κ} {v : α} {es : List (κ × α)} (hnd : (es.map Prod.fst).Nodup)
    (h : (k, v) ∈ es) : lookup k es = some v := by
  induction es with
  | nil => simp at h
  | cons e es ih =>
    rw [List.map_cons, List.nodup_cons] at hnd
    rcases List.mem_cons.mp h with rfl | h
    · simp [lookup]
    · -- `k` is a key further on, so not the first one
      have hek : e.1 ≠ k := fun hek => hnd.1 (hek ▸ List.mem_map_of_mem h)
      simp only [lookup, hek, ↓reduceIte]
      exact ih hnd.2 h

def find? (m : AssocMap κ α) (k : κ) : Option α := lookup k m.entries

theorem find?_eq_some_iff (m : AssocMap κ α) (k : κ) (v : α) : m.find? k = some v ↔ (k, v) ∈ m.entries :=
  ⟨mem_of_lookup_eq_some, lookup_eq_some_of_mem m.nodup⟩

def contains (m : AssocMap κ α) (k : κ) : Bool := (m.find? k).isSome

theorem nodup_assign (m : AssocMap κ α) (k : κ) (v : α) :
    ((assign k v m.entries).map Prod.fst).Nodup := by
  have h : (assign k v m.entries).map Prod.fst = m.entries.map Prod.fst := by
    simp only [assign, List.map_map]
    congr 1
    funext e
    by_cases hk : e.1 = k <;> simp [hk]
  exact h ▸ m.nodup

theorem nodup_snoc (m : AssocMap κ α) {k : κ} (v : α) (h : m.find? k = none) :
    ((m.entries ++ [(k, v)]).map Prod.fst).Nodup := by
  have hk := lookup_eq_none_iff.mp h
  simp only [List.map_append, List.map_cons, List.map_nil, List.nodup_append, List.nodup_cons,
    List.not_mem_nil, not_false_eq_true, List.nodup_nil, and_self, List.mem_singleton, true_and]
  refine ⟨m.nodup, fun a ha b hb => ?_⟩
  obtain ⟨e, he, rfl⟩ := List.mem_map.mp ha
  rw [hb]
  exact hk e he

theorem nodup_filter (m : AssocMap κ α) (k : κ) :
    ((m.entries.filter fun e => e.1 ≠ k).map Prod.fst).Nodup :=
  (List.filter_sublist.map Prod.fst).nodup m.nodup

/-- `m[k] = v`. -/
def insert (m : AssocMap κ α) (k : κ) (v : α) : AssocMap κ α :=
  match h : m.find? k with
  | some _ => ⟨assign k v m.entries, m.nodup_assign k v⟩
  | none => ⟨m.entries ++ [(k, v)], m.nodup_snoc v h⟩

def erase (m : AssocMap κ α) (k : κ) : AssocMap κ α :=
  ⟨m.entries.filter fun e => e.1 ≠ k, m.nodup_filter k⟩

/-- The entries whose key and value pass `p`, in their order: what an `EraseIf` loop leaves. -/
def filter (m : AssocMap κ α) (p : κ → α → Bool) : AssocMap κ α :=
  ⟨m.entries.filter fun e => p e.1 e.2, (List.filter_sublist.map Prod.fst).nodup m.nodup⟩

/-- `emplace`: the map with the new entry, or unchanged when the key is there; and whether the
entry went in. -/
def emplace (m : AssocMap κ α) (k : κ) (v : α) : AssocMap κ α × Bool :=
  if m.contains k then (m, false) else (m.insert k v, true)

/-- `operator[]` read: the value, after inserting `d` for a key not there. -/
def index (m : AssocMap κ α) (k : κ) (d : α) : α × AssocMap κ α :=
  match m.find? k with
  | some v => (v, m)
  | none => (d, m.insert k d)

@[simp] theorem find?_empty (k : κ) : (∅ : AssocMap κ α).find? k = none := rfl

theorem find?_insert (m : AssocMap κ α) (j k : κ) (v : α) :
    (m.insert k v).find? j = if j = k then some v else m.find? j := by
  unfold insert
  split
  · rename_i w h
    simp only [find?, lookup_assign]
    by_cases hjk : j = k
    · subst hjk
      simp [find?] at h
      simp [h]
    · simp [hjk]
  · rename_i h
    simp only [find?, lookup_snoc]
    by_cases hjk : j = k
    · subst hjk
      simp [find?] at h
      simp [h]
    · simp [hjk, Ne.symm hjk]

theorem find?_erase (m : AssocMap κ α) (j k : κ) :
    (m.erase k).find? j = if j = k then none else m.find? j :=
  lookup_filter j k m.entries

theorem emplace_of_find?_eq_none (m : AssocMap κ α) {k : κ} (v : α) (h : m.find? k = none) :
    m.emplace k v = (m.insert k v, true) := by
  simp [emplace, contains, h]

theorem contains_insert (m : AssocMap κ α) (j k : κ) (v : α) :
    (m.insert k v).contains j = (decide (j = k) || m.contains j) := by
  by_cases hjk : j = k <;> simp [contains, find?_insert, hjk]

theorem emplace_of_find?_eq_some (m : AssocMap κ α) {k : κ} {v : α} (d : α) (h : m.find? k = some v) :
    m.emplace k d = (m, false) := by
  simp [emplace, contains, h]

theorem index_of_find?_eq_some (m : AssocMap κ α) {k : κ} {v : α} (d : α) (h : m.find? k = some v) :
    m.index k d = (v, m) := by
  simp [index, h]

theorem index_of_find?_eq_none (m : AssocMap κ α) {k : κ} (d : α) (h : m.find? k = none) :
    m.index k d = (d, m.insert k d) := by
  simp [index, h]

theorem find?_emplace (m : AssocMap κ α) (k : κ) (d : α) : (m.emplace k d).1.find? k = some ((m.find? k).getD d) := by
  cases h : m.find? k with
  | none => rw [emplace_of_find?_eq_none m d h, find?_insert, if_pos rfl, Option.getD_none]
  | some v => rw [emplace_of_find?_eq_some m d h, h, Option.getD_some]

theorem index_fst (m : AssocMap κ α) (k : κ) (d : α) : (m.index k d).1 = (m.find? k).getD d := by
  cases h : m.find? k with
  | none => rw [index_of_find?_eq_none m d h, Option.getD_none]
  | some v => rw [index_of_find?_eq_some m d h, Option.getD_some]

theorem find?_index (m : AssocMap κ α) (k : κ) (d : α) : (m.index k d).2.find? k = some (m.index k d).1 := by
  cases h : m.find? k with
  | none => rw [index_of_find?_eq_none m d h, find?_insert, if_pos rfl]
  | some v => rw [index_of_find?_eq_some m d h, h]

/-- Reading `k` with `operator[]` leaves the other keys as they were. -/
theorem find?_index_of_ne (m : AssocMap κ α) {j k : κ} (d : α) (h : j ≠ k) :
    (m.index k d).2.find? j = m.find? j := by
  cases hk : m.find? k with
  | none => rw [index_of_find?_eq_none m d hk, find?_insert, if_neg h]
  | some v => rw [index_of_find?_eq_some m d hk]

theorem erase_of_find?_eq_none (m : AssocMap κ α) {k : κ} (h : m.find? k = none) : (m.erase k).entries = m.entries :=
  List.filter_eq_self.mpr fun e he => decide_eq_true (lookup_eq_none_iff.mp h e he)

theorem filter_assign (k : κ) (v : α) (es : List (κ × α)) :
    (assign k v es).filter (fun e => e.1 ≠ k) = es.filter fun e => e.1 ≠ k := by
  induction es with
  | nil => rfl
  | cons e es ih =>
    by_cases hek : e.1 = k
    · rw [assign, List.map_cons, if_pos hek, List.filter_cons_of_neg (by simp), List.filter_cons_of_neg (by simp [hek])]
      exact ih
    · rw [assign, List.map_cons, if_neg hek, List.filter_cons_of_pos (by simp [hek]),
        List.filter_cons_of_pos (by simp [hek])]
      exact congrArg (e :: ·) ih

/-- Erasing the key just assigned leaves what erasing it from the old map leaves. -/
theorem erase_insert_entries (m : AssocMap κ α) (k : κ) (v : α) :
    ((m.insert k v).erase k).entries = (m.erase k).entries := by
  unfold insert
  split
  · exact filter_assign k v m.entries
  · simp [erase]

section Values

variable {β : Type}

/-- What a function of the entries gives over the whole map is what it gives over the map with
one entry erased, and over that entry. -/
theorem perm_flatMap_lookup (f : κ × α → List β) {k : κ} {v : α} :
    ∀ {es : List (κ × α)}, (es.map Prod.fst).Nodup → lookup k es = some v →
      (es.flatMap f).Perm ((es.filter fun e => e.1 ≠ k).flatMap f ++ f (k, v))
  | [], _, h => by simp [lookup] at h
  | e :: es, hnd, h => by
    rw [List.map_cons, List.nodup_cons] at hnd
    by_cases hek : e.1 = k
    · have hev : e = (k, v) := by
        simp only [lookup, hek, if_true, Option.some.injEq] at h
        rw [← hek, ← h]
      have hrest : es.filter (fun e => e.1 ≠ k) = es := by
        apply List.filter_eq_self.mpr
        intro e' he'
        exact decide_eq_true fun h' => hnd.1 (hek ▸ h' ▸ List.mem_map_of_mem he')
      rw [List.filter_cons_of_neg (by simp [hek]), hrest, List.flatMap_cons, hev]
      exact List.perm_append_comm
    · simp only [lookup, hek, if_false] at h
      rw [List.filter_cons_of_pos (by simp [hek]), List.flatMap_cons, List.flatMap_cons, List.append_assoc]
      exact (perm_flatMap_lookup f hnd.2 h).append_left (f e)

theorem perm_flatMap_of_find? (f : κ × α → List β) {m : AssocMap κ α} {k : κ} {v : α} (h : m.find? k = some v) :
    (m.entries.flatMap f).Perm ((m.erase k).entries.flatMap f ++ f (k, v)) :=
  perm_flatMap_lookup f m.nodup h

theorem perm_flatMap_insert (f : κ × α → List β) (m : AssocMap κ α) (k : κ) (v : α) :
    ((m.insert k v).entries.flatMap f).Perm ((m.erase k).entries.flatMap f ++ f (k, v)) := by
  have h := perm_flatMap_of_find? f (m := m.insert k v) (k := k) (v := v) (by rw [find?_insert, if_pos rfl])
  rwa [erase_insert_entries] at h

end Values

end AssocMap
