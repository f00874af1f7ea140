/-!
# Maps that keep the order of insertion

An `OrderedMap` is a list of entries without repeated keys. Inserting a key anew puts its entry
last; inserting a key that is present replaces the value and leaves the entry where it is.

The view of a map is its list of `entries`, and `get?` looks a key up in it: `get?_insert_self`
and `get?_insert_of_ne` describe `insert` through that view.
-/

namespace CommandGrammar

/-- A finite map in insertion order. -/
structure OrderedMap (κ ν : Type) where
  entries : List (κ × ν)
  nodup : (entries.map Prod.fst).Nodup

namespace OrderedMap

variable {κ ν : Type}

@[ext] theorem ext {a b : OrderedMap κ ν} (h : a.entries = b.entries) : a = b := by
  cases a; cases b; simp_all

/-- The map without entries. -/
def empty : OrderedMap κ ν := ⟨[], List.nodup_nil⟩

instance : Inhabited (OrderedMap κ ν) := ⟨empty⟩

/-- The keys, in order. -/
def keys (m : OrderedMap κ ν) : List κ := m.entries.map Prod.fst

/-- The values, in order. -/
def values (m : OrderedMap κ ν) : List ν := m.entries.map Prod.snd

/-- The number of entries. -/
def size (m : OrderedMap κ ν) : Nat := m.entries.length

variable [DecidableEq κ]

/-- The value of a key. -/
def get? (m : OrderedMap κ ν) (k : κ) : Option ν := m.entries.lookup k

/-- Whether a key has a value. -/
def contains (m : OrderedMap κ ν) (k : κ) : Bool := m.keys.contains k

/-! ## Insertion -/

/-- The entries with the value of `k` replaced, or with a new entry at the end. -/
def setEntry (k : κ) (v : ν) : List (κ × ν) → List (κ × ν)
  | [] => [(k, v)]
  | e :: rest => if e.1 = k then (k, v) :: rest else e :: setEntry k v rest

theorem keys_setEntry (k : κ) (v : ν) (es : List (κ × ν)) :
    (setEntry k v es).map Prod.fst
      = if k ∈ es.map Prod.fst then es.map Prod.fst else es.map Prod.fst ++ [k] := by
  induction es with
  | nil => simp [setEntry]
  | cons e rest ih =>
    by_cases he : e.1 = k
    · simp [setEntry, he]
    · have hk : ¬ k = e.1 := fun h => he h.symm
      by_cases hm : k ∈ rest.map Prod.fst <;> simp_all [setEntry]

theorem nodup_setEntry (k : κ) (v : ν) {es : List (κ × ν)} (h : (es.map Prod.fst).Nodup) :
    ((setEntry k v es).map Prod.fst).Nodup := by
  rw [keys_setEntry]
  split
  · exact h
  · next hk =>
    refine List.nodup_append.2 ⟨h, by simp, fun a ha b hb => ?_⟩
    rintro rfl
    exact hk (by simp_all)

/-- The map with the value of `k` set to `v`. -/
def insert (m : OrderedMap κ ν) (k : κ) (v : ν) : OrderedMap κ ν :=
  ⟨setEntry k v m.entries, nodup_setEntry k v m.nodup⟩

/-- The map that the entries lead to when they are inserted one after another. -/
def ofList (es : List (κ × ν)) : OrderedMap κ ν :=
  es.foldl (fun m e => m.insert e.1 e.2) empty

theorem lookup_setEntry_self (k : κ) (v : ν) (es : List (κ × ν)) :
    (setEntry k v es).lookup k = some v := by
  induction es with
  | nil => simp [setEntry]
  | cons e rest ih =>
    obtain ⟨key, old⟩ := e
    by_cases he : key = k
    · simp [setEntry, he]
    · have hk : (k == key) = false := by simpa using fun h : k = key => he h.symm
      simp [setEntry, he, List.lookup_cons, hk, ih]

theorem lookup_setEntry_of_ne {k k' : κ} (h : k' ≠ k) (v : ν) (es : List (κ × ν)) :
    (setEntry k v es).lookup k' = es.lookup k' := by
  have hk : (k' == k) = false := by simpa using h
  induction es with
  | nil => simp [setEntry, List.lookup_cons, hk]
  | cons e rest ih =>
    obtain ⟨key, old⟩ := e
    by_cases he : key = k
    · subst he
      simp [setEntry, List.lookup_cons, hk]
    · simp [setEntry, he, List.lookup_cons, ih]

/-- **The inserted key has the inserted value.** -/
@[simp] theorem get?_insert_self (m : OrderedMap κ ν) (k : κ) (v : ν) :
    (m.insert k v).get? k = some v :=
  lookup_setEntry_self k v m.entries

/-- **Every other key keeps its value.** -/
theorem get?_insert_of_ne {k k' : κ} (h : k' ≠ k) (m : OrderedMap κ ν) (v : ν) :
    (m.insert k v).get? k' = m.get? k' :=
  lookup_setEntry_of_ne h v m.entries

/-- A new key is put last. -/
theorem entries_insert_of_not_mem {m : OrderedMap κ ν} {k : κ} (h : k ∉ m.keys) (v : ν) :
    (m.insert k v).entries = m.entries ++ [(k, v)] := by
  have aux : ∀ es : List (κ × ν), k ∉ es.map Prod.fst → setEntry k v es = es ++ [(k, v)] := by
    intro es
    induction es with
    | nil => intro _; rfl
    | cons e rest ih =>
      intro hk
      have he : ¬ e.1 = k := fun he => hk (by simp [he])
      have hrest : k ∉ rest.map Prod.fst := fun hm => hk (List.mem_cons_of_mem _ hm)
      rw [setEntry, if_neg he, ih hrest]
      rfl
  exact aux m.entries h

/-- **Entries with different keys are the entries of the map that they lead to**, in their order. -/
theorem entries_ofList {es : List (κ × ν)} (h : (es.map Prod.fst).Nodup) : (ofList es).entries = es := by
  -- What has been inserted so far stands in front of what follows.
  have aux : ∀ (es : List (κ × ν)) (m : OrderedMap κ ν), (m.keys ++ es.map Prod.fst).Nodup →
      (es.foldl (fun m e => m.insert e.1 e.2) m).entries = m.entries ++ es := by
    intro es
    induction es with
    | nil => intro m _; simp
    | cons e rest ih =>
      intro m hm
      have hsplit := List.nodup_append.1 hm
      have hnew : e.1 ∉ m.keys := fun hk => hsplit.2.2 e.1 hk e.1 (by simp) rfl
      have hentries := entries_insert_of_not_mem hnew e.2
      have hkeys : (m.insert e.1 e.2).keys = m.keys ++ [e.1] := by
        simp [keys, hentries]
      rw [List.foldl_cons, ih _ (by rw [hkeys]; simpa using hm), hentries, List.append_assoc]
      rfl
  exact aux es empty h

theorem eq_or_mem_of_mem_setEntry {k : κ} {v : ν} {es : List (κ × ν)} {e : κ × ν}
    (h : e ∈ setEntry k v es) : e = (k, v) ∨ e ∈ es := by
  induction es with
  | nil => exact Or.inl (List.mem_singleton.mp h)
  | cons e' rest ih =>
    by_cases hk : e'.1 = k
    · rw [setEntry, if_pos hk] at h
      exact (List.mem_cons.mp h).imp_right (List.mem_cons_of_mem e')
    · rw [setEntry, if_neg hk] at h
      rcases List.mem_cons.mp h with rfl | h
      · exact Or.inr List.mem_cons_self
      · exact (ih h).imp_right (List.mem_cons_of_mem e')

/-- A map has no other entries than those that have been inserted. -/
theorem mem_of_mem_ofList {es : List (κ × ν)} {e : κ × ν} (h : e ∈ (ofList es).entries) : e ∈ es := by
  have aux : ∀ (es : List (κ × ν)) (m : OrderedMap κ ν),
      e ∈ (es.foldl (fun m e => m.insert e.1 e.2) m).entries → e ∈ m.entries ∨ e ∈ es := by
    intro es
    induction es with
    | nil => exact fun m hm => Or.inl hm
    | cons e' rest ih =>
      intro m hm
      rcases ih _ hm with hm | hm
      · rcases eq_or_mem_of_mem_setEntry hm with rfl | hm
        · exact Or.inr List.mem_cons_self
        · exact Or.inl hm
      · exact Or.inr (List.mem_cons_of_mem e' hm)
  exact (aux es empty h).resolve_left (by simp [empty])

/-! ## Comparison -/

/-- Whether two maps give every key the same value, whatever the order of their entries. -/
def sameEntries [BEq ν] (a b : OrderedMap κ ν) : Bool :=
  a.size == b.size && a.entries.all fun e => b.get? e.1 == some e.2

end OrderedMap

end CommandGrammar
