import ImportAtlas.Symbol

/-!
What is in a set of symbols after insertions, by the symbols themselves and by their identities. No
two symbols of a set have one identity; of the symbols of a list the first of each identity is kept.
-/

set_option autoImplicit false

namespace ImportAtlas.SymbolSet

def ids (s : SymbolSet) : List SymbolId :=
  s.toList.map Symbol.id

def ofList (xs : List Symbol) : SymbolSet :=
  ⟨xs, xs.map Symbol.id, rfl⟩

@[simp] theorem ofList_toList (s : SymbolSet) : ofList s.toList = s :=
  SymbolSet.ext rfl

theorem mem_insert {s : SymbolSet} {x y : Symbol} (h : y ∈ (s.insert x).toList) :
    y ∈ s.toList ∨ y = x := by
  unfold insert at h
  split at h
  · exact Or.inl h
  · simpa using h

private theorem mem_insert_of_mem {s : SymbolSet} {y : Symbol} (x : Symbol) (h : y ∈ s.toList) :
    y ∈ (s.insert x).toList := by
  unfold insert
  split
  · exact h
  · exact List.mem_append_left _ h

private theorem mem_ids_insert {s : SymbolSet} {x : Symbol} {a : SymbolId} :
    a ∈ (s.insert x).ids ↔ a ∈ s.ids ∨ a = x.id := by
  cases present : s.contains x with
  | true =>
    rw [insert_of_contains present]
    refine ⟨Or.inl, ?_⟩
    rintro (old | rfl)
    · exact old
    · exact contains_iff.mp present
  | false => simp [ids, toList_insert_of_not_contains present]

theorem mem_insertAll {s : SymbolSet} {xs : List Symbol} {y : Symbol}
    (h : y ∈ (s.insertAll xs).toList) : y ∈ s.toList ∨ y ∈ xs := by
  induction xs generalizing s with
  | nil => exact Or.inl h
  | cons x xs ih =>
    rcases ih h with before | later
    · rcases mem_insert before with old | rfl
      · exact Or.inl old
      · exact Or.inr List.mem_cons_self
    · exact Or.inr (List.mem_cons_of_mem _ later)

theorem mem_insertAll_of_mem {s : SymbolSet} {y : Symbol} (xs : List Symbol)
    (h : y ∈ s.toList) : y ∈ (s.insertAll xs).toList := by
  induction xs generalizing s with
  | nil => exact h
  | cons x xs ih => exact ih (mem_insert_of_mem x h)

theorem mem_ids_insertAll {s : SymbolSet} {xs : List Symbol} {a : SymbolId} :
    a ∈ (s.insertAll xs).ids ↔ a ∈ s.ids ∨ a ∈ xs.map Symbol.id := by
  induction xs generalizing s with
  | nil => simp
  | cons x xs ih =>
    rw [insertAll_cons, ih, mem_ids_insert, List.map_cons, List.mem_cons, or_assoc]

theorem nodup_ids_empty : empty.ids.Nodup :=
  List.nodup_nil

theorem nodup_ids_insert {s : SymbolSet} (h : s.ids.Nodup) (x : Symbol) :
    (s.insert x).ids.Nodup := by
  cases present : s.contains x with
  | true => rwa [insert_of_contains present]
  | false =>
    have absent : x.id ∉ s.ids := fun member => Bool.false_ne_true
      (present.symm.trans (contains_iff.mpr member))
    rw [ids, toList_insert_of_not_contains present, List.map_append, List.nodup_append]
    refine ⟨h, List.nodup_cons.mpr ⟨List.not_mem_nil, List.nodup_nil⟩, ?_⟩
    rintro a member b own rfl
    rw [List.map_singleton, List.mem_singleton] at own
    exact absent (own ▸ member)

theorem nodup_ids_insertAll {s : SymbolSet} (h : s.ids.Nodup) (xs : List Symbol) :
    (s.insertAll xs).ids.Nodup := by
  induction xs generalizing s with
  | nil => exact h
  | cons x xs ih => exact ih (nodup_ids_insert h x)

theorem toList_insertAll_of_nodup {s : SymbolSet} {xs : List Symbol}
    (h : (s.ids ++ xs.map Symbol.id).Nodup) : (s.insertAll xs).toList = s.toList ++ xs := by
  induction xs generalizing s with
  | nil => rw [insertAll_nil, List.append_nil]
  | cons x xs ih =>
    have absent : s.contains x = false := by
      rw [Bool.eq_false_iff]
      intro present
      exact (List.nodup_append.mp h).2.2 _ (contains_iff.mp present) _ List.mem_cons_self rfl
    have inserted := toList_insert_of_not_contains absent
    have rest : ((s.insert x).ids ++ xs.map Symbol.id).Nodup := by
      rw [ids, inserted, List.map_append, List.append_assoc]
      exact h
    rw [insertAll_cons, ih rest, inserted, List.append_assoc, List.singleton_append]

/-! ### The first symbol of each identity -/

/-- The symbols of a list without those that have the identity of an earlier one. -/
def firsts (xs : List Symbol) : List Symbol :=
  (empty.insertAll xs).toList

theorem nodup_ids_firsts (xs : List Symbol) : ((firsts xs).map Symbol.id).Nodup :=
  nodup_ids_insertAll nodup_ids_empty xs

private theorem contains_insert (s : SymbolSet) (x y : Symbol) :
    (s.insert x).contains y = (s.contains y || y.id == x.id) := by
  rw [Bool.eq_iff_iff, Bool.or_eq_true, beq_iff_eq, contains_iff, contains_iff]
  exact mem_ids_insert

/-- What a list adds to a set are its symbols that are not in the set, without those that have the
identity of an earlier one. -/
theorem toList_insertAll (s : SymbolSet) (xs : List Symbol) :
    (s.insertAll xs).toList =
      s.toList ++ (xs.filter fun x => !s.contains x).eraseDupsBy fun x y => x.id == y.id := by
  induction xs generalizing s with
  | nil => simp
  | cons x xs ih =>
    rw [insertAll_cons]
    cases present : s.contains x with
    | true => rw [insert_of_contains present, ih, List.filter_cons_of_neg (by simp [present])]
    | false =>
      have left : (fun y => decide ((y.id == x.id) = false) && !s.contains y) =
          fun y => !(s.insert x).contains y := by
        funext y
        rw [contains_insert]
        cases y.id == x.id <;> simp
      rw [ih, toList_insert_of_not_contains present, List.filter_cons_of_pos (by simp [present]),
        List.eraseDupsBy_cons, List.filter_filter, left, List.append_assoc, List.singleton_append]

theorem firsts_eq_eraseDupsBy (xs : List Symbol) :
    firsts xs = xs.eraseDupsBy fun x y => x.id == y.id := by
  rw [firsts, toList_insertAll, toList_empty, List.nil_append, List.filter_eq_self.mpr]
  exact fun _ _ => rfl

private theorem insertAll_toList_insert (s t : SymbolSet) (x : Symbol) :
    s.insertAll (t.insert x).toList = (s.insertAll t.toList).insert x := by
  cases present : t.contains x with
  | true =>
    have kept : (s.insertAll t.toList).contains x :=
      contains_iff.mpr (mem_ids_insertAll.mpr (Or.inr (contains_iff.mp present)))
    rw [insert_of_contains present, insert_of_contains kept]
  | false =>
    rw [toList_insert_of_not_contains present, insertAll_append, insertAll_cons, insertAll_nil]

private theorem insertAll_toList_insertAll (s t : SymbolSet) (xs : List Symbol) :
    s.insertAll (t.insertAll xs).toList = (s.insertAll t.toList).insertAll xs := by
  induction xs generalizing t with
  | nil => rfl
  | cons x xs ih => rw [insertAll_cons, ih, insertAll_toList_insert, insertAll_cons]

private theorem insertAll_firsts (s : SymbolSet) (xs : List Symbol) :
    s.insertAll (firsts xs) = s.insertAll xs := by
  rw [firsts, insertAll_toList_insertAll, toList_empty, insertAll_nil]

theorem firsts_append (xs ys : List Symbol) :
    firsts (xs ++ ys) = firsts (firsts xs ++ firsts ys) := by
  rw [firsts, firsts, insertAll_append, insertAll_append, insertAll_firsts, insertAll_firsts]

theorem mem_of_mem_firsts {xs : List Symbol} {x : Symbol} (h : x ∈ firsts xs) : x ∈ xs := by
  rcases mem_insertAll h with none | listed
  · exact absurd none List.not_mem_nil
  · exact listed

theorem exists_mem_firsts {xs : List Symbol} {x : Symbol} (h : x ∈ xs) :
    ∃ y ∈ firsts xs, y.id = x.id :=
  List.mem_map.mp (mem_ids_insertAll.mpr (Or.inr (List.mem_map_of_mem h)))

private theorem mem_insert_cases {s : SymbolSet} {x y : Symbol} (h : y ∈ (s.insert x).toList) :
    y ∈ s.toList ∨ y = x ∧ x.id ∉ s.ids := by
  cases present : s.contains x with
  | true =>
    rw [insert_of_contains present] at h
    exact Or.inl h
  | false =>
    rcases mem_insert h with old | new
    · exact Or.inl old
    · refine Or.inr ⟨new, fun member => ?_⟩
      rw [contains_iff.mpr member] at present
      exact Bool.noConfusion present

private theorem mem_insertAll_cases {s : SymbolSet} {xs : List Symbol} {y : Symbol}
    (h : y ∈ (s.insertAll xs).toList) :
    y ∈ s.toList ∨ y.id ∉ s.ids ∧ xs.find? (·.id = y.id) = some y := by
  induction xs generalizing s with
  | nil => exact Or.inl h
  | cons x xs ih =>
    rcases ih h with before | ⟨absent, first⟩
    · rcases mem_insert_cases before with old | ⟨rfl, absent⟩
      · exact Or.inl old
      · exact Or.inr ⟨absent, List.find?_cons_of_pos (decide_eq_true rfl)⟩
    · rw [mem_ids_insert, not_or] at absent
      have other : ¬x.id = y.id := fun same => absent.2 same.symm
      exact Or.inr ⟨absent.1, (List.find?_cons_of_neg (by simpa using other)).trans first⟩

/-- A symbol that is kept is the first of its identity. -/
theorem find?_of_mem_firsts {xs : List Symbol} {x : Symbol} (h : x ∈ firsts xs) :
    xs.find? (·.id = x.id) = some x := by
  rcases mem_insertAll_cases h with none | ⟨-, first⟩
  · exact absurd none List.not_mem_nil
  · exact first

theorem map_firsts {f : Symbol → Symbol} (same : ∀ x, (f x).id = x.id) (xs : List Symbol) :
    (firsts xs).map f = firsts (xs.map f) := by
  suffices all : ∀ s : SymbolSet, (s.insertAll xs).toList.map f =
      ((ofList (s.toList.map f)).insertAll (xs.map f)).toList from all empty
  induction xs with
  | nil => exact fun _ => rfl
  | cons x xs ih =>
    intro s
    have step : (ofList (s.toList.map f)).insert (f x) = ofList ((s.insert x).toList.map f) := by
      have contained : (ofList (s.toList.map f)).contains (f x) = s.contains x := by
        rw [Bool.eq_iff_iff, contains_iff, contains_iff]
        simp [ofList, Function.comp_def, same]
      apply ext
      cases present : s.contains x with
      | true => rw [insert_of_contains (contained.trans present), insert_of_contains present]
      | false =>
        rw [toList_insert_of_not_contains (contained.trans present)]
        simp [ofList, toList_insert_of_not_contains present]
    rw [insertAll_cons, ih, List.map_cons, insertAll_cons, step]

end ImportAtlas.SymbolSet
