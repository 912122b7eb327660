import ImportAtlas.NameMap

/-!
Tables in order: each name stands once, so that a table is known by its lookups.
-/

set_option autoImplicit false

namespace ImportAtlas.NameMap

variable {α : Type}

def Ordered (m : NameMap α) : Prop :=
  m.Pairwise fun a b => a.1 < b.1

theorem ordered_nil : Ordered ([] : NameMap α) :=
  List.Pairwise.nil

private theorem lt_of_not_le_of_ne {a b : String} (hne : a ≠ b) (h : ¬ b < a) : a < b := by
  rw [← String.not_le]
  intro hle
  exact hne (String.le_antisymm (String.not_lt.mp h) hle)

private theorem mem_put {m : NameMap α} {name : String} {value : α} {entry : String × α}
    (h : entry ∈ put m name value) : entry = (name, value) ∨ entry ∈ m := by
  induction m with
  | nil => simpa [put] using h
  | cons head rest ih =>
    obtain ⟨key, old⟩ := head
    simp only [put] at h
    split at h
    · rcases List.mem_cons.mp h with rfl | h
      · exact Or.inl rfl
      · exact Or.inr (List.mem_cons_of_mem _ h)
    · split at h
      · rcases List.mem_cons.mp h with rfl | h
        · exact Or.inl rfl
        · exact Or.inr h
      · rcases List.mem_cons.mp h with rfl | h
        · exact Or.inr List.mem_cons_self
        · exact (ih h).imp_right (List.mem_cons_of_mem _)

theorem ordered_put {m : NameMap α} (h : Ordered m) (name : String) (value : α) :
    Ordered (put m name value) := by
  induction m with
  | nil => simp [put, Ordered]
  | cons head rest ih =>
    obtain ⟨key, old⟩ := head
    obtain ⟨above, tail⟩ := List.pairwise_cons.mp h
    simp only [put]
    split
    · rename_i same
      subst same
      exact List.pairwise_cons.mpr ⟨above, tail⟩
    · rename_i different
      split
      · rename_i before
        refine List.pairwise_cons.mpr ⟨?_, h⟩
        intro entry member
        rcases List.mem_cons.mp member with rfl | member
        · exact before
        · exact String.lt_trans before (above entry member)
      · rename_i behind
        refine List.pairwise_cons.mpr ⟨?_, ih tail⟩
        intro entry member
        rcases mem_put member with rfl | member
        · exact lt_of_not_le_of_ne different behind
        · exact above entry member

theorem ordered_filter {m : NameMap α} (h : Ordered m) (p : String × α → Bool) :
    Ordered (m.filter p) :=
  List.Pairwise.filter p h

theorem mem_of_get? {m : NameMap α} {name : String} {value : α} (h : get? m name = some value) :
    (name, value) ∈ m := by
  induction m with
  | nil => simp at h
  | cons head rest ih =>
    obtain ⟨key, old⟩ := head
    simp only [get?] at h
    split at h
    · rename_i same
      obtain rfl := Option.some.inj h
      exact same ▸ List.mem_cons_self
    · exact List.mem_cons_of_mem _ (ih h)

theorem get?_of_mem {m : NameMap α} (ordered : Ordered m) {name : String} {value : α}
    (h : (name, value) ∈ m) : get? m name = some value := by
  induction m with
  | nil => simp at h
  | cons head rest ih =>
    obtain ⟨key, old⟩ := head
    obtain ⟨above, tail⟩ := List.pairwise_cons.mp ordered
    rcases List.mem_cons.mp h with same | member
    · obtain ⟨rfl, rfl⟩ := Prod.mk.inj same
      simp [get?]
    · have different : key ≠ name := String.ne_of_lt (above _ member)
      simp only [get?, different, if_false]
      exact ih tail member

private theorem mem_iff_get? {m : NameMap α} (ordered : Ordered m) {name : String} {value : α} :
    (name, value) ∈ m ↔ get? m name = some value :=
  ⟨get?_of_mem ordered, mem_of_get?⟩

theorem contains_iff_mem_keys {m : NameMap α} {name : String} :
    contains m name ↔ name ∈ keys m := by
  induction m with
  | nil => simp [contains, keys]
  | cons head rest ih =>
    obtain ⟨key, old⟩ := head
    simp only [contains, keys] at ih ⊢
    by_cases same : key = name
    · simp [get?, same]
    · simp only [get?, same, if_false, List.map_cons, List.mem_cons, ih]
      exact ⟨Or.inr, fun h => h.resolve_left (Ne.symm same)⟩

theorem get?_filter {m : NameMap α} (ordered : Ordered m) (p : String × α → Bool) (name : String) :
    get? (m.filter p) name = (get? m name).filter fun value => p (name, value) := by
  cases found : get? m name with
  | none =>
    have absent : get? (m.filter p) name = none := by
      cases kept : get? (m.filter p) name with
      | none => rfl
      | some value =>
        have member := (List.mem_filter.mp (mem_of_get? kept)).1
        rw [get?_of_mem ordered member] at found
        exact absurd found (by simp)
    rw [absent]
    rfl
  | some value =>
    have member := mem_of_get? found
    by_cases keep : p (name, value)
    · rw [get?_of_mem (ordered_filter ordered p) (List.mem_filter.mpr ⟨member, keep⟩)]
      simp [Option.filter, keep]
    · have absent : get? (m.filter p) name = none := by
        cases kept : get? (m.filter p) name with
        | none => rfl
        | some other =>
          obtain ⟨stays, holds⟩ := List.mem_filter.mp (mem_of_get? kept)
          rw [get?_of_mem ordered stays] at found
          obtain rfl := Option.some.inj found
          exact absurd holds keep
      rw [absent]
      simp [Option.filter, keep]

/-- Tables in order with the same lookups are the same. -/
theorem ext {m m' : NameMap α} (h : Ordered m) (h' : Ordered m')
    (same : ∀ name, get? m name = get? m' name) : m = m' := by
  have perm : m.Perm m' := by
    have distinct : ∀ {l : NameMap α}, Ordered l → l.Nodup := by
      intro l ordered
      refine List.Pairwise.imp ?_ ordered
      intro a b below equal
      exact String.lt_irrefl a.1 (equal ▸ below)
    refine (List.perm_ext_iff_of_nodup (distinct h) (distinct h')).mpr ?_
    rintro ⟨name, value⟩
    rw [mem_iff_get? h, mem_iff_get? h', same]
  refine List.Perm.eq_of_pairwise ?_ h h' perm
  intro a b _ _ below above
  exact absurd above (String.lt_asymm below)

theorem get?_map {β : Type} (f : α → β) (m : NameMap α) (name : String) :
    get? (m.map fun entry => (entry.1, f entry.2)) name = (get? m name).map f := by
  induction m with
  | nil => rfl
  | cons head rest ih =>
    obtain ⟨key, value⟩ := head
    simp only [List.map_cons, get?]
    split
    · rfl
    · exact ih

theorem ordered_map {β : Type} (f : α → β) {m : NameMap α} (h : Ordered m) :
    Ordered (m.map fun entry => (entry.1, f entry.2)) :=
  List.pairwise_map.mpr h

theorem keys_eq_keys {m m' : NameMap α} (h : Ordered m) (h' : Ordered m')
    (same : ∀ name, contains m name = contains m' name) : keys m = keys m' := by
  let drop (_ : α) : Unit := ()
  let bare (m : NameMap α) : NameMap Unit := m.map fun entry => (entry.1, drop entry.2)
  have table : bare m = bare m' := by
    refine ext (ordered_map drop h) (ordered_map drop h') ?_
    intro name
    have both := same name
    simp only [bare, get?_map]
    unfold contains at both
    cases found : get? m name <;> cases found' : get? m' name <;> simp [found, found'] at both ⊢
  have names : ∀ m : NameMap α, keys m = keys (bare m) := by
    intro m
    simp only [bare, keys, List.map_map]
    rfl
  rw [names, names, table]

theorem length_put {m : NameMap α} (ordered : Ordered m) (name : String) (value : α) :
    (put m name value).length = if contains m name then m.length else m.length + 1 := by
  induction m with
  | nil => simp [put, contains]
  | cons head rest ih =>
    obtain ⟨key, old⟩ := head
    obtain ⟨above, tail⟩ := List.pairwise_cons.mp ordered
    simp only [put]
    split
    · rename_i same
      simp [contains, get?, same]
    · rename_i different
      split
      · rename_i before
        -- Every entry lies behind the new one, so that none has its name.
        have absent : contains ((key, old) :: rest) name = false := by
          rw [Bool.eq_false_iff, ne_eq, contains_iff_mem_keys]
          intro member
          obtain ⟨found, member, same⟩ := List.mem_map.mp member
          rcases List.mem_cons.mp member with rfl | member
          · exact different same
          · exact String.lt_asymm before (same ▸ above found member)
        simp [absent]
      · have step : contains ((key, old) :: rest) name = contains rest name := by
          simp [contains, get?, different]
        rw [List.length_cons, ih tail, step, List.length_cons]
        split <;> rfl

def lost (m m' : NameMap α) : List String :=
  (keys m).filter fun name => !contains m' name

theorem length_lost (m m' : NameMap α) :
    (lost m m').length = m.countP fun entry => !contains m' entry.1 := by
  rw [lost, keys, List.filter_map, List.length_map, List.countP_eq_length_filter]
  rfl

theorem length_lost_filter {m : NameMap α} (ordered : Ordered m) (p : String × α → Bool) :
    (lost m (m.filter p)).length = m.length - (m.filter p).length := by
  have gone : ∀ entry ∈ m, (!contains (m.filter p) entry.1) = !p entry := by
    rintro ⟨name, value⟩ member
    simp only [contains, get?_filter ordered, get?_of_mem ordered member, Option.isSome_filter,
      Option.any_some]
  have parts : m.length = m.countP p + m.countP fun entry => !p entry := by
    simpa using List.length_eq_countP_add_countP p (l := m)
  calc
    (lost m (m.filter p)).length = m.countP fun entry => !contains (m.filter p) entry.1 :=
      length_lost m _
    _ = m.countP fun entry => !p entry :=
      List.countP_congr fun entry member => by rw [gone entry member]
    _ = m.length - (m.filter p).length := by
      rw [← List.countP_eq_length_filter]
      omega

theorem map_put {β : Type} {m : NameMap α} (ordered : Ordered m) {name : String} {old : α}
    (found : get? m name = some old) {value : α} {f : String × α → β}
    (same : f (name, value) = f (name, old)) : (put m name value).map f = m.map f := by
  induction m with
  | nil => simp at found
  | cons head rest ih =>
    obtain ⟨key, first⟩ := head
    obtain ⟨above, tail⟩ := List.pairwise_cons.mp ordered
    simp only [put]
    split
    · rename_i here
      subst here
      simp only [get?, if_true] at found
      obtain rfl := Option.some.inj found
      rw [List.map_cons, List.map_cons, same]
    · rename_i different
      simp only [get?, different, if_false] at found
      split
      · rename_i before
        exact absurd before (String.lt_asymm (above _ (mem_of_get? found)))
      · rw [List.map_cons, List.map_cons, ih tail found]

end ImportAtlas.NameMap
