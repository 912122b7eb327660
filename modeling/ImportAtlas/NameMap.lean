/-!
Tables from names to values, in increasing order of the names.
-/

set_option autoImplicit false

namespace ImportAtlas

abbrev NameMap (α : Type) := List (String × α)

namespace NameMap

variable {α : Type}

def get? (m : NameMap α) (name : String) : Option α :=
  match m with
  | [] => none
  | (key, value) :: rest => if key = name then some value else get? rest name

def contains (m : NameMap α) (name : String) : Bool :=
  (get? m name).isSome

/-- The table with a value put under a name, in place of any other. -/
def put (m : NameMap α) (name : String) (value : α) : NameMap α :=
  match m with
  | [] => [(name, value)]
  | (key, old) :: rest =>
    if key = name then (name, value) :: rest
    else if name < key then (name, value) :: (key, old) :: rest
    else (key, old) :: put rest name value

/-- The table with a value put under a name that has none; a value already there stays. -/
def putNew (m : NameMap α) (name : String) (value : α) : NameMap α :=
  if contains m name then m else put m name value

def erase (m : NameMap α) (name : String) : NameMap α :=
  m.filter fun (key, _) => key ≠ name

def keys (m : NameMap α) : List String :=
  m.map Prod.fst

@[simp] theorem get?_nil (name : String) : get? ([] : NameMap α) name = none := rfl

theorem get?_put (m : NameMap α) (name other : String) (value : α) :
    get? (put m name value) other = if other = name then some value else get? m other := by
  induction m with
  | nil => simp [put, get?, eq_comm]
  | cons entry rest ih =>
    obtain ⟨key, old⟩ := entry
    simp only [put]
    split
    · rename_i h
      subst h
      by_cases h : other = key <;> simp [get?, h, eq_comm]
    · split
      · by_cases h : other = name
        · simp [get?, h]
        · simp [get?, h, Ne.symm h]
      · simp only [get?, ih]
        by_cases h : key = other
        · subst h
          rename_i hne _
          simp [hne]
        · simp [h]

theorem get?_erase (m : NameMap α) (name other : String) :
    get? (erase m name) other = if other = name then none else get? m other := by
  induction m with
  | nil => simp [erase, get?]
  | cons entry rest ih =>
    obtain ⟨key, old⟩ := entry
    by_cases h : key = name
    · subst h
      have : erase ((key, old) :: rest) key = erase rest key := by simp [erase]
      rw [this, ih]
      by_cases h : other = key
      · simp [h]
      · simp [get?, h, Ne.symm h]
    · have : erase ((key, old) :: rest) name = (key, old) :: erase rest name := by
        simp [erase, h]
      rw [this]
      simp only [get?, ih]
      by_cases h' : key = other
      · subst h'
        simp [h]
      · simp [h']

theorem get?_putNew (m : NameMap α) (name other : String) (value : α) :
    get? (putNew m name value) other =
      if other = name then some ((get? m name).getD value) else get? m other := by
  unfold putNew contains
  cases hm : get? m name with
  | none => simp [get?_put]
  | some old =>
    by_cases h : other = name
    · subst h
      simp [hm]
    · simp [h]

end NameMap

end ImportAtlas
