import ImportAtlas.Disk
import ImportAtlas.Proofs.NormalPath

/-!
The way to a file goes through directories and links only. So it stays the same on every file system
that has all these directories and links too, whatever else it has.
-/

set_option autoImplicit false

namespace ImportAtlas

def Entry.isFile : Entry → Bool
  | .file _ => true
  | _ => false

def Entry.isLink : Entry → Bool
  | .link _ => true
  | _ => false

private theorem Path.getLast?_child (p : Path) {name : String} (h : IsName name) :
    (p.child name).text.toList.getLast? ≠ some '/' := by
  rw [child_of_isName p h, String.toList_append, List.getLast?_append_of_ne_nil _ h.toList_ne_nil]
  exact fun ends => h.2.2.2 (List.mem_of_getLast? ends)

namespace Disk

/-! Entries. -/

private theorem lookup_filter {β : Type} (keep : Location → Bool) (entries : List (Location × β))
    (location : Location) :
    (entries.filter fun entry => keep entry.1).lookup location =
      if keep location then entries.lookup location else none := by
  induction entries with
  | nil => simp
  | cons entry entries ih =>
    obtain ⟨place, value⟩ := entry
    by_cases same : location = place
    · subst same
      by_cases kept : keep location = true
      · simp [kept]
      · simp [kept, ih]
    · by_cases kept : keep place = true
      · simp [kept, List.lookup_cons, beq_false_of_ne same, ih]
      · simp [kept, List.lookup_cons, beq_false_of_ne same, ih]

private theorem mem_of_lookup {β : Type} {entries : List (Location × β)} {location : Location}
    {value : β} (h : entries.lookup location = some value) : (location, value) ∈ entries := by
  induction entries with
  | nil => simp at h
  | cons entry entries ih =>
    obtain ⟨place, other⟩ := entry
    by_cases same : location = place
    · subst same
      rw [List.lookup_cons_self] at h
      obtain rfl := Option.some.inj h
      exact List.mem_cons_self
    · rw [List.lookup_cons, beq_false_of_ne same] at h
      exact List.mem_cons_of_mem _ (ih h)

variable {d d' : Disk} {location : Location}

theorem mem_entries_put {entry : Entry} {other : Location × Entry}
    (h : other ∈ (d.put location entry).entries) : other ∈ d.entries ∨ other = (location, entry) := by
  unfold put at h
  split at h
  · rcases List.mem_append.mp h with old | new
    · exact Or.inl (List.mem_filter.mp old).1
    · exact Or.inr (List.mem_singleton.mp new)
  · exact Or.inl h

theorem entries_dropTree :
    (d.dropTree location).entries =
      d.entries.filter fun other => !location.isPrefixOf other.1 := rfl

theorem cwd_put (d : Disk) (location : Location) (entry : Entry) :
    (d.put location entry).cwd = d.cwd := by
  unfold put
  split <;> rfl

theorem cwd_ofEntries (cwd : Path) (entries : List (Location × Entry)) :
    (ofEntries cwd entries).cwd = cwd :=
  List.foldlRecOn (motive := fun d : Disk => d.cwd = cwd) entries _ rfl fun d before entry _ =>
    (cwd_put d entry.1 entry.2).trans before

theorem mem_of_entryAt {entry : Entry} (nonempty : location ≠ [])
    (h : d.entryAt location = some entry) : (location, entry) ∈ d.entries := by
  rw [entryAt, if_neg nonempty] at h
  exact mem_of_lookup h

theorem entryAt_put_other {other : Location} (apart : other ≠ location) (entry : Entry) :
    (d.put location entry).entryAt other = d.entryAt other := by
  unfold put
  split
  · have others := lookup_filter (fun place => decide (place ≠ location)) d.entries other
    rw [if_pos (decide_eq_true apart)] at others
    unfold entryAt
    split
    · rfl
    · rw [List.lookup_append, others]
      simp [List.lookup_cons, beq_false_of_ne apart]
  · rfl

theorem entryAt_put_self (possible : Possible location) (nonempty : location ≠ []) (entry : Entry) :
    (d.put location entry).entryAt location = some entry := by
  have others := lookup_filter (fun place => decide (place ≠ location)) d.entries location
  rw [put, dif_pos possible, entryAt, if_neg nonempty, List.lookup_append, others]
  simp

theorem entryAt_put_cases (d : Disk) (location : Location) (entry : Entry) (other : Location) :
    (d.put location entry).entryAt other = d.entryAt other ∨
      other = location ∧ (d.put location entry).entryAt other = some entry := by
  by_cases apart : other = location
  · subst apart
    by_cases possible : Possible other
    · by_cases root : other = []
      · exact Or.inl (by simp [entryAt, root])
      · exact Or.inr ⟨rfl, entryAt_put_self possible root entry⟩
    · exact Or.inl (by rw [put, dif_neg possible])
  · exact Or.inl (entryAt_put_other apart entry)

theorem entryAt_dropTree (nonempty : location ≠ []) (other : Location) :
    (d.dropTree location).entryAt other =
      if location <+: other then none else d.entryAt other := by
  have others := lookup_filter (fun place => !location.isPrefixOf place) d.entries other
  by_cases root : other = []
  · simp [entryAt, root, nonempty]
  · rw [entryAt, if_neg root, entries_dropTree, others, entryAt, if_neg root]
    by_cases below : location <+: other
    · simp [below, List.isPrefixOf_iff_prefix.mpr below]
    · simp [below, Bool.eq_false_iff.mpr (mt List.isPrefixOf_iff_prefix.mp below)]

/-- Whether all directories and links of a file system are in another one too. -/
structure Within (d d' : Disk) : Prop where
  cwd : d'.cwd = d.cwd
  entryAt : ∀ location entry, entry.isFile = false → d.entryAt location = some entry →
    d'.entryAt location = some entry

def Vacant (d : Disk) (location : Location) : Prop :=
  ∀ entry ∈ d.entries, ¬location <+: entry.1

private theorem vacant_dropTree (d : Disk) (location : Location) :
    (d.dropTree location).Vacant location := by
  intro entry member below
  rw [entries_dropTree] at member
  have kept := (List.mem_filter.mp member).2
  rw [List.isPrefixOf_iff_prefix.mpr below] at kept
  exact absurd kept (by simp)

private theorem Vacant.dropTree (h : d.Vacant location) (other : Location) :
    (d.dropTree other).Vacant location := by
  intro entry member
  rw [entries_dropTree] at member
  exact h entry (List.mem_filter.mp member).1

private theorem Vacant.entryAt_eq_none (h : d.Vacant location) (nonempty : location ≠ [])
    {other : Location} (below : location <+: other) : d.entryAt other = none := by
  have elsewhere : other ≠ [] := by
    rintro rfl
    exact nonempty (List.prefix_nil.mp below)
  cases found : d.entryAt other with
  | none => rfl
  | some entry =>
    rw [entryAt, if_neg elsewhere] at found
    exact absurd below (h _ (mem_of_lookup found))

namespace Within

theorem refl (d : Disk) : d.Within d :=
  ⟨rfl, fun _ _ _ found => found⟩

theorem trans {d'' : Disk} (h : d.Within d') (h' : d'.Within d'') : d.Within d'' :=
  ⟨h'.cwd.trans h.cwd, fun location entry solid found =>
    h'.entryAt location entry solid (h.entryAt location entry solid found)⟩

private theorem of_dropTree (d : Disk) (nonempty : location ≠ []) :
    (d.dropTree location).Within d := by
  refine ⟨rfl, fun other entry _ found => ?_⟩
  rw [entryAt_dropTree nonempty] at found
  split at found
  · exact absurd found (by simp)
  · exact found

variable {base : Disk}

theorem put (h : base.Within d) (vacant : base.Vacant location) (nonempty : location ≠ [])
    (entry : Entry) : base.Within (d.put location entry) := by
  refine ⟨(cwd_put d location entry).trans h.cwd, fun place other solid found => ?_⟩
  have apart : place ≠ location := by
    rintro rfl
    rw [vacant.entryAt_eq_none nonempty (List.prefix_refl _)] at found
    exact absurd found (by simp)
  rw [entryAt_put_other apart]
  exact h.entryAt place other solid found

theorem dropTree (h : base.Within d) (vacant : base.Vacant location) (nonempty : location ≠ []) :
    base.Within (d.dropTree location) := by
  refine ⟨h.cwd, fun place other solid found => ?_⟩
  have apart : ¬location <+: place := by
    intro below
    rw [vacant.entryAt_eq_none nonempty below] at found
    exact absurd found (by simp)
  rw [entryAt_dropTree nonempty, if_neg apart]
  exact h.entryAt place other solid found

end Within

/-! Walks step by step. -/

section Walk

variable {follow : Bool} {links : Nat} {here place : Location} {name : String} {target : Path}
  {rest : List Component}

@[simp] theorem walk_nil : d.walk follow links here [] = .ok ⟨here, d.entryAt here, links⟩ := by
  cases links <;> rfl

@[simp] theorem walk_root : d.walk follow links here (.root :: rest) =
    d.walk follow links [] rest := by
  cases links <;> rfl

@[simp] theorem walk_current :
    d.walk follow links here (.current :: rest) = d.walk follow links here rest := by
  cases links <;> rfl

@[simp] theorem walk_parent :
    d.walk follow links here (.parent :: rest) = d.walk follow links here.dropLast rest := by
  cases links <;> rfl

theorem walk_of_none (found : d.entryAt (here ++ [name]) = none) :
    d.walk follow links here (.normal name :: rest) =
      if rest.isEmpty then .ok ⟨here ++ [name], none, links⟩ else .error .notFound := by
  cases links <;> simp only [walk, advance, found]

theorem walk_of_dir (found : d.entryAt (here ++ [name]) = some .dir) :
    d.walk follow links here (.normal name :: rest) = d.walk follow links (here ++ [name]) rest := by
  cases links <;> simp only [walk, advance, found]

theorem walk_of_file {bytes : List UInt8}
    (found : d.entryAt (here ++ [name]) = some (.file bytes)) :
    d.walk follow links here (.normal name :: rest) =
      if rest.isEmpty then .ok ⟨here ++ [name], some (.file bytes), links⟩
      else .error .notDirectory := by
  cases links <;> simp only [walk, advance, found]

private theorem walk_of_link (found : d.entryAt (here ++ [name]) = some (.link target)) :
    d.walk follow links here (.normal name :: rest) =
      if rest.isEmpty && !follow then .ok ⟨here ++ [name], some (.link target), links⟩
      else
        match links with
        | 0 => .error .linkLoop
        | links + 1 => d.walk follow links here (target.components ++ rest) := by
  cases links <;> simp only [walk, advance, found]

theorem walk_last
    (free : follow = false ∨ ∀ target, d.entryAt (here ++ [name]) ≠ some (.link target)) :
    d.walk follow links here [.normal name] =
      .ok ⟨here ++ [name], d.entryAt (here ++ [name]), links⟩ := by
  cases found : d.entryAt (here ++ [name]) with
  | none => simp [walk_of_none found]
  | some entry =>
    cases entry with
    | dir => simp [walk_of_dir found, found]
    | file bytes => simp [walk_of_file found]
    | link target =>
      rcases free with rfl | no_link
      · simp [walk_of_link found]
      · exact absurd found (no_link target)

end Walk

/-- Induction along a walk: there is one step less ahead, or a link has been entered and there are
other steps. -/
@[elab_as_elim]
private theorem walk_induction {P : Nat → List Component → Prop} (done : ∀ links, P links [])
    (next : ∀ links step rest, P links rest → (∀ fewer < links, ∀ steps, P fewer steps) →
      P links (step :: rest))
    (links : Nat) (steps : List Component) : P links steps := by
  induction links using Nat.strongRecOn generalizing steps with
  | ind links entered =>
    induction steps with
    | nil => exact done links
    | cons step rest ahead => exact next links step rest ahead entered

/-- How a walk comes to its end. -/
inductive Walks (d : Disk) (follow : Bool) : Nat → Location → List Component → Stop → Prop
  | done (links : Nat) (here : Location) : Walks d follow links here [] ⟨here, d.entryAt here, links⟩
  | root {links : Nat} {here : Location} {rest : List Component} {stop : Stop}
      (ahead : Walks d follow links [] rest stop) : Walks d follow links here (.root :: rest) stop
  | current {links : Nat} {here : Location} {rest : List Component} {stop : Stop}
      (ahead : Walks d follow links here rest stop) :
      Walks d follow links here (.current :: rest) stop
  | parent {links : Nat} {here : Location} {rest : List Component} {stop : Stop}
      (ahead : Walks d follow links here.dropLast rest stop) :
      Walks d follow links here (.parent :: rest) stop
  | dir {links : Nat} {here : Location} {name : String} {rest : List Component} {stop : Stop}
      (found : d.entryAt (here ++ [name]) = some .dir)
      (ahead : Walks d follow links (here ++ [name]) rest stop) :
      Walks d follow links here (.normal name :: rest) stop
  | link {links : Nat} {here : Location} {name : String} {target : Path} {rest : List Component}
      {stop : Stop} (found : d.entryAt (here ++ [name]) = some (.link target))
      (followed : rest = [] → follow)
      (ahead : Walks d follow links here (target.components ++ rest) stop) :
      Walks d follow (links + 1) here (.normal name :: rest) stop
  | last (links : Nat) {here : Location} {name : String}
      (free : follow = false ∨ ∀ target, d.entryAt (here ++ [name]) ≠ some (.link target)) :
      Walks d follow links here [.normal name] ⟨here ++ [name], d.entryAt (here ++ [name]), links⟩

theorem walks_of_walk {follow : Bool} {links : Nat} {here : Location} {steps : List Component}
    {stop : Stop} (h : d.walk follow links here steps = .ok stop) :
    d.Walks follow links here steps stop := by
  induction links, steps using walk_induction generalizing here with
  | done links =>
    rw [walk_nil] at h
    exact Except.ok.inj h ▸ .done links here
  | next links step rest ahead entered =>
    cases step with
    | root => exact .root (ahead (walk_root ▸ h))
    | current => exact .current (ahead (walk_current ▸ h))
    | parent => exact .parent (ahead (walk_parent ▸ h))
    | normal name =>
      have ends (entry : Option Entry) (found : d.entryAt (here ++ [name]) = entry)
          (free : follow = false ∨ ∀ target, entry ≠ some (.link target)) (finished : rest = [])
          (same : (⟨here ++ [name], entry, links⟩ : Stop) = stop) :
          d.Walks follow links here (.normal name :: rest) stop := by
        subst found finished same
        exact .last links free
      cases found : d.entryAt (here ++ [name]) with
      | none =>
        rw [walk_of_none found] at h
        split at h
        · rename_i finished
          exact ends _ found (by simp) (List.isEmpty_iff.mp finished) (Except.ok.inj h)
        · exact absurd h (by simp)
      | some entry =>
        cases entry with
        | dir => exact .dir found (ahead (walk_of_dir found ▸ h))
        | file bytes =>
          rw [walk_of_file found] at h
          split at h
          · rename_i finished
            exact ends _ found (by simp) (List.isEmpty_iff.mp finished) (Except.ok.inj h)
          · exact absurd h (by simp)
        | link target =>
          rw [walk_of_link found] at h
          split at h
          · rename_i finished
            obtain ⟨finished, left_alone⟩ := Bool.and_eq_true_iff.mp finished
            exact ends _ found (Or.inl (by simpa using left_alone)) (List.isEmpty_iff.mp finished)
              (Except.ok.inj h)
          · rename_i going
            cases links with
            | zero => exact absurd h (by simp)
            | succ links =>
              refine .link found (fun finished => ?_) (entered links (Nat.lt_succ_self _) _ h)
              simpa [finished] using going

theorem Walks.walk_eq {follow : Bool} {links : Nat} {here : Location} {steps : List Component}
    {stop : Stop} (h : d.Walks follow links here steps stop) :
    d.walk follow links here steps = .ok stop := by
  induction h with
  | done links here => exact walk_nil
  | root _ ih => exact walk_root.trans ih
  | current _ ih => exact walk_current.trans ih
  | parent _ ih => exact walk_parent.trans ih
  | dir found _ ih => exact (walk_of_dir found).trans ih
  | @link links here name target rest stop found followed _ ih =>
    have going : ¬(rest.isEmpty && !follow) = true := by
      rw [Bool.and_eq_true, List.isEmpty_iff, not_and]
      exact fun finished => by simp [followed finished]
    rw [walk_of_link found, if_neg going]
    exact ih
  | last links free => exact walk_last free

def PossibleSteps (steps : List Component) : Prop :=
  ∀ name, .normal name ∈ steps → Path.IsName name

private theorem possibleSteps_components (p : Path) : PossibleSteps p.components :=
  fun _ member => Path.isName_of_mem_components member

private theorem possible_nil : Possible [] :=
  fun _ member => absurd member List.not_mem_nil

private theorem possible_concat {here : Location} (h : Possible here) {name : String}
    (named : Path.IsName name) : Possible (here ++ [name]) := by
  intro other member
  rcases List.mem_append.mp member with before | last
  · exact h other before
  · exact List.mem_singleton.mp last ▸ named

private theorem Walks.possible {follow : Bool} {links : Nat} {here : Location}
    {steps : List Component} {stop : Stop} (h : d.Walks follow links here steps stop)
    (possible : Possible here)
    (names : PossibleSteps steps) : Possible stop.location := by
  have later {step : Component} {rest : List Component} (names : PossibleSteps (step :: rest)) :
      PossibleSteps rest := fun name member => names name (List.mem_cons_of_mem _ member)
  induction h with
  | done links here => exact possible
  | root _ ih => exact ih possible_nil (later names)
  | current _ ih => exact ih possible (later names)
  | parent _ ih =>
    exact ih (fun name member => possible name (List.dropLast_subset _ member)) (later names)
  | dir _ _ ih => exact ih (possible_concat possible (names _ List.mem_cons_self)) (later names)
  | @link links here name target rest stop _ _ _ ih =>
    refine ih possible fun other member => ?_
    rcases List.mem_append.mp member with inside | behind
    · exact possibleSteps_components target other inside
    · exact later names other behind
  | last links _ => exact possible_concat possible (names _ List.mem_cons_self)

private theorem possible_of_reach {follow : Bool} {p : Path} {stop : Stop}
    (h : d.reach follow p = .ok stop) : Possible stop.location := by
  unfold reach at h
  split at h
  · exact absurd h (by simp)
  · refine (walks_of_walk h).possible possible_nil fun name member => ?_
    simp only [stepsOf] at member
    have inside : .normal name ∈ d.cwd.components ∨ .normal name ∈ p.components := by
      split at member <;> split at member <;> simp_all
    rcases inside with before | own
    · exact possibleSteps_components _ name before
    · exact possibleSteps_components _ name own

theorem locateWith_eq_ok_iff {follow : Bool} {p : Path} {entry : Option Entry} :
    d.locateWith follow p = .ok (location, entry) ↔
      ∃ links, d.reach follow p = .ok ⟨location, entry, links⟩ := by
  unfold locateWith
  cases d.reach follow p with
  | error cause => simp [Except.map]
  | ok stop =>
    obtain ⟨place, found, links⟩ := stop
    simp [Except.map]

theorem possible_of_locateWith {follow : Bool} {p : Path} {entry : Option Entry}
    (h : d.locateWith follow p = .ok (location, entry)) : Possible location := by
  obtain ⟨links, reached⟩ := locateWith_eq_ok_iff.mp h
  exact possible_of_reach reached

/-! The way to a name in a directory. -/

/-- Whether walks that begin with some steps come to a place before they go on, on this file system and
on all that have more in them, with `left` of the links that may be met. -/
def Comes (d : Disk) (links : Nat) (here : Location) (steps : List Component) (left : Nat)
    (place : Location) : Prop :=
  ∀ d', d.Within d' → ∀ follow rest, rest ≠ [] →
    d'.walk follow links here (steps ++ rest) = d'.walk follow left place rest

section Comes

variable {links left : Nat} {here place : Location} {name : String} {steps : List Component}

/-- A step that leads to another place, on every file system. -/
theorem Comes.pass {step : Component} {next : Location}
    (passes : ∀ (d' : Disk) follow rest,
      d'.walk follow links here (step :: rest) = d'.walk follow links next rest)
    (h : d.Comes links next steps left place) : d.Comes links here (step :: steps) left place :=
  fun d' within follow rest nonempty => (passes d' follow _).trans (h d' within follow rest nonempty)

theorem Comes.dir (found : d.entryAt (here ++ [name]) = some .dir)
    (h : d.Comes links (here ++ [name]) steps left place) :
    d.Comes links here (.normal name :: steps) left place := by
  intro d' within follow rest nonempty
  rw [List.cons_append, walk_of_dir (within.entryAt _ _ rfl found), h d' within follow rest nonempty]

theorem Comes.link {target : Path} (found : d.entryAt (here ++ [name]) = some (.link target))
    (h : d.Comes links here (target.components ++ steps) left place) :
    d.Comes (links + 1) here (.normal name :: steps) left place := by
  intro d' within follow rest nonempty
  have unfinished : (steps ++ rest).isEmpty = false := by simp [nonempty]
  rw [List.cons_append, walk_of_link (within.entryAt _ _ rfl found), unfinished, Bool.false_and,
    if_neg Bool.false_ne_true, ← List.append_assoc]
  exact h d' within follow rest nonempty

end Comes

/-- A walk that comes to its last step stands at a place from which that step is taken. -/
theorem exists_comes {follow : Bool} {links : Nat} {here : Location} {steps : List Component}
    {last : Component} {stop : Stop} (h : d.walk follow links here (steps ++ [last]) = .ok stop) :
    ∃ left place, d.Comes links here steps left place := by
  -- Only directories and links are passed on the way, and these are on both file systems.
  induction links, steps using walk_induction generalizing here with
  | done links => exact ⟨links, here, fun _ _ _ _ _ => rfl⟩
  | next links step steps ahead entered =>
    rw [List.cons_append] at h
    cases step with
    | root =>
      rw [walk_root] at h
      obtain ⟨left, place, comes⟩ := ahead h
      exact ⟨left, place, comes.pass fun _ _ _ => walk_root⟩
    | current =>
      rw [walk_current] at h
      obtain ⟨left, place, comes⟩ := ahead h
      exact ⟨left, place, comes.pass fun _ _ _ => walk_current⟩
    | parent =>
      rw [walk_parent] at h
      obtain ⟨left, place, comes⟩ := ahead h
      exact ⟨left, place, comes.pass fun _ _ _ => walk_parent⟩
    | normal name =>
      have unfinished : (steps ++ [last]).isEmpty = false := by simp
      cases found : d.entryAt (here ++ [name]) with
      | none => simp [walk_of_none found] at h
      | some entry =>
        cases entry with
        | file bytes => simp [walk_of_file found] at h
        | dir =>
          rw [walk_of_dir found] at h
          obtain ⟨left, place, comes⟩ := ahead h
          exact ⟨left, place, comes.dir found⟩
        | link target =>
          rw [walk_of_link found, unfinished, Bool.false_and, if_neg Bool.false_ne_true] at h
          cases links with
          | zero => exact absurd h (by simp)
          | succ links =>
            rw [← List.append_assoc] at h
            obtain ⟨left, place, comes⟩ := entered links (Nat.lt_succ_self _) _ h
            exact ⟨left, place, comes.link found⟩

theorem reach_child (d : Disk) (follow : Bool) (dir : Path) {name : String} (h : Path.IsName name) :
    d.reach follow (dir.child name) = d.walk follow maxLinks []
      ((if dir.isAbsolute then [] else d.cwd.components) ++ dir.components ++ [.normal name]) := by
  have steps : d.stepsOf (dir.child name) =
      (if dir.isAbsolute then [] else d.cwd.components) ++ dir.components ++ [.normal name] := by
    simp only [stepsOf, Path.components_child dir h, Path.isAbsolute_child_eq dir h,
      if_neg (Path.getLast?_child dir h), List.append_nil]
    split <;> simp
  have nonempty : (dir.child name).text ≠ "" := by
    rw [Path.child_of_isName dir h]
    exact fun empty => h.1 (String.append_eq_empty_iff.mp empty).2
  rw [reach, if_neg nonempty, steps]

/-- Whether the way to each name in a directory goes through a place, on this file system and on all
that have more in them. -/
def Reaches (d : Disk) (dir : Path) (place : Location) : Prop :=
  ∃ left, ∀ d', d.Within d' → ∀ name, Path.IsName name → ∀ follow,
    d'.reach follow (dir.child name) = d'.walk follow left place [.normal name]

theorem exists_reaches {follow : Bool} {dir : Path} {name : String} (named : Path.IsName name)
    {found : Location × Option Entry} (h : d.locateWith follow (dir.child name) = .ok found) :
    ∃ place, d.Reaches dir place := by
  obtain ⟨links, reached⟩ := locateWith_eq_ok_iff.mp h
  rw [reach_child d follow dir named] at reached
  obtain ⟨left, place, comes⟩ := exists_comes reached
  refine ⟨place, left, fun d' within other named' follow' => ?_⟩
  rw [reach_child d' follow' dir named', within.cwd,
    comes d' within follow' [.normal other] (by simp)]

/-- A file is written where nothing is, or over another file. -/
theorem exists_place_of_writeFile {p : Path} {bytes : List UInt8}
    (h : d.writeFile p bytes = some d') :
    ∃ location entry, d.locate p = .ok (location, entry) ∧
      (entry = none ∨ ∃ old, entry = some (.file old)) ∧ d' = d.put location (.file bytes) := by
  unfold writeFile at h
  split at h
  · rename_i location old located
    exact ⟨location, _, located, Or.inr ⟨old, rfl⟩, (Option.some.inj h).symm⟩
  · rename_i location located
    split at h
    · exact ⟨location, _, located, Or.inl rfl, (Option.some.inj h).symm⟩
    · exact absurd h (by simp)
  · exact absurd h (by simp)

/-! Files that are put in their places. -/

/-- The file system with a file in its place that was first written beside it. -/
def placing (d : Disk) (place : Location) (beside name : String) (bytes : List UInt8) : Disk :=
  ((d.put (place ++ [beside]) (.file bytes)).dropTree (place ++ [beside])).put (place ++ [name])
    (.file bytes)

theorem entryAt_placing_self (d : Disk) {place : Location} {name : String} (beside : String)
    (bytes : List UInt8) (possible : Possible (place ++ [name])) :
    (d.placing place beside name bytes).entryAt (place ++ [name]) = some (.file bytes) :=
  entryAt_put_self possible (by simp) _

private theorem entryAt_placing_of_apart (d : Disk) {place other : Location} {beside name : String}
    (bytes : List UInt8) (not_name : other ≠ place ++ [name])
    (not_below : ¬place ++ [beside] <+: other) :
    (d.placing place beside name bytes).entryAt other = d.entryAt other := by
  have not_beside : other ≠ place ++ [beside] := fun same => not_below (same ▸ List.prefix_refl _)
  rw [placing, entryAt_put_other not_name, entryAt_dropTree (by simp), if_neg not_below,
    entryAt_put_other not_beside]

theorem entryAt_placing_other (d : Disk) (place : Location) {beside name other : String}
    (bytes : List UInt8) (not_beside : other ≠ beside) (not_name : other ≠ name) :
    (d.placing place beside name bytes).entryAt (place ++ [other]) =
      d.entryAt (place ++ [other]) := by
  refine d.entryAt_placing_of_apart bytes (by simpa using not_name) ?_
  rw [List.prefix_append_right_inj]
  simpa using Ne.symm not_beside

theorem entryAt_placing_elsewhere (d : Disk) {place other : Location} (beside name : String)
    (bytes : List UInt8) (apart : ¬place <+: other) :
    (d.placing place beside name bytes).entryAt other = d.entryAt other :=
  d.entryAt_placing_of_apart bytes (fun same => apart (same ▸ List.prefix_append _ _))
    fun below => apart ((List.prefix_append _ _).trans below)

namespace Reaches

variable {dir : Path} {place : Location} {name : String}

theorem mono (h : d.Reaches dir place) (within : d.Within d') : d'.Reaches dir place :=
  h.imp fun _ same d'' within' => same d'' (within.trans within')

theorem locateItself_eq (h : d.Reaches dir place) (named : Path.IsName name) :
    d.locateItself (dir.child name) = .ok (place ++ [name], d.entryAt (place ++ [name])) := by
  obtain ⟨left, same⟩ := h
  exact locateWith_eq_ok_iff.mpr ⟨left, (same d (.refl d) name named false).trans
    (walk_last (Or.inl rfl))⟩

theorem locate_eq (h : d.Reaches dir place) (named : Path.IsName name)
    (no_link : ∀ target, d.entryAt (place ++ [name]) ≠ some (.link target)) :
    d.locate (dir.child name) = .ok (place ++ [name], d.entryAt (place ++ [name])) := by
  obtain ⟨left, same⟩ := h
  exact locateWith_eq_ok_iff.mpr ⟨left, (same d (.refl d) name named true).trans
    (walk_last (Or.inr no_link))⟩

theorem possible (h : d.Reaches dir place) (named : Path.IsName name) :
    Possible (place ++ [name]) :=
  possible_of_locateWith (h.locateItself_eq named)

theorem fst_eq (h : d.Reaches dir place) (named : Path.IsName name)
    {found : Location × Option Entry} (located : d.locateItself (dir.child name) = .ok found) :
    found.1 = place ++ [name] := by
  rw [h.locateItself_eq named] at located
  rw [← Except.ok.inj located]

theorem read_eq (h : d.Reaches dir place) (named : Path.IsName name) {bytes : List UInt8}
    (found : d.entryAt (place ++ [name]) = some (.file bytes)) :
    d.read (dir.child name) = .ok bytes := by
  have located := h.locate_eq named (by simp [found])
  rw [found] at located
  simp [read, located]

theorem writeFile_eq (h : d.Reaches dir place) (named : Path.IsName name)
    (no_link : ∀ target, d.entryAt (place ++ [name]) ≠ some (.link target)) {bytes : List UInt8}
    (written : d.writeFile (dir.child name) bytes = some d') :
    d' = d.put (place ++ [name]) (.file bytes) := by
  obtain ⟨location, entry, located, -, rfl⟩ := exists_place_of_writeFile written
  rw [h.locate_eq named no_link] at located
  rw [(Prod.mk.inj (Except.ok.inj located)).1]

theorem rename_eq (h : d.Reaches dir place) {old new : String} (named : Path.IsName old)
    (named' : Path.IsName new) {bytes : List UInt8}
    (found : d.entryAt (place ++ [old]) = some (.file bytes))
    (renamed : d.rename (dir.child old) (dir.child new) = some d') :
    d' = (d.dropTree (place ++ [old])).put (place ++ [new]) (.file bytes) := by
  have source := h.locateItself_eq named
  have target := h.locateItself_eq named'
  unfold rename at renamed
  simp only [source, target, found] at renamed
  split at renamed
  · exact absurd renamed.symm (Option.some_ne_none d')
  · exact (Option.some.inj renamed).symm

theorem placing_eq {base d₁ : Disk} (h : base.Reaches dir place) (within : base.Within d)
    {beside name : String} (named : Path.IsName beside) (named' : Path.IsName name)
    (vacant : base.Vacant (place ++ [beside])) (vacant' : base.Vacant (place ++ [name]))
    (no_link : ∀ target, d.entryAt (place ++ [beside]) ≠ some (.link target))
    {bytes : List UInt8} (written : d.writeFile (dir.child beside) bytes = some d₁)
    (moved : d₁.rename (dir.child beside) (dir.child name) = some d') :
    base.Within d' ∧ d' = d.placing place beside name bytes := by
  have somewhere : ∀ other, place ++ [other] ≠ [] := by simp
  obtain rfl := (h.mono within).writeFile_eq named no_link written
  have within₁ := within.put vacant (somewhere beside) (.file bytes)
  have found := entryAt_put_self (d := d) ((h.mono within).possible named) (somewhere beside)
    (.file bytes)
  obtain rfl := (h.mono within₁).rename_eq named named' found moved
  exact ⟨(within₁.dropTree vacant (somewhere beside)).put vacant' (somewhere name) _, rfl⟩

end Reaches

/-! A directory without some of its names. -/

def without (d : Disk) (place : Location) (names : List String) : Disk :=
  names.foldl (fun d name => d.dropTree (place ++ [name])) d

theorem within_without (d : Disk) (place : Location) (names : List String) :
    (d.without place names).Within d := by
  induction names generalizing d with
  | nil => exact .refl d
  | cons name names ih => exact (ih _).trans (.of_dropTree d (by simp))

theorem vacant_without (d : Disk) (place : Location) {names : List String} {name : String}
    (h : name ∈ names) : (d.without place names).Vacant (place ++ [name]) := by
  have kept : ∀ (others : List String) (d : Disk), d.Vacant (place ++ [name]) →
      (d.without place others).Vacant (place ++ [name]) := by
    intro others
    induction others with
    | nil => exact fun _ vacant => vacant
    | cons other others ih => exact fun d vacant => ih _ (vacant.dropTree _)
  induction names generalizing d with
  | nil => exact absurd h List.not_mem_nil
  | cons other others ih =>
    rcases List.mem_cons.mp h with rfl | later
    · exact kept others _ (vacant_dropTree d _)
    · exact ih _ later

/-- Whether the way into a directory does not lead through what stands at some names in it: these
have the same places without it. -/
def Avoids (d : Disk) (dir : Path) (names : List String) : Prop :=
  ∀ name ∈ names, ∀ location found, d.locateItself (dir.child name) = .ok (location, found) →
    ((d.without location.dropLast names).locateItself (dir.child name)).map Prod.fst = .ok location

instance (d : Disk) (dir : Path) (names : List String) : Decidable (d.Avoids dir names) :=
  decidable_of_iff (∀ name ∈ names, ∀ found ∈ (d.locateItself (dir.child name)).toOption,
      ((d.without found.1.dropLast names).locateItself (dir.child name)).map Prod.fst = .ok found.1)
    ⟨fun same name member location found located =>
        same name member (location, found) (by rw [located]; rfl),
      fun avoids name member found located => by
        cases result : d.locateItself (dir.child name) with
        | error cause =>
          rw [result] at located
          exact absurd located (by simp [Except.toOption])
        | ok other =>
          rw [result] at located
          obtain rfl := Option.some.inj located
          exact avoids name member _ _ result⟩

theorem Avoids.reaches {dir : Path} {names : List String} (avoids : d.Avoids dir names)
    {place : Location} (h : d.Reaches dir place) {name : String} (named : Path.IsName name)
    (member : name ∈ names) : (d.without place names).Reaches dir place := by
  have kept := avoids name member _ _ (h.locateItself_eq named)
  rw [List.dropLast_concat] at kept
  cases located : (d.without place names).locateItself (dir.child name) with
  | error cause =>
    rw [located] at kept
    exact absurd kept (by simp [Except.map])
  | ok found =>
    rw [located] at kept
    obtain ⟨place', reaches⟩ := @exists_reaches (d.without place names) false dir name named _ located
    have same : place' ++ [name] = place ++ [name] :=
      (reaches.fst_eq named located).symm.trans (Except.ok.inj kept)
    obtain rfl := List.append_cancel_right same
    exact reaches

def isLink (d : Disk) (p : Path) : Bool :=
  match d.locateItself p with
  | .ok (_, some (.link _)) => true
  | _ => false

theorem Reaches.ne_link_of_isLink {dir : Path} {place : Location} (h : d.Reaches dir place)
    {name : String} (named : Path.IsName name) (no_link : d.isLink (dir.child name) = false)
    (target : Path) : d.entryAt (place ++ [name]) ≠ some (.link target) := by
  intro found
  have located := h.locateItself_eq named
  rw [found] at located
  simp [isLink, located] at no_link

end Disk

end ImportAtlas
