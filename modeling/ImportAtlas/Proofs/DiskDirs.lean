import ImportAtlas.Proofs.DiskWalk

/-!
Making directories only adds directories where nothing was. Once it has been done, doing it again,
with more on the file system, adds nothing.
-/

set_option autoImplicit false

namespace ImportAtlas

namespace Disk

variable {d d' : Disk} {here location : Location}

theorem Within.put_of_none (h : d.entryAt location = none) (entry : Entry) :
    d.Within (d.put location entry) := by
  refine ⟨cwd_put d location entry, fun place other _ found => ?_⟩
  have apart : place ≠ location := by
    rintro rfl
    rw [h] at found
    exact absurd found (by simp)
  rwa [entryAt_put_other apart]

private theorem entryAt_put_of_none (possible : Possible location) (h : d.entryAt location = none)
    (entry : Entry) : (d.put location entry).entryAt location = some entry := by
  refine entryAt_put_self possible ?_ entry
  rintro rfl
  simp [entryAt] at h

/-! Where walks end. -/

/-- Whether all places on the way from the root to a location, and it itself, are directories. -/
def Solid (d : Disk) (location : Location) : Prop :=
  ∀ place, place <+: location → d.entryAt place = some .dir

theorem solid_nil (d : Disk) : d.Solid [] := by
  intro place above
  rw [List.prefix_nil.mp above]
  simp [entryAt]

theorem Solid.dropLast (h : d.Solid here) : d.Solid here.dropLast :=
  fun place above => h place (above.trans (List.dropLast_prefix here))

theorem Solid.concat (h : d.Solid here) {name : String}
    (found : d.entryAt (here ++ [name]) = some .dir) : d.Solid (here ++ [name]) := by
  intro place above
  rcases List.prefix_concat_iff.mp above with rfl | above
  · exact found
  · exact h place above

private theorem Walks.solid {follow : Bool} {links : Nat} {steps : List Component} {stop : Stop}
    (h : d.Walks follow links here steps stop) (solid : d.Solid here) :
    d.entryAt stop.location = stop.entry ∧ d.Solid stop.location.dropLast := by
  -- A link changes the steps ahead but not the place, so a walk only ever stands on directories.
  induction h with
  | done links here => exact ⟨rfl, solid.dropLast⟩
  | root _ ih => exact ih (solid_nil d)
  | current _ ih => exact ih solid
  | parent _ ih => exact ih solid.dropLast
  | dir found _ ih => exact ih (solid.concat found)
  | link _ _ _ ih => exact ih solid
  | last links _ => exact ⟨rfl, by rwa [List.dropLast_concat]⟩

/-- Where a walk leads to anything but a link, it leads to what is in that place on each file system
that has more. -/
theorem Walks.within {follow : Bool} {links : Nat} {steps : List Component} {stop : Stop}
    {value : Entry} (h : d.Walks follow links here steps stop) (within : d.Within d')
    (free : ∀ target, stop.entry ≠ some (.link target))
    (stands : d'.entryAt stop.location = some value) (no_link : ∀ target, value ≠ .link target) :
    d'.Walks follow links here steps ⟨stop.location, some value, stop.links⟩ := by
  induction h with
  | done links here => exact stands ▸ .done links here
  | root _ ih => exact .root (ih free stands)
  | current _ ih => exact .current (ih free stands)
  | parent _ ih => exact .parent (ih free stands)
  | dir found _ ih => exact .dir (within.entryAt _ _ rfl found) (ih free stands)
  | link found followed _ ih => exact .link (within.entryAt _ _ rfl found) followed (ih free stands)
  | @last links here name _ =>
    have no_link' : ∀ target, d'.entryAt (here ++ [name]) ≠ some (.link target) := by
      intro target
      rw [stands]
      simpa using no_link target
    have ends : d'.Walks follow links here [.normal name] _ := .last links (Or.inr no_link')
    rw [stands] at ends
    exact ends

theorem Within.locateWith_eq (follow : Bool) {p : Path} {entry : Option Entry} {value : Entry}
    (within : d.Within d') (h : d.locateWith follow p = .ok (location, entry))
    (free : ∀ target, entry ≠ some (.link target)) (stands : d'.entryAt location = some value)
    (no_link : ∀ target, value ≠ .link target) :
    d'.locateWith follow p = .ok (location, some value) := by
  have steps : d'.stepsOf p = d.stepsOf p := by
    simp only [stepsOf, within.cwd]
  obtain ⟨links, reached⟩ := locateWith_eq_ok_iff.mp h
  refine locateWith_eq_ok_iff.mpr ⟨links, ?_⟩
  unfold reach at reached ⊢
  split at reached
  · exact absurd reached (by simp)
  · rename_i nonempty
    rw [if_neg nonempty, steps]
    exact ((walks_of_walk reached).within within free stands no_link).walk_eq

/-! Directories on the way to a place. -/

def makeDirStep (state : Option (Disk × Path)) (c : Component) : Option (Disk × Path) := do
  let (d, here) ← state
  let there := here.child c.text
  match d.locate there, d.locateItself there with
  | .ok (_, some .dir), _ => some (d, there)
  | _, .ok (location, none) => some (d.put location .dir, there)
  | _, _ => none

def wayTo (d : Disk) (p : Path) : List Component :=
  if p.isAbsolute then p.components else d.cwd.components ++ p.components

private theorem makeDirs_eq (d : Disk) (p : Path) :
    d.makeDirs p = ((d.wayTo p).foldl makeDirStep (some (d, ⟨""⟩))).map Prod.fst :=
  rfl

private theorem makeDirStep_cases {state : Option (Disk × Path)} {c : Component} {there : Path}
    (h : makeDirStep state c = some (d', there)) :
    ∃ d around, state = some (d, around) ∧ there = around.child c.text ∧
      ((d' = d ∧ ∃ location, d.locate there = .ok (location, some .dir)) ∨
        ∃ location, d.locateItself there = .ok (location, none) ∧ d' = d.put location .dir) := by
  obtain ⟨⟨d, around⟩, begun, stepped⟩ := Option.bind_eq_some_iff.mp h
  refine ⟨d, around, begun, ?_⟩
  simp only at stepped
  split at stepped
  · rename_i found
    obtain ⟨rfl, rfl⟩ := Prod.mk.inj (Option.some.inj stepped)
    exact ⟨rfl, Or.inl ⟨rfl, _, found⟩⟩
  · rename_i found _
    obtain ⟨rfl, rfl⟩ := Prod.mk.inj (Option.some.inj stepped)
    exact ⟨rfl, Or.inr ⟨_, found, rfl⟩⟩
  · exact absurd stepped (by simp)

theorem solid_of_locateWith (follow : Bool) {p : Path} {entry : Option Entry}
    (h : d.locateWith follow p = .ok (location, entry)) :
    d.entryAt location = entry ∧ d.Solid location.dropLast := by
  obtain ⟨links, reached⟩ := locateWith_eq_ok_iff.mp h
  unfold reach at reached
  split at reached
  · exact absurd reached (by simp)
  · exact (walks_of_walk reached).solid (solid_nil d)

private theorem within_makeDirStep {state : Option (Disk × Path)} {c : Component} {there : Path}
    (h : makeDirStep state c = some (d', there)) :
    ∃ d around, state = some (d, around) ∧ d.Within d' := by
  obtain ⟨d, around, begun, -, ⟨rfl, -⟩ | ⟨location, found, rfl⟩⟩ := makeDirStep_cases h
  · exact ⟨_, around, begun, .refl _⟩
  · exact ⟨d, around, begun, .put_of_none (solid_of_locateWith false found).1 .dir⟩

private theorem makeDirStep_again {e m : Disk} {c : Component} {around there there' : Path}
    (h : makeDirStep (some (d, around)) c = some (d', there)) (within : d'.Within e)
    (again : makeDirStep (some (e, around)) c = some (m, there')) : m = e ∧ there' = there := by
  obtain ⟨_, _, begun, rfl, first⟩ := makeDirStep_cases h
  obtain ⟨_, _, begun', rfl, second⟩ := makeDirStep_cases again
  obtain ⟨rfl, rfl⟩ := Prod.mk.inj (Option.some.inj begun)
  obtain ⟨rfl, rfl⟩ := Prod.mk.inj (Option.some.inj begun')
  refine ⟨?_, rfl⟩
  rcases first with ⟨rfl, location, found⟩ | ⟨location, missing, rfl⟩
  · have stands := within.entryAt _ _ rfl (solid_of_locateWith true found).1
    have kept : e.locate (around.child c.text) = .ok (location, some .dir) :=
      within.locateWith_eq true found (by simp) stands (by simp)
    have stays : makeDirStep (some (e, around)) c = some (e, around.child c.text) := by
      simp only [makeDirStep, Option.bind_eq_bind, Option.bind_some, kept]
    rw [stays] at again
    exact (Prod.mk.inj (Option.some.inj again)).1.symm
  · -- The place has been filled, so it is not found empty again.
    have absent := (solid_of_locateWith false missing).1
    have stands : e.entryAt location = some .dir :=
      within.entryAt _ _ rfl (entryAt_put_of_none (possible_of_locateWith missing) absent .dir)
    have filled := ((Within.put_of_none absent .dir).trans within).locateWith_eq false
      missing (by simp) stands (by simp)
    rcases second with ⟨same, -⟩ | ⟨location', missing', -⟩
    · exact same
    · have impossible : e.locateWith false (around.child c.text) = .ok (location', none) := missing'
      rw [impossible] at filled
      simp at filled

private theorem foldl_makeDirStep_again (way : List Component) {start : Path} {around : Path}
    (h : way.foldl makeDirStep (some (d, start)) = some (d', around)) :
    d.Within d' ∧ ∀ e m around', d'.Within e →
      way.foldl makeDirStep (some (e, start)) = some (m, around') → m = e ∧ around' = around := by
  -- Taken from the end of the way: what its front has left is still there when the front is repeated.
  induction way using List.reverseRecOn generalizing d' around with
  | nil =>
    obtain ⟨rfl, rfl⟩ := Prod.mk.inj (Option.some.inj h)
    refine ⟨.refl _, fun e m around' _ again => ?_⟩
    obtain ⟨rfl, rfl⟩ := Prod.mk.inj (Option.some.inj again)
    exact ⟨rfl, rfl⟩
  | append_singleton way c ih =>
    rw [List.foldl_append, List.foldl_cons, List.foldl_nil] at h
    obtain ⟨d₁, around₁, begun, within₁⟩ := within_makeDirStep h
    obtain ⟨within, same⟩ := ih begun
    refine ⟨within.trans within₁, fun e m around' below again => ?_⟩
    rw [List.foldl_append, List.foldl_cons, List.foldl_nil] at again
    obtain ⟨e₁, around₂, begun', -⟩ := within_makeDirStep again
    obtain ⟨rfl, rfl⟩ := same e e₁ around₂ (within₁.trans below) begun'
    rw [begun] at h
    rw [begun'] at again
    exact makeDirStep_again h below again

private theorem makeDirs_induction {P : Disk → Prop} {p : Path} (h : d.makeDirs p = some d')
    (start : P d) (put : ∀ m location, P m → m.entryAt location = none → m.Solid location.dropLast →
      P (m.put location .dir)) : P d' := by
  have along : ∀ (way : List Component) (around : Path) (e : Disk),
      way.foldl makeDirStep (some (d, ⟨""⟩)) = some (e, around) → P e := by
    intro way
    induction way using List.reverseRecOn with
    | nil =>
      intro around e walked
      obtain ⟨rfl, -⟩ := Prod.mk.inj (Option.some.inj walked)
      exact start
    | append_singleton way c ih =>
      intro around e walked
      rw [List.foldl_append, List.foldl_cons, List.foldl_nil] at walked
      obtain ⟨m, here, begun, -, ⟨rfl, -⟩ | ⟨added, found, rfl⟩⟩ := makeDirStep_cases walked
      · exact ih here _ begun
      · obtain ⟨absent, solid⟩ := solid_of_locateWith false found
        exact put m added (ih here m begun) absent solid
  obtain ⟨⟨_, around⟩, walked, rfl⟩ := Option.map_eq_some_iff.mp h
  exact along _ _ _ walked

theorem within_makeDirs {p : Path} (h : d.makeDirs p = some d') : d.Within d' :=
  makeDirs_induction h (.refl d) fun _ _ within absent _ => within.trans (.put_of_none absent .dir)

theorem entryAt_makeDirs {p : Path} (h : d.makeDirs p = some d') (location : Location) :
    d'.entryAt location = d.entryAt location ∨
      d.entryAt location = none ∧ d'.entryAt location = some .dir := by
  refine makeDirs_induction (P := fun e => e.entryAt location = d.entryAt location ∨
    d.entryAt location = none ∧ e.entryAt location = some .dir) h (Or.inl rfl) ?_
  intro m added before empty _
  rcases m.entryAt_put_cases added .dir location with kept | ⟨rfl, solid⟩
  · rwa [kept]
  · rw [empty] at before
    rcases before with equal | ⟨-, impossible⟩
    · exact Or.inr ⟨equal.symm, solid⟩
    · exact absurd impossible (by simp)

/-- Whether each thing on a file system stands in a directory. -/
def Rooted (d : Disk) : Prop :=
  ∀ entry ∈ d.entries, d.Solid entry.1.dropLast

theorem Rooted.vacant (rooted : d.Rooted) (nonempty : location ≠ [])
    (absent : d.entryAt location = none) : d.Vacant location := by
  rintro entry member ⟨rest, below⟩
  cases rest using List.reverseRecOn with
  | nil =>
    rw [List.append_nil] at below
    rw [entryAt, if_neg nonempty, List.lookup_eq_none_iff] at absent
    exact absurd (absent entry member) (by simp [below])
  | append_singleton rest last =>
    have solid := rooted entry member
    rw [← below, ← List.append_assoc, List.dropLast_concat] at solid
    have stands := solid location (List.prefix_append _ _)
    rw [absent] at stands
    exact absurd stands (by simp)

theorem Rooted.makeDirs {p : Path} (rooted : d.Rooted) (h : d.makeDirs p = some d') :
    d'.Rooted := by
  refine makeDirs_induction h rooted fun m location rooted absent solid => ?_
  have more : m.Within (m.put location .dir) := .put_of_none absent .dir
  have kept : ∀ place, m.Solid place → (m.put location .dir).Solid place :=
    fun place solid above leads => more.entryAt above .dir rfl (solid above leads)
  intro entry member
  rcases mem_entries_put member with old | rfl
  · exact kept _ (rooted entry old)
  · exact kept _ solid

/-- Where directories have been made, making them again adds nothing, whatever else has come. -/
theorem makeDirs_again {p : Path} {e m : Disk} (h : d.makeDirs p = some d') (within : d'.Within e)
    (again : e.makeDirs p = some m) : m = e := by
  have grown := within_makeDirs h
  rw [makeDirs_eq] at h again
  obtain ⟨⟨_, around⟩, walked, rfl⟩ := Option.map_eq_some_iff.mp h
  obtain ⟨⟨_, around'⟩, walked', rfl⟩ := Option.map_eq_some_iff.mp again
  have way : e.wayTo p = d.wayTo p := by
    simp only [wayTo, (grown.trans within).cwd]
  rw [way] at walked'
  exact ((foldl_makeDirStep_again _ walked).2 _ _ _ within walked').1

theorem makeDirs_child {p : Path} {name : String} (named : Path.IsName name)
    (h : d.makeDirs (p.child name) = some d') :
    ∃ m, d.makeDirs p = some m ∧ (d' = m ∨ ∃ around, m.Solid around ∧
      m.entryAt (around ++ [name]) = none ∧ d' = m.put (around ++ [name]) .dir) := by
  rw [makeDirs_eq] at h
  obtain ⟨⟨_, there⟩, walked, rfl⟩ := Option.map_eq_some_iff.mp h
  have way : d.wayTo (p.child name) = d.wayTo p ++ [.normal name] := by
    simp only [wayTo, Path.isAbsolute_child_eq p named, Path.components_child p named]
    split <;> simp
  rw [way, List.foldl_append, List.foldl_cons, List.foldl_nil] at walked
  obtain ⟨m, here, begun, rfl, ⟨rfl, -⟩ | ⟨location, missing, rfl⟩⟩ := makeDirStep_cases walked
  · exact ⟨_, by rw [makeDirs_eq, begun]; rfl, Or.inl rfl⟩
  · refine ⟨m, by rw [makeDirs_eq, begun]; rfl, Or.inr ?_⟩
    have located : m.locateWith false (here.child name) = .ok (location, none) := missing
    obtain ⟨around, reaches⟩ := exists_reaches named located
    obtain rfl : location = around ++ [name] := reaches.fst_eq named missing
    obtain ⟨absent, solid⟩ := solid_of_locateWith false missing
    rw [List.dropLast_concat] at solid
    exact ⟨around, solid, absent, rfl⟩

/-! Places below a directory. -/

private theorem Walks.comes {links : Nat} {steps : List Component} {stop : Stop}
    (h : d.Walks true links here steps stop) (solid : stop.entry = some .dir) :
    d.Comes links here steps stop.links stop.location := by
  induction h with
  | done links here => exact fun _ _ _ _ _ => rfl
  | root _ ih => exact (ih solid).pass fun _ _ _ => walk_root
  | current _ ih => exact (ih solid).pass fun _ _ _ => walk_current
  | parent _ ih => exact (ih solid).pass fun _ _ _ => walk_parent
  | dir found _ ih => exact .dir found (ih solid)
  | link found _ _ ih => exact .link found (ih solid)
  | last links _ => exact .dir solid fun _ _ _ _ _ => rfl

variable {p : Path} {v dir name : String} {place : Location}

private theorem exists_walk_below (versioned : Path.IsName v)
    (located : d.locate (p.child v) = .ok (place, some .dir)) (inside : Path.IsName dir) :
    ∃ left, ∀ d', d.Within d' → ∀ name, Path.IsName name → ∀ follow,
      d'.reach follow (((p.child v).child dir).child name) =
        d'.walk follow left place [.normal dir, .normal name] := by
  obtain ⟨left, reached⟩ := locateWith_eq_ok_iff.mp located
  rw [reach_child d true p versioned] at reached
  refine ⟨left, fun d' within name named follow => ?_⟩
  have steps : ((if ((p.child v).child dir).isAbsolute then [] else d'.cwd.components) ++
      ((p.child v).child dir).components) =
        ((if p.isAbsolute then [] else d.cwd.components) ++ p.components ++ [.normal v]) ++
          [.normal dir] := by
    rw [Path.isAbsolute_child_eq _ inside, Path.isAbsolute_child_eq _ versioned, within.cwd,
      Path.components_child _ inside, Path.components_child _ versioned]
    simp
  rw [reach_child d' follow _ named, steps, List.append_assoc]
  exact (walks_of_walk reached).comes rfl d' within follow [.normal dir, .normal name] (by simp)

theorem locateWith_of_missing (versioned : Path.IsName v) (within : d.Within d')
    (located : d.locate (p.child v) = .ok (place, some .dir)) (inside : Path.IsName dir)
    (missing : d'.entryAt (place ++ [dir]) = none) (named : Path.IsName name) (follow : Bool) :
    d'.locateWith follow (((p.child v).child dir).child name) = .error .notFound := by
  obtain ⟨left, walked⟩ := exists_walk_below versioned located inside
  rw [locateWith, walked d' within name named follow, walk_of_none missing]
  rfl

/-- Where a file is written, its directory is in its place, unless there is a link on the way. -/
theorem reaches_of_writeFile (versioned : Path.IsName v) (within : d.Within d')
    (located : d.locate (p.child v) = .ok (place, some .dir)) (inside : Path.IsName dir)
    (named : Path.IsName name) (no_link : ∀ target, d'.entryAt (place ++ [dir]) ≠ some (.link target))
    {bytes : List UInt8} {d'' : Disk}
    (written : d'.writeFile (((p.child v).child dir).child name) bytes = some d'') :
    d'.entryAt (place ++ [dir]) = some .dir ∧
      d'.Reaches ((p.child v).child dir) (place ++ [dir]) := by
  obtain ⟨left, walked⟩ := exists_walk_below versioned located inside
  obtain ⟨location, entry, followed, -⟩ := exists_place_of_writeFile written
  obtain ⟨links, reached⟩ := locateWith_eq_ok_iff.mp followed
  rw [walked d' within name named true] at reached
  have solid : d'.entryAt (place ++ [dir]) = some .dir := by
    cases stands : d'.entryAt (place ++ [dir]) with
    | none => simp [walk_of_none stands] at reached
    | some entry =>
      cases entry with
      | dir => rfl
      | file bytes => simp [walk_of_file stands] at reached
      | link target => exact absurd stands (no_link target)
  refine ⟨solid, left, fun e more other named' follow => ?_⟩
  rw [walked e (within.trans more) other named' follow, walk_of_dir (more.entryAt _ _ rfl solid)]

theorem read_ne_ok_of_missing {around : Path} (named : Path.IsName name) (within : d.Within d')
    (missing : d'.locateWith false (around.child name) = .error .notFound) (bytes : List UInt8) :
    d.read (around.child name) ≠ .ok bytes := by
  intro stands
  obtain ⟨found, located⟩ : ∃ found, d.locateWith true (around.child name) = .ok found := by
    cases located : d.locate (around.child name) with
    | error cause => simp [read, located] at stands
    | ok found => exact ⟨found, located⟩
  obtain ⟨place, reaches⟩ := exists_reaches named located
  exact absurd (((reaches.mono within).locateItself_eq named).symm.trans missing) (by simp)

/-! File systems without some of their files. -/

private theorem Within.dropTree_of_files (nonempty : location ≠ [])
    (files : ∀ entry ∈ d.entries, location <+: entry.1 → entry.2.isFile) :
    d.Within (d.dropTree location) := by
  refine ⟨rfl, fun other entry solid found => ?_⟩
  have apart : ¬location <+: other := fun below => by
    have elsewhere : other ≠ [] := by
      rintro rfl
      exact nonempty (List.prefix_nil.mp below)
    rw [files _ (mem_of_entryAt elsewhere found) below] at solid
    exact absurd solid (by simp)
  rw [entryAt_dropTree nonempty, if_neg apart]
  exact found

theorem within_without_of_files {names : List String}
    (files : ∀ entry ∈ d.entries, ∀ name ∈ names, place ++ [name] <+: entry.1 → entry.2.isFile) :
    d.Within (d.without place names) := by
  induction names generalizing d with
  | nil => exact .refl d
  | cons name names ih =>
    have first : d.Within (d.dropTree (place ++ [name])) := .dropTree_of_files (by simp)
      fun entry member => files entry member name List.mem_cons_self
    refine first.trans (ih fun entry member other among => ?_)
    rw [entries_dropTree] at member
    exact files entry (List.mem_filter.mp member).1 other (List.mem_cons_of_mem _ among)

end Disk

end ImportAtlas
