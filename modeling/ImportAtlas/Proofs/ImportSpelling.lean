import ImportAtlas.Proofs.Readers

/-!
How imports are spelled. An import says which identifiers, dots and local names it is made of;
between them it may hold any layout: white space, joined lines and comments. Every import in a text
that can be read is a spelling of one.
-/

set_option autoImplicit false

namespace ImportAtlas.Python

open Literal (repeatStep)

/-- What an entry of an import list says: the identifiers of a dotted name, and the name that it is
bound to, if that is another one. -/
structure Entry where
  words : List String
  localName : Option String
  deriving DecidableEq, Repr

/-- What an import says: the modules it names; or the module it starts from, by its dots and
identifiers, and what it takes from there. -/
inductive Import
  | modules (entries : List Entry)
  | members (dots : Nat) (words : List String) (entries : List Entry)
  | everything (dots : Nat) (words : List String)
  deriving DecidableEq, Repr

/-- Layout between lexemes: white space, comments up to the end of their line, and joined lines. -/
inductive IsLayout : List Char → Prop
  | nil : IsLayout []
  | filler {c : Char} {r : List Char} : isFiller c → IsLayout r → IsLayout (c :: r)
  | comment {line r : List Char} : '\n' ∉ line → IsLayout r → IsLayout ('#' :: line ++ r)
  | joined {r : List Char} : IsLayout r → IsLayout ('\\' :: '\n' :: r)
  | joinedReturn {r : List Char} : IsLayout r → IsLayout ('\\' :: '\r' :: '\n' :: r)

inductive Gap : SpelledName → Prop
  | none : Gap []
  | layout {text : String} : text ≠ "" → IsLayout text.toList → Gap [.gap text]

inductive Dotted : List String → SpelledName → Prop
  | word {w : String} : isIdentifier w → Dotted [w] [.word w]
  | more {words : List String} {n before behind : SpelledName} {w : String} : Dotted words n →
      Gap before → Gap behind → isIdentifier w →
      Dotted (words ++ [w]) (n ++ (before ++ [.dot] ++ behind ++ [.word w]))

inductive Dots : Nat → SpelledName → Prop
  | nil : Dots 0 []
  | more {k : Nat} {n gap : SpelledName} : Dots k n → Gap gap → (n = [] → gap = []) →
      Dots (k + 1) (n ++ gap ++ [.dot])

inductive Source : Nat → List String → SpelledName → Prop
  | dots {k : Nat} {n : SpelledName} : Dots k n → Source k [] n
  | names {k : Nat} {words : List String} {n gap m : SpelledName} : Dots k n → Gap gap →
      (n = [] → gap = []) → Dotted words m → Source k words (n ++ gap ++ m)

inductive SpellsEntry : Entry → ImportItem → Prop
  | name {words : List String} {n : SpelledName} : Dotted words n →
      SpellsEntry ⟨words, none⟩ (.name n)
  | aliased {words : List String} {n : SpelledName} (localName : String) : Dotted words n →
      SpellsEntry ⟨words, some localName⟩ (.aliased n localName)

inductive SpellsEntries : List Entry → List ImportItem → Prop
  | nil : SpellsEntries [] []
  | comment {entries : List Entry} {items : List ImportItem} (text : String) :
      SpellsEntries entries items → SpellsEntries entries (.comment text :: items)
  | item {e : Entry} {item : ImportItem} {entries : List Entry} {items : List ImportItem} :
      SpellsEntry e item → SpellsEntries entries items →
      SpellsEntries (e :: entries) (item :: items)

inductive Spells : Import → Statement → Prop
  | modules {entries : List Entry} {items : List ImportItem} : entries ≠ [] →
      SpellsEntries entries items → Spells (.modules entries) (.importNames items)
  | members {dots : Nat} {words : List String} {entries : List Entry} {source : SpelledName}
      {items : List ImportItem} : Source dots words source → entries ≠ [] →
      SpellsEntries entries items →
      Spells (.members dots words entries) (.importFrom source items)
  | everything {dots : Nat} {words : List String} {source : SpelledName} :
      Source dots words source → Spells (.everything dots words) (.importAll source)

def Statement.isImport : Statement → Bool
  | .importNames _ => true
  | .importFrom .. => true
  | .importAll _ => true
  | _ => false

/-! ### Layout between lexemes -/

private theorem IsLayout.fillers {front r : List Char} (h : ∀ c ∈ front, isFiller c)
    (h' : IsLayout r) :
    IsLayout (front ++ r) := by
  induction front with
  | nil => exact h'
  | cons c front ih =>
    exact .filler (h c List.mem_cons_self) (ih fun other member => h other
      (List.mem_cons_of_mem _ member))

def Lexeme.isCode : Lexeme → Bool
  | .word _ => true
  | .sign _ => true
  | _ => false

private theorem not_isCode_of_layoutStep {a : Admits} {c after : Cursor} {b : Blanks}
    {lexeme : Lexeme} (h : layoutStep a c b = .found lexeme after) : lexeme.isCode = false := by
  unfold layoutStep at h
  split at h
  · exact LayoutStep.noConfusion h
  · dsimp only at h
    repeat' split at h
    all_goals first
      | exact LayoutStep.noConfusion h
      | exact (LayoutStep.found.inj h).1 ▸ rfl

private theorem IsLayout.append {a b : List Char} (h : IsLayout a) (h' : IsLayout b) :
    IsLayout (a ++ b) := by
  induction h with
  | nil => exact h'
  | filler blank _ ih => exact .filler blank ih
  | comment line _ ih =>
    rw [List.append_assoc]
    exact .comment line ih
  | joined _ ih => exact .joined ih
  | joinedReturn _ ih => exact .joinedReturn ih

private theorem layout_of_nextBehind {a : Admits} {comments : List String} {c : Cursor} {t : Found}
    (h : Cursor.nextBehind a comments c = some t) (code : t.lexeme.isCode) :
    ∃ gap, IsLayout gap ∧ c.rest = gap ++ t.start.rest := by
  have behind {cs front rest : List Char} (shape : cs.dropWhile isFiller = front ++ rest)
      (between : IsLayout front) (more : ∃ gap, IsLayout gap ∧ rest = gap ++ t.start.rest) :
      ∃ gap, IsLayout gap ∧ cs = gap ++ t.start.rest := by
    obtain ⟨gap, layout, rfl⟩ := more
    have blank : ∀ c ∈ cs.takeWhile isFiller, isFiller c := List.all_eq_true.mp List.all_takeWhile
    refine ⟨cs.takeWhile isFiller ++ (front ++ gap), .fillers blank (between.append layout), ?_⟩
    rw [List.append_assoc, List.append_assoc, ← shape, List.takeWhile_append_dropWhile]
  fun_induction Cursor.nextBehind a comments c with
  | case1 comments c b lexeme after found =>
    cases h
    rw [not_isCode_of_layoutStep found] at code
    exact Bool.noConfusion code
  | case2 => cases h
  | case3 =>
    cases h
    exact Bool.noConfusion code
  | case4 comments c _ _ _ _ r shape _ ih =>
    have line : '\n' ∉ r.takeWhile (· != '\n') := fun member => by
      simpa using List.all_eq_true.mp (List.all_takeWhile (l := r)) '\n' member
    have commented : IsLayout ('#' :: r.takeWhile (· != '\n')) := by
      simpa using IsLayout.comment line .nil
    refine behind (shape.trans ?_) commented (ih h)
    rw [List.cons_append, Cursor.moveTo, List.takeWhile_append_dropWhile]
  | case5 comments c _ _ _ _ after shape ih => exact behind shape (.joined .nil) (ih h)
  | case6 comments c _ _ _ _ after shape ih => exact behind shape (.joinedReturn .nil) (ih h)
  | case7 comments c =>
    obtain ⟨found, -, rfl⟩ := Option.map_eq_some_iff.mp h
    exact behind (List.nil_append _).symm .nil ⟨[], .nil, rfl⟩

private theorem layout_of_next {a : Admits} {c : Cursor} {t : Found} (h : c.next a = some t)
    (code : t.lexeme.isCode) : Gap (gapBetween c t.start) := by
  obtain ⟨gap, layout, rest⟩ := layout_of_nextBehind h code
  have text : c.textTo t.start = String.ofList gap := by
    rw [Cursor.textTo, rest, List.length_append, Nat.add_sub_cancel, List.take_left']
    rfl
  unfold gapBetween
  rw [text]
  dsimp only
  split
  · exact .none
  · rename_i filled
    exact .layout filled (String.toList_ofList ▸ layout)

private theorem isCode_of_sign {t : Found} {s : String} (h : t.sign = s) (nonempty : s ≠ "") :
    t.lexeme.isCode := by
  unfold Found.sign at h
  split at h
  · rename_i found
    rw [found]
    rfl
  · exact absurd h.symm nonempty

/-! ### Names -/

private theorem SpellsEntries.append {entries entries' : List Entry}
    {items items' : List ImportItem} (h : SpellsEntries entries items)
    (h' : SpellsEntries entries' items') :
    SpellsEntries (entries ++ entries') (items ++ items') := by
  induction h with
  | nil => exact h'
  | comment text _ ih => exact .comment text ih
  | item own _ ih => exact .item own ih

private theorem SpellsEntries.comments (texts : List String) :
    SpellsEntries [] (texts.map ImportItem.comment) := by
  induction texts with
  | nil => exact .nil
  | cons text rest ih => exact .comment text ih

abbrev ReadsDotted (r : Option (SpelledName × Cursor)) : Prop :=
  Yields (fun p => ∃ words, Dotted words p.1) r

private theorem spelledName_dotted (fuel : Nat) (a : Admits) {first : String}
    (identifier : isIdentifier first) (c : Cursor) :
    ReadsDotted (spelledName fuel a first c) := by
  unfold spelledName
  have start : ∃ words, Dotted words [[NamePart.word first]].reverse.flatten :=
    ⟨[first], .word identifier⟩
  refine .bind (Yields.repeatStep (P := fun parts : List SpelledName =>
    ∃ words, Dotted words parts.reverse.flatten) ?_ fuel start c) fun p dotted => .read dotted
  rintro parts c ⟨words, dotted⟩
  dsimp only
  split
  · rename_i t found
    split
    · rename_i sign
      split
      · rename_i w _ start after next
        have before := layout_of_next found (isCode_of_sign sign (by decide))
        have behind := layout_of_next next rfl
        refine .read fun p same => ?_
        rw [← Option.some.inj same, List.reverse_cons, List.flatten_append, List.flatten_singleton]
        exact ⟨words ++ [w], .more dotted before behind (isIdentifier_of_nextBehind next rfl)⟩
      · exact .nothing
    · exact .read nofun
  · exact .read nofun

private theorem importItem_spells (fuel : Nat) (a : Admits) {t : Found}
    (identifier : ∀ w, t.lexeme = .word w → isIdentifier w) :
    Yields (fun p => ∃ e, SpellsEntry e p.1) (importItem fuel a t) := by
  unfold importItem
  split
  · rename_i w found
    refine (spelledName_dotted fuel a (identifier w found) t.after).bind ?_
    rintro ⟨name, c⟩ ⟨words, dotted⟩
    dsimp only
    split
    · exact .map fun _ => ⟨_, .aliased _ dotted⟩
    · exact .read ⟨_, .name dotted⟩
  · exact .nothing

private theorem importItems_spells (fuel : Nat) (a : Admits) {t : Found}
    (identifier : ∀ w, t.lexeme = .word w → isIdentifier w) :
    Yields (fun p => ∃ entries, entries ≠ [] ∧ SpellsEntries entries p.1)
      (importItems fuel a t) := by
  unfold importItems
  refine (importItem_spells fuel a identifier).bind ?_
  rintro ⟨first, c⟩ ⟨e, own⟩
  dsimp only
  have start : ∃ entries, entries ≠ [] ∧
      SpellsEntries entries (t.comments.map ImportItem.comment ++ [first]) :=
    ⟨[e], by simp, (SpellsEntries.comments t.comments).append (.item own .nil)⟩
  refine .bind (Yields.repeatStep (P := fun s : List ImportItem × Bool =>
    ∃ entries, entries ≠ [] ∧ SpellsEntries entries s.1) ?_ fuel start c) fun _ spelled =>
      .read spelled
  rintro ⟨items, ended⟩ c ⟨entries, filled, spelled⟩
  dsimp only
  split
  · exact .read nofun
  · split
    · exact .read nofun
    · split
      · rename_i t next
        split
        · refine (importItem_spells fuel a fun w => isIdentifier_of_nextBehind next).bind ?_
          rintro ⟨item, c⟩ ⟨e, own⟩
          refine .read fun p same => ?_
          rw [← Option.some.inj same]
          have more := (spelled.append (.comments t.comments)).append (.item own .nil)
          exact ⟨_, by simp, more⟩
        · exact .read fun p same => Option.some.inj same ▸ ⟨entries, filled, spelled⟩
      · exact .nothing

/-- A name that has been read up to some place: dots, as long as identifiers may follow. -/
private def ReadSource (s : SpelledName × Bool) : Prop :=
  ∃ dots words, Source dots words s.1 ∧ (s.2 = false → Dots dots s.1)

private theorem ReadSource.dots {k : Nat} {n : SpelledName} (h : Dots k n) (ended : Bool) :
    ReadSource (n, ended) :=
  ⟨k, [], .dots h, fun _ => h⟩

private theorem relativeName_source (fuel : Nat) (c : Cursor) :
    Yields (fun p => ∃ dots words, Source dots words p.1) (relativeName fuel c) := by
  unfold relativeName
  refine .bind (Yields.repeatStep (P := ReadSource) ?_ fuel (.dots .nil false) c)
    fun ⟨⟨name, _⟩, _⟩ ⟨dots, words, source, _⟩ => .read ⟨dots, words, source⟩
  rintro ⟨name, ended⟩ c ⟨k, words, source, dots⟩
  dsimp only
  split
  · exact .read nofun
  · rename_i going
    have dots : Dots k name := dots (by simpa using going)
    refine .given fun t found => ?_
    have gap (code : t.lexeme.isCode) :
        Gap (if name.isEmpty then [] else gapBetween c t.start) := by
      split
      · exact .none
      · exact layout_of_next found code
    have first : name = [] → (if name.isEmpty then [] else gapBetween c t.start) = [] := by
      rintro rfl
      rfl
    generalize (if name.isEmpty then [] else gapBetween c t.start) = between at gap first
    split
    · rename_i sign
      refine .read fun p same => Option.some.inj same ▸ ?_
      exact .dots (dots.more (gap (isCode_of_sign sign (by decide))) first) false
    · split
      · rename_i sign
        have one := dots.more (gap (isCode_of_sign sign (by decide))) first
        have two := one.more .none (fun _ => rfl)
        have three := two.more .none (fun _ => rfl)
        refine .read fun p same => Option.some.inj same ▸ ?_
        simp only [List.append_assoc, List.append_nil, List.cons_append, List.nil_append] at three ⊢
        exact .dots three false
      · split
        · exact .read fun p same => Option.some.inj same ▸ .dots dots true
        · split
          · rename_i w word
            have identifier : isIdentifier w := isIdentifier_of_nextBehind found word
            refine (spelledName_dotted fuel {} identifier t.after).bind ?_
            rintro ⟨rest, c⟩ ⟨words, dotted⟩
            refine .after fun c => .read fun p same => Option.some.inj same ▸ ?_
            exact ⟨k, words, .names dots (gap (word ▸ rfl)) first dotted, nofun⟩
          · exact .nothing

/-! ### Statements -/

/-- A statement that spells an import, if it is one. -/
def Statement.IsSpelled (s : Statement) : Prop :=
  s.isImport → ∃ i, Spells i s

private theorem Statement.isSpelled_of_isExpression {s : Statement} (h : s.isExpression) :
    s.IsSpelled := by
  intro own
  cases s <;> first
    | exact Bool.noConfusion own
    | exact Bool.noConfusion h

abbrev ReadsSpelled (r : Option (Statement × Cursor)) : Prop :=
  Yields (fun p => p.1.IsSpelled) r

private theorem fromImport_spelled (fuel : Nat) (c : Cursor) :
    ReadsSpelled (fromImport fuel c) := by
  unfold fromImport
  refine .given fun t found => ?_
  extract_lets inside names behind
  have items {wrap : List ImportItem → Statement}
      (spelled : ∀ entries items, entries ≠ [] → SpellsEntries entries items →
        (wrap items).IsSpelled) (c : Cursor) : ReadsSpelled (names c wrap) := by
    have list (a : Admits) {c : Cursor} {t : Found} (next : c.next {} = some t) :
        Yields (fun p => (wrap p.1).IsSpelled) (importItems fuel a t) :=
      (importItems_spells fuel a fun _ => isIdentifier_of_nextBehind next).mono
        fun p ⟨entries, filled, own⟩ => spelled entries p.1 filled own
    refine .given fun t found => ?_
    split
    · refine .given fun t found => (list _ found).bind fun p own => .after fun _ => .read own
    · exact (list _ found).bind fun p own => .read own
  have source (p : SpelledName × Cursor) (h : ∃ dots words, Source dots words p.1) :
      ReadsSpelled (behind p) := by
    obtain ⟨name, c⟩ := p
    obtain ⟨dots, words, source⟩ := h
    dsimp only [behind]
    split
    · exact .read fun _ => ⟨_, .everything source⟩
    · exact items (fun entries _ filled own _ => ⟨_, .members source filled own⟩) c
  split
  · exact .after (@items (fun _ => .plain) fun _ _ _ _ own => Bool.noConfusion own)
  · split
    · rename_i w word
      have identifier : isIdentifier w := isIdentifier_of_nextBehind found word
      refine (spelledName_dotted fuel {} identifier t.after).bind ?_
      rintro ⟨name, c⟩ ⟨words, dotted⟩
      refine .after fun c => source (name, c) ⟨0, words, ?_⟩
      exact .names .nil .none (fun _ => rfl) dotted
    · exact (relativeName_source fuel t.start).bind source

private theorem simpleStatement_spelled (fuel : Nat) (self : ExpressionReader) (t : Found) :
    ReadsSpelled (simpleStatement fuel self t) := by
  have nothing : Statement.plain.IsSpelled := fun own => Bool.noConfusion own
  unfold simpleStatement
  split
  · refine .given fun t found => ?_
    refine (importItems_spells fuel _ fun _ => isIdentifier_of_nextBehind found).bind ?_
    rintro ⟨items, c⟩ ⟨entries, filled, own⟩
    exact .read fun _ => ⟨_, .modules filled own⟩
  · exact fromImport_spelled fuel _
  all_goals first
    | exact .map fun _ => nothing
    | exact .read nothing
    | exact (softStatement_expression fuel self t).mono fun _ =>
        Statement.isSpelled_of_isExpression
    | exact (expressionStatement_expression fuel self t).mono fun _ =>
        Statement.isSpelled_of_isExpression

private theorem established_isSpelled : Established Statement.IsSpelled where
  simple := simpleStatement_spelled
  comment _ own := Bool.noConfusion own
  cases _ own := Bool.noConfusion own
  functionDef _ _ _ _ own := Bool.noConfusion own
  classDef _ _ _ _ own := Bool.noConfusion own

def Spelled (block : List Statement) : Prop :=
  ∀ s ∈ inlined block, s.IsSpelled

theorem spelled_of_parse {text : String} {tree : List Statement} (h : parse text = some tree) :
    Spelled tree :=
  fun _ member => (established_isSpelled.throughout_of_parse h).statement member

end ImportAtlas.Python
