import ImportAtlas.Proofs.Readers

/-!
The names of the classes in a text that has been read. A reader takes them from words, so they are
identifiers; in particular no name has a dot in it, and a dotted path tells the classes along it.
-/

set_option autoImplicit false

namespace ImportAtlas.Python

/-- A block whose classes, and the classes inside them, are named by identifiers. -/
inductive Named : List Statement → Prop
  | intro {block : List Statement} :
      (∀ decorators name body, .classDef decorators name body ∈ inlined block →
        isIdentifier name) →
      (∀ decorators name body, .classDef decorators name body ∈ inlined block → Named body) →
      Named block

namespace Named

theorem identifier {block : List Statement} (h : Named block) {decorators : List Decorator}
    {name : String} {body : List Statement}
    (member : .classDef decorators name body ∈ inlined block) : isIdentifier name := by
  cases h with
  | intro names _ => exact names decorators name body member

theorem body {block : List Statement} (h : Named block) {decorators : List Decorator}
    {name : String} {body : List Statement}
    (member : .classDef decorators name body ∈ inlined block) : Named body := by
  cases h with
  | intro _ bodies => exact bodies decorators name body member

end Named

def Statement.NamesClass (s : Statement) : Prop :=
  ∀ decorators name body, s = .classDef decorators name body → isIdentifier name

private theorem established_namesClass : Established Statement.NamesClass where
  simple fuel self t := (simpleStatement_leaf fuel self t).mono fun p leaf _ _ _ same => by
    rw [same] at leaf
    exact Bool.noConfusion leaf
  comment _ := nofun
  cases _ := nofun
  functionDef _ _ _ _ := nofun
  classDef _ _ _ identifier _ _ _ same := (Statement.classDef.injEq .. ▸ same).2.1 ▸ identifier

private theorem Named.of_throughout {block : List Statement}
    (h : Throughout Statement.NamesClass block) : Named block := by
  induction h with
  | intro statements _ ih =>
    exact .intro (fun decorators name body member => statements _ member decorators name body rfl) ih

theorem named_of_parse {text : String} {tree : List Statement} (h : parse text = some tree) :
    Named tree :=
  .of_throughout (established_namesClass.throughout_of_parse h)

end ImportAtlas.Python
