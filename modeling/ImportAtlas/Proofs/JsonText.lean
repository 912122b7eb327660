import ImportAtlas.Json
import Mathlib.Data.List.Basic

/-!
Values that are written as text are read back, however they are laid out.
-/

set_option autoImplicit false

namespace ImportAtlas

namespace Text

private theorem isDigit_of_mem_decimalChars {n : Nat} {c : Char} (h : c ∈ decimalChars n) :
    c.isDigit :=
  List.all_eq_true.mp (all_isDigit_decimalChars n) c h

private theorem head_decimalChars {n : Nat} (positive : 0 < n) :
    (decimalChars n).head? ≠ some '0' := by
  fun_induction decimalChars n with
  | case1 n small =>
    have digits : ∀ d < 10, 0 < d → digitChar d ≠ '0' := by decide
    simpa using digits n small positive
  | case2 n large ih =>
    have first : 0 < n / 10 := by omega
    rw [List.head?_append_of_ne_nil _ (decimalChars_ne_nil _)]
    exact ih first

end Text

namespace Json

/-! Texts. -/

private theorem joinPieces_unit {n : Nat} (h : n < 0x20) (ps : List Piece) :
    joinPieces (.unit n :: ps) = (joinPieces ps).map (Char.ofNat n :: ·) := by
  have low : ¬(0xd800 ≤ n ∧ n < 0xdc00) := by omega
  have high : ¬(0xdc00 ≤ n ∧ n < 0xe000) := by omega
  have any : ¬(0xd800 ≤ n ∧ n < 0xe000) := by omega
  match ps with
  | [] => simp [joinPieces, any]
  | .char c :: ps => simp [joinPieces, any]
  | .unit m :: ps => simp [joinPieces, low, high]

/-- What reading a character should do to the pieces behind it. -/
def Reads (text : List Char) (c : Char) : Prop :=
  ∃ p, (∀ r, pieces (text ++ r) = (pieces r).map fun (ps, r) => (p :: ps, r)) ∧
    ∀ ps, joinPieces (p :: ps) = (joinPieces ps).map (c :: ·)

private theorem reads_escape {e c : Char} (known : escaped? e = some c) : Reads ['\\', e] c := by
  -- What begins with this letter is a unit, which another equation reads.
  have no_unit : e ≠ 'u' := by
    rintro rfl
    have unknown : escaped? 'u' = none := rfl
    rw [unknown] at known
    exact absurd known (by simp)
  refine ⟨.char c, ?_, fun ps => by rw [joinPieces]⟩
  intro r
  simp only [List.cons_append, List.nil_append]
  rw [pieces.eq_def]
  split
  · rename_i same
    exact absurd (List.cons.inj same).1 (by decide)
  · rename_i same
    exact absurd (List.cons.inj (List.cons.inj same).2).1 no_unit
  · rename_i same
    obtain ⟨rfl, rfl⟩ := List.cons.inj (List.cons.inj same).2
    rw [known]
    cases pieces r <;> rfl
  · rename_i no_escape same
    obtain ⟨rfl, rfl⟩ := List.cons.inj same
    exact absurd rfl (no_escape e r rfl)
  · rename_i same
    exact absurd same (List.cons_ne_nil _ _)

private theorem reads_control {c : Char} (control : c.toNat < 0x20) :
    Reads ['\\', 'u', '0', '0', Text.hexChar (c.toNat / 16), Text.hexChar (c.toNat % 16)] c := by
  have high : Text.hexValue (Text.hexChar (c.toNat / 16)) = some (c.toNat / 16) :=
    Text.hexValue_hexChar (by omega)
  have low : Text.hexValue (Text.hexChar (c.toNat % 16)) = some (c.toNat % 16) :=
    Text.hexValue_hexChar (by omega)
  have zero : Text.hexValue '0' = some 0 := by decide
  have value : (0 * 16 + 0) * 256 + (c.toNat / 16 * 16 + c.toNat % 16) = c.toNat := by omega
  refine ⟨.unit c.toNat, ?_, ?_⟩
  · intro r
    simp only [List.cons_append, List.nil_append, pieces, high, low, zero, Option.bind_eq_bind,
      Option.bind_some, value]
    cases pieces r <;> rfl
  · intro ps
    rw [joinPieces_unit control, Char.ofNat_toNat]

private theorem reads_plain {c : Char} (no_quote : c ≠ '"') (no_escape : c ≠ '\\')
    (printable : ¬c.toNat < 0x20) : Reads [c] c := by
  refine ⟨.char c, ?_, fun ps => by rw [joinPieces]⟩
  intro r
  simp only [List.cons_append, List.nil_append]
  rw [pieces.eq_def]
  split
  · rename_i same
    exact absurd (List.cons.inj same).1 no_quote
  · rename_i same
    exact absurd (List.cons.inj same).1 no_escape
  · rename_i same
    exact absurd (List.cons.inj same).1 no_escape
  · rename_i same
    obtain ⟨rfl, rfl⟩ := List.cons.inj same
    simp only [printable, no_escape, beq_iff_eq, decide_false, Bool.false_or, if_false]
    cases pieces r <;> rfl
  · rename_i same
    exact absurd same (List.cons_ne_nil _ _)

private theorem reads_escapeChar (c : Char) : Reads (escapeChar c) c := by
  unfold escapeChar
  split
  · subst_vars
    exact reads_escape rfl
  split
  · subst_vars
    exact reads_escape rfl
  split
  · subst_vars
    exact reads_escape rfl
  split
  · subst_vars
    exact reads_escape rfl
  split
  · subst_vars
    exact reads_escape rfl
  split
  · subst_vars
    exact reads_escape rfl
  split
  · subst_vars
    exact reads_escape rfl
  split
  · rename_i control
    exact reads_control control
  · rename_i no_quote no_escape _ _ _ _ _ printable
    exact reads_plain no_quote no_escape printable

private theorem pieces_flatMap_escapeChar (cs r : List Char) :
    ∃ ps, pieces (cs.flatMap escapeChar ++ '"' :: r) = some (ps, r) ∧ joinPieces ps = some cs := by
  induction cs with
  | nil => exact ⟨[], by simp [pieces], by simp [joinPieces]⟩
  | cons c cs ih =>
    obtain ⟨ps, read, joined⟩ := ih
    obtain ⟨p, first, joins⟩ := reads_escapeChar c
    refine ⟨p :: ps, ?_, ?_⟩
    · rw [List.flatMap_cons, List.append_assoc, first, read]
      rfl
    · rw [joins, joined]
      rfl

private theorem stringTail_quoted (s : String) (r : List Char) :
    stringTail (s.toList.flatMap escapeChar ++ '"' :: r) = some (some s, r) := by
  obtain ⟨ps, read, joined⟩ := pieces_flatMap_escapeChar s.toList r
  simp [stringTail, read, joined]

/-! Numbers. -/

def EndsNumber (r : List Char) : Prop :=
  ∀ c, r.head? = some c → c.isDigit = false ∧ c ≠ '.' ∧ c ≠ 'e' ∧ c ≠ 'E'

private theorem someDigits_append {ds r : List Char} (nonempty : ds ≠ [])
    (digits : ∀ c ∈ ds, c.isDigit) (ends : EndsNumber r) : someDigits (ds ++ r) = some (ds, r) := by
  have stop : ∀ c ∈ r.head?, c.isDigit = false := fun c found => (ends c found).1
  have taken : (ds ++ r).takeWhile Char.isDigit = ds := by
    rw [List.takeWhile_append_of_pos digits]
    cases r with
    | nil => simp
    | cons c r => simp [stop c rfl]
  have left : (ds ++ r).dropWhile Char.isDigit = r := by
    rw [List.dropWhile_append_of_pos digits]
    cases r with
    | nil => simp
    | cons c r => simp [stop c rfl]
  unfold someDigits
  rw [taken, left]
  split
  · exact absurd rfl nonempty
  · rfl

private theorem unsigned_decimalChars (n : Nat) {r : List Char} (ends : EndsNumber r) :
    unsigned (Text.decimalChars n ++ r) = some (Text.decimalChars n, r) := by
  have whole : wholePart (Text.decimalChars n ++ r) = some (Text.decimalChars n, r) := by
    have digits := someDigits_append (Text.decimalChars_ne_nil n)
      (fun c member => Text.isDigit_of_mem_decimalChars member) ends
    rcases Nat.eq_zero_or_pos n with rfl | positive
    · have zero : Text.decimalChars 0 = ['0'] := by
        rw [Text.decimalChars]
        rfl
      rw [zero]
      rfl
    · have first := Text.head_decimalChars positive
      unfold wholePart
      split
      · rename_i rest starts
        rw [← List.head?_append_of_ne_nil _ (Text.decimalChars_ne_nil n), starts] at first
        exact absurd rfl first
      · exact digits
  have point : fraction r = some ([], r) := by
    unfold fraction
    split
    · exact absurd rfl (ends '.' rfl).2.1
    · rfl
  have power : exponent r = some ([], r) := by
    cases r with
    | nil => rfl
    | cons c r =>
      obtain ⟨-, -, lower, upper⟩ := ends c rfl
      simp [exponent, lower, upper]
  simp [unsigned, whole, point, power]

/-! Values. -/

private theorem skipSpace_append {blank r : List Char} (h : ∀ c ∈ blank, isSpace c) :
    skipSpace (blank ++ r) = skipSpace r :=
  List.dropWhile_append_of_pos h

private theorem skipSpace_cons {c : Char} (h : isSpace c = false) (r : List Char) :
    skipSpace (c :: r) = c :: r := by
  simp [skipSpace, h]

private theorem isSpace_of_mem_lineBreak {l : Layout} {c : Char} (h : c ∈ l.lineBreak) :
    isSpace c := by
  cases l with
  | compact => exact absurd h List.not_mem_nil
  | lines depth =>
    rcases List.mem_cons.mp h with rfl | blank
    · rfl
    · rw [List.eq_of_mem_replicate blank]
      rfl

private theorem skipSpace_lineBreak (l : Layout) {c : Char} (h : isSpace c = false)
    (r : List Char) :
    skipSpace (l.lineBreak ++ c :: r) = c :: r := by
  rw [skipSpace_append fun _ => isSpace_of_mem_lineBreak, skipSpace_cons h]

private theorem value_append {blank : List Char} (h : ∀ c ∈ blank, isSpace c) (fuel : Nat)
    (r : List Char) : value fuel (blank ++ r) = value fuel r := by
  cases fuel with
  | zero => simp [value]
  | succ fuel => simp only [value, skipSpace_append h]

private theorem Layout.colon_deeper (l : Layout) : l.deeper.colon = l.colon := by
  cases l <;> rfl

private theorem Layout.exists_blank_of_colon (l : Layout) :
    ∃ blank, l.colon = ':' :: blank ∧ ∀ c ∈ blank, isSpace c := by
  cases l with
  | compact => exact ⟨[], rfl, by simp⟩
  | lines depth => exact ⟨[' '], rfl, by simp [isSpace]⟩

private theorem endsNumber_cons {c : Char} (h : c.isDigit = false ∧ c ≠ '.' ∧ c ≠ 'e' ∧ c ≠ 'E')
    (r : List Char) : EndsNumber (c :: r) := by
  rintro d found
  obtain rfl := Option.some.inj found
  exact h

private theorem endsNumber_lineBreak (l : Layout) {c : Char}
    (h : c.isDigit = false ∧ c ≠ '.' ∧ c ≠ 'e' ∧ c ≠ 'E') (r : List Char) :
    EndsNumber (l.lineBreak ++ c :: r) := by
  cases l with
  | compact => exact endsNumber_cons h r
  | lines depth => exact endsNumber_cons (by decide) _

mutual
/-- Whether a value can be read back: its texts are readable and its numbers are natural ones. -/
def Readable : Json → Prop
  | null => True
  | bool _ => True
  | number literal => ∃ n, literal = Text.decimalChars n
  | text s => s.isSome
  | array items => ItemsReadable items
  | object fields => FieldsReadable fields

def ItemsReadable : List Json → Prop
  | [] => True
  | x :: xs => Readable x ∧ ItemsReadable xs

def FieldsReadable : List (Option String × Json) → Prop
  | [] => True
  | (key, x) :: xs => key.isSome ∧ Readable x ∧ FieldsReadable xs
end

private theorem isSpace_of_isDigit {c : Char} (h : c.isDigit) : isSpace c = false := by
  cases blank : isSpace c with
  | false => rfl
  | true =>
    simp only [isSpace, Bool.or_eq_true, beq_iff_eq] at blank
    rcases blank with ((rfl | rfl) | rfl) | rfl <;> exact absurd h (by decide)

private theorem value_digit {c : Char} (h : c.isDigit) (fuel : Nat) (r : List Char) :
    value (fuel + 1) (c :: r) = (unsigned (c :: r)).map fun (n, r) => (number n, r) := by
  have other : ∀ d, d.isDigit = false → c ≠ d := by
    rintro d no_digit rfl
    rw [h] at no_digit
    exact absurd no_digit (by simp)
  rw [value.eq_def]
  simp only [skipSpace_cons (isSpace_of_isDigit h)]
  split
  · rename_i same
    exact absurd (List.cons.inj same).1 (other _ (by decide))
  · rename_i same
    exact absurd (List.cons.inj same).1 (other _ (by decide))
  · rename_i same
    exact absurd (List.cons.inj same).1 (other _ (by decide))
  · rename_i same
    exact absurd (List.cons.inj same).1 (other _ (by decide))
  · rename_i same
    obtain ⟨rfl, rfl⟩ := List.cons.inj same
    rw [if_pos h]
  · rename_i same
    exact absurd same (List.cons_ne_nil _ _)

private theorem exists_head_render {j : Json} (h : j.Readable) (l : Layout) :
    ∃ c cs, render l j = c :: cs ∧ isSpace c = false ∧ c ≠ ']' := by
  match j with
  | null => exact ⟨_, _, rfl, by decide⟩
  | bool true => exact ⟨_, _, rfl, by decide⟩
  | bool false => exact ⟨_, _, rfl, by decide⟩
  | number literal =>
    obtain ⟨n, rfl⟩ := h
    obtain ⟨c, cs, digits⟩ := List.exists_cons_of_ne_nil (Text.decimalChars_ne_nil n)
    have digit : c.isDigit :=
      Text.isDigit_of_mem_decimalChars (n := n) (digits ▸ List.mem_cons_self)
    refine ⟨c, cs, by rw [render, digits], isSpace_of_isDigit digit, ?_⟩
    rintro rfl
    exact absurd digit (by decide)
  | text s => exact ⟨_, _, rfl, by decide⟩
  | array [] => exact ⟨_, _, rfl, by decide⟩
  | array (x :: xs) => exact ⟨_, _, rfl, by decide⟩
  | object [] => exact ⟨_, _, rfl, by decide⟩
  | object ((key, x) :: xs) => exact ⟨_, _, rfl, by decide⟩

/-- Whether a value is read back from its text, given as much fuel as the text is long. -/
def ReadBack (x : Json) : Prop :=
  ∀ (l : Layout) (fuel : Nat) (r : List Char), (render l x).length ≤ fuel → EndsNumber r →
    value fuel (render l x ++ r) = some (x, r)

private theorem items_last {x : Json} (h : x.ReadBack) (l close : Layout) {fuel : Nat}
    (r : List Char) (enough : (render l x).length ≤ fuel) :
    items (fuel + 1) (l.lineBreak ++ (render l x ++ (close.lineBreak ++ ']' :: r))) =
      some ([x], r) := by
  have first := h l fuel (close.lineBreak ++ ']' :: r) enough (endsNumber_lineBreak _ (by decide) r)
  rw [items, value_append fun _ => isSpace_of_mem_lineBreak, first]
  simp only [Option.bind_eq_bind, Option.bind_some,
    skipSpace_lineBreak close (show isSpace ']' = false from rfl)]

private theorem items_cons {x : Json} (h : x.ReadBack) (l : Layout) {fuel : Nat}
    {rest r : List Char} {xs : List Json} (enough : (render l x).length ≤ fuel)
    (later : items fuel rest = some (xs, r)) :
    items (fuel + 1) (l.lineBreak ++ (render l x ++ ',' :: rest)) = some (x :: xs, r) := by
  have first := h l fuel (',' :: rest) enough (endsNumber_cons (by decide) rest)
  rw [items, value_append fun _ => isSpace_of_mem_lineBreak, first]
  simp only [Option.bind_eq_bind, Option.bind_some,
    skipSpace_cons (show isSpace ',' = false from rfl), later]
  rfl

private theorem value_array {l : Layout} {fuel : Nat} {text rest r : List Char} {xs : List Json}
    {c : Char} {cs : List Char} (read : items fuel (l.lineBreak ++ (text ++ rest)) = some (xs, r))
    (starts : text = c :: cs) (no_space : isSpace c = false) (no_close : c ≠ ']') :
    value (fuel + 1) ('[' :: (l.lineBreak ++ (text ++ rest))) = some (array xs, r) := by
  subst starts
  have same : items fuel (c :: (cs ++ rest)) = items fuel (l.lineBreak ++ (c :: cs ++ rest)) := by
    cases fuel with
    | zero => simp [items]
    | succ fuel =>
      simp only [items, value_append fun _ => isSpace_of_mem_lineBreak]
      rfl
  simp only [value, skipSpace_cons (show isSpace '[' = false from rfl), List.cons_append,
    skipSpace_lineBreak l no_space]
  split
  · rename_i same
    exact absurd (List.cons.inj same).1 no_close
  · rw [same, read]
    rfl

private theorem value_object {l : Layout} {fuel : Nat} {key : String} {rest r : List Char}
    {xs : List (Option String × Json)}
    (read : fields fuel (l.lineBreak ++ (quoted key ++ rest)) = some (xs, r)) :
    value (fuel + 1) ('{' :: (l.lineBreak ++ (quoted key ++ rest))) = some (object xs, r) := by
  have same : fields fuel (quoted key ++ rest) = fields fuel (l.lineBreak ++ (quoted key ++ rest)) := by
    cases fuel with
    | zero => simp [fields]
    | succ fuel => simp only [fields, skipSpace_append fun _ => isSpace_of_mem_lineBreak]
  simp only [value, skipSpace_cons (show isSpace '{' = false from rfl), quoted, List.cons_append,
    skipSpace_lineBreak l (show isSpace '"' = false from rfl)] at same read ⊢
  show (fields fuel ('"' :: _)).map _ = _
  rw [same, read]
  rfl

def fieldsAfter (fuel : Nat) (field : Option String × Json) (rest : List Char) :
    Option (List (Option String × Json) × List Char) :=
  match skipSpace rest with
  | ',' :: r => (fields fuel r).map fun (xs, r) => (field :: xs, r)
  | '}' :: r => some ([field], r)
  | _ => none

private theorem fields_succ {x : Json} (h : x.ReadBack) (key : String) (l : Layout) {fuel : Nat}
    {rest : List Char} (enough : (render l x).length ≤ fuel) (ends : EndsNumber rest) :
    fields (fuel + 1) (l.lineBreak ++ (quoted key ++ (l.colon ++ (render l x ++ rest)))) =
      fieldsAfter fuel (some key, x) rest := by
  obtain ⟨blank, colon, all_blank⟩ := l.exists_blank_of_colon
  have read := stringTail_quoted key (':' :: (blank ++ (render l x ++ rest)))
  have first := h l fuel rest enough ends
  simp only [fields, quoted, colon, List.cons_append, List.append_assoc, List.nil_append,
    skipSpace_lineBreak l (show isSpace '"' = false from rfl), read,
    skipSpace_cons (show isSpace ':' = false from rfl), value_append all_blank, first,
    Option.bind_eq_bind, Option.bind_some]
  rfl

private theorem fields_last {x : Json} (h : x.ReadBack) (key : String) (l close : Layout)
    {fuel : Nat} (r : List Char) (enough : (render l x).length ≤ fuel) :
    fields (fuel + 1) (l.lineBreak ++ (quoted key ++ (l.colon ++ (render l x ++
      (close.lineBreak ++ '}' :: r))))) = some ([(some key, x)], r) := by
  rw [fields_succ h key l enough (endsNumber_lineBreak _ (by decide) r)]
  simp only [fieldsAfter, skipSpace_lineBreak close (show isSpace '}' = false from rfl)]

private theorem fields_cons {x : Json} (h : x.ReadBack) (key : String) (l : Layout) {fuel : Nat}
    {rest r : List Char} {xs : List (Option String × Json)} (enough : (render l x).length ≤ fuel)
    (later : fields fuel rest = some (xs, r)) :
    fields (fuel + 1) (l.lineBreak ++ (quoted key ++ (l.colon ++ (render l x ++ ',' :: rest)))) =
      some ((some key, x) :: xs, r) := by
  rw [fields_succ h key l enough (endsNumber_cons (by decide) rest)]
  simp only [fieldsAfter, skipSpace_cons (show isSpace ',' = false from rfl), later]
  rfl

-- On the structure of the value. The fuel loses one at each bracket, comma and brace, and all of them
-- are in the text, so that a text never is longer than the fuel that is left for it.
mutual
private theorem value_render : (j : Json) → j.Readable → j.ReadBack
  | null, _, _, fuel + 1, _, _, _ => rfl
  | bool true, _, _, fuel + 1, _, _, _ => rfl
  | bool false, _, _, fuel + 1, _, _, _ => rfl
  | number literal, h, l, fuel + 1, r, _, ends => by
    obtain ⟨n, rfl⟩ := h
    obtain ⟨c, cs, digits⟩ := List.exists_cons_of_ne_nil (Text.decimalChars_ne_nil n)
    have digit : c.isDigit :=
      Text.isDigit_of_mem_decimalChars (n := n) (digits ▸ List.mem_cons_self)
    have read := unsigned_decimalChars n ends
    rw [render]
    rw [digits] at read ⊢
    rw [List.cons_append, value_digit digit, ← List.cons_append, read]
    rfl
  | text s, h, l, fuel + 1, r, _, _ => by
    obtain ⟨t, rfl⟩ := Option.isSome_iff_exists.mp h
    have read := stringTail_quoted t r
    simp only [render, quoted, Option.getD_some, List.cons_append, List.append_assoc,
      List.nil_append, value, skipSpace_cons (show isSpace '"' = false from rfl), read]
    rfl
  | array [], _, _, fuel + 1, _, _, _ => rfl
  | array (x :: xs), h, l, fuel + 1, r, enough, _ => by
    have first := value_render x h.1
    simp only [render, List.cons_append, List.append_assoc, List.nil_append, List.length_cons,
      List.length_append] at enough ⊢
    have read := items_render xs h.2 first l.deeper l fuel r (by omega)
    obtain ⟨c, cs, starts, no_space, no_close⟩ := exists_head_render h.1 l.deeper
    exact value_array read starts no_space no_close
  | object [], _, _, fuel + 1, _, _, _ => rfl
  | object ((key, x) :: xs), h, l, fuel + 1, r, enough, _ => by
    have first := value_render x h.2.1
    obtain ⟨name, rfl⟩ := Option.isSome_iff_exists.mp h.1
    simp only [render, List.cons_append, List.append_assoc, List.nil_append, List.length_cons,
      List.length_append, Option.getD_some] at enough ⊢
    have read := fields_render xs h.2.2 name first l.deeper l fuel r (by omega)
    rw [l.colon_deeper] at read
    exact value_object read
  | j, h, l, 0, r, enough, _ => by
    obtain ⟨c, cs, starts, -⟩ := exists_head_render h l
    rw [starts] at enough
    exact absurd enough (Nat.not_succ_le_zero _)

private theorem items_render : (xs : List Json) → ItemsReadable xs → ∀ {x : Json}, x.ReadBack →
    ∀ (l close : Layout) (fuel : Nat) (r : List Char),
      (render l x).length + (renderItems l xs).length < fuel →
      items fuel (l.lineBreak ++ (render l x ++ (renderItems l xs ++
        (close.lineBreak ++ ']' :: r)))) = some (x :: xs, r)
  | [], _, x, first, l, close, fuel + 1, r, enough => by
    simp only [renderItems, List.length_nil, Nat.add_zero] at enough
    exact items_last first l close r (Nat.le_of_lt_succ enough)
  | y :: ys, h, x, first, l, close, fuel + 1, r, enough => by
    have second := value_render y h.1
    simp only [renderItems, List.cons_append, List.append_assoc, List.length_cons,
      List.length_append] at enough ⊢
    exact items_cons first l (by omega) (items_render ys h.2 second l close fuel r (by omega))
  | _, _, _, _, _, _, 0, _, enough => absurd enough (Nat.not_lt_zero _)

private theorem fields_render : (xs : List (Option String × Json)) → FieldsReadable xs →
    ∀ (key : String) {x : Json}, x.ReadBack → ∀ (l close : Layout) (fuel : Nat) (r : List Char),
      (render l x).length + (renderFields l xs).length < fuel →
      fields fuel (l.lineBreak ++ (quoted key ++ (l.colon ++ (render l x ++ (renderFields l xs ++
        (close.lineBreak ++ '}' :: r)))))) = some ((some key, x) :: xs, r)
  | [], _, key, x, first, l, close, fuel + 1, r, enough => by
    simp only [renderFields, List.length_nil, Nat.add_zero] at enough
    exact fields_last first key l close r (Nat.le_of_lt_succ enough)
  | (other, y) :: ys, h, key, x, first, l, close, fuel + 1, r, enough => by
    have second := value_render y h.2.1
    obtain ⟨name, rfl⟩ := Option.isSome_iff_exists.mp h.1
    simp only [renderFields, List.cons_append, List.append_assoc, List.length_cons,
      List.length_append, Option.getD_some] at enough ⊢
    exact fields_cons first key l (by omega)
      (fields_render ys h.2.2 name second l close fuel r (by omega))
  | _, _, _, _, _, _, _, 0, _, enough => absurd enough (Nat.not_lt_zero _)
end

/-- A value is read back from its text. -/
theorem parse_pretty {j : Json} (h : j.Readable) : parse j.pretty = some j := by
  have read := value_render j h (.lines 0) ((render (.lines 0) j).length + 1) []
    (Nat.le_succ _) (by simp [EndsNumber])
  rw [List.append_nil] at read
  simp only [parse, pretty, String.toList_ofList, read, Option.bind_eq_bind, Option.bind_some]
  exact if_pos rfl

end Json

end ImportAtlas
