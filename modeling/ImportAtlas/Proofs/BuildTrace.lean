import ImportAtlas.Proofs.Editing

/-!
The calls of a build. Visitors can note how they are called without a difference to the build. What
they note is a prefix of the calls that the units of the build foresee, which is cut off only behind
a cancellation, and everything that the build counts and reports can be read off the notes.
-/

set_option autoImplicit false

namespace ImportAtlas.Build

variable {σ : Type}

structure Call where
  position : Nat
  visitor : String
  visit : Visit
  deriving DecidableEq, Repr

/-- What a visitor notes: how it was called, its failure, and whether it has cancelled the build. -/
structure Note where
  call : Call
  failure : Option Failure
  cancels : Bool

def Visitor.note (v : Visitor σ) (position : Nat) (visit : Visit) (state : σ) : Note :=
  let reaction := v.visit visit state
  ⟨⟨position, v.name, visit⟩, reaction.failure, reaction.cancels⟩

/-- The visitor that notes its calls. -/
def Visitor.noting (v : Visitor σ) (position : Nat) : Visitor (σ × List Note) where
  name := v.name
  visit visit s :=
    { v.visit visit s.1 with
      state := ((v.visit visit s.1).state, s.2 ++ [v.note position visit s.1]) }

def noting (visitors : List (Visitor σ)) (first : Nat) : List (Visitor (σ × List Note)) :=
  (visitors.zipIdx first).map fun (v, position) => v.noting position

def callAll (visit : Visit) (visitors : List (Visitor σ)) (first : Nat) : List Call :=
  (visitors.zipIdx first).map fun (v, position) => ⟨position, v.name, visit⟩

def Run.plain (r : Run (σ × List Note)) : Run σ :=
  { r with state := r.state.1 }

section Plain

private theorem noting_cons (v : Visitor σ) (rest : List (Visitor σ)) (first : Nat) :
    noting (v :: rest) first = v.noting first :: noting rest (first + 1) :=
  rfl

private theorem callAll_cons (visit : Visit) (v : Visitor σ) (rest : List (Visitor σ))
    (first : Nat) :
    callAll visit (v :: rest) first = ⟨first, v.name, visit⟩ :: callAll visit rest (first + 1) :=
  rfl

private theorem Run.plain_react (r : Run (σ × List Note)) (path : Path) (v : Visitor σ)
    (position : Nat) (visit : Visit) :
    (r.react path (v.noting position).name ((v.noting position).visit visit r.state)).plain =
      r.plain.react path v.name (v.visit visit r.plain.state) :=
  rfl

private theorem Run.plain_visitAll (path : Path) (visit : Visit) (visitors : List (Visitor σ))
    (first : Nat) (r : Run (σ × List Note)) :
    (r.visitAll path visit (noting visitors first)).plain = r.plain.visitAll path visit visitors := by
  induction visitors generalizing first r with
  | nil => rfl
  | cons v rest ih =>
    have same : r.plain.cancelled = r.cancelled := rfl
    rw [noting_cons]
    simp only [visitAll, same]
    split
    · rfl
    · rw [ih, plain_react]

private theorem Run.plain_follow (sources : Sources) (visitors : List (Visitor σ)) (change : Change)
    (r : Run (σ × List Note)) :
    (r.follow sources (noting visitors 0) change).plain =
      r.plain.follow sources visitors change := by
  cases change with
  | changed file =>
    simp only [follow]
    cases sources.read file with
    | error cause => rfl
    | ok text => exact Run.plain_visitAll file (.changed file text) visitors 0 r
  | removed file => exact Run.plain_visitAll file (.removed file) visitors 0 r
  | directoryRemoved dir => exact Run.plain_visitAll dir (.directoryRemoved dir) visitors 0 r

private theorem plain_runUnits (sources : Sources) (visitors : List (Visitor σ)) (units : List Item)
    (r : Run (σ × List Note)) :
    (runUnits sources (noting visitors 0) units r).plain =
      runUnits sources visitors units r.plain := by
  induction units generalizing r with
  | nil => rfl
  | cons unit rest ih =>
    have same : r.plain.cancelled = r.cancelled := rfl
    have event : ∀ (s : Run (σ × List Note)) e, (s.report e).plain = s.plain.report e :=
      fun _ _ => rfl
    simp only [runUnits, same]
    split
    · rfl
    · rw [ih, event, Run.plain_follow, event]

private theorem plain_run (task : String) (sources : Sources) (visitors : List (Visitor σ))
    (units : List Item) (cancelled : Bool) (state : σ) :
    (run task sources (noting visitors 0) units cancelled (state, [])).plain =
      run task sources visitors units cancelled state := by
  have ended : ∀ r : Run (σ × List Note), (r.report (.done task r.cancelled)).plain =
      r.plain.report (.done task r.plain.cancelled) := fun _ => rfl
  simp only [run]
  rw [ended, plain_runUnits]
  rfl

end Plain

/-- The calls that a unit foresees; none if its file cannot be read. -/
def planned (sources : Sources) (visitors : List (Visitor σ)) (unit : Item) : List Call :=
  match unit.change.visit? sources with
  | some visit => callAll visit visitors 0
  | none => []

def Change.unread? (sources : Sources) : Change → Option Incident
  | .changed file =>
    match sources.read file with
    | .ok _ => none
    | .error cause => some ⟨file, readerName, .ofRead "" file cause⟩
  | _ => none

def Note.incident? (path : Path) (note : Note) : Option Incident :=
  note.failure.map (Incident.mk path note.call.visitor)

/-- A unit that a build has come to, with what its visitors have noted. -/
structure Attempt where
  unit : Item
  notes : List Note

namespace Attempt

variable (sources : Sources) (visitors : List (Visitor σ)) (a : Attempt)

def calls : List Call :=
  a.notes.map Note.call

def cancels : Bool :=
  a.notes.any Note.cancels

def incidents : List Incident :=
  (a.unit.change.unread? sources).toList ++ a.notes.filterMap (Note.incident? a.unit.change.path)

def isCut : Bool :=
  a.calls != planned sources visitors a.unit

/-- Whether there was something to show and all visitors were shown it. -/
def isComplete : Bool :=
  (a.unit.change.visit? sources).isSome && !a.isCut sources visitors

def events : List Event :=
  [.detail a.unit.description, .worked 1]

/-- Whether the visitors were called in their order, and as long as none had cancelled the build. -/
structure IsOrderly : Prop where
  ordered : a.calls <+: planned sources visitors a.unit
  calm : ∀ note ∈ a.notes.dropLast, note.cancels = false
  stopped : a.isCut sources visitors → a.cancels

end Attempt

/-- What the attempts at some units make of a run. -/
structure Run.Adds (sources : Sources) (visitors : List (Visitor σ)) (units : List Item)
    (attempts : List Attempt) (r r' : Run (σ × List Note)) : Prop where
  noted : r'.state.2 = r.state.2 ++ attempts.flatMap Attempt.notes
  incidents : r'.incidents = r.incidents ++ attempts.flatMap (Attempt.incidents sources)
  processed : r'.processed = r.processed + attempts.countP (Attempt.isComplete sources visitors)
  cancelled : r'.cancelled = (r.cancelled || attempts.any Attempt.cancels)
  interrupted : r'.interrupted = (r.interrupted || decide (attempts.map Attempt.unit ≠ units) ||
    attempts.any (Attempt.isCut sources visitors))
  events : r'.events = r.events ++ attempts.flatMap Attempt.events

/-- The way of a build through its units: it begins none once it is cancelled. -/
inductive Course (sources : Sources) (visitors : List (Visitor σ)) :
    Bool → List Item → List Attempt → Prop
  | finish (cancelled : Bool) : Course sources visitors cancelled [] []
  | stop (unit : Item) (rest : List Item) : Course sources visitors true (unit :: rest) []
  | attempt {a : Attempt} {rest : List Item} {later : List Attempt} :
      a.IsOrderly sources visitors → Course sources visitors a.cancels rest later →
      Course sources visitors false (a.unit :: rest) (a :: later)

structure Run.Shows (path : Path) (calls : List Call) (notes : List Note)
    (r r' : Run (σ × List Note)) : Prop where
  noted : r'.state.2 = r.state.2 ++ notes
  incidents : r'.incidents = r.incidents ++ notes.filterMap (Note.incident? path)
  processed : r'.processed = r.processed + if notes.map Note.call = calls then 1 else 0
  cancelled : r'.cancelled = (r.cancelled || notes.any Note.cancels)
  interrupted : r'.interrupted = (r.interrupted || decide (notes.map Note.call ≠ calls))
  events : r'.events = r.events
  ordered : notes.map Note.call <+: calls
  calm : ∀ note ∈ notes.dropLast, note.cancels = false
  silent : r.cancelled → notes = []
  stopped : notes.map Note.call ≠ calls → r'.cancelled

private theorem Run.react_noting (r : Run (σ × List Note)) (path : Path) (v : Visitor σ)
    (position : Nat) (visit : Visit) :
    r.react path v.name ((v.noting position).visit visit r.state) =
      { r with
        state := ((v.visit visit r.state.1).state, r.state.2 ++ [v.note position visit r.state.1])
        incidents := r.incidents ++ ((v.note position visit r.state.1).incident? path).toList
        cancelled := r.cancelled || (v.note position visit r.state.1).cancels } :=
  rfl

private theorem Run.Shows.cons {path : Path} {calls : List Call} {notes : List Note}
    {r r' : Run (σ × List Note)} {v : Visitor σ} {position : Nat} {visit : Visit}
    (running : r.cancelled = false)
    (h : Shows path calls notes
      (r.react path v.name ((v.noting position).visit visit r.state)) r') :
    Shows path (⟨position, v.name, visit⟩ :: calls)
      (v.note position visit r.state.1 :: notes) r r' := by
  rw [react_noting] at h
  have called : (v.note position visit r.state.1).call = ⟨position, v.name, visit⟩ := rfl
  generalize v.note position visit r.state.1 = note at h called
  obtain ⟨noted, incidents, processed, cancelled, interrupted, events, ordered, calm, silent,
    stopped⟩ := h
  constructor
  case noted => simpa using noted
  case incidents =>
    rw [incidents, List.filterMap_cons]
    cases note.incident? path <;> simp
  case processed => simpa [called] using processed
  case cancelled => simpa [running] using cancelled
  case interrupted => simpa [called] using interrupted
  case events => exact events
  case ordered => simpa [called] using ordered
  case calm =>
    -- A call behind one that cancels would contradict `silent`.
    intro other member
    cases notes with
    | nil => simp at member
    | cons next others =>
      rcases List.mem_cons.mp member with rfl | member
      · by_contra cancels
        have none_later := silent (by simpa [running] using cancels)
        exact absurd none_later (by simp)
      · exact calm other member
  case silent => simp [running]
  case stopped => simpa [called] using stopped

private theorem Run.exists_shows (path : Path) (visit : Visit) (visitors : List (Visitor σ))
    (first : Nat) (r : Run (σ × List Note)) :
    ∃ notes, Shows path (callAll visit visitors first) notes r
      (r.visitAll path visit (noting visitors first)) := by
  induction visitors generalizing first r with
  | nil => exact ⟨[], by constructor <;> simp [visitAll, noting, callAll]⟩
  | cons v rest ih =>
    rw [noting_cons, callAll_cons]
    simp only [visitAll]
    cases running : r.cancelled with
    | true => exact ⟨[], by constructor <;> simp [running]⟩
    | false =>
      obtain ⟨notes, shown⟩ := ih (first + 1)
        (r.react path v.name ((v.noting first).visit visit r.state))
      exact ⟨v.note first visit r.state.1 :: notes, shown.cons running⟩

def Run.attempt (sources : Sources) (visitors : List (Visitor σ)) (unit : Item) (r : Run σ) : Run σ :=
  ((r.report (.detail unit.description)).follow sources visitors unit.change).report (.worked 1)

variable {sources : Sources} {visitors : List (Visitor σ)}

private theorem Run.Shows.exists_attempt {visit : Visit} {unit : Item} {notes : List Note}
    {r r' : Run (σ × List Note)} (running : r.cancelled = false)
    (shown : unit.change.visit? sources = some visit) (read : unit.change.unread? sources = none)
    (h : Shows unit.change.path (callAll visit visitors 0) notes
      (r.report (.detail unit.description)) r') :
    ∃ a : Attempt, a.unit = unit ∧ a.IsOrderly sources visitors ∧
      Adds sources visitors [unit] [a] r (r'.report (.worked 1)) := by
  have foreseen : planned sources visitors unit = callAll visit visitors 0 := by
    simp only [planned, shown]
  have cut : Attempt.isCut sources visitors ⟨unit, notes⟩ =
      decide (notes.map Note.call ≠ callAll visit visitors 0) := by
    simp [Attempt.isCut, Attempt.calls, foreseen, bne, beq_eq_decide]
  have complete : Attempt.isComplete sources visitors ⟨unit, notes⟩ =
      decide (notes.map Note.call = callAll visit visitors 0) := by
    simp [Attempt.isComplete, shown, cut]
  refine ⟨⟨unit, notes⟩, rfl, ⟨?_, h.calm, ?_⟩, ?_⟩
  · rw [foreseen]
    exact h.ordered
  · intro missing
    rw [cut, decide_eq_true_eq] at missing
    have cancelled := h.stopped missing
    rw [h.cancelled] at cancelled
    simpa [report, running, Attempt.cancels] using cancelled
  · constructor
    case noted => simpa [report] using h.noted
    case incidents => simpa [report, Attempt.incidents, read] using h.incidents
    case processed =>
      rw [List.countP_singleton, complete]
      simpa [report] using h.processed
    case cancelled => simpa [report, Attempt.cancels] using h.cancelled
    case interrupted => simpa [report, cut] using h.interrupted
    case events => simp [report, h.events, Attempt.events]

private theorem Run.exists_attempt_of_unread {unit : Item} {incident : Incident}
    {r r' : Run (σ × List Note)} (hidden : unit.change.visit? sources = none)
    (unread : unit.change.unread? sources = some incident)
    (h : r' = { r.report (.detail unit.description) with
      incidents := r.incidents ++ [incident] }) :
    ∃ a : Attempt, a.unit = unit ∧ a.IsOrderly sources visitors ∧
      Adds sources visitors [unit] [a] r (r'.report (.worked 1)) := by
  have foreseen : planned sources visitors unit = [] := by
    simp only [planned, hidden]
  have whole : Attempt.isCut sources visitors ⟨unit, []⟩ = false := by
    simp [Attempt.isCut, Attempt.calls, foreseen]
  refine ⟨⟨unit, []⟩, rfl, ⟨List.nil_prefix, by simp, by simp [whole]⟩, ?_⟩
  subst h
  constructor <;>
    simp [report, Attempt.incidents, Attempt.isComplete, Attempt.cancels, Attempt.events, unread,
      hidden, whole]

private theorem Run.exists_attempt (sources : Sources) (visitors : List (Visitor σ)) (unit : Item)
    {r : Run (σ × List Note)} (running : r.cancelled = false) :
    ∃ a : Attempt, a.unit = unit ∧ a.IsOrderly sources visitors ∧
      Adds sources visitors [unit] [a] r (r.attempt sources (noting visitors 0) unit) := by
  obtain ⟨description, change⟩ := unit
  have all : ∀ visit, ∃ notes, Shows change.path (callAll visit visitors 0) notes
      (r.report (.detail description)) ((r.report (.detail description)).visitAll change.path visit
        (noting visitors 0)) :=
    fun visit => exists_shows change.path visit visitors 0 (r.report (.detail description))
  cases change with
  | changed file =>
    cases reads : sources.read file with
    | error cause =>
      have hidden : (Change.changed file).visit? sources = none := by
        simp only [Change.visit?, reads]
        rfl
      have unread : (Change.changed file).unread? sources =
          some ⟨file, readerName, .ofRead "" file cause⟩ := by
        simp only [Change.unread?, reads]
      refine exists_attempt_of_unread hidden unread ?_
      simp only [follow, reads]
      rfl
    | ok text =>
      obtain ⟨notes, shown⟩ := all (.changed file text)
      have visible : (Change.changed file).visit? sources = some (.changed file text) := by
        simp only [Change.visit?, reads]
        rfl
      have read : (Change.changed file).unread? sources = none := by
        simp only [Change.unread?, reads]
      simp only [attempt, follow, reads]
      exact shown.exists_attempt running visible read
  | removed file =>
    obtain ⟨notes, shown⟩ := all (.removed file)
    exact shown.exists_attempt running rfl rfl
  | directoryRemoved dir =>
    obtain ⟨notes, shown⟩ := all (.directoryRemoved dir)
    exact shown.exists_attempt running rfl rfl

private theorem Run.Adds.cons {a : Attempt} {units : List Item} {later : List Attempt}
    {r r' r'' : Run (σ × List Note)} (h : Adds sources visitors [a.unit] [a] r r')
    (h' : Adds sources visitors units later r' r'') :
    Adds sources visitors (a.unit :: units) (a :: later) r r'' := by
  constructor
  case noted => simp [h'.noted, h.noted]
  case incidents => simp [h'.incidents, h.incidents]
  case processed =>
    rw [h'.processed, h.processed, List.countP_singleton, List.countP_cons]
    omega
  case cancelled => simp [h'.cancelled, h.cancelled, Bool.or_assoc]
  case interrupted =>
    rw [h'.interrupted, h.interrupted]
    simp only [List.map_cons, List.map_nil, ne_eq, not_true_eq_false, decide_false, Bool.or_false,
      List.any_cons, List.any_nil, List.cons_eq_cons, true_and]
    ac_rfl
  case events => simp [h'.events, h.events]

private theorem exists_course (sources : Sources) (visitors : List (Visitor σ)) (units : List Item)
    (r : Run (σ × List Note)) :
    ∃ attempts, Course sources visitors r.cancelled units attempts ∧
      Run.Adds sources visitors units attempts r
        (runUnits sources (noting visitors 0) units r) := by
  -- Whether the first attempt cancels decides what the rest of the course begins with.
  induction units generalizing r with
  | nil => exact ⟨[], .finish _, by constructor <;> simp [runUnits]⟩
  | cons unit rest ih =>
    cases running : r.cancelled with
    | true =>
      refine ⟨[], .stop unit rest, ?_⟩
      constructor <;> simp [runUnits, running]
    | false =>
      have step : runUnits sources (noting visitors 0) (unit :: rest) r =
          runUnits sources (noting visitors 0) rest (r.attempt sources (noting visitors 0) unit) := by
        simp only [runUnits, running, Bool.false_eq_true, if_false]
        rfl
      obtain ⟨a, rfl, orderly, added⟩ := Run.exists_attempt sources visitors unit running
      obtain ⟨later, course, others⟩ := ih (r.attempt sources (noting visitors 0) a.unit)
      have stops : (r.attempt sources (noting visitors 0) a.unit).cancelled = a.cancels := by
        simpa [running] using added.cancelled
      rw [stops] at course
      exact ⟨a :: later, .attempt orderly course, step ▸ added.cons others⟩

namespace Course

variable {cancelled : Bool} {units : List Item} {attempts : List Attempt}

private theorem attempted (h : Course sources visitors cancelled units attempts) :
    attempts.map Attempt.unit <+: units := by
  induction h with
  | finish => exact List.nil_prefix
  | stop => exact List.nil_prefix
  | attempt _ _ ih => simpa using ih

private theorem orderly (h : Course sources visitors cancelled units attempts) :
    ∀ a ∈ attempts, a.IsOrderly sources visitors := by
  induction h with
  | finish => simp
  | stop => simp
  | attempt first _ ih => exact List.forall_mem_cons.mpr ⟨first, ih⟩

private theorem eq_nil (h : Course sources visitors cancelled units attempts)
    (stopped : cancelled) :
    attempts = [] := by
  cases h with
  | finish => rfl
  | stop => rfl
  | attempt => exact absurd stopped Bool.false_ne_true

private theorem running (h : Course sources visitors cancelled units attempts) :
    ∀ a ∈ attempts.dropLast, a.cancels = false := by
  induction h with
  | finish => simp
  | stop => simp
  | @attempt a rest later _ course ih =>
    intro other member
    cases later with
    | nil => simp at member
    | cons next others =>
      rcases List.mem_cons.mp member with rfl | member
      · by_contra cancels
        rw [Bool.not_eq_false] at cancels
        exact absurd (course.eq_nil cancels) (by simp)
      · exact ih other member

private theorem calm (h : Course sources visitors cancelled units attempts) :
    ∀ note ∈ (attempts.flatMap Attempt.notes).dropLast, note.cancels = false := by
  induction h with
  | finish => simp
  | stop => simp
  | @attempt a rest later orderly course ih =>
    intro note member
    rw [List.flatMap_cons] at member
    by_cases silent : later.flatMap Attempt.notes = []
    · rw [silent, List.append_nil] at member
      exact orderly.calm note member
    · rw [List.dropLast_append_of_ne_nil silent] at member
      rcases List.mem_append.mp member with here | there
      · -- There are later notes, so this attempt has not cancelled the build.
        by_contra cancels
        rw [Bool.not_eq_false] at cancels
        have stopped : a.cancels := List.any_eq_true.mpr ⟨note, here, cancels⟩
        rw [course.eq_nil stopped] at silent
        exact silent rfl
      · exact ih note there

/-- Only a cancellation leaves units or calls out. -/
theorem cancels (h : Course sources visitors cancelled units attempts)
    (missing : attempts.map Attempt.unit ≠ units ∨
      attempts.any (Attempt.isCut sources visitors)) :
    cancelled || attempts.any Attempt.cancels := by
  induction h with
  | finish => simp at missing
  | stop => simp
  | @attempt a rest later orderly course ih =>
    simp only [List.map_cons, ne_eq, List.cons_eq_cons, true_and, List.any_cons,
      Bool.or_eq_true] at missing
    rw [List.any_cons, Bool.false_or]
    rcases missing with units | here | there
    · exact ih (Or.inl units)
    · simp [orderly.stopped here]
    · exact ih (Or.inr there)

private theorem called (h : Course sources visitors cancelled units attempts) :
    attempts.flatMap Attempt.calls <+: units.flatMap (planned sources visitors) := by
  induction h with
  | finish => exact List.nil_prefix
  | stop => exact List.nil_prefix
  | @attempt a rest later orderly course ih =>
    rw [List.flatMap_cons, List.flatMap_cons]
    by_cases cut : a.isCut sources visitors
    · rw [course.eq_nil (orderly.stopped cut), List.flatMap_nil, List.append_nil]
      exact orderly.ordered.trans (List.prefix_append _ _)
    · have whole : a.calls = planned sources visitors a.unit := by
        simpa [Attempt.isCut] using cut
      rw [whole]
      exact (List.prefix_append_right_inj _).mpr ih

private theorem any_isCut_eq_false_iff (h : Course sources visitors cancelled units attempts)
    (all : attempts.map Attempt.unit = units) :
    attempts.any (Attempt.isCut sources visitors) = false ↔
      attempts.flatMap Attempt.calls = units.flatMap (planned sources visitors) := by
  induction h with
  | finish => simp
  | stop => simp at all
  | @attempt a rest later orderly course ih =>
    rw [List.map_cons, List.cons_eq_cons] at all
    rw [List.any_cons, List.flatMap_cons, List.flatMap_cons, Bool.or_eq_false_iff, ih all.2]
    constructor
    · rintro ⟨whole, others⟩
      have same : a.calls = planned sources visitors a.unit := by
        simpa [Attempt.isCut] using whole
      rw [same, others]
    · intro equal
      have same : a.calls = planned sources visitors a.unit := by
        -- Calls that were cut are the last of the build, and then they would be all that is planned.
        by_contra cut
        have stopped := orderly.stopped (by simpa [Attempt.isCut] using cut)
        rw [course.eq_nil stopped, List.flatMap_nil, List.append_nil] at equal
        have front : planned sources visitors a.unit <+: a.calls :=
          equal ▸ List.prefix_append _ _
        exact cut (orderly.ordered.eq_of_length_le front.length_le)
      refine ⟨by simp [Attempt.isCut, same], ?_⟩
      rw [same] at equal
      exact List.append_cancel_left equal

end Course

/-- What is known of a run by its attempts, which are the units that it has come to. -/
structure Traced (sources : Sources) (visitors : List (Visitor σ)) (task : String)
    (units : List Item) (beforehand : Bool) (r : Run (σ × List Note)) (attempts : List Attempt) :
    Prop where
  attempted : attempts.map Attempt.unit <+: units
  noted : r.state.2 = attempts.flatMap Attempt.notes
  orderly : ∀ a ∈ attempts, a.IsOrderly sources visitors
  called : r.state.2.map Note.call <+: units.flatMap (planned sources visitors)
  /-- No call and no unit comes after a cancellation. -/
  calm : ∀ note ∈ r.state.2.dropLast, note.cancels = false
  running : ∀ a ∈ attempts.dropLast, a.cancels = false
  unbegun : beforehand → attempts = []
  /-- Nothing but a cancellation leaves units or calls out. -/
  stopped : r.interrupted → r.cancelled
  interrupted : r.interrupted = false ↔ attempts.map Attempt.unit = units ∧
    r.state.2.map Note.call = units.flatMap (planned sources visitors)
  cancelled : r.cancelled = (beforehand || r.state.2.any Note.cancels)
  incidents : r.incidents = attempts.flatMap (Attempt.incidents sources)
  processed : r.processed = attempts.countP (Attempt.isComplete sources visitors)
  events : r.events = .begin task (some units.length) ::
    attempts.flatMap Attempt.events ++ [.done task r.cancelled]

private theorem Course.traced {task : String} {units : List Item} {beforehand : Bool} {state : σ}
    {attempts : List Attempt} {r : Run (σ × List Note)}
    (course : Course sources visitors beforehand units attempts)
    (added : Run.Adds sources visitors units attempts
      { state := (state, []), cancelled := beforehand
        events := [.begin task (some units.length)] } r) :
    Traced sources visitors task units beforehand (r.report (.done task r.cancelled)) attempts := by
  have notes : r.state.2 = attempts.flatMap Attempt.notes := by
    simpa using added.noted
  have calls : r.state.2.map Note.call = attempts.flatMap Attempt.calls := by
    rw [notes, List.map_flatMap]
    rfl
  have stops : r.state.2.any Note.cancels = attempts.any Attempt.cancels := by
    rw [notes, List.any_flatMap]
    rfl
  have left_out : r.interrupted = (decide (attempts.map Attempt.unit ≠ units) ||
      attempts.any (Attempt.isCut sources visitors)) := by
    simpa using added.interrupted
  constructor
  case attempted => exact course.attempted
  case noted => exact notes
  case orderly => exact course.orderly
  case called => exact calls ▸ course.called
  case calm => exact notes ▸ course.calm
  case running => exact course.running
  case unbegun => exact course.eq_nil
  case stopped =>
    intro missing
    have some_missing : r.interrupted = true := missing
    rw [left_out, Bool.or_eq_true, decide_eq_true_eq] at some_missing
    exact added.cancelled.trans (course.cancels some_missing)
  case interrupted =>
    have clear : r.interrupted = false ↔ attempts.map Attempt.unit = units ∧
        attempts.any (Attempt.isCut sources visitors) = false := by
      rw [left_out, Bool.or_eq_false_iff, decide_eq_false_iff_not, not_not]
    refine clear.trans (and_congr_right fun all => ?_)
    rw [course.any_isCut_eq_false_iff all, ← calls]
    rfl
  case cancelled => exact added.cancelled.trans (by rw [← stops]; rfl)
  case incidents => simpa [Run.report] using added.incidents
  case processed => simpa [Run.report] using added.processed
  case events => simp [Run.report, added.events]

private theorem exists_traced (sources : Sources) (visitors : List (Visitor σ)) (task : String)
    (units : List Item) (cancelled : Bool) (state : σ) :
    ∃ attempts, Traced sources visitors task units cancelled
      (run task sources (noting visitors 0) units cancelled (state, [])) attempts := by
  obtain ⟨attempts, course, added⟩ := exists_course sources visitors units
    { state := (state, []), cancelled, events := [.begin task (some units.length)] }
  exact ⟨attempts, course.traced added⟩

/-- The calls of a build go through the visitors unit by unit, until there is a cancellation and
whatever fails. The report tells what failed, how many units all visitors were shown, and whether
anything was left out. -/
theorem builds_are_traced (sources : Sources) (visitors : List (Visitor σ)) (cancelled : Bool)
    (state : σ) :
    (∀ files, (full sources (noting visitors 0) files cancelled (state, [])).plain =
        full sources visitors files cancelled state ∧
      ∃ attempts, Traced sources visitors "Full build" (fullUnits files) cancelled
        (full sources (noting visitors 0) files cancelled (state, [])) attempts) ∧
    (∀ changes, (incremental sources (noting visitors 0) changes cancelled (state, [])).plain =
        incremental sources visitors changes cancelled state ∧
      ∃ attempts, Traced sources visitors "Incremental build" (incrementalUnits changes) cancelled
        (incremental sources (noting visitors 0) changes cancelled (state, [])) attempts) :=
  ⟨fun _ => ⟨plain_run _ _ _ _ _ _, exists_traced _ _ _ _ _ _⟩,
    fun _ => ⟨plain_run _ _ _ _ _ _, exists_traced _ _ _ _ _ _⟩⟩

end ImportAtlas.Build
