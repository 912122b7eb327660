import ImportAtlas.Proofs.Accesses
import ImportAtlas.Proofs.Later

/-!
Runs of questions that look modules up. Such a question is a run of lookups, so that a property that
every lookup keeps is kept by every run of questions, whatever library each question finds.
-/

set_option autoImplicit false

namespace ImportAtlas

/-- Whether a question is about the modules of the index; one about a text of its own is not. -/
def Question.looksUp : Question → Bool
  | buffer _ _ => false
  | _ => true

def State.after (qs : List (Library × Question)) (s : State) : State :=
  qs.foldl (fun s q => (q.2.ask q.1 s).2) s

private theorem Question.lookups_ask {q : Question} (looks : q.looksUp) (lib : Library)
    (s : State) :
    State.Lookups lib s (q.ask lib s).2 := by
  cases q with
  | keys => exact Relation.ReflTransGen.refl
  | resolve name =>
    rw [ask, Prod.map_snd]
    exact State.lookups_resolve lib name s
  | atCursor m activation =>
    rw [ask, Prod.map_snd]
    exact Completion.lookups_atCursor m activation s
  | inImport typed =>
    rw [ask, Prod.map_snd]
    exact Completion.lookups_inImport typed s
  | buffer file text => exact absurd looks Bool.false_ne_true
  | preload cancel names =>
    rw [ask, Prod.map_snd]
    exact State.lookups_preloadNames cancel names s

namespace State

theorem after_induction {P : State → Prop} {qs : List (Library × Question)}
    (looking : ∀ q ∈ qs, q.2.looksUp)
    (step : ∀ q ∈ qs, ∀ name s, P s → P (s.resolve q.1 name).2) {s : State} (h : P s) :
    P (s.after qs) := by
  induction qs generalizing s with
  | nil => exact h
  | cons q rest ih =>
    have keeps : ∀ t, Lookups q.1 s t → P t := by
      intro t run
      induction run with
      | refl => exact h
      | tail _ lookup before =>
        obtain ⟨name, rfl⟩ := lookup
        exact step q List.mem_cons_self name _ before
    have asked : P (q.2.ask q.1 s).2 :=
      keeps _ (Question.lookups_ask (looking q List.mem_cons_self) q.1 s)
    exact ih (fun r member => looking r (List.mem_cons_of_mem q member))
      (fun r member => step r (List.mem_cons_of_mem q member)) asked

variable {s : State} {qs : List (Library × Question)}

theorem wellFormed_after (h : s.index.WellFormed) (looking : ∀ q ∈ qs, q.2.looksUp) :
    (s.after qs).index.WellFormed :=
  after_induction (P := fun t => t.index.WellFormed) looking
    (fun _ _ name _ before => before.resolve name) h

theorem searchPath_after (looking : ∀ q ∈ qs, q.2.looksUp) :
    (s.after qs).index.searchPath = s.index.searchPath := by
  refine after_induction (P := fun t => t.index.searchPath = s.index.searchPath) looking ?_ rfl
  intro q _ name t before
  exact (Index.searchPath_resolve q.1 name t).trans before

end State

end ImportAtlas
