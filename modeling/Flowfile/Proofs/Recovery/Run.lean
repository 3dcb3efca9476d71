import Flowfile.Proofs.Outcome
import Flowfile.Proofs.Recovery.Repair

/-! The texts that a recovery hands to the composer, whatever the composer answers, and the tree
that comes of the last one. -/

namespace Flowfile.Recovery

open Text

variable {σ : Type}

/-- The attempts of a recovery, each with what the composer has learned before it. -/
def tried (compose : Composer σ) : (attempts : Nat) → σ → Attempt → List (σ × Attempt)
  | attempts, known, r =>
    (known, r) ::
      match compose known r.source with
      | (.error (.malformed e), known) =>
        match attempts with
        | 0 => []
        | left + 1 => tried compose left known (r.next e)
      | _ => []

theorem tried_induction {compose : Composer σ} {motive : Attempt → List (σ × Attempt) → Prop}
    (last : ∀ known r, motive r [(known, r)])
    (next : ∀ known r e rest, motive (r.next e) rest → motive r ((known, r) :: rest))
    (attempts : Nat) (known : σ) (r : Attempt) : motive r (tried compose attempts known r) := by
  induction attempts generalizing known r with
  | zero =>
      rw [tried]
      split
      · exact last known r
      · exact last known r
  | succ left ih =>
      rw [tried]
      split
      · exact next known r _ _ (ih _ _)
      · exact last known r

theorem head_mem_tried (compose : Composer σ) (attempts : Nat) (known : σ) (r : Attempt) :
    (known, r) ∈ tried compose attempts known r := by
  rw [tried.eq_def]
  exact List.mem_cons_self

theorem tried_next {compose : Composer σ} {left : Nat} {known learned : σ} {r : Attempt}
    {e : Yaml.Error} (answer : compose known r.source = (.error (.malformed e), learned)) :
    tried compose (left + 1) known r = (known, r) :: tried compose left learned (r.next e) := by
  rw [tried, answer]

/-- A recovery asks the composer nothing but its attempts. -/
theorem recover_congr {compose other : Composer σ} {attempts : Nat} {known : σ} {r : Attempt}
    (same : ∀ entry ∈ tried compose attempts known r,
      other entry.1 entry.2.source = compose entry.1 entry.2.source) :
    recover other attempts known r = recover compose attempts known r := by
  induction attempts generalizing known r with
  | zero => rw [recover, recover, same _ (head_mem_tried ..)]
  | succ left ih =>
      have here := same _ (head_mem_tried ..)
      rcases answer : compose known r.source with ⟨⟨e | limitation⟩ | graph, learned⟩
      · rw [recover, recover, here, answer]
        refine ih fun entry member => same entry ?_
        rw [tried_next answer]
        exact List.mem_cons_of_mem _ member
      all_goals
        rw [recover.eq_def, recover.eq_def compose]
        dsimp only
        rw [here, answer]

theorem tried_invariant {compose : Composer σ} {attempts : Nat} {known : σ} {r : Attempt}
    (holds : Attempt → Prop) (step : ∀ r e, holds r → holds (r.next e)) (first : holds r) :
    ∀ entry ∈ tried compose attempts known r, holds entry.2 := by
  revert first
  refine tried_induction (motive := fun r run => holds r → ∀ entry ∈ run, holds entry.2)
    ?_ ?_ attempts known r
  · intro known r first entry member
    rwa [List.mem_singleton.mp member]
  · intro known r e rest below first entry member
    rcases List.mem_cons.mp member with rfl | member
    · exact first
    · exact below (step r e first) entry member

theorem recover_composed {compose : Composer σ} {attempts : Nat} {known : σ} {r : Attempt}
    {graph : Yaml.Graph} {diagnostics : List Diagnostic}
    (done : recover compose attempts known r = .ok (some graph, diagnostics)) :
    ∃ entry ∈ tried compose attempts known r,
      (compose entry.1 entry.2.source).1 = .ok (some graph) := by
  induction attempts generalizing known r with
  | zero =>
      rcases answer : compose known r.source with ⟨⟨e | limitation⟩ | composed, learned⟩
      all_goals
        rw [recover, answer] at done
        cases done
      exact ⟨_, head_mem_tried .., congrArg Prod.fst answer⟩
  | succ left ih =>
      rcases answer : compose known r.source with ⟨⟨e | limitation⟩ | composed, learned⟩
      · rw [recover, answer] at done
        obtain ⟨entry, member, composed⟩ := ih done
        rw [tried_next answer]
        exact ⟨entry, List.mem_cons_of_mem _ member, composed⟩
      all_goals
        rw [recover, answer] at done
        cases done
      exact ⟨_, head_mem_tried .., congrArg Prod.fst answer⟩

theorem tree_of_build {settings : Settings} {content : Text} {graph : Option Yaml.Graph}
    {errors diagnostics : List Diagnostic} {root : Node}
    (built : build settings content graph errors = (some root, diagnostics)) :
    ∃ composed s, graph = some composed ∧
      Build.tree ⟨settings.maxDepth.toNat, settings.maxNodeCount.toNat⟩ content composed =
        some (root, s) := by
  cases graph with
  | none => cases built
  | some composed =>
      rw [build] at built
      split at built
      · cases built
      · rename_i done
        split at built
        all_goals
          cases built
          exact ⟨composed, _, rfl, done⟩

theorem tree_of_loadWith {compose : Composer σ} {start : σ} {settings : Settings}
    {content : Text} {root : Node} {diagnostics : List Diagnostic}
    (loaded : loadWith compose start settings content = .ok (some root, diagnostics)) :
    ∃ entry ∈ tried compose settings.maxRecoveryAttempts.toNat start { source := content },
      ∃ graph s, (compose entry.1 entry.2.source).1 = .ok (some graph) ∧
        Build.tree ⟨settings.maxDepth.toNat, settings.maxNodeCount.toNat⟩ content graph =
          some (root, s) := by
  rw [loadWith] at loaded
  split at loaded
  · cases loaded
  · split at loaded
    · cases loaded
    · obtain ⟨⟨graph, errors⟩, recovered, built⟩ := (bind_eq_ok ..).mp loaded
      obtain ⟨composed, s, rfl, done⟩ := tree_of_build (Except.ok.inj built)
      obtain ⟨entry, member, answer⟩ := recover_composed recovered
      exact ⟨entry, member, composed, s, answer, done⟩

theorem shrinks_next (r : Attempt) (e : Yaml.Error) (more : r.source ≠ []) :
    Shrinks r.source (r.next e).source :=
  shrinks_of_repairs (repairs_next r e) more

theorem next_of_empty {r : Attempt} (e : Yaml.Error) (empty : r.source = []) :
    (r.next e).source = [] := by
  have step := repairs_next r e
  rw [empty] at step
  generalize (r.next e).source = next at step
  generalize whole : ([] : Text) = text at step
  cases step with
  | cut opens less => exact absurd (List.append_eq_nil_iff.mp whole.symm).2 less
  | blank framed less =>
      have line := (List.append_eq_nil_iff.mp (List.append_eq_nil_iff.mp whole.symm).1).2
      exact absurd (by rw [line]; rfl) less
  | nothing => rfl

theorem shrinks_later {text : Text} (r : Attempt) (e : Yaml.Error)
    (less : Shrinks text r.source) : Shrinks text (r.next e).source := by
  by_cases empty : r.source = []
  · rw [next_of_empty e empty]
    rwa [empty] at less
  · exact shrinks_trans less (shrinks_next r e empty)

theorem tried_pairwise (compose : Composer σ) (attempts : Nat) (known : σ) (r : Attempt) :
    (tried compose attempts known r).Pairwise
      fun earlier later => earlier.2.source ≠ [] → Shrinks earlier.2.source later.2.source := by
  induction attempts generalizing known r with
  | zero =>
      rw [tried]
      split <;> exact List.pairwise_singleton ..
  | succ left ih =>
      rw [tried]
      split
      · rename_i e learned answer
        refine List.pairwise_cons.mpr ⟨fun later member more => ?_, ih learned (r.next e)⟩
        exact tried_invariant (fun later => Shrinks r.source later.source)
          shrinks_later (shrinks_next r e more) later member
      · exact List.pairwise_singleton ..

/-- A number that falls with each repair of a text that is not empty. -/
def rank (text : Text) : Nat := text.length * (text.length + 1) + inked text

theorem inked_le (text : Text) : inked text ≤ text.length := List.countP_le_length

theorem rank_lt {text next : Text} (less : Shrinks text next) : rank next < rank text := by
  rcases less with shorter | ⟨same, fewer⟩
  · have most := inked_le next
    have wider : next.length * (next.length + 2) =
        next.length * (next.length + 1) + next.length := Nat.mul_succ _ _
    calc
      rank next ≤ next.length * (next.length + 2) := by
        rw [rank]
        omega
      _ < (next.length + 1) * (next.length + 2) := by
        rw [Nat.succ_mul]
        omega
      _ ≤ text.length * (text.length + 1) := Nat.mul_le_mul shorter (by omega)
      _ ≤ rank text := Nat.le_add_right _ _
  · rw [rank, rank, same]
    omega

theorem rank_next (r : Attempt) (e : Yaml.Error) :
    rank (r.next e).source + (if r.source = [] then 0 else 1) ≤ rank r.source := by
  by_cases empty : r.source = []
  · rw [if_pos empty, next_of_empty e empty, empty]
    exact Nat.le_refl _
  · rw [if_neg empty]
    exact rank_lt (shrinks_next r e empty)

theorem tried_bounded (compose : Composer σ) (attempts : Nat) (known : σ) (r : Attempt) :
    (tried compose attempts known r).countP (fun entry => entry.2.source ≠ []) ≤
      rank r.source := by
  refine tried_induction (motive := fun r run =>
    run.countP (fun entry => entry.2.source ≠ []) ≤ rank r.source) ?_ ?_ attempts known r
  · intro known r
    rw [List.countP_singleton]
    by_cases empty : r.source = []
    · simp [empty]
    · have := rank_lt (.inl (List.length_pos_of_ne_nil empty) : Shrinks r.source [])
      simp [empty]
      omega
  · intro known r e rest fewer
    have falls := rank_next r e
    rw [List.countP_cons]
    by_cases empty : r.source = []
    · simp [empty] at falls fewer ⊢
      omega
    · simp [empty] at falls fewer ⊢
      omega

theorem tried_accepted {compose : Composer σ} {known : σ} {r : Attempt}
    (accepted : ∀ e, (compose known r.source).1 ≠ .error (.malformed e)) (attempts : Nat) :
    tried compose attempts known r = [(known, r)] := by
  rw [tried.eq_def]
  dsimp only
  split
  · rename_i e learned answer
    exact absurd (congrArg Prod.fst answer) (accepted e)
  · rfl

theorem tried_enough {compose : Composer σ}
    (accepts : ∀ known e, (compose known []).1 ≠ .error (.malformed e)) {left right : Nat}
    (known : σ) (r : Attempt) (first : rank r.source ≤ left) (second : rank r.source ≤ right) :
    tried compose left known r = tried compose right known r := by
  induction left generalizing right known r with
  | zero =>
      have empty : r.source = [] := by
        by_contra more
        have := rank_lt (.inl (List.length_pos_of_ne_nil more) : Shrinks r.source [])
        omega
      have accepted := accepts known
      rw [← empty] at accepted
      rw [tried_accepted accepted, tried_accepted accepted]
  | succ left ih =>
      by_cases accepted : ∀ e, (compose known r.source).1 ≠ .error (.malformed e)
      · rw [tried_accepted accepted, tried_accepted accepted]
      · obtain ⟨e, rejected⟩ := not_forall_not.mp accepted
        have answer : compose known r.source = (.error (.malformed e), (compose known r.source).2) :=
          Prod.ext rejected rfl
        have more : r.source ≠ [] := by
          intro empty
          rw [empty] at rejected
          exact accepts known e rejected
        have falls := rank_lt (shrinks_next r e more)
        cases right with
        | zero => omega
        | succ right =>
            rw [tried_next answer, tried_next answer]
            exact congrArg _ (ih _ _ (by omega) (by omega))

/-- The texts of a recovery are the beginning of the content with some lines blanked. Each failure
leaves less to be composed, down to the empty text, so that no text but the empty one is tried again
and the attempts come to an end: a larger number of them changes nothing where the empty text is no
failure. -/
theorem tried_keeps_places (compose : Composer σ) (attempts : Nat) (known : σ) (content : Text) :
    let start : Attempt := { source := content }
    let run := tried compose attempts known start
    (∀ other : Composer σ,
      (∀ entry ∈ run, other entry.1 entry.2.source = compose entry.1 entry.2.source) →
        recover other attempts known start = recover compose attempts known start) ∧
    (∀ entry ∈ run,
      (∃ whole, Blanked content whole ∧ entry.2.source <+: whole) ∧
      List.Forall₂ CharOrBlank (content.take entry.2.source.length) entry.2.source ∧
      ∀ e, entry.2.source ≠ [] → Shrinks entry.2.source (entry.2.next e).source) ∧
    (run.map (·.2.source)).Pairwise (fun earlier later => earlier ≠ [] → later ≠ earlier) ∧
    run.countP (fun entry => entry.2.source ≠ []) ≤ rank content ∧
    ((∀ learned e, (compose learned []).1 ≠ .error (.malformed e)) → ∀ more,
      tried compose (rank content + more) known start =
        tried compose (rank content) known start) := by
  intro start run
  refine ⟨fun other same => recover_congr same, ?_, ?_, tried_bounded compose attempts known start,
    fun accepts more => tried_enough accepts known start (Nat.le_add_right _ _) (Nat.le_refl _)⟩
  · intro entry member
    have kept : Kept content entry.2.source :=
      tried_invariant (fun r => Kept content r.source)
        (fun r e kept => kept_repairs kept (repairs_next r e)) (kept_self content) entry member
    have same := charOrBlank_of_kept kept
    obtain ⟨rest, blanked, -⟩ := kept
    exact ⟨⟨_, blanked, List.prefix_append _ _⟩, same, shrinks_next entry.2⟩
  · rw [List.pairwise_map]
    exact (tried_pairwise compose attempts known start).imp fun less more => shrinks_ne (less more)

/-- A composer that rejects all but the empty text, always at the same offset. -/
theorem tried_keeps_places_rejecting :
    let e : Yaml.Error := ⟨.expectedColon, some 3, none, false⟩
    let compose : Composer Unit := fun known text =>
      (if text = [] then .ok none else .error (.malformed e), known)
    let content := Text.of "a\nb["
    let start : Attempt := { source := content }
    (tried compose 9 () start).map (·.2.source) =
        [Text.of "a\nb[", Text.of "a\n  ", Text.of "a\n", []] ∧
      (∀ learned e', (compose learned []).1 ≠ .error (.malformed e')) ∧
      (tried compose 9 () start).countP (fun entry => entry.2.source ≠ []) ≤ rank content ∧
      tried compose (rank content + 1) () start = tried compose (rank content) () start := by
  intro e compose content start
  have accepts : ∀ learned e', (compose learned []).1 ≠ .error (.malformed e') := by
    intro learned e' rejected
    cases rejected
  obtain ⟨-, -, -, bounded, enough⟩ := tried_keeps_places compose 9 () content
  exact ⟨by decide +kernel, accepts, bounded, enough accepts 1⟩

end Flowfile.Recovery
