import Flowfile.Proofs.Schema.Index
import Flowfile.Proofs.Schema.Report

/-! A validation leaves no node out without a reason.

Where the descriptions of a schema lead somewhere, a node that the validation comes to is entered
into the index or reported. A node that it does not come to lies below one that is reported, or
below a key that is. -/

namespace Flowfile

theorem Node.leads_append {root node inner : Node} {front back : Path}
    (outer : root.Leads front node) (leads : node.Leads back inner) :
    root.Leads (front ++ back) inner := by
  induction outer with
  | here => exact leads
  | pair member _ ih => exact .pair member (ih leads)
  | item member _ ih => exact .item member (ih leads)

namespace Resolution

/-- What a description refers to at a place is there: references and custom descriptions lead to
other descriptions, and there is at least one alternative wherever there are alternatives. -/
inductive Resolves (r : Resolution) (path : Path) : Desc → Prop
  | single {desc terminal} (head : r.concrete path desc = some (.single terminal)) :
      Resolves r path desc
  | oneOf {desc about options}
      (head : r.concrete path desc = some (.oneOf about options)) (any : options ≠ [])
      (each : ∀ option ∈ options, Resolves r path option) :
      Resolves r path desc

section

variable {r : Resolution} {path : Path} {desc : Desc}

theorem yields_of_each {descs : List Desc}
    (each : ∀ desc ∈ descs, ∃ terminals, r.Yields path [desc] terminals ∧ terminals ≠ []) :
    ∃ terminals, r.Yields path descs terminals ∧ (descs ≠ [] → terminals ≠ []) := by
  induction descs with
  | nil => exact ⟨[], .nil, absurd rfl⟩
  | cons first rest ih =>
      obtain ⟨here, others⟩ := List.forall_mem_cons.mp each
      obtain ⟨terminals, yields, nonempty⟩ := here
      obtain ⟨later, behind, -⟩ := ih others
      exact ⟨terminals ++ later, yields_cons yields behind,
        fun _ => List.append_ne_nil_of_left_ne_nil nonempty later⟩

theorem yields_of_resolves (resolves : r.Resolves path desc) :
    ∃ terminals, r.Yields path [desc] terminals ∧ terminals ≠ [] := by
  induction resolves with
  | @single desc terminal head => exact ⟨[terminal], .single head .nil, by simp⟩
  | @oneOf desc about options head any each ih =>
      obtain ⟨terminals, yields, nonempty⟩ := yields_of_each ih
      refine ⟨terminals ++ [], .oneOf head yields .nil, ?_⟩
      rw [List.append_nil]
      exact nonempty any

theorem options_of_resolves (resolves : r.Resolves path desc) :
    ∃ terminals, r.options path desc = .ok terminals ∧ terminals ≠ [] := by
  obtain ⟨terminals, yields, nonempty⟩ := yields_of_resolves resolves
  exact ⟨terminals, options_eq_ok_iff.mpr yields, nonempty⟩

end

end Resolution

namespace Validation

theorem shapesOf_ne_nil {options : List Terminal} (any : options ≠ []) : shapesOf options ≠ [] := by
  have kept : ∀ (more : List Terminal) (shapes : List Shape), shapes ≠ [] →
      more.foldl (fun shapes option =>
        if shapes.contains option.shape then shapes else shapes ++ [option.shape]) shapes ≠ [] := by
    intro more
    induction more with
    | nil => exact fun shapes any => any
    | cons first rest ih =>
        intro shapes any
        rw [List.foldl_cons]
        apply ih
        split
        · exact any
        · simp
  cases options with
  | nil => exact absurd rfl any
  | cons first rest => exact kept rest [first.shape] (by simp)

section

variable {r : Resolution}

theorem unmatched_ne_nil {path : Path} {desc : Desc} {node : Node} {problems : List Diagnostic}
    (resolves : r.Resolves path desc) (settled : settle r path desc node = .ok (none, problems)) :
    problems ≠ [] := by
  obtain ⟨terminals, flattened, any⟩ := Resolution.options_of_resolves resolves
  rcases settle_eq_ok settled with
    ⟨nothing, -, -⟩ | ⟨terminal, -, found, -⟩ | ⟨options, same, -, unmatched⟩
  · cases flattened.symm.trans nothing
    exact absurd rfl any
  · cases found
  · cases flattened.symm.trans same
    simp [unmatched rfl, noMatchingShape, shapesOf_ne_nil any]

theorem enters_or_reports {visit : Visit} (resolves : r.Resolves visit.path visit.desc) :
    (∃ terminal, Enters r visit terminal) ∨
      ∃ problem, Reports r visit problem ∧ problem.Marks visit.node := by
  rcases settled : settle r visit.path visit.desc visit.node with
    endless | ⟨_ | terminal, problems⟩
  · obtain ⟨terminals, yields, -⟩ := Resolution.yields_of_resolves resolves
    exact absurd (settle_eq_error_iff.mp settled)
      (Resolution.straight_of_yields yields _ List.mem_cons_self)
  · obtain ⟨problem, member⟩ := List.exists_mem_of_ne_nil _ (unmatched_ne_nil resolves settled)
    exact .inr ⟨problem, .unmatched settled member, (marks_of_unmatched settled member).2⟩
  · by_cases accepted : terminal.fits visit.node.shape = true ∨ visit.node.isAlias = true
    · exact .inl ⟨terminal, ⟨problems, settled⟩, accepted⟩
    · simp only [not_or, Bool.not_eq_true] at accepted
      exact .inr ⟨_, .misshapen settled accepted.1 accepted.2, rfl, rfl⟩

/-- The problem is reported at a node on the way to the one that the path leads to, or at the key of
such a node. -/
def Explains (root : Node) (path : Path) (node : Node) (problem : Diagnostic) : Prop :=
  ∃ front back inner, path = front ++ back ∧ root.Leads front inner ∧ inner.Leads back node ∧
    (problem.Marks inner ∨ ∃ place parent key, front = place ++ [.key key.keyText] ∧
      root.Leads place parent ∧ (key, inner) ∈ parent.pairs ∧ problem.Marks key)

variable {schema : Desc} {root : Node} {findings : Findings}
  (run : validate r schema (some root) = .ok findings)

include run

theorem mem_validate_of_reports {visit : Visit} {problem : Diagnostic}
    (walks : Walks r ⟨[], schema, root⟩ visit) (reports : Reports r visit problem) :
    problem ∈ findings.diagnostics := by
  obtain ⟨found, visited, rfl⟩ := validate_eq_ok run
  rw [diagnostics_append]
  exact List.mem_append_left _ (mem_diagnostics_of_reports visited walks reports)

theorem entered_or_explained
    (resolves : ∀ visit, Walks r ⟨[], schema, root⟩ visit → r.Resolves visit.path visit.desc)
    {above back : Path} {desc : Desc} {outer node : Node} (leads : outer.Leads back node)
    (walks : Walks r ⟨[], schema, root⟩ ⟨above, desc, outer⟩) :
    (∃ terminal, (node, terminal) ∈ findings.entries) ∨
      ∃ problem ∈ findings.diagnostics, Explains root (above ++ back) node problem := by
  induction leads generalizing above desc with
  | @here node =>
      rcases enters_or_reports (resolves _ walks) with
        ⟨terminal, enters⟩ | ⟨problem, reports, marks⟩
      · exact .inl ⟨terminal, (mem_validate run node terminal).mpr ⟨_, walks, rfl, enters⟩⟩
      · exact .inr ⟨problem, mem_validate_of_reports run walks reports, above, [], node, rfl,
          leads_of_walks walks, .here, .inl marks⟩
  | @pair info anchor flow pairs key value path node member inner ih =>
      have outer := leads_of_walks walks
      rcases enters_or_reports (resolves _ walks) with
        ⟨terminal, ⟨problems, settled⟩, fits⟩ | ⟨problem, reports, marks⟩
      · cases terminal with
        | mapping about fields =>
            cases known : fields.desc? key.keyText with
            | some desc' =>
                rw [List.append_cons]
                exact ih (walks_concat walks (.pair settled member known))
            | none =>
                have reports : Reports r ⟨above, desc, .map info anchor flow pairs⟩
                    (rejectedKey fields key) := .key settled rfl member known
                have marks := (marks_rejectedKey fields key).2
                refine .inr ⟨_, mem_validate_of_reports run walks reports,
                  above ++ [.key key.keyText], path, value, List.append_cons ..,
                  Node.leads_append outer (.pair member .here), inner,
                  .inr ⟨above, _, key, rfl, outer, member, marks⟩⟩
        | scalar about choices => rcases fits with unfit | isAlias <;> contradiction
        | sequence about items => rcases fits with unfit | isAlias <;> contradiction
      · exact .inr ⟨problem, mem_validate_of_reports run walks reports, above, _, _, rfl, outer,
          .pair member inner, .inl marks⟩
  | @item info anchor flow items position item path node member inner ih =>
      have outer := leads_of_walks walks
      rcases enters_or_reports (resolves _ walks) with
        ⟨terminal, ⟨problems, settled⟩, fits⟩ | ⟨problem, reports, marks⟩
      · cases terminal with
        | sequence about desc' =>
            rw [List.append_cons]
            exact ih (walks_concat walks (.item settled member))
        | scalar about choices => rcases fits with unfit | isAlias <;> contradiction
        | mapping about fields => rcases fits with unfit | isAlias <;> contradiction
      · exact .inr ⟨problem, mem_validate_of_reports run walks reports, above, _, _, rfl, outer,
          .item member inner, .inl marks⟩

omit run in
theorem get?_ne_none_of_mem {entries : NodeIndex} {node : Node} {terminal : Terminal}
    (member : (node, terminal) ∈ entries) : entries.get? node ≠ none := by
  intro missing
  have absent := List.find?_eq_none.mp (Option.map_eq_none_iff.mp missing) _ member
  simp at absent

end

/-- A validation comes to an end, and every node that a path leads to is in the index, or a problem
on the way to it is reported; so where nothing is reported, every such node is in the index. -/
theorem validate_covers (r : Resolution) (schema : Desc) (root : Node)
    (resolves : ∀ visit, Walks r ⟨[], schema, root⟩ visit → r.Resolves visit.path visit.desc) :
    ∃ findings, validate r schema (some root) = .ok findings ∧
      (∀ path node, root.Leads path node → findings.entries.get? node = none →
        ∃ problem ∈ findings.diagnostics, Explains root path node problem) ∧
      (findings.diagnostics = [] → ∀ path node, root.Leads path node →
        ∃ terminal, findings.entries.get? node = some terminal) := by
  have straight : Straight r schema (some root) := by
    intro node visit same walks
    cases same
    obtain ⟨terminals, yields, -⟩ := Resolution.yields_of_resolves (resolves visit walks)
    exact Resolution.straight_of_yields yields _ List.mem_cons_self
  obtain ⟨findings, run⟩ := (validate_ends_iff ..).mpr straight
  have covers (path : Path) (node : Node) (leads : root.Leads path node)
      (missing : findings.entries.get? node = none) :
      ∃ problem ∈ findings.diagnostics, Explains root path node problem := by
    rcases entered_or_explained run resolves leads .here with ⟨terminal, member⟩ | explained
    · exact absurd missing (get?_ne_none_of_mem member)
    · exact explained
  refine ⟨findings, run, covers, ?_⟩
  intro clean path node leads
  apply Option.ne_none_iff_exists'.mp
  intro missing
  obtain ⟨problem, member, -⟩ := covers path node leads missing
  rw [clean] at member
  cases member

/-- A sequence where a single event is asked for. -/
theorem validate_covers_misfit :
    let key : Node := .scalar ⟨1, 0, 2⟩ none (Text.of "on") (.str (Text.of "on")) none
    let item : Node := .scalar ⟨3, 5, 9⟩ none (Text.of "push") (.str (Text.of "push")) none
    let items : Node := .sequence ⟨2, 4, 10⟩ none true [item]
    let root : Node := .map ⟨0, 0, 10⟩ none false [(key, items)]
    let event : Desc := .scalar {} { allowed := [{ value := Text.of "push" }] }
    let events : Desc := .oneOf {} [event, .mapping {} {}]
    let schema : Desc := .mapping {} { properties := [{ name := Text.of "on", desc := events }] }
    let r : Resolution := ⟨[], .record [], ContextSource.fixed .undefined []⟩
    (∀ visit, Walks r ⟨[], schema, root⟩ visit → r.Resolves visit.path visit.desc) ∧
    root.Leads [.key (Text.of "on"), .index 0] item ∧
    ∃ findings, validate r schema (some root) = .ok findings ∧
      findings.entries.get? item = none ∧
      ∃ problem ∈ findings.diagnostics,
        Explains root [.key (Text.of "on"), .index 0] item problem := by
  intro key item items root event events schema r
  have resolves (visit : Visit) (walks : Walks r ⟨[], schema, root⟩ visit) :
      r.Resolves visit.path visit.desc := by
    cases walks with
    | here => exact .single rfl
    | step step further =>
        dsimp only [root] at step
        cases step with
        | pair settled member known =>
            cases settled
            cases List.mem_singleton.mp member
            cases known
            cases further with
            | here =>
                refine .oneOf rfl (by simp) ?_
                intro option member
                simp only [List.mem_cons, List.not_mem_nil, or_false] at member
                rcases member with rfl | rfl
                · exact .single rfl
                · exact .single rfl
            | step step further =>
                dsimp only [items] at step
                cases step with
                | item settled member => cases settled
  have leads : root.Leads [.key (Text.of "on"), .index 0] item :=
    .pair List.mem_cons_self (.item rfl .here)
  obtain ⟨findings, run, covers, -⟩ := validate_covers r schema root resolves
  have missing : findings.entries.get? item = none := by
    cases run
    rfl
  exact ⟨resolves, leads, findings, run, missing, covers _ _ leads missing⟩

end Validation

end Flowfile
