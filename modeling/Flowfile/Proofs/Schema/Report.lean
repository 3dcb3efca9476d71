import Flowfile.Proofs.Schema.Visit

/-! What a validation reports, missing keys apart.

Every problem is found at a node that the validation walks to, and all problems of all those nodes
are reported. -/

namespace Flowfile

def Diagnostic.Marks (problem : Diagnostic) (node : Node) : Prop :=
  problem.start = node.start ∧ problem.stop = node.stop

namespace Validation

/-- A problem at the node of the visit: no alternative fits it, it has not the shape that its
description asks for, or its text or one of its keys is not allowed. -/
inductive Reports (r : Resolution) (visit : Visit) : Diagnostic → Prop
  | unmatched {problems problem}
      (settled : settle r visit.path visit.desc visit.node = .ok (none, problems))
      (member : problem ∈ problems) : Reports r visit problem
  | misshapen {terminal problems}
      (settled : settle r visit.path visit.desc visit.node = .ok (some terminal, problems))
      (unfit : terminal.fits visit.node.shape = false) (solid : visit.node.isAlias = false) :
      Reports r visit (wrongShape terminal visit.path visit.node)
  | text {about choices problems info anchor raw value style problem}
      (settled : settle r visit.path visit.desc visit.node =
        .ok (some (.scalar about choices), problems))
      (scalar : visit.node = .scalar info anchor raw value style)
      (member : problem ∈ checkText r visit.path choices raw visit.node) : Reports r visit problem
  | key {about fields problems info anchor flow pairs key value}
      (settled : settle r visit.path visit.desc visit.node =
        .ok (some (.mapping about fields), problems))
      (map : visit.node = .map info anchor flow pairs) (member : (key, value) ∈ pairs)
      (unknown : fields.desc? key.keyText = none) : Reports r visit (rejectedKey fields key)

@[simp] theorem diagnostics_append (first second : Findings) :
    (first ++ second).diagnostics = first.diagnostics ++ second.diagnostics := by
  rfl

@[simp] theorem diagnostics_report (diagnostics : List Diagnostic) :
    (Findings.report diagnostics).diagnostics = diagnostics := by
  rfl

@[simp] theorem diagnostics_enter (node : Node) (terminal : Terminal) :
    (Findings.enter node terminal).diagnostics = [] := by
  rfl

section

variable {r : Resolution} {path : Path} {problem : Diagnostic}

theorem not_mem_missingKeys (ordinary : problem.code ≠ "MISSING_KEY") (fields : Fields Desc)
    (present : List Text) (start stop : Nat) :
    problem ∉ missingKeys fields present start stop := by
  intro member
  obtain ⟨name, -, rfl⟩ := List.mem_map.mp member
  exact ordinary rfl

theorem mem_checkScalar_diagnostics (ordinary : problem.code ≠ "MISSING_KEY") (key : Option Node)
    (terminal : Terminal) (info : NodeInfo) (anchor : Option Text) (raw : Text) (value : Value)
    (style : Option Yaml.Style) :
    problem ∈ (checkScalar r path key terminal raw
        (.scalar info anchor raw value style)).diagnostics ↔
      (∃ about choices, terminal = .scalar about choices ∧
        problem ∈ checkText r path choices raw (.scalar info anchor raw value style)) ∨
      terminal.fits (Node.scalar info anchor raw value style).shape = false ∧
        problem = wrongShape terminal path (.scalar info anchor raw value style) := by
  generalize same : Node.scalar info anchor raw value style = node
  have shape : node.shape = if node.isEmpty then .empty else .scalar := by
    rw [← same]
    rfl
  have present := not_mem_missingKeys ordinary
  cases terminal with
  | scalar about choices =>
      have fits : (Terminal.scalar about choices).fits node.shape = true := by
        rw [shape]
        split <;> rfl
      constructor
      · intro member
        exact .inl ⟨about, choices, rfl, by simpa [checkScalar] using member⟩
      · intro either
        rcases either with ⟨about', choices', same, member⟩ | ⟨unfit, -⟩
        · cases same
          simpa [checkScalar] using member
        · rw [fits] at unfit
          cases unfit
  | mapping about fields =>
      rw [checkScalar, shape]
      split <;> simp [Terminal.fits, Terminal.shape, present]
  | sequence about items =>
      rw [checkScalar, shape]
      split <;> simp [Terminal.fits, Terminal.shape]

theorem visit_diagnostics_key (ordinary : problem.code ≠ "MISSING_KEY") {key : Option Node}
    {desc : Desc} {node : Node} {findings : Findings}
    (run : visit r path key desc node = .ok findings) :
    ∃ other, visit r path none desc node = .ok other ∧
      (problem ∈ findings.diagnostics ↔ problem ∈ other.diagnostics) := by
  obtain ⟨chosen, problems, settled⟩ := settle_of_visit run
  cases node with
  | «alias» info name target =>
      rw [visit] at run ⊢
      exact ⟨findings, run, .rfl⟩
  | map info anchor flow pairs =>
      rw [visit] at run ⊢
      exact ⟨findings, run, .rfl⟩
  | sequence info anchor flow items =>
      rw [visit] at run ⊢
      exact ⟨findings, run, .rfl⟩
  | scalar info anchor raw value style =>
      rw [visit, settled] at run ⊢
      rcases chosen with _ | terminal
      · exact ⟨findings, run, .rfl⟩
      · cases run
        refine ⟨_, rfl, ?_⟩
        rw [mem_checkScalar_diagnostics ordinary, mem_checkScalar_diagnostics ordinary]

theorem mem_visitPairs_diagnostics (ordinary : problem.code ≠ "MISSING_KEY") {fields : Fields Desc}
    {pairs : List (Node × Node)} {findings : Findings}
    (run : visitPairs r path fields pairs = .ok findings) :
    problem ∈ findings.diagnostics ↔
      ∃ key value, (key, value) ∈ pairs ∧
        ((∃ desc inner, fields.desc? key.keyText = some desc ∧
          visit r (path ++ [.key key.keyText]) none desc value = .ok inner ∧
            problem ∈ inner.diagnostics) ∨
        fields.desc? key.keyText = none ∧ problem = rejectedKey fields key) := by
  induction pairs generalizing findings with
  | nil =>
      cases run
      simp
  | cons first rest ih =>
      obtain ⟨key, value⟩ := first
      obtain ⟨here, later, behind, rfl, checked, unchecked⟩ := visitPairs_cons run
      have head : problem ∈ here.diagnostics ↔
          (∃ desc inner, fields.desc? key.keyText = some desc ∧
            visit r (path ++ [.key key.keyText]) none desc value = .ok inner ∧
              problem ∈ inner.diagnostics) ∨
          fields.desc? key.keyText = none ∧ problem = rejectedKey fields key := by
        rcases known : fields.desc? key.keyText with _ | desc
        · simp [unchecked known]
        · obtain ⟨inner, visited, same⟩ := visit_diagnostics_key ordinary (checked desc known)
          simp [visited, same]
      rw [diagnostics_append, List.mem_append, ih behind, head]
      simp only [List.mem_cons, Prod.mk.injEq, or_and_right, exists_or, and_assoc,
        exists_eq_left, exists_and_left]

theorem mem_visitItems_diagnostics {desc : Desc} {position : Nat} {items : List Node}
    {findings : Findings} (run : visitItems r path desc position items = .ok findings) :
    problem ∈ findings.diagnostics ↔
      ∃ distance item inner, items[distance]? = some item ∧
        visit r (path ++ [.index (position + distance : Nat)]) none desc item = .ok inner ∧
          problem ∈ inner.diagnostics := by
  induction items generalizing position findings with
  | nil =>
      cases run
      simp
  | cons first rest ih =>
      obtain ⟨here, later, checked, behind, rfl⟩ := visitItems_cons run
      rw [diagnostics_append, List.mem_append, ih behind]
      constructor
      · rintro (member | ⟨distance, item, inner, found, visited, member⟩)
        · exact ⟨0, first, here, rfl, checked, member⟩
        · refine ⟨distance + 1, item, inner, found, ?_, member⟩
          rwa [← Nat.add_assoc, Nat.add_right_comm]
      · rintro ⟨distance, item, inner, found, visited, member⟩
        cases distance with
        | zero =>
            cases found
            cases visited.symm.trans checked
            exact .inl member
        | succ distance =>
            refine .inr ⟨distance, item, inner, found, ?_, member⟩
            rwa [Nat.add_right_comm, Nat.add_assoc]

end

/-- What is reported at the node of a visit, and at the nodes that the validation goes on to. -/
def ReportsFrom (r : Resolution) (first : Visit) (problem : Diagnostic) : Prop :=
  Reports r first problem ∨ ∃ next inner, Step r first next ∧
    visit r next.path none next.desc next.node = .ok inner ∧ problem ∈ inner.diagnostics

section

variable {r : Resolution} {first : Visit} {problem : Diagnostic}

theorem reportsFrom_of_unsettled {problems : List Diagnostic}
    (settled : settle r first.path first.desc first.node = .ok (none, problems)) :
    ReportsFrom r first problem ↔ problem ∈ problems := by
  have rejects : Rejects r first := by
    rintro terminal ⟨problems', same⟩
    cases settled.symm.trans same
  constructor
  · intro from'
    rcases from' with reports | ⟨next, inner, step, -⟩
    · cases reports with
      | unmatched settled' member =>
          cases settled.symm.trans settled'
          exact member
      | misshapen settled' => cases settled.symm.trans settled'
      | text settled' => cases settled.symm.trans settled'
      | key settled' => cases settled.symm.trans settled'
    · exact absurd step (not_step_of_rejects rejects next)
  · intro member
    exact .inl (.unmatched settled member)

theorem reportsFrom_of_unfit {terminal : Terminal} {problems : List Diagnostic}
    (settled : settle r first.path first.desc first.node = .ok (some terminal, problems))
    (unfit : terminal.fits first.node.shape = false) (solid : first.node.isAlias = false) :
    ReportsFrom r first problem ↔ problem = wrongShape terminal first.path first.node := by
  have rejects : Rejects r first := by
    rintro found ⟨problems', same⟩
    cases settled.symm.trans same
    exact ⟨unfit, solid⟩
  constructor
  · intro from'
    rcases from' with reports | ⟨next, inner, step, -⟩
    · cases reports with
      | unmatched settled' => cases settled.symm.trans settled'
      | misshapen settled' =>
          cases settled.symm.trans settled'
          rfl
      | text settled' scalar =>
          cases settled.symm.trans settled'
          rw [scalar] at unfit
          simp [Terminal.fits, Terminal.shape, Node.shape, Node.unalias] at unfit
      | key settled' map =>
          cases settled.symm.trans settled'
          rw [map] at unfit
          cases unfit
    · exact absurd step (not_step_of_rejects rejects next)
  · intro same
    rw [same]
    exact .inl (.misshapen settled unfit solid)

end

section

variable {r : Resolution} {path : Path} {desc : Desc} {problem : Diagnostic} {info : NodeInfo}
  {anchor : Option Text} {flow : Bool} {problems : List Diagnostic}

theorem reportsFrom_scalar {raw : Text} {value : Value} {style : Option Yaml.Style}
    {terminal : Terminal}
    (settled : settle r path desc (.scalar info anchor raw value style) =
      .ok (some terminal, problems)) :
    ReportsFrom r ⟨path, desc, .scalar info anchor raw value style⟩ problem ↔
      (∃ about choices, terminal = .scalar about choices ∧
        problem ∈ checkText r path choices raw (.scalar info anchor raw value style)) ∨
      terminal.fits (Node.scalar info anchor raw value style).shape = false ∧
        problem = wrongShape terminal path (.scalar info anchor raw value style) := by
  constructor
  · intro from'
    rcases from' with reports | ⟨next, inner, step, -⟩
    · cases reports with
      | unmatched settled' => cases settled.symm.trans settled'
      | misshapen settled' unfit =>
          cases settled.symm.trans settled'
          exact .inr ⟨unfit, rfl⟩
      | text settled' scalar member =>
          cases settled.symm.trans settled'
          cases scalar
          exact .inl ⟨_, _, rfl, member⟩
      | key settled' map => cases map
    · cases step
  · intro either
    rcases either with ⟨about, choices, rfl, member⟩ | ⟨unfit, rfl⟩
    · exact .inl (.text settled rfl member)
    · exact .inl (.misshapen settled unfit rfl)

theorem reportsFrom_map {pairs : List (Node × Node)} {about : About} {fields : Fields Desc}
    (settled : settle r path desc (.map info anchor flow pairs) =
      .ok (some (.mapping about fields), problems)) :
    ReportsFrom r ⟨path, desc, .map info anchor flow pairs⟩ problem ↔
      ∃ key value, (key, value) ∈ pairs ∧
        ((∃ desc inner, fields.desc? key.keyText = some desc ∧
          visit r (path ++ [.key key.keyText]) none desc value = .ok inner ∧
            problem ∈ inner.diagnostics) ∨
        fields.desc? key.keyText = none ∧ problem = rejectedKey fields key) := by
  constructor
  · intro from'
    rcases from' with reports | ⟨next, inner, step, visited, below⟩
    · cases reports with
      | unmatched settled' => cases settled.symm.trans settled'
      | misshapen settled' unfit =>
          cases settled.symm.trans settled'
          cases unfit
      | text settled' => cases settled.symm.trans settled'
      | key settled' map member unknown =>
          cases settled.symm.trans settled'
          cases map
          exact ⟨_, _, member, .inr ⟨unknown, rfl⟩⟩
    · cases step with
      | pair settled' member known =>
          cases settled.symm.trans settled'
          exact ⟨_, _, member, .inl ⟨_, inner, known, visited, below⟩⟩
  · rintro ⟨key, value, member, ⟨desc, inner, known, visited, below⟩ | ⟨unknown, same⟩⟩
    · exact .inr ⟨_, inner, .pair settled member known, visited, below⟩
    · rw [same]
      exact .inl (.key settled rfl member unknown)

theorem reportsFrom_sequence {items : List Node} {about : About} {element : Desc}
    (settled : settle r path desc (.sequence info anchor flow items) =
      .ok (some (.sequence about element), problems)) :
    ReportsFrom r ⟨path, desc, .sequence info anchor flow items⟩ problem ↔
      ∃ position item inner, items[position]? = some item ∧
        visit r (path ++ [.index (position : Nat)]) none element item = .ok inner ∧
          problem ∈ inner.diagnostics := by
  constructor
  · intro from'
    rcases from' with reports | ⟨next, inner, step, visited, below⟩
    · cases reports with
      | unmatched settled' => cases settled.symm.trans settled'
      | misshapen settled' unfit =>
          cases settled.symm.trans settled'
          cases unfit
      | text settled' => cases settled.symm.trans settled'
      | key settled' => cases settled.symm.trans settled'
    · cases step with
      | item settled' member =>
          cases settled.symm.trans settled'
          exact ⟨_, _, inner, member, visited, below⟩
  · rintro ⟨position, item, inner, member, visited, below⟩
    exact .inr ⟨_, inner, .item settled member, visited, below⟩

theorem not_reportsFrom_alias {name : Text} {target : Node} {terminal : Terminal}
    (settled : settle r path desc (.alias info name target) = .ok (some terminal, problems)) :
    ¬ReportsFrom r ⟨path, desc, .alias info name target⟩ problem := by
  intro from'
  rcases from' with reports | ⟨next, inner, step, -⟩
  · cases reports with
    | unmatched settled' => cases settled.symm.trans settled'
    | misshapen settled' unfit solid => cases solid
    | text settled' scalar => cases scalar
    | key settled' map => cases map
  · cases step

end

theorem mem_visit_diagnostics {r : Resolution} {path : Path} {desc : Desc} {node : Node}
    {findings : Findings} (run : visit r path none desc node = .ok findings) (problem : Diagnostic)
    (ordinary : problem.code ≠ "MISSING_KEY") :
    problem ∈ findings.diagnostics ↔ ReportsFrom r ⟨path, desc, node⟩ problem := by
  obtain ⟨_ | terminal, problems, settled⟩ := settle_of_visit run
  · rw [reportsFrom_of_unsettled settled]
    cases node
    all_goals
      rw [visit, settled] at run
      cases run
      rfl
  cases node with
  | «alias» info name target =>
      rw [visit, settled] at run
      cases run
      exact iff_of_false List.not_mem_nil (not_reportsFrom_alias settled)
  | scalar info anchor raw value style =>
      rw [visit, settled] at run
      cases run
      rw [mem_checkScalar_diagnostics ordinary, reportsFrom_scalar settled]
  | map info anchor flow pairs =>
      rw [visit, settled, ok_bind] at run
      cases terminal with
      | mapping about fields =>
          obtain ⟨below, visited, whole⟩ := (bind_eq_ok _ _ _).mp run
          cases whole
          rw [reportsFrom_map settled, ← mem_visitPairs_diagnostics ordinary visited]
          simp [not_mem_missingKeys ordinary]
      | scalar about choices | sequence about items =>
          cases run
          rw [reportsFrom_of_unfit settled rfl rfl]
          simp
  | sequence info anchor flow items =>
      rw [visit, settled, ok_bind] at run
      cases terminal with
      | sequence about element =>
          obtain ⟨below, visited, whole⟩ := (bind_eq_ok _ _ _).mp run
          cases whole
          rw [diagnostics_append, diagnostics_enter, List.nil_append,
            mem_visitItems_diagnostics visited, reportsFrom_sequence settled]
          simp only [Nat.zero_add]
      | scalar about choices | mapping about fields =>
          cases run
          rw [reportsFrom_of_unfit settled rfl rfl]
          simp

theorem mem_diagnostics_iff_walks {r : Resolution} {first : Visit} {findings : Findings}
    (run : visit r first.path none first.desc first.node = .ok findings) (problem : Diagnostic)
    (ordinary : problem.code ≠ "MISSING_KEY") :
    problem ∈ findings.diagnostics ↔ ∃ last, Walks r first last ∧ Reports r last problem := by
  constructor
  · induction size : sizeOf first.node using Nat.strongRecOn generalizing first findings with
    | ind total ih =>
        intro member
        rcases (mem_visit_diagnostics run problem ordinary).mp member with
          reports | ⟨next, inner, step, visited, below⟩
        · exact ⟨first, .here, reports⟩
        · obtain ⟨last, walks, reports⟩ :=
            ih (sizeOf next.node) (size ▸ step_below step) visited rfl below
          exact ⟨last, .step step walks, reports⟩
  · rintro ⟨last, walks, reports⟩
    induction walks generalizing findings with
    | here => exact (mem_visit_diagnostics run problem ordinary).mpr (.inl reports)
    | step step rest ih =>
        obtain ⟨inner, visited⟩ := visit_of_step run step
        exact (mem_visit_diagnostics run problem ordinary).mpr
          (.inr ⟨_, inner, step, visited, ih visited reports⟩)

def nodeCodes : List String :=
  ["NO_MATCHING_SHAPE", "EXPECTED_MAPPING", "EXPECTED_SEQUENCE", "EXPECTED_SCALAR",
    "INVALID_VALUE"]

def keyCodes : List String := ["UNKNOWN_KEY", "INVALID_KEY"]

section

variable {r : Resolution} {path : Path} {problem : Diagnostic}

theorem marks_of_unmatched {desc : Desc} {node : Node} {problems : List Diagnostic}
    (settled : settle r path desc node = .ok (none, problems)) (member : problem ∈ problems) :
    problem.code = "NO_MATCHING_SHAPE" ∧ problem.Marks node := by
  rcases settle_eq_ok settled with
    ⟨-, -, nothing⟩ | ⟨terminal, -, found, -⟩ | ⟨options, -, -, unmatched⟩
  · rw [nothing] at member
    cases member
  · cases found
  · rw [unmatched rfl, noMatchingShape] at member
    dsimp only at member
    split at member
    · cases member
    · cases List.mem_singleton.mp member
      exact ⟨rfl, rfl, rfl⟩

theorem marks_of_checkText {choices : Choices} {text : Text} {node : Node}
    (member : problem ∈ checkText r path choices text node) :
    problem.code = "INVALID_VALUE" ∧ problem.Marks node := by
  rw [checkText] at member
  split at member
  · cases member
  · split at member
    · cases member
    · split at member
      · cases member
      · cases List.mem_singleton.mp member
        exact ⟨rfl, rfl, rfl⟩

theorem marks_rejectedKey (fields : Fields Desc) (key : Node) :
    (rejectedKey fields key).code ∈ keyCodes ∧ (rejectedKey fields key).Marks key := by
  rw [rejectedKey]
  split
  · exact ⟨by simp [keyCodes, invalidKey, errorAt], rfl, rfl⟩
  · exact ⟨by simp [keyCodes, unknownKey, errorAt], rfl, rfl⟩

theorem marks_wrongShape (terminal : Terminal) (node : Node) :
    (wrongShape terminal path node).code ∈ nodeCodes ∧
      (wrongShape terminal path node).Marks node := by
  refine ⟨?_, rfl, rfl⟩
  cases terminal <;> simp [nodeCodes, wrongShape, errorAt]

theorem marks_of_reports {visit : Visit} (reports : Reports r visit problem) :
    (problem.code ∈ nodeCodes ∧ problem.Marks visit.node) ∨
      (problem.code ∈ keyCodes ∧
        ∃ key value, (key, value) ∈ visit.node.pairs ∧ problem.Marks key) := by
  cases reports with
  | unmatched settled member =>
      obtain ⟨code, marks⟩ := marks_of_unmatched settled member
      exact .inl ⟨by simp [code, nodeCodes], marks⟩
  | misshapen => exact .inl (marks_wrongShape _ _)
  | text settled scalar member =>
      obtain ⟨code, marks⟩ := marks_of_checkText member
      exact .inl ⟨by simp [code, nodeCodes], marks⟩
  | key settled map member unknown =>
      obtain ⟨code, marks⟩ := marks_rejectedKey _ _
      exact .inr ⟨code, _, _, by rw [map]; exact member, marks⟩

theorem leads_of_walks {schema : Desc} {root : Node} {visit : Visit}
    (walks : Walks r ⟨[], schema, root⟩ visit) : root.Leads visit.path visit.node := by
  obtain ⟨suffix, whole, leads, -⟩ := walks_descend walks
  rw [whole]
  exact leads

theorem mem_diagnostics_of_reports {first visit : Visit} {findings : Findings}
    (run : Validation.visit r first.path none first.desc first.node = .ok findings)
    (walks : Walks r first visit) (reports : Reports r visit problem) :
    problem ∈ findings.diagnostics := by
  have ordinary : problem.code ≠ "MISSING_KEY" := by
    intro missing
    have codes := marks_of_reports reports
    simp [missing, nodeCodes, keyCodes] at codes
  exact (mem_diagnostics_iff_walks run problem ordinary).mpr ⟨visit, walks, reports⟩

end

end Validation

end Flowfile
