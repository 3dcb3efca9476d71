import Flowfile.Proofs.Recovery.Run
import Flowfile.Proofs.Tree.Alias

/-! Where the aliases of a loaded document are put.

They are looked for in the content, though it is a repaired text that was read: a token that is read
stands in the content as well, as repairs leave nothing but blanks in place of a character. What has
been blanked still stands in the content, and so do comments, and an alias is put there if it looks
the same. -/

namespace Flowfile

namespace Text

def StandsIn (source content : Text) : Prop :=
  ∀ (position : Nat) (c : Char), source[position]? = some c → c ≠ ' ' → content[position]? = some c

theorem prefix_of_standsIn {source content word : Text} {start : Nat}
    (stands : StandsIn source content) (solid : ' ' ∉ word) (reads : word <+: source.drop start) :
    word <+: content.drop start := by
  rw [List.prefix_iff_getElem?] at reads ⊢
  intro index inside
  have here := reads index inside
  rw [List.getElem?_drop] at here ⊢
  exact stands _ _ here fun blank => solid (blank ▸ List.getElem_mem inside)

end Text

namespace Yaml.Reading

open Text

section

variable {source content : Text} {graph : Array Node}

mutual

theorem marks_of_standsIn {lower upper : Nat} {reading : Reading}
    (stands : StandsIn source content) (marks : reading.Marks source graph lower upper) :
    reading.Marks content graph lower upper := by
  match reading with
  | .alias number start =>
      obtain ⟨found, name, here, anchor, named, solid, after, before, reads⟩ := marks
      have solid' : ' ' ∉ '*' :: name := by simpa using solid
      exact ⟨found, name, here, anchor, named, solid, after, before,
        prefix_of_standsIn stands solid' reads⟩
  | .node number inner =>
      obtain ⟨found, here, numbers, after, before, wide, inside⟩ := marks
      exact ⟨found, here, numbers, after, before, wide, marksAll_of_standsIn stands inside⟩

theorem marksAll_of_standsIn {lower upper : Nat} {readings : List Reading}
    (stands : StandsIn source content) (marks : MarksAll source graph lower upper readings) :
    MarksAll content graph lower upper readings := by
  match readings with
  | [] => exact marks
  | reading :: rest =>
      obtain ⟨middle, first, others⟩ := marks
      exact ⟨middle, marks_of_standsIn stands first, marksAll_of_standsIn stands others⟩

end

end

end Yaml.Reading

namespace Recovery

open Text Yaml.Reading

theorem standsIn_of_kept {content source : Text} (kept : Kept content source) :
    StandsIn source content := by
  intro position c here solid
  have same := charOrBlank_of_kept kept
  obtain ⟨inside, there⟩ := List.getElem?_eq_some_iff.mp here
  have inside' : position < (content.take source.length).length := by
    rw [same.length_eq]
    exact inside
  have either := same.get inside' inside
  rw [List.get_eq_getElem, List.get_eq_getElem, there] at either
  rcases either with equal | ⟨blank, -⟩
  · have taken := (List.getElem?_eq_getElem inside').trans (congrArg some equal.symm)
    rwa [List.getElem?_take_of_lt inside] at taken
  · exact absurd blank solid

variable {σ : Type} {compose : Composer σ}

/-- What was read of a text, where the graph was composed of it. -/
structure Reads (source : Text) (graph : Yaml.Graph) (reading : Yaml.Reading) : Prop where
  root : reading.number = graph.root
  linked : reading.Linked []
  marks : reading.Marks source graph.nodes 0 source.length

/-- Every alias is put where its text is next found, at the token that was read or before it, and at
the token just where nothing between it and what stands before it looks the same. So it is in what
the limit on the depth has left of a document, if none of the aliases there leads to something that
has been cut off; nothing is cut off from what is not nested too deep. -/
theorem loadWith_aligned {read : σ → Text → Yaml.Reading}
    (exact : ∀ known source graph, (compose known source).1 = .ok (some graph) →
      Reads source graph (read known source))
    {start : σ} {settings : Settings} {content : Text} {root : Node}
    {diagnostics : List Diagnostic}
    (loaded : loadWith compose start settings content = .ok (some root, diagnostics)) :
    ∃ entry ∈ tried compose settings.maxRecoveryAttempts.toNat start { source := content },
      ∃ graph, (compose entry.1 entry.2.source).1 = .ok (some graph) ∧
        let reading := read entry.1 entry.2.source
        let left := reading.prune settings.maxDepth.toNat
        (left.Linked [] → Build.Aligned content 0 left root) ∧
          (reading.height ≤ settings.maxDepth.toNat → left = reading ∧ left.Linked []) := by
  obtain ⟨entry, member, graph, s, answer, done⟩ := tree_of_loadWith loaded
  refine ⟨entry, member, graph, answer, fun linked => ?_, fun shallow => ?_⟩
  · have reads := exact _ _ _ answer
    have kept : Kept content entry.2.source :=
      tried_invariant (fun r => Kept content r.source)
        (fun r e kept => kept_repairs kept (repairs_next r e)) (kept_self content) entry member
    have marks := marks_of_standsIn (standsIn_of_kept kept) reads.marks
    exact Build.tree_aligned reads.root marks linked done
  · rw [prune_of_height shallow]
    exact ⟨rfl, (exact _ _ _ answer).linked⟩

/-- A list with a line that is blanked, with a composer that does as ever with its two texts and
takes every other one for empty. The alias is put into the blanked line. -/
theorem loadWith_aligned_blanked :
    let content := Text.of "- &x a\n- ]*x\n- *x"
    let repaired := Text.of "- &x a\n     \n- *x"
    let e : Yaml.Error := ⟨.expectedContent [']'], some 9, some 9, false⟩
    let graph : Yaml.Graph :=
      ⟨#[⟨.sequence false [1, 1], none, 0, 17⟩, ⟨.scalar ['a'] none, some ['x'], 2, 6⟩], 0⟩
    let reading : Yaml.Reading := .node 0 [.node 1 [], .alias 1 15]
    let compose : Composer Unit := fun known text =>
      (if text = content then .error (.malformed e)
        else .ok (if text = repaired then some graph else none), known)
    let item : Node := .scalar ⟨4, 2, 6⟩ (some ['x']) ['a'] (.str ['a']) none
    let root : Node := .sequence ⟨2, 0, 12⟩ none false [item, .alias ⟨6, 10, 12⟩ ['x'] item]
    (Yaml.compose .current content).1 = .error (.malformed e) ∧
      (Yaml.compose .current repaired).1 = .ok (some graph) ∧
      (∀ known source composed, (compose known source).1 = .ok (some composed) →
        Reads source composed reading) ∧
      loadWith compose () {} content = .ok (some root, [syntaxError e 9 12]) ∧
      Build.Aligned content 0 reading root := by
  intro content repaired e graph reading compose item root
  have reads : Reads repaired graph reading := by
    refine ⟨rfl, by simp [reading, Linked, LinkedAll, begun], ?_⟩
    refine ⟨_, rfl, rfl, Nat.le_refl _, Nat.le_refl _, .inr (by decide), 6, ?_, 17, ?_, ?_⟩
    · exact ⟨_, rfl, rfl, by decide, Nat.le_refl _, .inl ⟨_, _, rfl⟩, show 2 ≤ 6 by decide⟩
    · exact ⟨_, ['x'], rfl, rfl, by decide, by decide, by decide, by decide, by decide⟩
    · exact Nat.le_refl 17
  have exact : ∀ known source composed, (compose known source).1 = .ok (some composed) →
      Reads source composed reading := by
    intro known source composed answer
    change (if source = content then _ else _) = _ at answer
    split at answer
    · cases answer
    · have chosen := Except.ok.inj answer
      split at chosen
      · rename_i same
        cases chosen
        rw [same]
        exact reads
      · cases chosen
  have recovered : recover compose 8 () { source := content } =
      .ok (some graph, [syntaxError e 9 12]) := by
    decide +kernel
  have loaded : loadWith compose () {} content = .ok (some root, [syntaxError e 9 12]) := by
    rw [loadWith, if_neg (by decide), if_neg (by decide)]
    change (recover compose 8 () { source := content } >>= _) = _
    rw [recovered]
    rfl
  obtain ⟨entry, -, -, -, aligned, uncut⟩ := loadWith_aligned exact loaded
  obtain ⟨whole, linked⟩ := uncut (by decide)
  have placed := aligned linked
  rw [whole] at placed
  exact ⟨by decide +kernel, by decide +kernel, exact, loaded, placed⟩

def aliasTokens (text : Text) : List (Text × Nat × Nat) :=
  (Yaml.events .current text).1.filterMap fun
    | .alias name start => some (name, start.index, start.index + 1 + name.length)
    | _ => none

def aliasSpans (root : Node) : List (Text × Nat × Nat) :=
  root.nodes.filterMap fun
    | .alias info name _ => some (name, info.start, info.stop)
    | _ => none

/-- An alias behind a comment in which the same text stands is put into the comment. -/
theorem aliasSpans_comment :
    let content := Text.of "- &x a # *x\n- *x"
    aliasTokens content = [(['x'], 14, 16)] ∧
      ((load {} content).toOption.bind Prod.fst).map aliasSpans = some [(['x'], 9, 11)] := by
  decide +kernel

end Recovery

end Flowfile
