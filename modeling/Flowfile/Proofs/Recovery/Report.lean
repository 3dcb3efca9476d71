import Flowfile.Proofs.Recovery.Run
import Flowfile.Proofs.Tree.Limit

/-! What loading reports. Whatever is dropped from a document is reported, each line at most once,
and at a place within the text. -/

namespace Flowfile.Recovery

open Text

variable {σ : Type}

def lineOf (content : Text) (d : Diagnostic) : Nat := lineStart content d.start.toNat

structure OnLine (content : Text) (d : Diagnostic) : Prop where
  code : d.code = "SYNTAX_ERROR"
  start : 0 ≤ d.start
  order : d.start ≤ d.stop
  stop : d.stop ≤ lineStop content d.start.toNat

/-- What has been reported before an attempt: an error for each line, in the order of the errors. -/
structure Reported (content : Text) (r : Attempt) : Prop where
  kept : Kept content r.source
  errors : ∀ d ∈ r.diagnostics, OnLine content d
  lines : r.diagnostics.map (lineOf content) = r.reported.reverse
  once : r.reported.Nodup

theorem reported_start (content : Text) : Reported content { source := content } :=
  ⟨kept_self content, by simp, rfl, List.nodup_nil⟩

theorem onLine_syntaxError {content source : Text} (e : Yaml.Error) {index : Nat}
    (same : List.Forall₂ CharOrBlank (content.take source.length) source)
    (inside : index ≤ source.length) :
    OnLine content (syntaxError e index (lineStop source index)) := by
  have below := lineStop_of_charOrBlank same inside
  obtain ⟨before, line, after, -, -, -, stop, -, reach⟩ := framed_at source index inside
  rw [← stop] at reach
  refine ⟨rfl, Int.natCast_nonneg _, Int.le_max_left _ _, ?_⟩
  change max (index : Int) (lineStop source index : Nat) ≤ (lineStop content index : Nat)
  rw [Int.max_eq_right (Int.ofNat_le.mpr reach)]
  exact Int.ofNat_le.mpr below

theorem reported_next {content : Text} {r : Attempt} (e : Yaml.Error)
    (reported : Reported content r) : Reported content (r.next e) := by
  have same := charOrBlank_of_kept reported.kept
  have inside := errorIndex_le r.source e
  have kept := kept_repairs reported.kept (repairs_next r e)
  have line := lineStart_of_charOrBlank same inside
  rw [Attempt.next] at kept ⊢
  by_cases known : r.reported.contains (lineStart r.source (errorIndex r.source e)) = true
  · simp only [known, Bool.not_true, Bool.false_eq_true, if_false]
    exact ⟨kept, reported.errors, reported.lines, reported.once⟩
  · rw [Bool.not_eq_true] at known
    simp only [known, Bool.not_false, if_true]
    refine ⟨kept, fun d member => ?_, ?_, ?_⟩
    · rcases List.mem_append.mp member with member | member
      · exact reported.errors d member
      · cases List.mem_singleton.mp member
        exact onLine_syntaxError e same inside
    · rw [List.map_append, reported.lines, List.reverse_cons, List.map_singleton, line]
      rfl
    · refine List.nodup_cons.mpr ⟨fun member => ?_, reported.once⟩
      rw [List.contains_iff_mem.mpr member] at known
      cases known

theorem diagnostics_next_ne_nil {content : Text} {r : Attempt} (e : Yaml.Error)
    (reported : Reported content r) : (r.next e).diagnostics ≠ [] := by
  intro silent
  have lines := (reported_next e reported).lines
  rw [silent, List.map_nil, eq_comm, List.reverse_eq_nil_iff, Attempt.next] at lines
  dsimp only at lines
  split at lines
  · cases lines
  · rename_i known
    rw [lines, List.contains_nil] at known
    exact known rfl

theorem diagnostics_next (r : Attempt) (e : Yaml.Error) :
    r.diagnostics <+: (r.next e).diagnostics ∧
      (r.next e).diagnostics.length ≤ r.diagnostics.length + 1 := by
  rw [Attempt.next]
  dsimp only
  split
  · exact ⟨List.prefix_append _ _, by rw [List.length_append, List.length_singleton]⟩
  · exact ⟨List.prefix_refl _, Nat.le_succ _⟩

/-- A recovery whose composer can handle every text has an outcome, after the last of so many
attempts. It reports nothing only if the first attempt succeeds. -/
theorem recover_reports {compose : Composer σ}
    (able : ∀ known text limitation, (compose known text).1 ≠ .error (.beyond limitation))
    (content : Text) (attempts : Nat) (known : σ) {r : Attempt} (reported : Reported content r) :
    ∃ graph last, recover compose attempts known r = .ok (graph, last.diagnostics) ∧
      Reported content last ∧ r.diagnostics <+: last.diagnostics ∧
      last.diagnostics.length ≤ r.diagnostics.length + attempts + 1 ∧
      (last.diagnostics = [] → (compose known r.source).1 = .ok graph) := by
  induction attempts generalizing known r with
  | zero =>
      rcases answer : compose known r.source with ⟨⟨e | limitation⟩ | graph, learned⟩
      · obtain ⟨grows, few⟩ := diagnostics_next r e
        refine ⟨none, r.next e, by rw [recover, answer], reported_next e reported, grows, few,
          fun silent => absurd silent (diagnostics_next_ne_nil e reported)⟩
      · exact absurd (congrArg Prod.fst answer) (able known r.source limitation)
      · refine ⟨graph, r, ?_, reported, List.prefix_refl _, Nat.le_succ _, fun _ => rfl⟩
        rw [recover, answer]
  | succ left ih =>
      rcases answer : compose known r.source with ⟨⟨e | limitation⟩ | graph, learned⟩
      · obtain ⟨grows, few⟩ := diagnostics_next r e
        obtain ⟨graph, last, outcome, done, more, bounded, -⟩ := ih learned (reported_next e reported)
        refine ⟨graph, last, ?_, done, grows.trans more, by omega, fun silent => ?_⟩
        · rw [recover, answer]
          exact outcome
        · rw [silent, List.prefix_nil] at more
          exact absurd more (diagnostics_next_ne_nil e reported)
      · exact absurd (congrArg Prod.fst answer) (able known r.source limitation)
      · refine ⟨graph, r, ?_, reported, List.prefix_refl _, by omega, fun _ => rfl⟩
        rw [recover, answer]

theorem reported_apart {content : Text} {r : Attempt} (reported : Reported content r) :
    r.diagnostics.Pairwise fun a b => sameLine content a.start.toNat b.start.toNat = false := by
  have once : (r.diagnostics.map (lineOf content)).Nodup := by
    rw [reported.lines, List.nodup_reverse]
    exact reported.once
  refine (List.pairwise_map.mp once).imp fun different => ?_
  exact Bool.eq_false_iff.mpr fun same => different (lineStart_of_sameLine same)

structure Within (content : Text) (d : Diagnostic) : Prop where
  start : 0 ≤ d.start
  order : d.start ≤ d.stop
  stop : d.stop ≤ content.length

theorem within_whole {content : Text} {d : Diagnostic} (start : d.start = 0)
    (stop : d.stop = content.length) : Within content d := by
  constructor
  · rw [start]
  · rw [start, stop]
    exact Int.natCast_nonneg _
  · rw [stop]

theorem within_of_onLine {content : Text} {d : Diagnostic} (onLine : OnLine content d) :
    Within content d :=
  ⟨onLine.start, onLine.order,
    Int.le_trans onLine.stop (Int.ofNat_le.mpr (lineStop_le content d.start.toNat))⟩

def syntaxErrors (diagnostics : List Diagnostic) : List Diagnostic :=
  diagnostics.filter fun d => d.code = "SYNTAX_ERROR"

theorem syntaxErrors_append {errors extra : List Diagnostic}
    (only : ∀ d ∈ errors, d.code = "SYNTAX_ERROR") (apart : ∀ d ∈ extra, d.code ≠ "SYNTAX_ERROR") :
    syntaxErrors (errors ++ extra) = errors := by
  rw [syntaxErrors, List.filter_append, List.filter_eq_self.mpr, List.filter_eq_nil_iff.mpr,
    List.append_nil]
  · intro d member
    simpa using apart d member
  · intro d member
    exact decide_eq_true (only d member)

/-- Nothing of what was composed is missing in the tree: with more room it is the same. -/
def Whole (settings : Settings) (content : Text) (graph : Option Yaml.Graph)
    (root : Option Node) : Prop :=
  match graph with
  | none => root = none
  | some graph =>
    ∃ tree s, root = some tree ∧ s.depthExceededAt = none ∧ ∀ other : Build.Limits,
      settings.maxDepth.toNat ≤ other.maxDepth → settings.maxNodeCount.toNat ≤ other.maxNodes →
        Build.tree other content graph = some (tree, s)

theorem build_reports (settings : Settings) (content : Text) (graph : Option Yaml.Graph)
    (diagnostics : List Diagnostic) :
    ∃ root extra, build settings content graph diagnostics = (root, diagnostics ++ extra) ∧
      (∀ d ∈ extra, d.code ≠ "SYNTAX_ERROR") ∧
      (∀ d ∈ extra, d.code ≠ "MAX_DEPTH_EXCEEDED" → Within content d) ∧
      (extra = [] → Whole settings content graph root) := by
  cases graph with
  | none => exact ⟨none, [], by rw [build, List.append_nil], by simp, by simp, fun _ => rfl⟩
  | some graph =>
      rw [build]
      split
      · refine ⟨none, [tooManyNodes settings content.length], rfl, by simp [tooManyNodes],
          fun d member _ => ?_, fun rootless => by cases rootless⟩
        cases List.mem_singleton.mp member
        exact within_whole rfl rfl
      · rename_i root s done
        split
        · rename_i offset _
          exact ⟨some root, [tooDeep settings content offset], rfl, by simp [tooDeep],
            by simp [tooDeep], fun rootless => by cases rootless⟩
        · rename_i uncut
          refine ⟨some root, [], by rw [List.append_nil], by simp, by simp, fun _ => ?_⟩
          exact ⟨root, s, rfl, uncut, fun other deeper more =>
            Build.tree_of_uncut done uncut deeper more⟩

/-- Loading has an outcome for each composer that can handle every text. If nothing is reported the
text was composed as it is and the tree has all of it. Errors of syntax are on different lines, at
most one for each attempt. What is reported lies within the text; only where nesting is too deep the
position is that of a node, which is up to the composer. -/
theorem loadWith_reports (compose : Composer σ) (start : σ) (settings : Settings) (content : Text)
    (attempts : 0 ≤ settings.maxRecoveryAttempts)
    (able : ∀ known text limitation, (compose known text).1 ≠ .error (.beyond limitation)) :
    ∃ root diagnostics, loadWith compose start settings content = .ok (root, diagnostics) ∧
      (diagnostics = [] → (content.length : Int) ≤ settings.maxDocumentSize ∧
        ∃ graph, (compose start content).1 = .ok graph ∧ Whole settings content graph root) ∧
      (syntaxErrors diagnostics).Pairwise
        (fun a b => sameLine content a.start.toNat b.start.toNat = false) ∧
      (∀ d ∈ syntaxErrors diagnostics, d.stop ≤ lineStop content d.start.toNat) ∧
      ((syntaxErrors diagnostics).length : Int) ≤ settings.maxRecoveryAttempts + 1 ∧
      ∀ d ∈ diagnostics, d.code ≠ "MAX_DEPTH_EXCEEDED" → Within content d := by
  by_cases large : settings.maxDocumentSize < content.length
  · have faultless : syntaxErrors [tooLarge settings content.length] = [] := rfl
    have room : ((0 : Nat) : Int) ≤ settings.maxRecoveryAttempts + 1 := by omega
    refine ⟨.none, [tooLarge settings content.length], by rw [loadWith, if_pos large],
      fun quiet => (by cases quiet), ?_⟩
    rw [faultless]
    refine ⟨.nil, fun d member => (by cases member), room, fun d member _ => ?_⟩
    cases List.mem_singleton.mp member
    exact within_whole rfl rfl
  · obtain ⟨graph, last, recovered, reported, -, few, first⟩ := recover_reports able content
      settings.maxRecoveryAttempts.toNat start (reported_start content)
    obtain ⟨root, extra, built, apart, within, whole⟩ :=
      build_reports settings content graph last.diagnostics
    have kinds := syntaxErrors_append (fun d member => (reported.errors d member).code) apart
    have done : loadWith compose start settings content = .ok (root, last.diagnostics ++ extra) := by
      rw [loadWith, if_neg large, if_neg (Int.not_lt.mpr attempts), recovered]
      exact congrArg Except.ok built
    refine ⟨root, last.diagnostics ++ extra, done, fun silent => ?_, ?_⟩
    · obtain ⟨quiet, added⟩ := List.append_eq_nil_iff.mp silent
      exact ⟨Int.not_lt.mp large, graph, first quiet, whole added⟩
    · rw [kinds]
      refine ⟨reported_apart reported, fun d member => (reported.errors d member).stop, ?_,
        fun d member shallow => ?_⟩
      · have room := Int.toNat_of_nonneg attempts
        have silent : ({ source := content } : Attempt).diagnostics.length = 0 := rfl
        omega
      · rcases List.mem_append.mp member with member | member
        · exact within_of_onLine (reported.errors d member)
        · exact within d member shallow

/-- A composer that fails twice, on one line after the other. -/
theorem loadWith_reports_twice :
    let error (offset : Nat) : Yaml.Failure := .malformed ⟨.expectedColon, some offset, none, false⟩
    let compose : Composer Nat := fun known _ =>
      (if known ≤ 2 then .error (error known) else .ok none, known + 2)
    let settings : Settings := {}
    let content := Text.of "a\nb["
    0 ≤ settings.maxRecoveryAttempts ∧
      (∀ known text limitation, (compose known text).1 ≠ .error (.beyond limitation)) ∧
      ∃ root diagnostics, loadWith compose 0 settings content = .ok (root, diagnostics) ∧
        (syntaxErrors diagnostics).map (·.start) = [0, 2] ∧
        ∀ d ∈ syntaxErrors diagnostics, d.stop ≤ lineStop content d.start.toNat := by
  intro error compose settings content
  have attempts : 0 ≤ settings.maxRecoveryAttempts := by decide
  have able : ∀ known text limitation, (compose known text).1 ≠ .error (.beyond limitation) := by
    intro known text limitation failed
    change (if known ≤ 2 then _ else _) = _ at failed
    split at failed <;> cases failed
  obtain ⟨root, diagnostics, loaded, -, -, lines, -, -⟩ :=
    loadWith_reports compose 0 settings content attempts able
  have starts : (loadWith compose 0 settings content).map
      (fun outcome => (syntaxErrors outcome.2).map (·.start)) = .ok [0, 2] := by decide +kernel
  rw [loaded] at starts
  exact ⟨attempts, able, root, diagnostics, loaded, Except.ok.inj starts, lines⟩

end Flowfile.Recovery
