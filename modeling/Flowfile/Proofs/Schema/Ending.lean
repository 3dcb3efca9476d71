import Mathlib.Data.List.Perm.Subperm
import Mathlib.Logic.Relation
import Flowfile.Proofs.Outcome
import Flowfile.Schema.Resolution

/-! Where the resolution of descriptions comes to an end.

References and custom descriptions are followed up to a limit, whether or not they lead back to
where they were. For alternatives there is no such limit: they come to an end exactly where none of
them has itself among its own. A schema has only so many descriptions, so what does not lead back to
itself gets to the last of them. -/

namespace Flowfile

/-- Following the relation from a description on, one comes to one that leads back to itself. -/
def Circular (leads : Desc → Desc → Prop) (desc : Desc) : Prop :=
  ∃ inner, Relation.ReflTransGen leads desc inner ∧ Relation.TransGen leads inner inner

namespace Circular

variable {leads : Desc → Desc → Prop} {desc next : Desc}

theorem of_next (led : leads desc next) (circular : Circular leads next) :
    Circular leads desc := by
  obtain ⟨inner, reached, back⟩ := circular
  exact ⟨inner, .head led reached, back⟩

theorem exists_next (circular : Circular leads desc) :
    ∃ next, leads desc next ∧ Circular leads next := by
  obtain ⟨inner, reached, back⟩ := circular
  rcases reached.cases_head with rfl | ⟨next, led, rest⟩
  · obtain ⟨next, led, rest⟩ := Relation.TransGen.head'_iff.mp back
    exact ⟨next, led, desc, rest, back⟩
  · exact ⟨next, led, inner, rest, back⟩

end Circular

namespace Desc

inductive Inside (inquiry : Inquiry) : Desc → Desc → Prop
  | option {about options inner} (offered : inner ∈ options) :
      Inside inquiry (.oneOf about options) inner
  | resolved {about resolve inner} (resolved : resolve inquiry = some inner) :
      Inside inquiry (.custom about resolve) inner

variable {inquiry : Inquiry}

theorem mem_heads (desc : Desc) : desc ∈ desc.heads inquiry := by
  cases desc <;> simp [heads]

theorem mem_headsOfEach {desc : Desc} {descs : List Desc} (member : desc ∈ descs) :
    desc ∈ headsOfEach inquiry descs := by
  induction descs with
  | nil => cases member
  | cons first rest ih =>
      rw [headsOfEach]
      rcases List.mem_cons.mp member with rfl | later
      · exact List.mem_append_left _ (mem_heads desc)
      · exact List.mem_append_right _ (ih later)

mutual

theorem heads_closed (desc : Desc) {outer inner : Desc} (member : outer ∈ desc.heads inquiry)
    (inside : Inside inquiry outer inner) : inner ∈ desc.heads inquiry := by
  match desc with
  | .oneOf about options =>
      rw [heads] at member ⊢
      refine List.mem_cons_of_mem _ ?_
      rcases List.mem_cons.mp member with rfl | later
      · cases inside with
        | option offered => exact mem_headsOfEach offered
      · exact headsOfEach_closed options later inside
  | .custom about resolve =>
      rw [heads] at member ⊢
      refine List.mem_cons_of_mem _ ?_
      rcases List.mem_cons.mp member with rfl | later
      · cases inside with
        | resolved resolved =>
            rw [resolved, headsOfSome]
            exact mem_heads inner
      · exact headsOfSome_closed (resolve inquiry) later inside
  | .scalar about choices | .mapping about fields | .sequence about items
  | .reference about name =>
      cases List.mem_singleton.mp member
      cases inside

theorem headsOfSome_closed (desc : Option Desc) {outer inner : Desc}
    (member : outer ∈ headsOfSome inquiry desc) (inside : Inside inquiry outer inner) :
    inner ∈ headsOfSome inquiry desc := by
  match desc with
  | none => cases member
  | some desc => exact heads_closed desc member inside

theorem headsOfEach_closed (descs : List Desc) {outer inner : Desc}
    (member : outer ∈ headsOfEach inquiry descs) (inside : Inside inquiry outer inner) :
    inner ∈ headsOfEach inquiry descs := by
  match descs with
  | [] => cases member
  | first :: rest =>
      rw [headsOfEach] at member ⊢
      rcases List.mem_append.mp member with here | later
      · exact List.mem_append_left _ (heads_closed first here inside)
      · exact List.mem_append_right _ (headsOfEach_closed rest later inside)

end

end Desc

namespace Resolution

/-- A reference leads to its definition, a custom description to what it is resolved to. -/
inductive Hop (r : Resolution) (path : Path) : Desc → Desc → Prop
  | reference {about name target} (defined : r.definitions.lookup name = some target) :
      Hop r path (.reference about name) target
  | custom {about resolve next}
      (resolved : resolve ⟨r.workflow, path, r.contextAt path⟩ = some next) :
      Hop r path (.custom about resolve) next

/-- The description comes to the one at its head by so many references in a row and so many custom
descriptions at most. -/
inductive Heads (r : Resolution) (path : Path) : Nat → Nat → Desc → Concrete → Prop
  | here {references customs} (head : Concrete) : Heads r path references customs head.toDesc head
  | reference {references customs about name target head}
      (defined : r.definitions.lookup name = some target)
      (rest : Heads r path references customs target head) :
      Heads r path (references + 1) customs (.reference about name) head
  | custom {references customs about resolve next head}
      (resolved : resolve ⟨r.workflow, path, r.contextAt path⟩ = some next)
      (rest : Heads r path referenceLimit customs next head) :
      Heads r path references (customs + 1) (.custom about resolve) head

def Offers (r : Resolution) (path : Path) (outer inner : Desc) : Prop :=
  ∃ about options, r.concrete path outer = some (.oneOf about options) ∧ inner ∈ options

/-- The terminal descriptions that some descriptions stand for, one after the other. -/
inductive Yields (r : Resolution) (path : Path) : List Desc → List Terminal → Prop
  | nil : Yields r path [] []
  | nothing {desc rest terminals} (head : r.concrete path desc = none)
      (later : Yields r path rest terminals) : Yields r path (desc :: rest) terminals
  | single {desc rest terminal terminals} (head : r.concrete path desc = some (.single terminal))
      (later : Yields r path rest terminals) : Yields r path (desc :: rest) (terminal :: terminals)
  | oneOf {desc rest about options inner terminals}
      (head : r.concrete path desc = some (.oneOf about options))
      (each : Yields r path options inner) (later : Yields r path rest terminals) :
      Yields r path (desc :: rest) (inner ++ terminals)

/-- Alternatives are nested in so many levels, or more. -/
def Nests (r : Resolution) (path : Path) : Nat → Desc → Prop
  | 0, _ => True
  | level + 1, desc => ∃ about options, r.concrete path desc = some (.oneOf about options) ∧
      (level = 0 ∨ ∃ option ∈ options, Nests r path level option)

variable {r : Resolution} {path : Path} {desc : Desc}

theorem followWithin_succ (definitions : List (Text × Desc)) (left : Nat) (about : About)
    (name : Text) :
    Schema.followWithin definitions (left + 1) (.reference about name) =
      (definitions.lookup name).bind (Schema.followWithin definitions left) := by
  rw [Schema.followWithin.eq_def]
  dsimp only
  split
  · rename_i same found
    cases same
    rw [found]
    rfl
  · rename_i missing
    cases found : definitions.lookup name with
    | none => rfl
    | some target => exact absurd found (missing left target rfl)

theorem concreteWithin_eq_some {limit : Nat} {concrete : Concrete}
    (found : r.concreteWithin path limit desc = some concrete) :
    Schema.follow r.definitions desc = some concrete.toDesc ∨
      ∃ about resolve next left, Schema.follow r.definitions desc = some (.custom about resolve) ∧
        limit = left + 1 ∧ resolve ⟨r.workflow, path, r.contextAt path⟩ = some next ∧
        r.concreteWithin path left next = some concrete := by
  rw [concreteWithin.eq_def] at found
  dsimp only at found
  split at found
  · cases found
    exact .inl ‹_›
  · cases found
    exact .inl ‹_›
  · cases found
    exact .inl ‹_›
  · cases found
    exact .inl ‹_›
  · rename_i about resolve followed
    split at found
    · rename_i left next resolved
      exact .inr ⟨about, resolve, next, left, followed, rfl, resolved, found⟩
    · cases found
  · cases found
  · cases found

section

variable {references customs : Nat} {head : Concrete}

theorem followWithin_toDesc (definitions : List (Text × Desc)) (limit : Nat) (head : Concrete) :
    Schema.followWithin definitions limit head.toDesc = some head.toDesc := by
  rw [Schema.followWithin.eq_def]
  rcases head with terminal | ⟨about, options⟩
  · cases terminal <;> rfl
  · rfl

theorem heads_of_followWithin {target : Desc}
    (followed : Schema.followWithin r.definitions references desc = some target)
    (rest : ∀ left, r.Heads path left customs target head) :
    r.Heads path references customs desc head := by
  induction references generalizing desc with
  | zero => cases desc <;> cases followed <;> exact rest 0
  | succ left ih =>
      cases desc with
      | reference about name =>
          rw [followWithin_succ] at followed
          obtain ⟨next, defined, later⟩ := Option.bind_eq_some_iff.mp followed
          exact .reference defined (ih later)
      | scalar | mapping | sequence | oneOf | custom =>
          cases followed
          exact rest _

theorem heads_of_concreteWithin (found : r.concreteWithin path customs desc = some head) :
    r.Heads path referenceLimit customs desc head := by
  induction customs generalizing desc with
  | zero =>
      rcases concreteWithin_eq_some found with followed | ⟨_, _, _, _, _, more, _⟩
      · exact heads_of_followWithin followed fun _ => .here head
      · cases more
  | succ customs ih =>
      rcases concreteWithin_eq_some found with
        followed | ⟨about, resolve, next, left, followed, more, resolved, rest⟩
      · exact heads_of_followWithin followed fun _ => .here head
      · cases more
        exact heads_of_followWithin followed fun _ => .custom resolved (ih rest)

-- The references in a row are counted anew behind a custom description. So the induction is about
-- those from `desc` on, and about every description that comes to the same target by references.
theorem concreteWithin_of_heads (heads : r.Heads path references customs desc head) :
    ∃ target, Schema.followWithin r.definitions references desc = some target ∧
      ∀ other, Schema.follow r.definitions other = some target →
        r.concreteWithin path customs other = some head := by
  induction heads with
  | here head =>
      refine ⟨head.toDesc, followWithin_toDesc .., fun other followed => ?_⟩
      rw [concreteWithin.eq_def]
      dsimp only
      rw [followed]
      rcases head with terminal | ⟨about, options⟩
      · cases terminal <;> rfl
      · rfl
  | reference defined _ ih =>
      obtain ⟨target, followed, same⟩ := ih
      refine ⟨target, ?_, same⟩
      rw [followWithin_succ, defined]
      exact followed
  | @custom references customs about resolve next head resolved _ ih =>
      obtain ⟨target, followed, same⟩ := ih
      refine ⟨.custom about resolve, ?_, fun other came => ?_⟩
      · rw [Schema.followWithin.eq_def]
      · rw [concreteWithin.eq_def]
        simp only [came, resolved]
        exact same next followed

/-- References are followed 64 times in a row, custom descriptions 8 times, and no further. -/
theorem concrete_eq_some_iff :
    r.concrete path desc = some head ↔ r.Heads path referenceLimit customLimit desc head := by
  refine ⟨heads_of_concreteWithin, fun heads => ?_⟩
  obtain ⟨target, followed, same⟩ := concreteWithin_of_heads heads
  exact same desc followed

theorem reaches_of_heads (heads : r.Heads path references customs desc head) :
    Relation.ReflTransGen (r.Hop path) desc head.toDesc := by
  induction heads with
  | here => exact .refl
  | reference defined _ ih => exact .head (.reference defined) ih
  | custom resolved _ ih => exact .head (.custom resolved) ih

theorem straight_of_heads (heads : r.Heads path references customs desc head) :
    ¬ Circular (r.Hop path) desc := by
  intro circular
  induction heads with
  | here head =>
      obtain ⟨next, hop, -⟩ := circular.exists_next
      rcases head with terminal | ⟨about, options⟩
      · cases terminal <;> cases hop
      · cases hop
  | reference defined _ ih =>
      obtain ⟨next, hop, rest⟩ := circular.exists_next
      cases hop with
      | reference found =>
          cases defined.symm.trans found
          exact ih rest
  | custom resolved _ ih =>
      obtain ⟨next, hop, rest⟩ := circular.exists_next
      cases hop with
      | custom found =>
          cases resolved.symm.trans found
          exact ih rest

theorem concrete_of_circular (circular : Circular (r.Hop path) desc) :
    r.concrete path desc = none := by
  rcases found : r.concrete path desc with _ | head
  · rfl
  · exact absurd circular (straight_of_heads (concrete_eq_some_iff.mp found))

end

theorem mem_pool (r : Resolution) (path : Path) (desc : Desc) : desc ∈ r.pool path desc :=
  List.mem_flatMap.mpr ⟨desc, List.mem_cons_self, Desc.mem_heads desc⟩

theorem pool_inside {outer inner : Desc} (member : outer ∈ r.pool path desc)
    (inside : Desc.Inside ⟨r.workflow, path, r.contextAt path⟩ outer inner) :
    inner ∈ r.pool path desc := by
  obtain ⟨above, known, under⟩ := List.mem_flatMap.mp member
  exact List.mem_flatMap.mpr ⟨above, known, Desc.heads_closed above under inside⟩

theorem pool_hop {outer inner : Desc} (member : outer ∈ r.pool path desc)
    (hop : r.Hop path outer inner) : inner ∈ r.pool path desc := by
  cases hop with
  | reference defined =>
      obtain ⟨before, after, whole, -⟩ := List.lookup_eq_some_iff.mp defined
      refine List.mem_flatMap.mpr ⟨inner, List.mem_cons_of_mem _ ?_, Desc.mem_heads inner⟩
      rw [whole]
      simp
  | custom resolved => exact pool_inside member (.resolved resolved)

theorem pool_reaches {outer inner : Desc} (member : outer ∈ r.pool path desc)
    (hops : Relation.ReflTransGen (r.Hop path) outer inner) : inner ∈ r.pool path desc := by
  induction hops with
  | refl => exact member
  | tail _ hop ih => exact pool_hop ih hop

theorem pool_offers {outer inner : Desc} (member : outer ∈ r.pool path desc)
    (offers : r.Offers path outer inner) : inner ∈ r.pool path desc := by
  obtain ⟨about, options, head, offered⟩ := offers
  have held := pool_reaches member (reaches_of_heads (concrete_eq_some_iff.mp head))
  exact pool_inside held (.option offered)

theorem pool_offered {inner : Desc} (offered : Relation.ReflTransGen (r.Offers path) desc inner) :
    inner ∈ r.pool path desc := by
  induction offered with
  | refl => exact mem_pool r path desc
  | tail _ offers ih => exact pool_offers ih offers

section

variable {levels : Nat}

theorem nests_of_circular (circular : Circular (r.Offers path) desc) (levels : Nat) :
    r.Nests path levels desc := by
  induction levels generalizing desc with
  | zero => trivial
  | succ left ih =>
      obtain ⟨inner, ⟨about, options, head, offered⟩, rest⟩ := circular.exists_next
      exact ⟨about, options, head, .inr ⟨inner, offered, ih rest⟩⟩

/-- Alternatives that are nested in so many levels are as many descriptions on one way down. -/
theorem exists_way (nests : r.Nests path levels desc) :
    ∃ way : List Desc, way.length = levels ∧
      way.Pairwise (Relation.TransGen (r.Offers path)) ∧
      ∀ inner ∈ way, Relation.ReflTransGen (r.Offers path) desc inner := by
  induction levels generalizing desc with
  | zero => exact ⟨[], rfl, .nil, fun _ member => absurd member List.not_mem_nil⟩
  | succ left ih =>
      obtain ⟨about, options, head, rfl | ⟨option, offered, inner⟩⟩ := nests
      · refine ⟨[desc], rfl, List.pairwise_singleton .., fun inner member => ?_⟩
        rw [List.mem_singleton.mp member]
      · obtain ⟨way, size, further, reached⟩ := ih inner
        have offers : r.Offers path desc option := ⟨about, options, head, offered⟩
        refine ⟨desc :: way, by rw [List.length_cons, size], ?_, ?_⟩
        · refine List.pairwise_cons.mpr ⟨fun inner member => ?_, further⟩
          exact .head' offers (reached inner member)
        · exact List.forall_mem_cons.mpr ⟨.refl, fun inner member =>
            .head offers (reached inner member)⟩

/-- On a way down that does not lead back to where it was, each description is another one. -/
theorem circular_of_nests (nests : r.Nests path ((r.pool path desc).length + 1) desc) :
    Circular (r.Offers path) desc := by
  obtain ⟨way, size, further, reached⟩ := exists_way nests
  by_contra straight
  have distinct : way.Nodup := by
    refine further.imp_of_mem ?_
    rintro outer inner member - led rfl
    exact straight ⟨outer, reached outer member, led⟩
  have inside : way ⊆ r.pool path desc := by
    intro inner member
    exact pool_offered (reached inner member)
  have few := (List.subperm_of_subset distinct inside).length_le
  omega

theorem circular_iff_nests :
    Circular (r.Offers path) desc ↔ ∀ levels, r.Nests path levels desc :=
  ⟨nests_of_circular, fun nests => circular_of_nests (nests _)⟩

theorem eq_error_iff_exists {α : Type} {outcome : Except Endless α} {endless : Endless} :
    outcome = .error endless ↔ ∃ other, outcome = .error other := by
  refine ⟨fun failed => ⟨endless, failed⟩, ?_⟩
  rintro ⟨other, failed⟩
  rw [failed]

theorem eq_of_ok_iff {α : Type} {outcome outcome' : Except Endless α}
    (same : ∀ result, outcome = .ok result ↔ outcome' = .ok result) : outcome = outcome' := by
  rcases outcome with ⟨⟨⟩⟩ | result
  · rcases outcome' with ⟨⟨⟩⟩ | result'
    · rfl
    · cases (same result').mpr rfl
  · exact ((same result).mp rfl).symm

theorem optionsWithin_eq_error_iff {endless : Endless} :
    r.optionsWithin path levels desc = .error endless ↔ r.Nests path (levels + 1) desc := by
  induction levels generalizing desc with
  | zero =>
      rw [optionsWithin.eq_def, Nests]
      rcases head : r.concrete path desc with _ | ⟨terminal⟩ | ⟨about, options⟩
      all_goals simp [head]
  | succ left ih =>
      rw [optionsWithin.eq_def, Nests]
      rcases head : r.concrete path desc with _ | ⟨terminal⟩ | ⟨about, options⟩
      · simp [head]
      · simp [head]
      · have below : (options.mapM (r.optionsWithin path left)).map List.flatten = .error endless ↔
            ∃ option ∈ options, r.Nests path (left + 1) option := by
          rw [map_eq_error_iff, eq_error_iff_exists, exists_mapM_eq_error]
          exact exists_congr fun option =>
            and_congr_right fun _ => eq_error_iff_exists.symm.trans ih
        simp [head, below]

theorem options_eq_error_iff {endless : Endless} :
    r.options path desc = .error endless ↔ Circular (r.Offers path) desc := by
  rw [options, optionsWithin_eq_error_iff]
  exact ⟨circular_of_nests, fun circular => nests_of_circular circular _⟩

end

section

variable {levels : Nat} {descs : List Desc} {terminals : List Terminal}

theorem yields_cons {rest : List Desc} {later : List Terminal}
    (first : r.Yields path [desc] terminals) (others : r.Yields path rest later) :
    r.Yields path (desc :: rest) (terminals ++ later) := by
  cases first with
  | nothing head empty =>
      cases empty
      exact .nothing head others
  | single head empty =>
      cases empty
      exact .single head others
  | oneOf head each empty =>
      cases empty
      rw [List.append_nil]
      exact .oneOf head each others

theorem yields_flatten {lists : List (List Terminal)}
    (each : List.Forall₂ (fun desc terminals => r.Yields path [desc] terminals) descs lists) :
    r.Yields path descs lists.flatten := by
  induction each with
  | nil => exact .nil
  | cons first _ ih => exact yields_cons first ih

theorem yields_of_optionsWithin (found : r.optionsWithin path levels desc = .ok terminals) :
    r.Yields path [desc] terminals := by
  induction levels using Nat.strongRecOn generalizing desc terminals with
  | ind levels ih =>
      rw [optionsWithin.eq_def] at found
      rcases head : r.concrete path desc with _ | ⟨terminal⟩ | ⟨about, options⟩
      all_goals simp only [head] at found
      · cases found
        exact .nothing head .nil
      · cases found
        exact .single head .nil
      · cases levels with
        | zero => cases found
        | succ left =>
            obtain ⟨lists, flattened, rfl⟩ := (map_eq_ok_iff _ _ _).mp found
            have each := ((mapM_eq_ok_iff _ _ _).mp flattened).imp fun _ _ =>
              ih left (Nat.lt_succ_self left)
            rw [← List.append_nil lists.flatten]
            exact .oneOf head (yields_flatten each) .nil

theorem yields_unique {terminals' : List Terminal} (yields : r.Yields path descs terminals)
    (yields' : r.Yields path descs terminals') : terminals = terminals' := by
  induction yields generalizing terminals' with
  | nil =>
      cases yields'
      rfl
  | nothing head _ ih =>
      cases yields' with
      | nothing _ later => exact ih later
      | single head' | oneOf head' => cases head.symm.trans head'
  | single head _ ih =>
      cases yields' with
      | single head' later =>
          cases head.symm.trans head'
          rw [ih later]
      | nothing head' | oneOf head' => cases head.symm.trans head'
  | oneOf head _ _ inner ih =>
      cases yields' with
      | oneOf head' each later =>
          cases head.symm.trans head'
          rw [inner each, ih later]
      | nothing head' | single head' => cases head.symm.trans head'

theorem straight_of_yields (yields : r.Yields path descs terminals) :
    ∀ desc ∈ descs, ¬ Circular (r.Offers path) desc := by
  induction yields with
  | nil => exact fun _ member => absurd member List.not_mem_nil
  | nothing head _ ih | single head _ ih =>
      refine List.forall_mem_cons.mpr ⟨fun circular => ?_, ih⟩
      obtain ⟨inner, ⟨about, options, found, -⟩, -⟩ := circular.exists_next
      cases head.symm.trans found
  | oneOf head _ _ each ih =>
      refine List.forall_mem_cons.mpr ⟨fun circular => ?_, ih⟩
      obtain ⟨inner, ⟨about, options, found, offered⟩, rest⟩ := circular.exists_next
      cases head.symm.trans found
      exact each inner offered rest

theorem options_eq_ok_iff :
    r.options path desc = .ok terminals ↔ r.Yields path [desc] terminals := by
  refine ⟨yields_of_optionsWithin, fun yields => ?_⟩
  rcases found : r.options path desc with endless | terminals'
  · have straight := straight_of_yields yields desc List.mem_cons_self
    exact absurd (options_eq_error_iff.mp found) straight
  · rw [yields_unique (yields_of_optionsWithin found) yields]

theorem straight_of_options (found : r.options path desc = .ok terminals) :
    ¬ Circular (r.Offers path) desc :=
  straight_of_yields (options_eq_ok_iff.mp found) desc List.mem_cons_self

theorem exists_options (straight : ¬ Circular (r.Offers path) desc) :
    ∃ terminals, r.options path desc = .ok terminals := by
  rcases found : r.options path desc with endless | terminals
  · exact absurd (options_eq_error_iff.mp found) straight
  · exact ⟨terminals, rfl⟩

theorem selectShape_eq_error_iff {shape : Shape} {endless : Endless} :
    r.selectShape path desc shape = .error endless ↔ Circular (r.Offers path) desc := by
  rw [selectShape, map_eq_error_iff, options_eq_error_iff]

theorem optionsWithin_eq_options (shallow : ¬ r.Nests path (levels + 1) desc) :
    r.optionsWithin path levels desc = r.options path desc := by
  rcases found : r.optionsWithin path levels desc with endless | terminals
  · exact absurd (optionsWithin_eq_error_iff.mp found) shallow
  · exact (options_eq_ok_iff.mpr (yields_of_optionsWithin found)).symm

theorem options_single {terminal : Terminal}
    (head : r.concrete path desc = some (.single terminal)) :
    r.options path desc = .ok [terminal] :=
  options_eq_ok_iff.mpr (.single head .nil)

theorem options_nothing (head : r.concrete path desc = none) : r.options path desc = .ok [] :=
  options_eq_ok_iff.mpr (.nothing head .nil)

theorem options_oneOf {about : About} {alternatives : List Desc}
    (head : r.concrete path desc = some (.oneOf about alternatives)) :
    r.options path desc = r.options path (.oneOf about alternatives) := by
  have itself : r.concrete path (.oneOf about alternatives) = some (.oneOf about alternatives) := rfl
  rcases found : r.options path (.oneOf about alternatives) with endless | terminals
  · obtain ⟨inner, ⟨about', options', known, offered⟩, rest⟩ :=
      (options_eq_error_iff.mp found).exists_next
    cases itself.symm.trans known
    have offers : r.Offers path desc inner := ⟨about, alternatives, head, offered⟩
    exact options_eq_error_iff.mpr (.of_next offers rest)
  · rw [options_eq_ok_iff] at found ⊢
    cases found with
    | nothing known | single known => cases itself.symm.trans known
    | oneOf known each later =>
        cases itself.symm.trans known
        exact .oneOf head each later

end

/-- References and custom descriptions are followed up to a limit, and nothing stands behind those
that lead back to themselves. Alternatives cannot be flattened exactly where one of them leads back
to itself, however many levels are allowed for. Otherwise the terminal descriptions are found in
their order, and the first one that fits the node is selected. -/
theorem options_end_iff (r : Resolution) (path : Path) (desc : Desc) :
    (∀ head, r.concrete path desc = some head ↔
      r.Heads path referenceLimit customLimit desc head) ∧
    (Circular (r.Hop path) desc → r.concrete path desc = none) ∧
    (∀ endless, r.options path desc = .error endless ↔ Circular (r.Offers path) desc) ∧
    (∀ terminals, r.options path desc = .ok terminals ↔ r.Yields path [desc] terminals) ∧
    (∀ levels endless, r.optionsWithin path levels desc = .error endless ↔
      r.Nests path (levels + 1) desc) ∧
    (∀ levels, ¬ r.Nests path (levels + 1) desc →
      r.optionsWithin path levels desc = r.options path desc) ∧
    (Circular (r.Offers path) desc ↔ ∀ levels, r.Nests path levels desc) ∧
    (∀ node, (∀ endless, r.select path desc node = .error endless ↔
        Circular (r.Offers path) desc) ∧
      ∀ terminals, r.Yields path [desc] terminals → r.select path desc node =
        .ok (terminals.find? fun terminal => terminal.fits (shapeOf node))) := by
  refine ⟨fun head => concrete_eq_some_iff, concrete_of_circular, fun _ => options_eq_error_iff,
    fun _ => options_eq_ok_iff, fun _ _ => optionsWithin_eq_error_iff,
    fun _ => optionsWithin_eq_options, circular_iff_nests, fun node => ⟨fun endless => ?_, ?_⟩⟩
  · rw [select, selectShape_eq_error_iff]
  · intro terminals yields
    rw [select, selectShape, options_eq_ok_iff.mpr yields]
    rfl

/-- Alternatives inside alternatives, behind a reference and a custom description. -/
theorem options_end_iff_nested :
    let items : Desc := .sequence {} .anything
    let fields : Desc := .mapping {} {}
    let inner : Desc := .custom {} fun _ => some (.reference {} (Text.of "b"))
    let back : Desc := .reference {} (Text.of "c")
    let r : Resolution :=
      { definitions := [(Text.of "a", .oneOf {} [.anything, inner]),
          (Text.of "b", .oneOf {} [items, fields]), (Text.of "c", back)]
        workflow := .record []
        contexts := ContextSource.fixed .undefined [] }
    let desc : Desc := .reference {} (Text.of "a")
    r.concrete [] back = none ∧ ¬ Circular (r.Offers []) desc ∧
      r.options [] desc = .ok [.scalar {} {}, .sequence {} .anything, .mapping {} {}] := by
  intro items fields inner back r desc
  obtain ⟨-, lost, -⟩ := options_end_iff r [] back
  obtain ⟨-, -, fails, -⟩ := options_end_iff r [] desc
  have found : r.options [] desc = .ok [.scalar {} {}, .sequence {} .anything, .mapping {} {}] := by
    rfl
  refine ⟨lost ⟨back, .refl, .single (.reference rfl)⟩, fun circular => ?_, found⟩
  rw [(fails .alternatives).mpr circular] at found
  cases found

/-- An alternative that refers to what it is an alternative of. -/
theorem options_endless :
    let desc : Desc := .reference {} (Text.of "a")
    let r : Resolution :=
      { definitions := [(Text.of "a", .oneOf {} [desc])]
        workflow := .record []
        contexts := ContextSource.fixed .undefined [] }
    r.concrete [] desc = some (.oneOf {} [desc]) ∧ r.options [] desc = .error .alternatives ∧
      (∀ levels, r.optionsWithin [] levels desc = .error .alternatives) ∧
      ∀ node, r.select [] desc node = .error .alternatives := by
  intro desc r
  have head : r.concrete [] desc = some (.oneOf {} [desc]) := by rfl
  have circular : Circular (r.Offers []) desc :=
    ⟨desc, .refl, .single ⟨{}, [desc], head, List.mem_cons_self⟩⟩
  have endless : r.options [] desc = .error .alternatives := options_eq_error_iff.mpr circular
  refine ⟨head, endless, fun levels => ?_, fun node => ?_⟩
  · exact optionsWithin_eq_error_iff.mpr (nests_of_circular circular _)
  · rw [select, selectShape, endless]
    rfl

end Resolution

end Flowfile
