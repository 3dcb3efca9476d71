import Mathlib.Data.List.Forall2

/-! Outcomes of computations that can fail. -/

namespace Flowfile

variable {ε α β : Type}

theorem ok_bind (a : α) (next : α → Except ε β) : (Except.ok a >>= next) = next a := by
  rfl

theorem error_bind (error : ε) (next : α → Except ε β) :
    (Except.error error >>= next) = .error error := by
  rfl

theorem bind_eq_ok (first : Except ε α) (next : α → Except ε β) (result : β) :
    (first >>= next) = .ok result ↔ ∃ a, first = .ok a ∧ next a = .ok result := by
  cases first with
  | error e =>
      rw [error_bind]
      simp
  | ok a =>
      rw [ok_bind]
      simp

theorem bind_eq_error (first : Except ε α) (next : α → Except ε β) (error : ε) :
    (first >>= next) = .error error ↔
      first = .error error ∨ ∃ a, first = .ok a ∧ next a = .error error := by
  cases first with
  | error e =>
      rw [error_bind]
      simp
  | ok a =>
      rw [ok_bind]
      simp

theorem map_eq_ok_iff (first : Except ε α) (f : α → β) (result : β) :
    first.map f = .ok result ↔ ∃ a, first = .ok a ∧ f a = result := by
  cases first <;> simp [Except.map]

theorem map_eq_error_iff (first : Except ε α) (f : α → β) (error : ε) :
    first.map f = .error error ↔ first = .error error := by
  cases first <;> simp [Except.map]

theorem map_map {γ : Type} (first : Except ε α) (f : α → β) (g : β → γ) :
    (first.map f).map g = first.map fun a => g (f a) := by
  cases first <;> rfl

theorem mapError_eq_error_iff {ε' : Type} (first : Except ε α) (f : ε → ε') (error : ε') :
    first.mapError f = .error error ↔ ∃ inner, first = .error inner ∧ f inner = error := by
  cases first with
  | error inner =>
      have mapped : (Except.error inner : Except ε α).mapError f = .error (f inner) := rfl
      simp [mapped]
  | ok a =>
      have mapped : (Except.ok a : Except ε α).mapError f = .ok a := rfl
      simp [mapped]

theorem mapError_eq_ok_iff {ε' : Type} (first : Except ε α) (f : ε → ε') (result : α) :
    first.mapError f = .ok result ↔ first = .ok result := by
  cases first with
  | error inner =>
      have mapped : (Except.error inner : Except ε α).mapError f = .error (f inner) := rfl
      simp [mapped]
  | ok a =>
      have mapped : (Except.ok a : Except ε α).mapError f = .ok a := rfl
      simp [mapped]

theorem toOption_eq_some_iff (first : Except ε α) (result : α) :
    first.toOption = some result ↔ first = .ok result := by
  cases first <;> simp [Except.toOption]

theorem exists_ok_of_any (result : Except ε α) (holds : α → Bool)
    (any : result.toOption.any holds = true) : ∃ a, result = .ok a ∧ holds a = true := by
  cases result with
  | error => cases any
  | ok a => exact ⟨a, rfl, any⟩

theorem mapM_eq_ok_iff (run : α → Except ε β) (items : List α) (results : List β) :
    items.mapM run = .ok results ↔
      List.Forall₂ (fun item result => run item = .ok result) items results := by
  induction items generalizing results with
  | nil =>
      rw [List.mapM_nil, List.forall₂_nil_left_iff]
      exact ⟨fun same => (Except.ok.inj same).symm, fun same => congrArg Except.ok same.symm⟩
  | cons first rest ih =>
      rw [List.mapM_cons, bind_eq_ok, List.forall₂_cons_left_iff]
      constructor
      · rintro ⟨result, here, done⟩
        obtain ⟨others, later, same⟩ := (bind_eq_ok _ _ _).mp done
        exact ⟨result, others, here, (ih others).mp later, (Except.ok.inj same).symm⟩
      · rintro ⟨result, others, here, later, rfl⟩
        exact ⟨result, here, (bind_eq_ok _ _ _).mpr ⟨others, (ih others).mpr later, rfl⟩⟩

/-- Of several computations in a row the first one that fails has the error. -/
def FirstFails (run : α → Except ε β) (items : List α) (error : ε) : Prop :=
  ∃ before item after, items = before ++ item :: after ∧
    (∀ earlier ∈ before, ∃ result, run earlier = .ok result) ∧ run item = .error error

theorem firstFails_nil (run : α → Except ε β) (error : ε) : ¬FirstFails run [] error := by
  rintro ⟨before, item, after, same, -⟩
  simp at same

theorem firstFails_cons (run : α → Except ε β) (first : α) (rest : List α) (error : ε) :
    FirstFails run (first :: rest) error ↔
      run first = .error error ∨
        ∃ result, run first = .ok result ∧ FirstFails run rest error := by
  constructor
  · rintro ⟨before, item, after, same, earlier, failed⟩
    cases before with
    | nil =>
        cases same
        exact .inl failed
    | cons head before =>
        cases same
        obtain ⟨result, done⟩ := earlier first List.mem_cons_self
        exact .inr ⟨result, done, before, item, after, rfl,
          fun other member => earlier other (List.mem_cons_of_mem _ member), failed⟩
  · rintro (failed | ⟨result, done, before, item, after, same, earlier, failed⟩)
    · exact ⟨[], first, rest, rfl, by simp, failed⟩
    · refine ⟨first :: before, item, after, by rw [same, List.cons_append], ?_, failed⟩
      intro other member
      rcases List.mem_cons.mp member with rfl | member
      · exact ⟨result, done⟩
      · exact earlier other member

theorem bind_wrap_eq_error {γ : Type} (first : Except ε α) (wrap : α → γ) (error : ε) :
    (first >>= fun a => Except.ok (wrap a)) = .error error ↔ first = .error error := by
  rw [bind_eq_error]
  refine ⟨?_, .inl⟩
  rintro (failed | ⟨a, -, done⟩)
  · exact failed
  · cases done

theorem exists_mapM_eq_error (run : α → Except ε β) (items : List α) :
    (∃ error, items.mapM run = .error error) ↔ ∃ item ∈ items, ∃ error, run item = .error error := by
  induction items with
  | nil =>
      refine iff_of_false ?_ ?_
      · rintro ⟨error, failed⟩
        cases failed
      · rintro ⟨item, member, -⟩
        cases member
  | cons first rest ih =>
      simp only [List.mem_cons, exists_eq_or_imp, ← ih, List.mapM_cons]
      rcases done : run first with error | result
      · simp [error_bind]
      · simp only [ok_bind, reduceCtorEq, exists_false, false_or]
        exact exists_congr fun error => bind_wrap_eq_error _ _ error

theorem mapM_eq_error (run : α → Except ε β) (items : List α) (error : ε) :
    items.mapM run = .error error ↔ FirstFails run items error := by
  induction items with
  | nil =>
      refine ⟨fun failed => (by cases failed), fun failed => absurd failed (firstFails_nil _ error)⟩
  | cons first rest ih =>
      rw [List.mapM_cons, bind_eq_error, firstFails_cons, ← ih]
      exact or_congr_right (exists_congr fun result => and_congr_right fun _ =>
        bind_wrap_eq_error _ _ error)

theorem firstFails_wrap {γ : Type} (run : α → Except ε β) (wrap : α → β → γ) (items : List α)
    (error : ε) :
    FirstFails (fun a => run a >>= fun b => Except.ok (wrap a b)) items error ↔
      FirstFails run items error := by
  induction items with
  | nil => exact iff_of_false (firstFails_nil _ error) (firstFails_nil _ error)
  | cons first rest ih =>
      rw [firstFails_cons, firstFails_cons, bind_wrap_eq_error, ih]
      refine or_congr_right ⟨?_, ?_⟩
      · rintro ⟨result, done, failed⟩
        obtain ⟨b, reached, -⟩ := (bind_eq_ok _ _ result).mp done
        exact ⟨b, reached, failed⟩
      · rintro ⟨b, reached, failed⟩
        exact ⟨wrap first b, by rw [reached, ok_bind], failed⟩

theorem reached_congr {run other : α → Except ε β} {items : List α}
    (agree : ∀ before item after, items = before ++ item :: after →
      (∀ earlier ∈ before, ∃ result, run earlier = .ok result) → other item = run item)
    {before after : List α} (whole : items = before ++ after) :
    (∀ earlier ∈ before, ∃ result, other earlier = .ok result) ↔
      ∀ earlier ∈ before, ∃ result, run earlier = .ok result := by
  induction before generalizing items with
  | nil => simp
  | cons first before ih =>
      have same := agree [] first (before ++ after) whole (by simp)
      simp only [List.forall_mem_cons, same]
      refine and_congr_right fun done => ih (fun front item back inner reached => ?_) rfl
      refine agree (first :: front) item back (by rw [whole, List.cons_append, inner]; rfl) ?_
      exact List.forall_mem_cons.mpr ⟨done, reached⟩

theorem mapM_congr_reached {run other : α → Except ε β} {items : List α}
    (agree : ∀ before item after, items = before ++ item :: after →
      (∀ earlier ∈ before, ∃ result, run earlier = .ok result) → other item = run item) :
    items.mapM other = items.mapM run := by
  induction items with
  | nil => rfl
  | cons first rest ih =>
      rw [List.mapM_cons, List.mapM_cons, agree [] first rest rfl (by simp)]
      rcases done : run first with error | result
      · rfl
      · have later : rest.mapM other = rest.mapM run := by
          refine ih fun before item after whole reached => ?_
          refine agree (first :: before) item after (by rw [whole, List.cons_append]) ?_
          exact List.forall_mem_cons.mpr ⟨⟨result, done⟩, reached⟩
        rw [later]

end Flowfile
