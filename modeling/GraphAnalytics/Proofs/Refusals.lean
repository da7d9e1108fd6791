/-
# Going through a list with steps that may fail

If every step succeeds so does the whole, and if what a step refuses depends on the item alone, the
whole is refused with the first refused item, whatever has been done by then. It may depend on the
state as well as long as no step changes what it depends on.
-/

import Mathlib.Data.List.Basic

namespace GraphAnalytics

theorem mapM_eq_ok {α β ε : Type} {f : α → Except ε β} {answer : α → β} {xs : List α}
    (answers : ∀ x ∈ xs, f x = .ok (answer x)) : xs.mapM f = .ok (xs.map answer) := by
  induction xs with
  | nil => rfl
  | cons x xs ih =>
      rw [List.mapM_cons, answers x List.mem_cons_self,
        ih fun y member => answers y (List.mem_cons_of_mem x member)]
      rfl

theorem bind_eq_ok_iff {α β ε : Type} {first : Except ε α} {next : α → Except ε β} {result : β} :
    first >>= next = .ok result ↔ ∃ between, first = .ok between ∧ next between = .ok result := by
  cases first with
  | error violation => exact iff_of_false nofun nofun
  | ok between =>
      refine ⟨fun ok => ⟨between, rfl, ok⟩, ?_⟩
      rintro ⟨_, same, ok⟩
      cases same
      exact ok

theorem bind_eq_error_iff {α β ε : Type} {first : Except ε α} {next : α → Except ε β}
    {violation : ε} : first >>= next = .error violation ↔
      first = .error violation ∨ ∃ between, first = .ok between ∧ next between = .error violation := by
  cases first with
  | error reason =>
      refine ⟨fun refused => .inl (congrArg _ (Except.error.inj refused)), ?_⟩
      rintro (refused | ⟨between, given, -⟩)
      · exact congrArg _ (Except.error.inj refused)
      · cases given
  | ok between =>
      refine ⟨fun refused => .inr ⟨between, rfl, refused⟩, ?_⟩
      rintro (refused | ⟨_, same, refused⟩)
      · cases refused
      · cases same
        exact refused

theorem exists_ok_of_forall_ne_error {α ε : Type} {outcome : Except ε α}
    (none : ∀ violation, outcome ≠ .error violation) : ∃ result, outcome = .ok result := by
  cases outcome with
  | error violation => exact absurd rfl (none violation)
  | ok result => exact ⟨result, rfl⟩

/-- The violation is the one with which the first refused item is refused. -/
def FirstRefused {α ε : Type} (refuses : α → ε → Prop) (items : List α) (violation : ε) : Prop :=
  ∃ before item after, items = before ++ item :: after ∧
    (∀ earlier ∈ before, ∀ reason, ¬ refuses earlier reason) ∧ refuses item violation

variable {α ε σ : Type} {refuses : α → ε → Prop}

theorem not_firstRefused_nil (violation : ε) : ¬ FirstRefused refuses [] violation := by
  rintro ⟨before, item, after, same, -⟩
  exact List.append_ne_nil_of_right_ne_nil before (List.cons_ne_nil item after) same.symm

theorem firstRefused_cons {item : α} {items : List α} {violation : ε} :
    FirstRefused refuses (item :: items) violation ↔ refuses item violation ∨
      (∀ reason, ¬ refuses item reason) ∧ FirstRefused refuses items violation := by
  constructor
  · rintro ⟨before, refused, after, same, accepted, why⟩
    cases before with
    | nil =>
        obtain ⟨rfl, rfl⟩ := List.cons.inj same
        exact .inl why
    | cons earlier before =>
        obtain ⟨rfl, rfl⟩ := List.cons.inj same
        obtain ⟨first, accepted⟩ := List.forall_mem_cons.mp accepted
        exact .inr ⟨first, before, refused, after, rfl, accepted, why⟩
  · rintro (why | ⟨first, before, refused, after, rfl, accepted, why⟩)
    · exact ⟨[], item, items, rfl, fun _ member => absurd member List.not_mem_nil, why⟩
    · exact ⟨item :: before, refused, after, rfl, List.forall_mem_cons.mpr ⟨first, accepted⟩, why⟩

theorem exists_firstRefused {items : List α} :
    (∃ violation, FirstRefused refuses items violation) ↔
      ∃ item ∈ items, ∃ reason, refuses item reason := by
  induction items with
  | nil => simp [not_firstRefused_nil]
  | cons item items ih =>
      rw [List.exists_mem_cons_iff, ← ih]
      simp only [firstRefused_cons]
      by_cases here : ∃ reason, refuses item reason
      · obtain ⟨reason, why⟩ := here
        exact ⟨fun _ => .inl ⟨reason, why⟩, fun _ => ⟨reason, .inl why⟩⟩
      · have accepted := not_exists.mp here
        simp [accepted]

/-- Steps that succeed on a new key go through a list in which no key occurs twice. -/
theorem exists_foldlM_of_nodup {κ : Type} {step : σ → α → Except ε σ} {key? : α → Option κ}
    (inv : List α → σ → Prop) {items done : List α}
    (advances : ∀ done, ∀ item ∈ items, ∀ state, inv done state →
      (∀ key ∈ key? item, key ∉ done.filterMap key?) →
      ∃ next, step state item = .ok next ∧ inv (done ++ [item]) next)
    (once : ((done ++ items).filterMap key?).Nodup) {state : σ} (start : inv done state) :
    ∃ final, items.foldlM step state = .ok final ∧ inv (done ++ items) final := by
  induction items generalizing done state with
  | nil => exact ⟨state, rfl, by rwa [List.append_nil]⟩
  | cons item items ih =>
      have fresh : ∀ key ∈ key? item, key ∉ done.filterMap key? := by
        intro key given before
        rw [List.filterMap_append, List.filterMap_cons_some given] at once
        exact (List.nodup_append.mp once).2.2 key before key List.mem_cons_self rfl
      obtain ⟨next, stepped, kept⟩ := advances done item List.mem_cons_self state start fresh
      rw [List.append_cons] at once ⊢
      rw [List.foldlM_cons, stepped]
      exact ih (fun done item later => advances done item (List.mem_cons_of_mem _ later)) once kept

/-- If what a step refuses depends on the item alone, at least in states of the kind that all steps
lead to, a run stops at the first refused item. -/
theorem foldlM_eq_error_iff {step : σ → α → Except ε σ} (inv : σ → Prop)
    (kept : ∀ state item next, inv state → step state item = .ok next → inv next)
    (refused : ∀ state item reason, inv state →
      (step state item = .error reason ↔ refuses item reason))
    {items : List α} {state : σ} {violation : ε} (start : inv state) :
    items.foldlM step state = .error violation ↔ FirstRefused refuses items violation := by
  induction items generalizing state with
  | nil => exact iff_of_false nofun (not_firstRefused_nil violation)
  | cons item items ih =>
      rw [List.foldlM_cons, firstRefused_cons]
      cases outcome : step state item with
      | error reason =>
          have why := (refused state item reason start).mp outcome
          show Except.error reason = .error violation ↔ _
          rw [← refused state item violation start, outcome]
          exact ⟨.inl, fun either => either.resolve_right fun other => other.1 reason why⟩
      | ok next =>
          have accepted (reason : ε) : ¬ refuses item reason := by
            rw [← refused state item reason start, outcome]
            nofun
          show items.foldlM step next = .error violation ↔ _
          rw [ih (kept state item next start outcome), or_iff_right (accepted violation),
            and_iff_right accepted]

end GraphAnalytics
