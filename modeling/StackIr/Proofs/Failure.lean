import Mathlib.Data.List.Perm.Basic
import StackIr.Failure

/-! # Computations that may fail

    What a computation that may fail can have done, read off its outcome: a sequence of two
    steps, a result that is passed on, and a failure with a note.  Later proofs take
    computations apart with these and never unfold the monad.

    Two computations have the same outcome if both fail, with whatever failures, or both give
    results that are related. -/

namespace StackIr

variable {ε α β : Type}

/-! ## Sequences -/

theorem bind_eq_ok_iff {x : Except ε α} {f : α → Except ε β} {b : β} :
    x >>= f = .ok b ↔ ∃ a, x = .ok a ∧ f a = .ok b := by
  cases x with
  | error failure => simp [bind, Except.bind]
  | ok a => simp [bind, Except.bind]

theorem bind_eq_error_iff {x : Except ε α} {f : α → Except ε β} {failure : ε} :
    x >>= f = .error failure ↔ x = .error failure ∨ ∃ a, x = .ok a ∧ f a = .error failure := by
  cases x with
  | error failure => simp [bind, Except.bind]
  | ok a => simp [bind, Except.bind]

@[simp] theorem pure_eq_ok_iff {a b : α} : (pure a : Except ε α) = .ok b ↔ a = b := by
  simp [pure, Except.pure]

theorem map_eq_ok_iff {f : α → β} {x : Except ε α} {b : β} :
    x.map f = .ok b ↔ ∃ a, x = .ok a ∧ f a = b := by
  cases x with
  | error failure => simp [Except.map]
  | ok a => simp [Except.map]

@[simp] theorem map_eq_error_iff {f : α → β} {x : Except ε α} {failure : ε} :
    x.map f = .error failure ↔ x = .error failure := by
  cases x with
  | error failure => simp [Except.map]
  | ok a => simp [Except.map]

theorem toOption_map_eq_some_iff {f : α → β} {x : Except ε α} {b : β} :
    x.toOption.map f = some b ↔ ∃ a, x = .ok a ∧ f a = b := by
  cases x with
  | error failure => simp [Except.toOption]
  | ok a => simp [Except.toOption]

@[simp] theorem mapError_eq_ok_iff {ε' : Type} {f : ε → ε'} {x : Except ε α} {a : α} :
    x.mapError f = .ok a ↔ x = .ok a := by
  cases x with
  | error inner =>
    show Except.error (f inner) = .ok a ↔ _
    simp
  | ok b =>
    show Except.ok b = .ok a ↔ _
    simp

theorem mapError_eq_error_iff {ε' : Type} {f : ε → ε'} {x : Except ε α} {failure : ε'} :
    x.mapError f = .error failure ↔ ∃ inner, x = .error inner ∧ f inner = failure := by
  cases x with
  | error inner =>
    show Except.error (f inner) = .error failure ↔ _
    simp
  | ok b =>
    show Except.ok b = .error failure ↔ _
    simp

/-- Every item has a result if all of them together have. -/
theorem mapM_eq_ok_iff {f : α → Except ε β} {items : List α} {results : List β} :
    items.mapM f = .ok results ↔ List.Forall₂ (fun a b => f a = .ok b) items results := by
  induction items generalizing results with
  | nil => rw [List.mapM_nil, pure_eq_ok_iff, List.forall₂_nil_left_iff, eq_comm]
  | cons a rest ih =>
    rw [List.mapM_cons, bind_eq_ok_iff, List.forall₂_cons_left_iff]
    constructor
    · rintro ⟨b, hb, hrest⟩
      obtain ⟨more, hmore, hresults⟩ := bind_eq_ok_iff.1 hrest
      exact ⟨b, more, hb, ih.1 hmore, (pure_eq_ok_iff.1 hresults).symm⟩
    · rintro ⟨b, more, hb, hmore, rfl⟩
      exact ⟨b, hb, bind_eq_ok_iff.2 ⟨more, ih.2 hmore, rfl⟩⟩

/-- One item without a result is enough for all of them to have none. -/
theorem exists_mapM_eq_error {f : α → Except ε β} {items : List α} {a : α} (hmem : a ∈ items)
    (h : ∃ error, f a = .error error) : ∃ error, items.mapM f = .error error := by
  induction items with
  | nil => cases hmem
  | cons first rest ih =>
    rw [List.mapM_cons]
    cases hfirst : f first with
    | error error => exact ⟨error, rfl⟩
    | ok b =>
      -- the first item has a result, so the one without is among the rest
      rcases List.mem_cons.1 hmem with rfl | hrest
      · obtain ⟨error, herror⟩ := h
        rw [hfirst] at herror
        cases herror
      · obtain ⟨error, herror⟩ := ih hrest
        exact ⟨error, by rw [herror]; rfl⟩

/-- Results that are kept under the keys of their items. -/
theorem map_fst_of_mapM {κ : Type} {key : α → κ} {f : α → Except ε β} {items : List α}
    {pairs : List (κ × β)} (h : items.mapM (fun a => (f a).map (key a, ·)) = .ok pairs) :
    pairs.map Prod.fst = items.map key := by
  rw [← List.forall₂_eq_eq_eq, List.forall₂_map_left_iff, List.forall₂_map_right_iff]
  refine (mapM_eq_ok_iff.1 h).flip.imp fun pair a hpair => ?_
  obtain ⟨b, -, rfl⟩ := map_eq_ok_iff.1 hpair
  rfl

/-- What holds at the start of a fold and is kept by its steps holds at its end. -/
theorem foldlM_preserves {P : β → Prop} {step : β → α → Except ε β}
    (hstep : ∀ b a b', P b → step b a = .ok b' → P b') {items : List α} {start result : β}
    (hstart : P start) (h : items.foldlM step start = .ok result) : P result := by
  induction items generalizing start with
  | nil =>
    cases h
    exact hstart
  | cons a rest ih =>
    rw [List.foldlM_cons] at h
    obtain ⟨next, hnext, hrest⟩ := bind_eq_ok_iff.1 h
    exact ih (hstep start a next hstart hnext) hrest

/-- What each step of a fold extends to one more item holds of all items at its end. -/
theorem foldlM_extends {P : List α → β → Prop} {step : β → α → Except ε β}
    (hstep : ∀ done b a b', P done b → step b a = .ok b' → P (done ++ [a]) b')
    {done items : List α} {start result : β} (hstart : P done start)
    (h : items.foldlM step start = .ok result) : P (done ++ items) result := by
  induction items generalizing done start with
  | nil =>
    cases h
    rwa [List.append_nil]
  | cons a rest ih =>
    rw [List.foldlM_cons] at h
    obtain ⟨next, hnext, hrest⟩ := bind_eq_ok_iff.1 h
    have hresult := ih (hstep done start a next hstart hnext) hrest
    rwa [List.append_assoc] at hresult

/-- A fold whose steps all succeed succeeds. -/
theorem exists_foldlM_eq_ok {step : β → α → Except ε β} {items : List α}
    (hstep : ∀ b, ∀ a ∈ items, ∃ b', step b a = .ok b') (start : β) :
    ∃ result, items.foldlM step start = .ok result := by
  induction items generalizing start with
  | nil => exact ⟨start, rfl⟩
  | cons a rest ih =>
    obtain ⟨next, hnext⟩ := hstep start a (List.mem_cons_self ..)
    obtain ⟨result, hresult⟩ := ih (fun b a' ha' => hstep b a' (List.mem_cons_of_mem _ ha')) next
    exact ⟨result, by rw [List.foldlM_cons, hnext]; exact hresult⟩

/-! ## Notes -/

/-- A note changes no result. -/
@[simp] theorem noting_eq_ok_iff {note : String} {x : Except Failure α} {a : α} :
    noting note x = .ok a ↔ x = .ok a :=
  mapError_eq_ok_iff

theorem noting_eq_error_iff {note : String} {x : Except Failure α} {failure : Failure} :
    noting note x = .error failure ↔ ∃ inner, x = .error inner ∧ .context note inner = failure :=
  mapError_eq_error_iff

@[simp] theorem Stop.noting_eq_ok_iff {note : String} {x : Except Stop α} {a : α} :
    Stop.noting note x = .ok a ↔ x = .ok a :=
  mapError_eq_ok_iff

/-- A note hides no cycle. -/
@[simp] theorem Failure.cycle?_context (note : String) (inner : Failure) :
    (Failure.context note inner).cycle? = inner.cycle? := by
  simp [Failure.cycle?, Failure.causes]

/-! ## Failures of one kind -/

/-- Whatever a computation fails with, `P` holds of it. -/
def FailsOnly (P : ε → Prop) (x : Except ε α) : Prop :=
  ∀ failure, x = .error failure → P failure

namespace FailsOnly

variable {P : ε → Prop} {x : Except ε α}

theorem ok (a : α) : FailsOnly P (.ok a) := by
  intro failure h
  cases h

theorem error {failure : ε} (h : P failure) : FailsOnly P (.error failure : Except ε α) := by
  intro failure' heq
  cases heq
  exact h

/-- The second step of a sequence is only made with the result of the first. -/
theorem bind {f : α → Except ε β} (hx : FailsOnly P x)
    (hf : ∀ a, x = .ok a → FailsOnly P (f a)) : FailsOnly P (x >>= f) := by
  intro failure h
  rcases bind_eq_error_iff.1 h with hfirst | ⟨a, ha, hsecond⟩
  · exact hx failure hfirst
  · exact hf a ha failure hsecond

theorem map {f : α → β} (hx : FailsOnly P x) : FailsOnly P (x.map f) := by
  intro failure h
  exact hx failure (map_eq_error_iff.1 h)

theorem mapError {ε' : Type} {Q : ε' → Prop} {f : ε → ε'} (hx : FailsOnly P x)
    (hQ : ∀ inner, P inner → Q (f inner)) : FailsOnly Q (x.mapError f) := by
  intro failure h
  obtain ⟨inner, hinner, rfl⟩ := mapError_eq_error_iff.1 h
  exact hQ inner (hx inner hinner)

theorem foldlM {step : β → α → Except ε β} {items : List α}
    (hstep : ∀ b, ∀ a ∈ items, FailsOnly P (step b a)) (start : β) :
    FailsOnly P (items.foldlM step start) := by
  induction items generalizing start with
  | nil => exact .ok start
  | cons a rest ih =>
    rw [List.foldlM_cons]
    refine (hstep start a (List.mem_cons_self ..)).bind fun next _ => ?_
    exact ih (fun b a' ha' => hstep b a' (List.mem_cons_of_mem _ ha')) next

end FailsOnly

/-! ## Outcomes -/

/-- Both computations succeed, with results that are related, or both fail. -/
inductive SameOutcome {ε' : Type} (R : α → β → Prop) : Except ε α → Except ε' β → Prop where
  | ok {a : α} {b : β} : R a b → SameOutcome R (.ok a) (.ok b)
  | error {f : ε} {g : ε'} : SameOutcome R (.error f) (.error g)

namespace SameOutcome

variable {ε' γ δ : Type} {R : α → β → Prop} {S : γ → δ → Prop} {x : Except ε α} {y : Except ε' β}

theorem refl (x : Except ε α) : SameOutcome Eq x x := by
  cases x with
  | error failure => exact .error
  | ok a => exact .ok rfl

theorem symm (h : SameOutcome R x y) : SameOutcome (fun b a => R a b) y x := by
  cases h with
  | ok hab => exact .ok hab
  | error => exact .error

theorem trans {ε'' : Type} {T : β → γ → Prop} {U : α → γ → Prop} {z : Except ε'' γ}
    (hxy : SameOutcome R x y) (hyz : SameOutcome T y z) (hU : ∀ a b c, R a b → T b c → U a c) :
    SameOutcome U x z := by
  cases hxy with
  | ok hab =>
    cases hyz with
    | ok hbc => exact .ok (hU _ _ _ hab hbc)
  | error =>
    cases hyz with
    | error => exact .error

theorem imp {S : α → β → Prop} (h : SameOutcome R x y)
    (hS : ∀ a b, x = .ok a → y = .ok b → R a b → S a b) : SameOutcome S x y := by
  cases h with
  | ok hab => exact .ok (hS _ _ rfl rfl hab)
  | error => exact .error

theorem bind (h : SameOutcome R x y) {f : α → Except ε γ} {g : β → Except ε' δ}
    (hf : ∀ a b, R a b → SameOutcome S (f a) (g b)) : SameOutcome S (x >>= f) (y >>= g) := by
  cases h with
  | ok hab => exact hf _ _ hab
  | error => exact .error

theorem map (h : SameOutcome R x y) {f : α → γ} {g : β → δ} (hf : ∀ a b, R a b → S (f a) (g b)) :
    SameOutcome S (x.map f) (y.map g) := by
  cases h with
  | ok hab => exact .ok (hf _ _ hab)
  | error => exact .error

theorem mapError {η η' : Type} (h : SameOutcome R x y) (f : ε → η) (g : ε' → η') :
    SameOutcome R (x.mapError f) (y.mapError g) := by
  cases h with
  | ok hab => exact .ok hab
  | error => exact .error

theorem noting {x : Except Failure α} {y : Except Failure β} (h : SameOutcome R x y)
    (note note' : String) :
    SameOutcome R (StackIr.noting note x) (StackIr.noting note' y) :=
  h.mapError _ _

/-- Items may be visited in any order. -/
theorem mapM_perm (f : α → Except ε β) {items items' : List α} (hperm : items.Perm items') :
    SameOutcome List.Perm (items.mapM f) (items'.mapM f) := by
  cases hresults' : items'.mapM f with
  | ok results' =>
    obtain ⟨results, hresults, hsame⟩ := List.perm_comp_forall₂ hperm (mapM_eq_ok_iff.1 hresults')
    rw [mapM_eq_ok_iff.2 hresults]
    exact .ok hsame
  | error failure' =>
    cases hresults : items.mapM f with
    | error failure => exact .error
    | ok results =>
      -- in the other order all items would have results too
      obtain ⟨more, hmore, -⟩ := List.perm_comp_forall₂ hperm.symm (mapM_eq_ok_iff.1 hresults)
      cases hresults'.symm.trans (mapM_eq_ok_iff.2 hmore)

/-- Computations with equal results give the same ones. -/
theorem eq_ok_iff {y : Except ε' α} (h : SameOutcome Eq x y) {a : α} :
    x = .ok a ↔ y = .ok a := by
  cases h with
  | ok hab => simp [hab]
  | error => simp

end SameOutcome

end StackIr
