import Mathlib.Data.List.Forall2

/-!
# Results — what a result says of its parts

The order of errors in this library is the order of the binds, so most facts about a success take
it apart: `Except.bind_eq_ok_iff` at one bind, and `Except.mapM_eq_ok_iff` along a list.

What fails does so by the first of some tests that applies (`Except.FailsBy`), and the tests of a
bind are those of its parts in their order (`Except.FailsBy.bind`).
-/

/-- What follows for the right of each pair holds all along the list on the right. -/
theorem List.Forall₂.forall_right {α β : Type} {R : α → β → Prop} {P : β → Prop} {xs : List α}
    {ys : List β}
    (h : List.Forall₂ R xs ys) (hP : ∀ {x y}, R x y → P y) : ∀ y ∈ ys, P y := by
  induction h with
  | nil => exact fun y hy => absurd hy List.not_mem_nil
  | cons hr _ ih =>
      intro y hy
      rcases List.mem_cons.mp hy with rfl | hy
      · exact hP hr
      · exact ih y hy

/-- Lists that are related through a third one. -/
theorem List.Forall₂.compose {α β γ : Type} {R : α → β → Prop} {S : β → γ → Prop}
    {T : α → γ → Prop} {xs : List α} {ys : List β} {zs : List γ} (h : List.Forall₂ R xs ys)
    (h' : List.Forall₂ S ys zs) (hT : ∀ {x y z}, R x y → S y z → T x z) : List.Forall₂ T xs zs := by
  induction h generalizing zs with
  | nil =>
      cases h'
      exact .nil
  | cons hr _ ih =>
      cases h' with
      | cons hs hrest => exact .cons (hT hr hs) (ih hrest)

namespace Except

variable {ε ε' α β γ : Type}

theorem isOk_iff {x : Except ε α} : x.isOk = true ↔ ∃ a, x = .ok a := by
  cases x with
  | ok a => exact ⟨fun _ => ⟨a, rfl⟩, fun _ => rfl⟩
  | error e =>
      constructor
      · intro h
        cases h
      · rintro ⟨a, ha⟩
        cases ha

theorem exists_error_iff {x : Except ε α} : (∃ e, x = .error e) ↔ ¬ ∃ a, x = .ok a := by
  cases x <;> simp

theorem bind_eq_ok_iff {x : Except ε α} {f : α → Except ε β} {b : β} :
    (x >>= f) = .ok b ↔ ∃ a, x = .ok a ∧ f a = .ok b := by
  cases x with
  | ok a =>
      constructor
      · intro h
        exact ⟨a, rfl, h⟩
      · rintro ⟨a', ha, h⟩
        cases ha
        exact h
  | error e =>
      constructor
      · intro h
        cases h
      · rintro ⟨a, ha, -⟩
        cases ha

theorem bind_eq_error_iff {x : Except ε α} {f : α → Except ε β} {e : ε} :
    (x >>= f) = .error e ↔ x = .error e ∨ ∃ a, x = .ok a ∧ f a = .error e := by
  cases x with
  | ok a =>
      constructor
      · intro h
        exact .inr ⟨a, rfl, h⟩
      · rintro (h | ⟨a', ha, h⟩)
        · cases h
        · cases ha
          exact h
  | error e' =>
      constructor
      · intro h
        cases h
        exact .inl rfl
      · rintro (h | ⟨a, ha, -⟩)
        · cases h
          rfl
        · cases ha

theorem ok_ne_error {a : α} {e : ε} : (Except.ok a : Except ε α) ≠ .error e := by
  rintro ⟨⟩

/-- What no part fails with, the whole does not fail with. -/
theorem bind_ne_error {x : Except ε α} {f : α → Except ε β} {e : ε} (hx : x ≠ .error e)
    (hf : ∀ a, f a ≠ .error e) : (x >>= f) ≠ .error e := by
  intro h
  rcases bind_eq_error_iff.mp h with h | ⟨a, -, h⟩
  · exact hx h
  · exact hf a h

theorem map_eq_ok_iff {x : Except ε α} {f : α → β} {b : β} :
    x.map f = .ok b ↔ ∃ a, x = .ok a ∧ f a = b := by
  cases x with
  | ok a => simp [Except.map]
  | error e => simp [Except.map]

@[simp] theorem mapError_ok (f : ε → ε') (a : α) : (ok a : Except ε α).mapError f = .ok a := rfl

@[simp] theorem mapError_error (f : ε → ε') (e : ε) :
    (error e : Except ε α).mapError f = .error (f e) := rfl

theorem mapError_eq_ok_iff {x : Except ε α} {f : ε → ε'} {a : α} :
    x.mapError f = .ok a ↔ x = .ok a := by
  cases x with
  | ok a => simp
  | error e => simp

theorem exists_map_iff {x : Except ε α} {f : α → β} : (∃ b, x.map f = .ok b) ↔ ∃ a, x = .ok a := by
  constructor
  · rintro ⟨b, h⟩
    obtain ⟨a, ha, -⟩ := map_eq_ok_iff.mp h
    exact ⟨a, ha⟩
  · rintro ⟨a, ha⟩
    exact ⟨f a, map_eq_ok_iff.mpr ⟨a, ha, rfl⟩⟩

theorem map_eq_error_iff {x : Except ε α} {f : α → β} {e : ε} :
    x.map f = .error e ↔ x = .error e := by
  cases x with
  | ok a => simp [Except.map]
  | error e' => simp [Except.map]

theorem mapError_eq_error_iff {x : Except ε α} {f : ε → ε'} {e' : ε'} :
    x.mapError f = .error e' ↔ ∃ e, x = .error e ∧ f e = e' := by
  cases x with
  | ok a => simp
  | error e => simp

/-- Along a list all succeed, or the whole does not. -/
theorem mapM_eq_ok_iff {f : α → Except ε β} {xs : List α} {ys : List β} :
    xs.mapM f = .ok ys ↔ List.Forall₂ (fun x y => f x = .ok y) xs ys := by
  induction xs generalizing ys with
  | nil =>
      rw [List.mapM_nil, List.forall₂_nil_left_iff]
      exact ⟨fun h => by cases h; rfl, fun h => h ▸ rfl⟩
  | cons x xs ih =>
      rw [List.mapM_cons, bind_eq_ok_iff, List.forall₂_cons_left_iff]
      constructor
      · rintro ⟨y, hy, h⟩
        obtain ⟨ys', hys, h⟩ := bind_eq_ok_iff.mp h
        cases h
        exact ⟨y, ys', hy, ih.mp hys, rfl⟩
      · rintro ⟨y, ys', hy, hys, rfl⟩
        exact ⟨y, hy, bind_eq_ok_iff.mpr ⟨ys', ih.mpr hys, rfl⟩⟩

/-- Where the whole of a list fails, one of its members does. -/
theorem exists_error_of_mapM {f : α → Except ε β} {xs : List α} {e : ε}
    (h : xs.mapM f = .error e) : ∃ x ∈ xs, f x = .error e := by
  induction xs with
  | nil => cases h
  | cons x xs ih =>
      rw [List.mapM_cons, bind_eq_error_iff] at h
      rcases h with h | ⟨y, -, h⟩
      · exact ⟨x, List.mem_cons_self, h⟩
      · rcases bind_eq_error_iff.mp h with h | ⟨ys, -, h⟩
        · obtain ⟨x', hx', h⟩ := ih h
          exact ⟨x', List.mem_cons_of_mem _ hx', h⟩
        · cases h

/-- The whole of a list succeeds exactly if each of its members does. -/
theorem exists_mapM_iff {f : α → Except ε β} {xs : List α} :
    (∃ ys, xs.mapM f = .ok ys) ↔ ∀ x ∈ xs, ∃ y, f x = .ok y := by
  constructor
  · rintro ⟨ys, h⟩
    exact (mapM_eq_ok_iff.mp h).flip.forall_right (P := fun x => ∃ y, f x = .ok y)
      fun hy => ⟨_, hy⟩
  · intro h
    cases hmap : xs.mapM f with
    | ok ys => exact ⟨ys, rfl⟩
    | error e =>
        obtain ⟨x, hx, he⟩ := exists_error_of_mapM hmap
        obtain ⟨y, hy⟩ := h x hx
        rw [he] at hy
        cases hy

/-- What is mapped after it succeeded can be had first all along a list, and be mapped then. -/
theorem exists_of_forall₂_map {f : α → Except ε β} {g : β → γ} {xs : List α} {zs : List γ}
    (h : List.Forall₂ (fun x z => (f x).map g = .ok z) xs zs) :
    ∃ ys, List.Forall₂ (fun x y => f x = .ok y) xs ys ∧ zs = ys.map g := by
  induction h with
  | nil => exact ⟨[], .nil, rfl⟩
  | cons hz _ ih =>
      obtain ⟨ys, hys, rfl⟩ := ih
      obtain ⟨y, hy, rfl⟩ := map_eq_ok_iff.mp hz
      exact ⟨y :: ys, .cons hy hys, rfl⟩

/-! ### The first of several tests -/

/-- The first of some tests that says anything says this. -/
inductive FirstOf : List (ε → Prop) → ε → Prop where
  | here {test : ε → Prop} {rest : List (ε → Prop)} {e : ε} (h : test e) : FirstOf (test :: rest) e
  | later {test : ε → Prop} {rest : List (ε → Prop)} {e : ε} (silent : ∀ e', ¬ test e')
      (h : FirstOf rest e) : FirstOf (test :: rest) e

theorem firstOf_cons_iff {test : ε → Prop} {rest : List (ε → Prop)} {e : ε} :
    FirstOf (test :: rest) e ↔ test e ∨ (∀ e', ¬ test e') ∧ FirstOf rest e := by
  constructor
  · intro h
    cases h with
    | here h => exact .inl h
    | later silent h => exact .inr ⟨silent, h⟩
  · rintro (h | ⟨silent, h⟩)
    · exact .here h
    · exact .later silent h

theorem not_firstOf_nil (e : ε) : ¬ FirstOf [] e := fun h => by cases h

theorem firstOf_singleton_iff {test : ε → Prop} {e : ε} : FirstOf [test] e ↔ test e := by
  simp [firstOf_cons_iff, not_firstOf_nil]

/-- Some test says something if the first of them does. -/
theorem exists_firstOf_iff {tests : List (ε → Prop)} :
    (∃ e, FirstOf tests e) ↔ ∃ test ∈ tests, ∃ e, test e := by
  induction tests with
  | nil => simp [not_firstOf_nil]
  | cons test rest ih =>
      simp only [firstOf_cons_iff, List.exists_mem_cons_iff, ← ih]
      by_cases hsilent : ∃ e, test e
      · obtain ⟨e, he⟩ := hsilent
        exact ⟨fun _ => .inl ⟨e, he⟩, fun _ => ⟨e, .inl he⟩⟩
      · rw [not_exists] at hsilent
        simp [hsilent]

theorem firstOf_append_iff {tests tests' : List (ε → Prop)} {e : ε} :
    FirstOf (tests ++ tests') e ↔
      FirstOf tests e ∨ (∀ e', ¬ FirstOf tests e') ∧ FirstOf tests' e := by
  induction tests with
  | nil => simp [not_firstOf_nil]
  | cons test rest ih =>
      simp only [List.cons_append, firstOf_cons_iff, ih, not_or, not_and]
      by_cases hsilent : ∀ e', ¬ test e'
      · simp [hsilent]
      · simp [hsilent]

/-- A result is an error exactly if a test says so, which is the first that says anything. -/
def FailsBy (x : Except ε α) (tests : List (ε → Prop)) : Prop :=
  ∀ e, x = .error e ↔ FirstOf tests e

theorem failsBy_singleton_iff {x : Except ε α} {test : ε → Prop} :
    FailsBy x [test] ↔ ∀ e, x = .error e ↔ test e :=
  forall_congr' fun _ => by rw [firstOf_singleton_iff]

/-- There is a result exactly if no test says anything. -/
theorem FailsBy.exists_ok_iff {x : Except ε α} {tests : List (ε → Prop)} (h : FailsBy x tests) :
    (∃ a, x = .ok a) ↔ ∀ test ∈ tests, ∀ e, ¬ test e := by
  have hfails : (∃ e, x = .error e) ↔ ∃ test ∈ tests, ∃ e, test e :=
    (exists_congr h).trans exists_firstOf_iff
  cases x with
  | ok a => simpa using hfails
  | error e => simpa using hfails

theorem FailsBy.bind {x : Except ε α} {f : α → Except ε β} {tests tests' : List (ε → Prop)}
    (hx : FailsBy x tests) (hf : ∀ a, x = .ok a → FailsBy (f a) tests') :
    FailsBy (x >>= f) (tests ++ tests') := by
  intro e
  rw [firstOf_append_iff]
  cases x with
  | ok a =>
      have hsilent : ∀ e', ¬ FirstOf tests e' := fun e' he' => by
        have h := (hx e').mpr he'
        cases h
      refine (hf a rfl e).trans ⟨fun h => .inr ⟨hsilent, h⟩, ?_⟩
      rintro (h | ⟨-, h⟩)
      · exact absurd h (hsilent e)
      · exact h
  | error e' =>
      have he : (error e' >>= f) = error e ↔ (error e' : Except ε α) = error e := by
        constructor <;> (intro h; cases h; rfl)
      refine (he.trans (hx e)).trans ⟨.inl, ?_⟩
      rintro (h | ⟨hsilent, -⟩)
      · exact h
      · exact absurd ((hx e').mp rfl) (hsilent e')

theorem FailsBy.map {x : Except ε α} {tests : List (ε → Prop)} (h : FailsBy x tests) (f : α → β) :
    FailsBy (x.map f) tests := by
  intro e
  rw [map_eq_error_iff, h e]

/-- What can only fail in one way still does under another name. -/
theorem failsBy_mapError {x : Except ε α} {c : Prop} {e : ε}
    (h : ∀ e', x = .error e' ↔ c ∧ e' = e) (f : ε → ε') :
    FailsBy (x.mapError f) [fun e' => c ∧ e' = f e] := by
  refine failsBy_singleton_iff.mpr fun e' => ?_
  rw [mapError_eq_error_iff]
  constructor
  · rintro ⟨_, hx, rfl⟩
    obtain ⟨hc, rfl⟩ := (h _).mp hx
    exact ⟨hc, rfl⟩
  · rintro ⟨hc, rfl⟩
    exact ⟨e, (h e).mpr ⟨hc, rfl⟩, rfl⟩

theorem failsBy_ok (a : α) : FailsBy (ok a : Except ε α) [] := fun e =>
  ⟨fun h => absurd h ok_ne_error, fun h => absurd h (not_firstOf_nil e)⟩

/-- Where all errors are called the same, only the condition is left of a test. -/
theorem failsBy_mapError_const {x : Except ε α} {c : Prop} {f : ε → ε'} {e : ε'}
    (h : (∃ a, x = .ok a) ↔ ¬ c) (hf : ∀ e', f e' = e) :
    FailsBy (x.mapError f) [fun e' => c ∧ e' = e] := by
  refine failsBy_singleton_iff.mpr fun e' => ?_
  cases x with
  | ok a => simpa using fun hc => absurd hc (h.mp ⟨a, rfl⟩)
  | error e₀ =>
      have hc : c := by simpa using h
      simp [hf, hc, eq_comm]

/-- A refusal is the first test. -/
theorem failsBy_ite {x : Except ε α} {tests : List (ε → Prop)} (c : Prop) [Decidable c] (e : ε)
    (h : ¬ c → FailsBy x tests) :
    FailsBy (if c then .error e else x) ((fun e' => c ∧ e' = e) :: tests) := by
  intro e'
  rw [firstOf_cons_iff]
  by_cases hc : c
  · rw [if_pos hc, Except.error.injEq]
    refine ⟨fun he => .inl ⟨hc, he.symm⟩, ?_⟩
    rintro (⟨-, he⟩ | ⟨hsilent, -⟩)
    · exact he.symm
    · exact absurd ⟨hc, rfl⟩ (hsilent e)
  · rw [if_neg hc, h hc e']
    simp [hc]

theorem mapError_mapError {ε'' : Type} (x : Except ε α) (f : ε → ε') (g : ε' → ε'') :
    (x.mapError f).mapError g = x.mapError fun e => g (f e) := by
  cases x <;> rfl

theorem mapError_bind (x : Except ε α) (f : α → Except ε β) (g : ε → ε') :
    (x >>= f).mapError g = x.mapError g >>= fun a => (f a).mapError g := by
  cases x <;> rfl

end Except
