import Mathlib.Data.List.Forall2

/-! # Results of computations

When a chain of computations that may fail has a result, and what it says about each of them. -/

namespace RpnY86

/-! ### Single computations -/

theorem bind_eq_ok {ε α β : Type} {x : Except ε α} {f : α → Except ε β} {b : β} :
    (x >>= f) = .ok b ↔ ∃ a, x = .ok a ∧ f a = .ok b := by
  cases x with
  | error e => exact ⟨fun h => (nomatch h), fun ⟨_, h, _⟩ => (nomatch h)⟩
  | ok a =>
    constructor
    · intro h
      exact ⟨a, rfl, h⟩
    · rintro ⟨_, ⟨⟩, h⟩
      exact h

theorem mapError_eq_ok {ε ε' α : Type} {x : Except ε α} {f : ε → ε'} {a : α} :
    x.mapError f = .ok a ↔ x = .ok a := by
  cases x with
  | error e => exact ⟨fun h => (nomatch h), fun h => (nomatch h)⟩
  | ok b => simp only [Except.mapError, Except.ok.injEq]

theorem map_eq_ok {ε α β : Type} {x : Except ε α} {f : α → β} {b : β} :
    f <$> x = .ok b ↔ ∃ a, x = .ok a ∧ f a = b := by
  cases x with
  | error e => simp [Functor.map, Except.map]
  | ok a => simp [Functor.map, Except.map]

/-! ### Computations over lists -/

theorem length_of_mapM {α β ε : Type} {f : α → Except ε β} {xs : List α} {ys : List β}
    (h : xs.mapM f = .ok ys) : ys.length = xs.length := by
  induction xs generalizing ys with
  | nil =>
    obtain rfl := Except.ok.inj h
    rfl
  | cons x xs ih =>
    rw [List.mapM_cons] at h
    obtain ⟨y, -, h⟩ := bind_eq_ok.1 h
    obtain ⟨ys', hys, h⟩ := bind_eq_ok.1 h
    obtain rfl := Except.ok.inj h
    rw [List.length_cons, List.length_cons, ih hys]

theorem exists_of_mapM {α β ε : Type} {f : α → Except ε β} {xs : List α} {ys : List β}
    (h : xs.mapM f = .ok ys) {x : α} (hx : x ∈ xs) : ∃ y, f x = .ok y := by
  induction xs generalizing ys with
  | nil => exact absurd hx List.not_mem_nil
  | cons x' xs ih =>
    rw [List.mapM_cons] at h
    obtain ⟨y, hy, h⟩ := bind_eq_ok.1 h
    obtain ⟨ys', hys, -⟩ := bind_eq_ok.1 h
    rcases List.mem_cons.mp hx with rfl | hx
    · exact ⟨y, hy⟩
    · exact ih hys hx

/-- A run over a list fails where one step fails after all steps before it. -/
theorem foldlM_eq_error_iff {ε α β : Type} {f : β → α → Except ε β} {xs : List α} {s : β}
    {err : ε} :
    xs.foldlM f s = .error err ↔
      ∃ i x s', xs[i]? = some x ∧ (xs.take i).foldlM f s = .ok s' ∧ f s' x = .error err := by
  induction xs generalizing s with
  | nil =>
    constructor
    · intro h
      cases h
    · rintro ⟨i, x, s', hx, -⟩
      cases hx
  | cons y ys ih =>
    rw [List.foldlM_cons]
    cases hy : f s y with
    | error e' =>
      constructor
      · intro h
        exact ⟨0, y, s, rfl, rfl, hy.trans h⟩
      · rintro ⟨i, x, s', hx, hs, he⟩
        cases i with
        | zero =>
          obtain rfl := Option.some.inj hx
          obtain rfl := Except.ok.inj hs
          exact hy.symm.trans he
        | succ i =>
          rw [List.take_succ_cons, List.foldlM_cons, hy] at hs
          cases hs
    | ok s₁ =>
      refine Iff.trans ih ⟨?_, ?_⟩
      · rintro ⟨i, x, s', hx, hs, he⟩
        refine ⟨i + 1, x, s', hx, ?_, he⟩
        rw [List.take_succ_cons, List.foldlM_cons, hy]
        exact hs
      · rintro ⟨i, x, s', hx, hs, he⟩
        cases i with
        | zero =>
          obtain rfl := Option.some.inj hx
          obtain rfl := Except.ok.inj hs
          rw [hy] at he
          cases he
        | succ i =>
          rw [List.take_succ_cons, List.foldlM_cons, hy] at hs
          exact ⟨i, x, s', hx, hs, he⟩

theorem mapM_eq_some_iff {α β : Type} {f : α → Option β} {as : List α} {bs : List β} :
    as.mapM f = some bs ↔ List.Forall₂ (fun a b => f a = some b) as bs := by
  induction as generalizing bs with
  | nil =>
    rw [List.mapM_nil, List.forall₂_nil_left_iff]
    exact ⟨fun h => (Option.some.inj h).symm, fun h => congrArg some h.symm⟩
  | cons a as ih =>
    simp only [List.mapM_cons, Option.bind_eq_bind, Option.bind_eq_some_iff, Option.pure_def,
      Option.some.injEq, List.forall₂_cons_left_iff, ih]
    constructor
    · rintro ⟨b, hb, cs, hcs, rfl⟩
      exact ⟨b, cs, hb, hcs, rfl⟩
    · rintro ⟨b, cs, hb, hcs, rfl⟩
      exact ⟨b, hb, cs, hcs, rfl⟩

theorem any_isNone_of_mapM {α β : Type} {f : α → Option β} {as : List α} :
    as.any (fun a => (f a).isNone) = (as.mapM f).isNone := by
  induction as with
  | nil => rfl
  | cons a as ih =>
    rw [List.any_cons, ih, List.mapM_cons]
    cases f a with
    | none => rfl
    | some b =>
      cases as.mapM f with
      | none => rfl
      | some bs => rfl

theorem forall₂_getLast? {α β : Type} {R : α → β → Prop} {as : List α} {bs : List β}
    (h : List.Forall₂ R as bs) {a : α} (ha : as.getLast? = some a) :
    ∃ b, bs.getLast? = some b ∧ R a b := by
  induction h with
  | nil => exact nomatch ha
  | @cons x y xs ys hxy hrest ih =>
    cases hrest with
    | nil =>
      obtain rfl := Option.some.inj ha
      exact ⟨y, rfl, hxy⟩
    | cons hxy' hrest =>
      rw [List.getLast?_cons_cons] at ha ⊢
      exact ih ha

end RpnY86
