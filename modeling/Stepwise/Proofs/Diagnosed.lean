import Stepwise.Diagnostic

/-!
# Compilation that does not stop

When steps in a row come to a result, each of them does. The lemmas open such rows: `bind_eq_ok` for
a step and what follows it, `map_eq_ok` for what is computed from a result, `pure_eq_ok` and
`failAt_eq_ok` for the two ways to end.

What is kept along a row may be about both ends at once: about the results, where the places of
later faults depend on what the steps before found, and about the diagnostic of a step that stops
(`Keeps.bind`).

Two rows are compared step by step with a relation between results and one between diagnostics
(`Related.bind`). The second says how much the faults of the two have in common: the same
diagnostic, the same kind at the same span, or nothing.
-/

set_option autoImplicit false

namespace Stepwise.Diagnosed

variable {α β γ δ : Type}

/-- A step and what follows it succeed exactly if the step does and what follows does on its
result. -/
theorem bind_eq_ok {x : Diagnosed α} {f : α → Diagnosed β} {b : β} :
    (x >>= f) = .ok b ↔ ∃ a, x = .ok a ∧ f a = .ok b := by
  cases x with
  | error d => simp [bind, Except.bind]
  | ok a => simp [bind, Except.bind]

/-- Something computed from a result tells that there is one, and something about it. -/
theorem map_eq_ok {x : Diagnosed α} {f : α → β} {b : β} :
    x.map f = .ok b ↔ ∃ a, x = .ok a ∧ f a = b := by
  cases x with
  | error d => simp [Except.map]
  | ok a => simp [Except.map]

theorem isOk_iff {x : Diagnosed α} : x.isOk = true ↔ ∃ a, x = .ok a := by
  cases x with
  | error d => exact ⟨nofun, nofun⟩
  | ok a => exact ⟨fun _ => ⟨a, rfl⟩, fun _ => rfl⟩

/-- Compilations with results that can be told apart can be told apart. -/
instance instDecidableEq [DecidableEq α] : DecidableEq (Diagnosed α)
  | .ok a, .ok b => decidable_of_iff (a = b) ⟨congrArg _, Except.ok.inj⟩
  | .error d, .error e => decidable_of_iff (d = e) ⟨congrArg _, Except.error.inj⟩
  | .ok _, .error _ => .isFalse nofun
  | .error _, .ok _ => .isFalse nofun

@[simp] theorem pure_eq_ok {a b : α} : (pure a : Diagnosed α) = .ok b ↔ a = b := by
  simp [pure, Except.pure]

@[simp] theorem failAt_eq_ok {span : Span} {cause : Cause} {a : α} :
    (failAt span cause : Diagnosed α) = .ok a ↔ False := by
  simp [failAt]

/-! ## Results and diagnostics with a property -/

/-- A compilation whose result has a property, or whose diagnostic has one. -/
def Keeps (Q : Diagnostic → Prop) (P : α → Prop) : Diagnosed α → Prop
  | .ok a => P a
  | .error d => Q d

/-- Diagnostics of a kind at spans of some sort. -/
abbrev Blames (kind : FaultKind) (Q : Span → Prop) (d : Diagnostic) : Prop :=
  d.cause.kind = kind ∧ Q d.span

/-- What every result and every span is. -/
abbrev Anything {α : Type} : α → Prop := fun _ => True

namespace Keeps

variable {Q : Diagnostic → Prop} {P : α → Prop} {R : β → Prop}

theorem ok {a : α} (h : P a) : Keeps Q P (.ok a : Diagnosed α) := h

theorem pure {a : α} (h : P a) : Keeps Q P (pure a : Diagnosed α) := h

theorem failAt {span : Span} {cause : Cause} (h : Q ⟨cause, span⟩) :
    Keeps Q P (failAt span cause : Diagnosed α) := h

theorem bind {x : Diagnosed α} {f : α → Diagnosed β} (hx : Keeps Q P x)
    (hf : ∀ a, P a → Keeps Q R (f a)) :
    Keeps Q R (x >>= f) := by
  cases x with
  | error d => exact hx
  | ok a => exact hf a hx

theorem of_ok {x : Diagnosed α} {a : α} (h : Keeps Q P x) (hx : x = .ok a) : P a := by
  subst hx
  exact h

theorem of_error {x : Diagnosed α} {d : Diagnostic} (h : Keeps Q P x) (hx : x = .error d) :
    Q d := by
  subst hx
  exact h

end Keeps

/-! ## Two compilations -/

/-- Two compilations that come to related results, or stop with related diagnostics. -/
inductive Related (D : Diagnostic → Diagnostic → Prop) (R : α → β → Prop) :
    Diagnosed α → Diagnosed β → Prop
  | ok {a : α} {b : β} : R a b → Related D R (.ok a) (.ok b)
  | stop {d e : Diagnostic} : D d e → Related D R (.error d) (.error e)

namespace Related

variable {D : Diagnostic → Diagnostic → Prop} {R : α → β → Prop} {S : γ → δ → Prop}
    {x : Diagnosed α} {y : Diagnosed β}

theorem pure {a : α} {b : β} (h : R a b) : Related D R (pure a) (pure b) := .ok h

theorem failAt {span span' : Span} {cause cause' : Cause} (h : D ⟨cause, span⟩ ⟨cause', span'⟩) :
    Related D R (failAt span cause) (failAt span' cause') :=
  .stop h

theorem weaken {R' : α → β → Prop} (h : Related D R x y) (hR : ∀ a b, R a b → R' a b) :
    Related D R' x y := by
  cases h with
  | ok hab => exact .ok (hR _ _ hab)
  | stop hde => exact .stop hde

/-- Related steps, followed by steps that are related on related results. -/
theorem bind (h : Related D R x y) {f : α → Diagnosed γ} {g : β → Diagnosed δ}
    (hnext : ∀ a b, R a b → Related D S (f a) (g b)) : Related D S (x >>= f) (y >>= g) := by
  cases h with
  | ok hab => exact hnext _ _ hab
  | stop hde => exact .stop hde

/-- Related steps and what follows them, where the result of the first compilation is known to be
one. -/
theorem bind_ok (h : Related D R x y) {f : α → Diagnosed γ} {g : β → Diagnosed δ}
    (hnext : ∀ a b, x = .ok a → R a b → Related D S (f a) (g b)) :
    Related D S (x >>= f) (y >>= g) := by
  cases h with
  | ok hab => exact hnext _ _ rfl hab
  | stop hde => exact .stop hde

/-- Steps of which the second comes to an image of the result of the first. -/
theorem bind_image {image : α → β} (h : Related D (fun a b => b = image a) x y)
    {f : α → Diagnosed γ} {g : β → Diagnosed δ} (hnext : ∀ a, Related D S (f a) (g (image a))) :
    Related D S (x >>= f) (y >>= g) :=
  h.bind fun a _ hab => hab ▸ hnext a

/-- The same step on both sides. -/
theorem bind_same (hD : ∀ d, D d d) (x : Diagnosed α) {f : α → Diagnosed γ} {g : α → Diagnosed δ}
    (hnext : ∀ a, x = .ok a → Related D S (f a) (g a)) : Related D S (x >>= f) (x >>= g) := by
  cases x with
  | ok a => exact hnext a rfl
  | error d => exact .stop (hD d)

/-- A step at the end that only makes something of the result of the first compilation. -/
theorem map_left {S : γ → β → Prop} (h : Related D R x y) {f : α → γ}
    (hf : ∀ a b, R a b → S (f a) b) :
    Related D S (x >>= fun a => Pure.pure (f a)) y := by
  cases h with
  | ok hab => exact .ok (hf _ _ hab)
  | stop hde => exact .stop hde

/-- Choices that are made alike. -/
theorem ite {p q : Prop} [Decidable p] [Decidable q] (hpq : p ↔ q) {x' : Diagnosed α}
    {y' : Diagnosed β} (h : Related D R x y) (h' : Related D R x' y') :
    Related D R (if p then x else x') (if q then y else y') := by
  split
  · next hp =>
      rw [if_pos (hpq.mp hp)]
      exact h
  · next hp =>
      rw [if_neg fun hq => hp (hpq.mpr hq)]
      exact h'

theorem results (h : Related D R x y) :
    (∃ a b, x = .ok a ∧ y = .ok b ∧ R a b) ∨ ∃ d e, x = .error d ∧ y = .error e ∧ D d e := by
  cases h with
  | ok hab => exact .inl ⟨_, _, rfl, rfl, hab⟩
  | stop hde => exact .inr ⟨_, _, rfl, rfl, hde⟩

/-- Two compilations whose results have the image of one and the same. -/
theorem meet {image : α → γ} {image' : β → γ} {z : Diagnosed γ}
    (hD : ∀ {d e d'}, D d e → D d' e → D d d') (h : Related D (fun a c => c = image a) x z)
    (h' : Related D (fun b c => c = image' b) y z) :
    Related D (fun a b => image a = image' b) x y := by
  cases h with
  | ok ha =>
      cases h' with
      | ok hb => exact .ok (ha.symm.trans hb)
  | stop hde =>
      cases h' with
      | stop hde' => exact .stop (hD hde hde')

end Related

end Stepwise.Diagnosed
