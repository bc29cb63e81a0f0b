import FgGas.Store.Logic

/-!
# Sessions that store nothing when they throw

A session that throws stores nothing: of its end only what it comes to without throwing is
asked. One rule for each way a session is put together.
-/

namespace FgGas.Store

variable {K S D E A B R : Type}

/-- The session ends, if it does not throw, with what satisfies `P`. -/
def Session.Yields (base : S) (x : Session K S D E A) (held : List K) (write : S → S)
    (P : A → List K → (S → S) → Prop) : Prop :=
  x.Leads base held write fun result held write ↦ match result with
    | .error _ => True
    | .ok value => P value held write

section
variable {base : S} {held : List K} {write : S → S} {P : A → List K → (S → S) → Prop}
  {Q : B → List K → (S → S) → Prop}

theorem Session.Yields.bind {x : Session K S D E A} {f : A → Session K S D E B}
    (h : x.Yields base held write fun value held write ↦ (f value).Yields base held write Q) :
    (x >>= f).Yields base held write Q := by
  unfold Session.Yields at h ⊢
  rw [Session.leads_bind]
  apply Session.Leads.mono _ h
  intro result held write hresult
  cases result with
  | error _ => trivial
  | ok value => exact hresult

theorem Session.Yields.pure {value : A} (h : P value held write) :
    (Pure.pure value : Session K S D E A).Yields base held write P := h

theorem Session.Yields.read {f : S → A} (h : P (f (write base)) held write) :
    (Session.read f : Session K S D E A).Yields base held write P := by
  unfold Session.Yields
  rw [Session.leads_read]
  exact h

theorem Session.Yields.orThrow {r : Except E A} (h : ∀ value, r = .ok value → P value held write) :
    (Session.orThrow r : Session K S D E A).Yields base held write P := by
  unfold Session.Yields
  rw [Session.leads_orThrow]
  cases r with
  | error _ => trivial
  | ok value => exact h value rfl

theorem Session.Yields.outside {P : D → List K → (S → S) → Prop} (h : ∀ d, P d held write) :
    (Session.outside : Session K S D E D).Yields base held write P := h

/-- A conditional write that happens. -/
theorem Session.Yields.insert {taken : S → Option E} {touch : List K} {f : S → S}
    {P : Unit → List K → (S → S) → Prop}
    (h : taken (write base) = none → P () (held ++ touch) (f ∘ write)) :
    (Session.insert taken touch f : Session K S D E Unit).Yields base held write P := by
  unfold Session.Yields
  rw [Session.leads_insert]
  cases htaken : taken (write base) with
  | some error => trivial
  | none => exact h htaken

/-- A transaction is in order if what it yields is, and what follows a failure. -/
theorem Session.Yields.ends {rely : Rely K S} {guar : S → S → Prop}
    {post : Except E A → List (S × S) → S → Prop} {own : List (S × S)} {x : Session K S D E A}
    (hx : x.Yields base [] id P)
    (hok : ∀ value held write, P value held write →
      Ends rely guar post own base (.ok value) held write)
    (herror : ∀ error held write, Ends rely guar post own base (.error error) held write) :
    x.Leads base [] id (Ends rely guar post own base) := by
  apply Session.Leads.mono _ hx
  intro result held write hresult
  cases result with
  | error error => exact herror error held write
  | ok value => exact hok value held write hresult

end

end FgGas.Store
