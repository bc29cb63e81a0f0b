import FgGas.Store.System

/-!
# Reasoning about interleaved use cases

A use case is checked alone. What the others may do meanwhile is summed up by an invariant
`inv`, an order `le` that time only climbs, and for each document `k` an equivalence
`agree k` that changes not taking `k` respect; in return the use case keeps all three and
makes only changes its guarantee allows. A transaction is checked at its commit: its
snapshot is then an earlier state that agrees with the store on every document the
transaction has taken.
-/

namespace FgGas.Store

open Machine

variable {K S D E N A B R T : Type}

/-- What all use cases rely on and keep. -/
structure Rely (K S : Type) where
  inv : S → Prop
  le : S → S → Prop
  agree : K → S → S → Prop
  le_refl : ∀ s, le s s
  le_trans : ∀ {s₁ s₂ s₃}, le s₁ s₂ → le s₂ s₃ → le s₁ s₃
  agree_refl : ∀ k s, agree k s s
  agree_trans : ∀ {k s₁ s₂ s₃}, agree k s₁ s₂ → agree k s₂ s₃ → agree k s₁ s₃

/-- What a use case promises: of each change it makes, and of its result with the changes
its transactions made; and what it may assume of the state a transaction starts on. -/
structure Promise (S N R : Type) where
  guar : S → S → Prop
  post : R → List (S × S) → S → Prop
  allow : N → S → Prop

/-- A change that keeps what the others rely on. -/
structure Fine (rely : Rely K S) (guar : S → S → Prop) (before after : S) (keys : List K) :
    Prop where
  inv : rely.inv after
  le : rely.le before after
  frame : ∀ k, k ∉ keys → rely.agree k before after
  guar : guar before after

/-- What a session has done by its end, for every answer it may get: `Q` holds of its
result, of the documents it has taken and of its writes. -/
def Session.Leads (base : S) : Session K S D E A → List K → (S → S) →
    (Except E A → List K → (S → S) → Prop) → Prop
  | .done value, held, write, Q => Q (.ok value) held write
  | .fail error, held, write, Q => Q (.error error) held write
  | .ask next, held, write, Q => ∀ d, (next d).Leads base held write Q
  | .op f next, held, write, Q =>
      (next (write base)).Leads base (held ++ (f (write base)).touch)
        ((f (write base)).write ∘ write) Q

/-- The end of a transaction on the snapshot `base` is in order: committing its writes to
any state that agrees with the snapshot on what it has taken, or throwing. -/
def Ends (rely : Rely K S) (guar : S → S → Prop)
    (post : Except E A → List (S × S) → S → Prop) (own : List (S × S)) (base : S)
    (result : Except E A) (held : List K) (write : S → S) : Prop :=
  ∀ db, rely.inv db → rely.le base db → match result with
    | .ok value => (∀ k ∈ held, rely.agree k base db) →
        Fine rely guar db (write db) held ∧ post (.ok value) (own ++ [(db, write db)]) (write db)
    | .error error => post (.error error) own db

/-- The callback is in order from `s` on. -/
def Callback.Ok (rely : Rely K S) (guar : S → S → Prop) (allow : N → S → Prop)
    (post : Except E A → List (S × S) → S → Prop) (own : List (S × S)) :
    Callback K S D E N A → S → Prop
  | .body note session, s => ∀ base, rely.inv base → rely.le s base → allow note base →
      session.Leads base [] id (Ends rely guar post own base)
  | .fail error, s => ∀ db, rely.inv db → rely.le s db → post (.error error) own db
  | .ask next, s => ∀ d, (next d).Ok rely guar allow post own s
  | .look primary next, s => ∀ db seen, rely.inv db → rely.le s db → rely.inv seen →
      rely.le seen db → (primary = true → seen = db) →
      (next seen).Ok rely guar allow post own db
  | .act f next, s => ∀ db, rely.inv db → rely.le s db →
      Fine rely guar db ((f db).write db) (f db).touch ∧
        (next db).Ok rely guar allow post own ((f db).write db)

/-- The use case is in order from `s` on, having made the changes `own`. -/
def UseCase.Ok (rely : Rely K S) (p : Promise S N R) :
    UseCase K S D E N A R → List (S × S) → S → Prop
  | .ret result, own, s => ∀ db, rely.inv db → rely.le s db → p.post result own db
  | .ask next, own, s => ∀ d, (next d).Ok rely p own s
  | .look primary next, own, s => ∀ db seen, rely.inv db → rely.le s db → rely.inv seen →
      rely.le seen db → (primary = true → seen = db) → (next seen).Ok rely p own db
  | .act f next, own, s => ∀ db, rely.inv db → rely.le s db →
      Fine rely p.guar db ((f db).write db) (f db).touch ∧
        (next db).Ok rely p (own ++ [(db, (f db).write db)]) ((f db).write db)
  | .withTransaction callback next, own, s =>
      callback.Ok rely p.guar p.allow (fun result own' s' ↦ (next result).Ok rely p own' s') own s

/-! ### Sequencing and weakening -/

theorem Session.Leads.mono {base : S} {x : Session K S D E A} {held : List K} {write : S → S}
    {Q Q' : Except E A → List K → (S → S) → Prop} (h : ∀ r held write, Q r held write →
      Q' r held write) (hx : x.Leads base held write Q) : x.Leads base held write Q' := by
  induction x generalizing held write with
  | done value => exact h _ _ _ hx
  | fail error => exact h _ _ _ hx
  | ask next ih => exact fun d ↦ ih d (hx d)
  | op f next ih => exact ih _ hx

/-- A session after another starts from what the first has taken and written. -/
theorem Session.leads_bind {base : S} (x : Session K S D E A) (f : A → Session K S D E B)
    {held : List K} {write : S → S} {Q : Except E B → List K → (S → S) → Prop} :
    (x >>= f).Leads base held write Q ↔
      x.Leads base held write fun r held write ↦ match r with
        | .ok value => (f value).Leads base held write Q
        | .error error => Q (.error error) held write := by
  change (x.bind f).Leads base held write Q ↔ _
  induction x generalizing held write with
  | done value => exact Iff.rfl
  | fail error => exact Iff.rfl
  | ask next ih => exact forall_congr' fun d ↦ ih d
  | op f next ih => exact ih _

section
variable {base : S} {held : List K} {write : S → S} {Q : Except E A → List K → (S → S) → Prop}

@[simp] theorem Session.leads_pure (value : A) :
    (pure value : Session K S D E A).Leads base held write Q ↔ Q (.ok value) held write := Iff.rfl

@[simp] theorem Session.leads_read (f : S → A) :
    (Session.read f : Session K S D E A).Leads base held write Q ↔
      Q (.ok (f (write base))) held write := by
  simp [Session.read, Session.Leads, Act.none]

@[simp] theorem Session.leads_write (touch : List K) (f : S → S)
    {Q : Except E Unit → List K → (S → S) → Prop} :
    (Session.write touch f : Session K S D E Unit).Leads base held write Q ↔
      Q (.ok ()) (held ++ touch) (f ∘ write) := Iff.rfl

@[simp] theorem Session.leads_orThrow (r : Except E A) :
    (Session.orThrow r : Session K S D E A).Leads base held write Q ↔ Q r held write := by
  cases r <;> exact Iff.rfl

theorem Session.leads_insert (taken : S → Option E) (touch : List K) (f : S → S)
    {Q : Except E Unit → List K → (S → S) → Prop} :
    (Session.insert taken touch f : Session K S D E Unit).Leads base held write Q ↔
      match taken (write base) with
      | some error => Q (.error error) held write
      | none => Q (.ok ()) (held ++ touch) (f ∘ write) := by
  cases h : taken (write base) <;>
    simp [Session.insert, Session.Leads, h, Act.none]

@[simp] theorem Session.leads_outside {Q : Except E D → List K → (S → S) → Prop} :
    (Session.outside : Session K S D E D).Leads base held write Q ↔
      ∀ d, Q (.ok d) held write := Iff.rfl

end

/-- A callback in order from some state on is in order from any later one on. -/
theorem Callback.Ok.later {rely : Rely K S} {guar : S → S → Prop} {allow : N → S → Prop}
    {post : Except E A → List (S × S) → S → Prop} {own : List (S × S)}
    {c : Callback K S D E N A} {s s' : S} (hle : rely.le s s')
    (h : c.Ok rely guar allow post own s) : c.Ok rely guar allow post own s' := by
  induction c generalizing s s' with
  | body note session => exact fun base hb hs ↦ h base hb (rely.le_trans hle hs)
  | fail error => exact fun db hd hs ↦ h db hd (rely.le_trans hle hs)
  | ask next ih => exact fun d ↦ ih d hle (h d)
  | look primary next ih => exact fun db seen hd hs ↦ h db seen hd (rely.le_trans hle hs)
  | act f next ih => exact fun db hd hs ↦ h db hd (rely.le_trans hle hs)

/-- A use case in order from some state on is in order from any later one on. -/
theorem UseCase.Ok.later {rely : Rely K S} {p : Promise S N R} {u : UseCase K S D E N A R}
    {own : List (S × S)} {s s' : S} (hle : rely.le s s') (h : u.Ok rely p own s) :
    u.Ok rely p own s' := by
  induction u generalizing s s' with
  | ret result => exact fun db hd hs ↦ h db hd (rely.le_trans hle hs)
  | ask next ih => exact fun d ↦ ih d hle (h d)
  | look primary next ih => exact fun db seen hd hs ↦ h db seen hd (rely.le_trans hle hs)
  | act f next ih => exact fun db hd hs ↦ h db hd (rely.le_trans hle hs)
  | withTransaction callback next => exact Callback.Ok.later hle h

end FgGas.Store
