import FgGas.Store.Sound

/-!
# A use case on a part of a store

A use case that works on one part of a larger store: its operations see the part and write to
it, its documents are those of the part, and its answers are read off the larger world's. Where
the part is not stored, the use case fails. What is known of its writes on the part is known of
them on the store, with the rest changed only as the part's writes may change it.
-/

namespace FgGas.Store

variable {K S D E N A R K' S' D' : Type}

/-- A part of a store, if it is stored, how a write to it is a write to the store, and its
documents among the store's. -/
structure Part (K S K' S' : Type) where
  get : S' → Option S
  modify : (S → S) → S' → S'
  key : K → K'

/-- What a write to the part does to the store. -/
structure Part.Lawful (p : Part K S K' S') (frame : S' → S' → Prop) : Prop where
  get_modify : ∀ f s, p.get (p.modify f s) = (p.get s).map f
  frame_modify : ∀ f s, frame s (p.modify f s)
  frame_refl : ∀ s, frame s s
  frame_trans : ∀ {s₁ s₂ s₃}, frame s₁ s₂ → frame s₂ s₃ → frame s₁ s₃

/-- An operation on the part. -/
def Act.within (p : Part K S K' S') (f : S → Act K S) (s : S') : Act K' S' :=
  match p.get s with
  | some part => ⟨(f part).touch.map p.key, p.modify (f part).write⟩
  | Option.none => .none

/-- A session on the part. -/
def Session.within (p : Part K S K' S') (answer : D' → D) (missing : E) :
    Session K S D E A → Session K' S' D' E A
  | .done value => .done value
  | .fail error => .fail error
  | .ask next => .ask fun d ↦ (next (answer d)).within p answer missing
  | .op f next => .op (Act.within p f) fun s ↦
      match p.get s with
      | some part => (next part).within p answer missing
      | none => .fail missing

/-- A callback on the part. -/
def Callback.within (p : Part K S K' S') (answer : D' → D) (missing : E) :
    Callback K S D E N A → Callback K' S' D' E N A
  | .body note session => .body note (session.within p answer missing)
  | .fail error => .fail error
  | .ask next => .ask fun d ↦ (next (answer d)).within p answer missing
  | .look primary next => .look primary fun s ↦
      match p.get s with
      | some part => (next part).within p answer missing
      | none => .fail missing
  | .act f next => .act (Act.within p f) fun s ↦
      match p.get s with
      | some part => (next part).within p answer missing
      | none => .fail missing

section
variable {p : Part K S K' S'} {frame : S' → S' → Prop} {answer : D' → D} {missing : E}

/-- A write to the store that writes to the part as `write` does, and else within the frame. -/
structure Part.Writes (p : Part K S K' S') (frame : S' → S' → Prop) (write : S → S)
    (write' : S' → S') : Prop where
  part : ∀ s, p.get (write' s) = (p.get s).map write
  frame : ∀ s, frame s (write' s)

theorem Part.Lawful.writes_id (hp : p.Lawful frame) : p.Writes frame id id := by
  constructor
  · intro s
    simp
  · exact hp.frame_refl

theorem Part.Lawful.writes_modify (hp : p.Lawful frame) {write : S → S} {write' : S' → S'}
    (hw : p.Writes frame write write') (f : S → S) :
    p.Writes frame (f ∘ write) (p.modify f ∘ write') := by
  constructor
  · intro s
    rw [Function.comp_apply, hp.get_modify, hw.part, Option.map_map]
  · intro s
    exact hp.frame_trans (hw.frame s) (hp.frame_modify f _)

/-- A session on a part that is stored does to the part what it does alone. -/
theorem Session.leads_within (hp : p.Lawful frame) {base : S} {base' : S'}
    (hbase : p.get base' = some base) {x : Session K S D E A} {held : List K} {write : S → S}
    {Q : Except E A → List K → (S → S) → Prop} (hx : x.Leads base held write Q)
    {write' : S' → S'} (hw : p.Writes frame write write')
    {Q' : Except E A → List K' → (S' → S') → Prop}
    (hQ : ∀ r held write write', p.Writes frame write write' → Q r held write →
      Q' r (held.map p.key) write') :
    (x.within p answer missing).Leads base' (held.map p.key) write' Q' := by
  induction x generalizing held write write' with
  | done value => exact hQ _ _ _ _ hw hx
  | fail error => exact hQ _ _ _ _ hw hx
  | ask next ih => exact fun d ↦ ih (answer d) (hx (answer d)) hw
  | op f next ih =>
    have hpart : p.get (write' base') = some (write base) := by
      rw [hw.part, hbase, Option.map_some]
    have hnext := ih (write base) hx (hp.writes_modify hw _)
    rw [Session.within, Session.Leads, Act.within]
    simp only [hpart]
    rwa [List.map_append] at hnext

end

end FgGas.Store
