import FgGas.Store.System

/-!
# What a use case returns when its reads are fresh

A read between the transactions may see any state so far. A result that hangs on one such
read is a fact about the runs in which that read sees what it needs: `sees` says, of what
the use case goes on with after a read and of the state it is served, that this is so.
-/

namespace FgGas.Store

open Machine

variable {K S D E N A R T : Type}

/-- Every result of the use case satisfies `Q` when its reads see what they need. -/
def UseCase.Returns (sees : (S → UseCase K S D E N A R) → S → Prop) (Q : R → Prop) :
    UseCase K S D E N A R → Prop
  | .ret result => Q result
  | .ask next => ∀ d, (next d).Returns sees Q
  | .look _ next => ∀ seen, sees next seen → (next seen).Returns sees Q
  | .act _ next => ∀ s, (next s).Returns sees Q
  | .withTransaction _ next => ∀ result, (next result).Returns sees Q

/-- What is left of a use case returns only what satisfies `Q`. -/
def Phase.Returns (sees : (S → UseCase K S D E N A R) → S → Prop) (Q : R → Prop) :
    Phase K S D E N A R → Prop
  | .running program => program.Returns sees Q
  | .calling _ _ next => ∀ result, (next result).Returns sees Q
  | .inSession _ next _ => ∀ result, (next result).Returns sees Q

/-- The read a use case is about to make between its transactions. -/
def Phase.reading : Phase K S D E N A R → Option (Bool × (S → UseCase K S D E N A R))
  | .running (.look primary next) => some (primary, next)
  | _ => none

/-- The read a step makes between the transactions of a use case sees what it needs. -/
def System.sees (sees : T → (S → UseCase K S D E N A R) → S → Prop)
    (s : System K S D E N A R T) : T × Move D → Prop
  | (t, .look i) => ∀ r ∈ (s.threads t).phase.reading, ∀ seen ∈ s.visible r.1 i, sees t r.2 seen
  | _ => True

instance {sees : T → (S → UseCase K S D E N A R) → S → Prop}
    [∀ t next seen, Decidable (sees t next seen)] (s : System K S D E N A R T) :
    ∀ l, Decidable (s.sees sees l)
  | (t, .look i) => inferInstanceAs (Decidable (∀ r ∈ (s.threads t).phase.reading,
      ∀ seen ∈ s.visible r.1 i, sees t r.2 seen))
  | (_, .ask _) => .isTrue trivial
  | (_, .go) => .isTrue trivial
  | (_, .abort) => .isTrue trivial

section
variable [DecidableEq K] [DecidableEq T] {s s' : System K S D E N A R T} {t : T}
  {sees : T → (S → UseCase K S D E N A R) → S → Prop} {Q : T → R → Prop}

omit [DecidableEq T] [DecidableEq K] in
theorem Thread.notice_returns {sees : (S → UseCase K S D E N A R) → S → Prop} {Q : R → Prop}
    {keys : List K} {th : Thread K S D E N A R} (h : th.phase.Returns sees Q) :
    (th.notice keys).phase.Returns sees Q := by
  unfold Thread.notice
  split
  · next callback next txn hph =>
    rw [hph] at h
    exact h
  · exact h

omit [DecidableEq K] in
theorem System.goto_returns {phase : Phase K S D E N A R}
    (hs : ∀ u, (s.threads u).phase.Returns (sees u) (Q u)) (hp : phase.Returns (sees t) (Q t))
    (u : T) : ((s.goto t phase).threads u).phase.Returns (sees u) (Q u) := by
  by_cases hu : u = t
  · subst hu
    simpa [System.goto] using hp
  · simpa [System.goto, Function.update_of_ne hu] using hs u

omit [DecidableEq K] in
theorem System.change_returns {phase : Phase K S D E N A R} {keys : List K} {write : S → S}
    {own : List (S × S)} (hs : ∀ u, (s.threads u).phase.Returns (sees u) (Q u))
    (hp : phase.Returns (sees t) (Q t)) (u : T) :
    ((s.change t keys write phase own).threads u).phase.Returns (sees u) (Q u) := by
  by_cases hu : u = t
  · subst hu
    simpa [System.change] using hp
  · simpa [System.change, Function.update_of_ne hu] using Thread.notice_returns (hs u)

/-- A step whose read sees what it needs keeps the use cases to their results. -/
theorem step_returns (hs : ∀ u, (s.threads u).phase.Returns (sees u) (Q u)) {l : T × Move D}
    (hok : s.sees sees l) (h : s.step l = some s') (u : T) :
    (s'.threads u).phase.Returns (sees u) (Q u) := by
  obtain ⟨t, move⟩ := l
  have ht := hs t
  cases step_cases h with
  | ask hphase =>
    rw [hphase] at ht
    refine System.goto_returns hs ?_ u
    exact ht _
  | look hphase hseen =>
    rw [hphase] at ht
    refine System.goto_returns hs ?_ u
    refine ht _ (hok (_, _) ?_ _ hseen)
    rw [hphase]
    rfl
  | act hphase _ =>
    rw [hphase] at ht
    refine System.change_returns hs ?_ u
    exact ht _
  | call hphase | callbackAsk hphase | callbackLook hphase _ | start hphase =>
    rw [hphase] at ht
    refine System.goto_returns hs ?_ u
    exact ht
  | callbackAct hphase _ =>
    rw [hphase] at ht
    refine System.change_returns hs ?_ u
    exact ht
  | callbackFail hphase =>
    rw [hphase] at ht
    refine System.goto_returns hs ?_ u
    exact ht _
  | abort hphase =>
    rw [hphase] at ht
    refine System.goto_returns (s := s.release t) (fun u ↦ hs u) ?_ u
    exact ht
  | sessionAsk hphase _ =>
    rw [hphase] at ht
    refine System.goto_returns hs ?_ u
    exact ht
  | perform hphase _ _ _ =>
    rw [hphase] at ht
    refine System.goto_returns (s := s) hs ?_ u
    exact ht
  | commit hphase _ =>
    rw [hphase] at ht
    refine System.change_returns (s := s.release t) (fun u ↦ hs u) ?_ u
    exact ht _
  | throw hphase _ =>
    rw [hphase] at ht
    refine System.goto_returns (s := s.release t) (fun u ↦ hs u) ?_ u
    exact ht _

/-- In a run whose reads see what they need, a use case that has ended has a result it
returns. -/
theorem run_returns {s₀ : S} {program : T → UseCase K S D E N A R} {ls : List (T × Move D)}
    (hprogram : ∀ t, (program t).Returns (sees t) (Q t))
    (h : Run System.step (fun s l ↦ s.sees sees l) (System.start s₀ program) ls s) {result : R}
    (hr : (s.threads t).result = some result) : Q t result := by
  have hs := h.invariant (fun s ↦ ∀ u, (s.threads u).phase.Returns (sees u) (Q u)) hprogram
    fun s l s' hs hok hst ↦ step_returns hs hok hst
  have ht := hs t
  unfold Thread.result at hr
  split at hr
  · next hph =>
    obtain rfl := Option.some.inj hr
    rw [hph] at ht
    exact ht
  · cases hr

end

end FgGas.Store
