import Mathlib.Algebra.GroupWithZero.Nat
import FgGas.Agreements.CarriedValues

/-!
# Identities are used once

The highest ordinal of each namespace is recorded with an agreement and resolved again from its
entries whenever it is built, so that it counts the identities ever allocated: a new one is
above all that were in use, in whichever version. What a version holds besides is what its
schema asks: identities that differ, and line items that refer to one entry each.
-/

namespace FgGas.Agreements

open Machine

variable {A P : Type}

/-- The line item refers to exactly one entry: one action, or one item. -/
def AgreementValues.RefersToOne (v : AgreementValues A P) (i : LineItem) : Prop :=
  (i.itemId = none ∧ ∃! e, e ∈ v.actions ∧ i.actionId = some e.id) ∨
    (i.actionId = none ∧ ∃! e, e ∈ v.items ∧ i.itemId = some e.id)

/-- Identities differ, and line items refer to one entry each. -/
structure AgreementValues.Identified (v : AgreementValues A P) : Prop where
  distinct : ∀ type, (v.identities type).Nodup
  references : ∀ i ∈ v.lineItems, v.RefersToOne i

/-- The identities are numbered from 1 up to the ordinals, which are the highest resolved. -/
structure Contents.Numbered (k : Contents A P) (ordinal : IdentityType → Nat) : Prop where
  resolved : ∀ type, k.highestOrdinal type = ordinal type
  below : ∀ type, Below type.kind (ordinal type) (k.values.identities type)

/-- How many identities of a type a transition allocates. -/
def TransitionCall.allocations (l : TransitionCall A P) (type : IdentityType) : Nat :=
  l.candidate.elim 0 (·.allocations type)

/-- The identity is one a transition has allocated in the version it makes. -/
def TransitionCall.Allocates (l : TransitionCall A P) (b : Agreement (Contents A P))
    (type : IdentityType) (id : String) : Prop :=
  ∃ c ∈ l.candidate, (none, id) ∈ (c.wanted type).zip (b.values.values.identities type)

/-- How many identities of a type a creation and the transitions after it allocate. -/
def allocated (c : Candidate A P) (ls : List (TransitionCall A P)) (type : IdentityType) : Nat :=
  c.allocations type + (ls.map (·.allocations type)).sum

section
variable {v w : AgreementValues A P} {k : Contents A P} {c : Candidate A P} {type : IdentityType}

theorem allocated_append (c : Candidate A P) (ls ls' : List (TransitionCall A P))
    (type : IdentityType) :
    allocated c (ls ++ ls') type = allocated c ls type + (ls'.map (·.allocations type)).sum := by
  simp [allocated, Nat.add_assoc]

theorem allocated_le_append (c : Candidate A P) (ls ls' : List (TransitionCall A P))
    (type : IdentityType) : allocated c ls type ≤ allocated c (ls ++ ls') type := by
  rw [allocated_append]
  exact Nat.le_add_right _ _

/-! ### What a schema asks -/

/-- Among entries whose identities differ, an identity of one is that one's. -/
theorem existsUnique_of_mem {entries : List FundedEntry} (hnodup : (entries.map (·.id)).Nodup)
    {reference : Option String} {id : String} (hreference : reference = some id)
    (hid : id ∈ entries.map (·.id)) : ∃! e, e ∈ entries ∧ reference = some e.id := by
  obtain ⟨e, he, rfl⟩ := List.mem_map.mp hid
  refine ⟨e, ⟨he, hreference⟩, ?_⟩
  rintro other ⟨hother, hsame⟩
  exact List.inj_on_of_nodup_map hnodup hother he (Option.some.inj (hsame.symm.trans hreference))

/-- Values the schema accepts are identified. -/
theorem AgreementValues.WellFormed.identified (h : v.WellFormed) (hc : v.Consistent) :
    v.Identified := by
  constructor
  · intro type
    cases type with
    | actions => exact h.actionIds
    | items => exact h.itemIds
    | instalments => exact h.instalmentIds
  · intro i hi
    have hone := h.lineItems i hi
    simp only [LineItem.matchesSchema, Bool.and_eq_true] at hone
    cases haction : i.actionId with
    | none =>
      cases hitem : i.itemId with
      | none => simp [haction, hitem] at hone
      | some id =>
        exact .inr ⟨haction, existsUnique_of_mem h.itemIds hitem (hc.itemId i hi id hitem)⟩
    | some id =>
      cases hitem : i.itemId with
      | none =>
        exact .inl ⟨hitem, existsUnique_of_mem h.actionIds haction (hc.actionId i hi id haction)⟩
      | some _ => simp [haction, hitem] at hone

/-- The entries of values spread over others are their own. -/
theorem identities_spread (type : IdentityType) :
    (v.spread w).identities type = w.identities type := by
  cases type <;> rfl

theorem AgreementValues.Identified.spread (h : w.Identified) : (v.spread w).Identified := by
  constructor
  · intro type
    rw [identities_spread]
    exact h.distinct type
  · exact h.references

/-! ### The highest ordinal -/

/-- The ordinal of a type is the highest resolved for it. -/
theorem of_resolveIdentitySequence (k : Contents A P) (type : IdentityType) :
    k.resolveIdentitySequence.of type = k.highestOrdinal type := by
  cases type <;> rfl

/-- An ordinal that is recorded is the highest of what is recorded and what is in use. -/
theorem highestOrdinal_of_recorded {sequence : IdentitySequence}
    (hrecorded : k.identitySequence = some sequence) (hsafe : sequence.of type ≤ maxSafeInteger) :
    k.highestOrdinal type = max (sequence.of type) (k.values.currentOrdinal type) := by
  rw [Contents.highestOrdinal, recordedOrdinal, hrecorded, Option.elim_some, if_pos hsafe]

/-- Building an agreement again resolves the same ordinals. -/
theorem highestOrdinal_construct (hsafe : k.highestOrdinal type ≤ maxSafeInteger) :
    k.construct.highestOrdinal type = k.highestOrdinal type := by
  have hof := of_resolveIdentitySequence k type
  rw [highestOrdinal_of_recorded (k := k.construct) rfl (by rw [hof]; exact hsafe), hof]
  exact max_eq_left (le_max_right _ _)

theorem Contents.Numbered.construct {ordinal : IdentityType → Nat} (h : k.Numbered ordinal)
    (hsafe : ∀ type, ordinal type ≤ maxSafeInteger) : k.construct.Numbered ordinal := by
  refine ⟨fun type ↦ ?_, h.below⟩
  have hresolved := h.resolved type
  rw [highestOrdinal_construct (by rw [hresolved]; exact hsafe type), hresolved]

/-- Identities given on from the highest ordinal raise it by those that are new. -/
theorem highestOrdinal_of_assigned {sequence : IdentitySequence} {known : List String}
    {wanted : List (Option String)} {last : Nat} (hrecorded : k.identitySequence = some sequence)
    (hsafe : sequence.of type ≤ maxSafeInteger)
    (hassigned : Assigned known (numbered type.kind) (sequence.of type + 1) wanted
      (k.values.identities type) last)
    (hknown : Below type.kind (sequence.of type) known) :
    k.highestOrdinal type = sequence.of type + wanted.countP Option.isNone := by
  rw [highestOrdinal_of_recorded hrecorded hsafe, AgreementValues.currentOrdinal]
  exact hassigned.max_eq hknown

end

/-! ### Creation and transition -/

section
variable {definitionCode : String} {identifiers : List (String × String)} {c : Candidate A P}
  {k : Contents A P}

/-- The identities of an agreement that is created are those it has allocated. -/
theorem numbered_of_created (h : createContents definitionCode identifiers c = .ok k)
    (hsafe : ∀ type, c.allocations type ≤ maxSafeInteger) : k.Numbered c.allocations := by
  obtain ⟨v, rfl, hmaterialised, _, _⟩ := createContents_eq_ok h
  have hnone : ∀ type : IdentityType, Below type.kind 0 [] := fun type x hx ↦
    absurd hx List.not_mem_nil
  refine Contents.Numbered.construct ⟨fun type ↦ ?_, fun type ↦ ?_⟩ hsafe
  · obtain ⟨last, hassigned⟩ := hmaterialised.identities type
    have hmax : max 0 (v.currentOrdinal type) = 0 + c.allocations type :=
      hassigned.max_eq (hnone type)
    rw [Contents.highestOrdinal, recordedOrdinal, Option.elim_none]
    exact hmax.trans (Nat.zero_add _)
  · obtain ⟨last, hassigned⟩ := hmaterialised.identities type
    have hbelow : Below type.kind (0 + c.allocations type) (v.identities type) :=
      hassigned.below_mark (hnone type)
    exact hbelow.mono (Nat.zero_add _).le

theorem identified_of_created (h : createContents definitionCode identifiers c = .ok k) :
    k.values.Identified := by
  obtain ⟨v, rfl, _, hwell, hconsistent⟩ := createContents_eq_ok h
  exact hwell.identified hconsistent

variable [DecidableEq A] [DecidableEq P] {a b : Agreement (Contents A P)} {l : TransitionCall A P}
  {ordinal : IdentityType → Nat}

/-- A transition leaves the identities of a type, or gives those its candidate wants, new ones
from the highest ordinal on. -/
theorem transitionStep_identities (h : transitionStep a l = some b)
    (ha : a.values.Numbered ordinal) (hsafe : ∀ type, ordinal type ≤ maxSafeInteger)
    (type : IdentityType) :
    (l.candidate = none ∧ b.values.values = a.values.values) ∨
    ∃ c last, l.candidate = some c ∧ Assigned (a.values.values.identities type)
      (numbered type.kind) (ordinal type + 1) (c.wanted type)
      (b.values.values.identities type) last := by
  obtain ⟨values, htransitions, rfl⟩ := transitionStep_eq_some h
  cases htransitions with
  | unmapped hnone => exact .inl ⟨hnone, rfl⟩
  | @mapped c v hc hresolved =>
    obtain ⟨last, hassigned⟩ := hresolved.materialised.identities type
    have hnext : a.values.construct.nextIdentityOrdinal type = ordinal type + 1 := by
      rw [Contents.nextIdentityOrdinal, of_resolveIdentitySequence,
        (ha.construct hsafe).resolved type]
    rw [hnext] at hassigned
    refine .inr ⟨c, last, hc, ?_⟩
    have hspread := identities_spread (v := a.values.values) (w := v) type
    exact hspread ▸ hassigned

/-- A transition numbers what it allocates on from what was allocated before. -/
theorem Contents.Numbered.step (ha : a.values.Numbered ordinal) (h : transitionStep a l = some b)
    (hsafe : ∀ type, ordinal type + l.allocations type ≤ maxSafeInteger) :
    b.values.Numbered fun type ↦ ordinal type + l.allocations type := by
  have hbefore : ∀ type, ordinal type ≤ maxSafeInteger := fun type ↦
    le_trans (Nat.le_add_right _ _) (hsafe type)
  have hidentities := transitionStep_identities h ha hbefore
  obtain ⟨values, htransitions, rfl⟩ := transitionStep_eq_some h
  refine Contents.Numbered.construct ⟨fun type ↦ ?_, fun type ↦ ?_⟩ hsafe
  · have hrecorded : a.values.resolveIdentitySequence.of type = ordinal type := by
      rw [of_resolveIdentitySequence, ha.resolved type]
    rcases hidentities type with ⟨hnone, _⟩ | ⟨c, last, hc, hassigned⟩
    · cases htransitions with
      | unmapped _ =>
        have hnothing : l.allocations type = 0 := by rw [TransitionCall.allocations, hnone]; rfl
        rw [hnothing, Nat.add_zero]
        exact (ha.construct hbefore).resolved type
      | mapped hc _ =>
        rw [hnone] at hc
        cases hc
    · have hallocations : l.allocations type = (c.wanted type).countP Option.isNone := by
        rw [TransitionCall.allocations, hc]
        rfl
      rw [← hrecorded] at hassigned
      rw [hallocations, ← hrecorded]
      refine highestOrdinal_of_assigned rfl ?_ hassigned ?_
      · rw [hrecorded]
        exact hbefore type
      · rw [hrecorded]
        exact ha.below type
  · rcases hidentities type with ⟨_, hsame⟩ | ⟨c, last, hc, hassigned⟩
    · have hbelow := (ha.below type).mono (Nat.le_add_right _ (l.allocations type))
      rw [← hsame] at hbelow
      exact hbelow
    · have hbelow := hassigned.below_mark (ha.below type)
      rw [TransitionCall.allocations, hc]
      exact hbelow

/-- A transition makes an identified version of one. -/
theorem identified_of_step (ha : a.values.values.Identified) (h : transitionStep a l = some b) :
    b.values.values.Identified := by
  obtain ⟨values, htransitions, rfl⟩ := transitionStep_eq_some h
  cases htransitions with
  | unmapped _ => exact ha
  | mapped _ hresolved => exact (hresolved.wellFormed.identified hresolved.consistent).spread

/-! ### Runs -/

variable {a₀ : Agreement (Contents A P)} {ls ls' : List (TransitionCall A P)}

/-- Every version reached is numbered up to the number of identities allocated until then. -/
theorem numbered_of_run (hcreated : createContents definitionCode identifiers c = .ok a₀.values)
    (hrun : Run transitionStep anyStep a₀ ls a)
    (hfew : ∀ type, allocated c ls type ≤ maxSafeInteger) : a.values.Numbered (allocated c ls) := by
  revert hfew
  refine hrun.invariant_labels (fun ls a ↦ (∀ type, allocated c ls type ≤ maxSafeInteger) →
    a.values.Numbered (allocated c ls)) ?_ ?_
  · exact numbered_of_created hcreated
  · intro ls a l b ha _ hstep hfew
    have hlast : ∀ type,
        allocated c (ls ++ [l]) type = allocated c ls type + l.allocations type := by
      intro type
      rw [allocated_append]
      simp
    have hbefore : a.values.Numbered (allocated c ls) := ha fun type ↦
      (allocated_le_append c ls [l] type).trans (hfew type)
    have hafter := hbefore.step hstep fun type ↦ hlast type ▸ hfew type
    rw [funext hlast]
    exact hafter

theorem identified_of_run (hcreated : createContents definitionCode identifiers c = .ok a₀.values)
    (hrun : Run transitionStep anyStep a₀ ls a) : a.values.values.Identified :=
  hrun.invariant (fun a ↦ a.values.values.Identified) (identified_of_created hcreated)
    fun _ _ _ ha _ hstep ↦ identified_of_step ha hstep

/-- An identity of an earlier version that is no longer in use is not used again. -/
theorem not_mem_of_step {ordinal' : IdentityType → Nat} (ha : a.values.Numbered ordinal)
    (hb : b.values.Numbered ordinal') (hle : ∀ type, ordinal type ≤ ordinal' type)
    (hsafe : ∀ type, ordinal' type ≤ maxSafeInteger) {d : Agreement (Contents A P)}
    (hstep : transitionStep b l = some d) {type : IdentityType} {id : String}
    (hid : id ∈ a.values.values.identities type) (hout : id ∉ b.values.values.identities type) :
    id ∉ d.values.values.identities type := by
  intro hin
  rcases transitionStep_identities hstep hb hsafe type with ⟨_, hsame⟩ | ⟨c, last, _, hassigned⟩
  · rw [hsame] at hin
    exact hout hin
  · rcases hassigned.mem hin with hknown | ⟨n, hn, _, rfl⟩
    · exact hout hknown
    · obtain ⟨m, hpos, hm, he⟩ := ha.below type _ hid
      have hnm := numbered_injective type.kind (by omega) hpos he
      have := hle type
      omega

/-- A transition of a version refuses a candidate that selects an identity it does not have. -/
theorem transitionStep_eq_none {candidate : Candidate A P}
    (hcandidate : l.candidate = some candidate) {type : IdentityType} {id : String}
    (hselected : some id ∈ candidate.wanted type)
    (hout : id ∉ b.values.values.identities type) : transitionStep b l = none := by
  cases hstep : transitionStep b l with
  | none => rfl
  | some d =>
    obtain ⟨values, htransitions, _⟩ := transitionStep_eq_some hstep
    cases htransitions with
    | unmapped hnone =>
      rw [hnone] at hcandidate
      cases hcandidate
    | mapped hc hresolved =>
      obtain rfl := Option.some.inj (hc.symm.trans hcandidate)
      obtain ⟨last, hassigned⟩ := hresolved.materialised.identities type
      exact absurd (hassigned.mem_known hselected) hout

/-- An identity a transition allocates is none that was in use in an earlier version. -/
theorem not_mem_of_allocates {ordinal' : IdentityType → Nat} (ha : a.values.Numbered ordinal)
    (hb : b.values.Numbered ordinal') (hle : ∀ type, ordinal type ≤ ordinal' type)
    (hsafe : ∀ type, ordinal' type ≤ maxSafeInteger) {d : Agreement (Contents A P)}
    (hstep : transitionStep b l = some d) {type : IdentityType} {id : String}
    (hallocates : l.Allocates d type id) : id ∉ a.values.values.identities type := by
  obtain ⟨candidate, hcandidate, hfresh⟩ := hallocates
  rcases transitionStep_identities hstep hb hsafe type with ⟨hnone, _⟩ | ⟨c, last, hc, hassigned⟩
  · rw [hnone] at hcandidate
    cases hcandidate
  · obtain rfl := Option.some.inj (hc.symm.trans hcandidate)
    exact hassigned.not_mem ((ha.below type).mono (hle type)) hfresh

/-- An identity that is dropped stays out of every later version. -/
theorem not_mem_of_run {e : Agreement (Contents A P)} {ls'' : List (TransitionCall A P)}
    (hcreated : createContents definitionCode identifiers c = .ok a₀.values)
    (ha : Run transitionStep anyStep a₀ ls a) (hb : Run transitionStep anyStep a ls' b)
    (he : Run transitionStep anyStep b ls'' e) {type : IdentityType} {id : String}
    (hid : id ∈ a.values.values.identities type) (hout : id ∉ b.values.values.identities type) :
    (∀ type, allocated c (ls ++ ls' ++ ls'') type ≤ maxSafeInteger) →
      id ∉ e.values.values.identities type := by
  induction he with
  | nil => exact fun _ ↦ hout
  | @snoc ls'' e e' l he _ hstep ih =>
    intro hfew
    have hfew' : ∀ type, allocated c (ls ++ ls' ++ ls'') type ≤ maxSafeInteger := by
      intro type
      have hlast := allocated_le_append c (ls ++ ls' ++ ls'') [l] type
      rw [List.append_assoc (ls ++ ls')] at hlast
      exact hlast.trans (hfew type)
    have hle : ∀ type, allocated c ls type ≤ allocated c (ls ++ ls' ++ ls'') type := by
      intro type
      rw [List.append_assoc]
      exact allocated_le_append c ls (ls' ++ ls'') type
    have hnumbered := numbered_of_run hcreated ha fun type ↦ (hle type).trans (hfew' type)
    have hnumbered' := numbered_of_run hcreated ((ha.append hb).append he) hfew'
    exact not_mem_of_step hnumbered hnumbered' hle hfew' hstep hid (ih hfew')

/-- In every version of an agreement the identities of a type differ, and every line item refers
to exactly one entry. A transition refuses to select an identity that is not in use, and one it
allocates was not in use in any earlier version, as long as ordinals are exact. So an identity
that is dropped never returns. -/
theorem identities_never_reused
    (hcreated : createContents definitionCode identifiers c = .ok a₀.values)
    (ha : Run transitionStep anyStep a₀ ls a) (hb : Run transitionStep anyStep a ls' b) :
    b.values.values.Identified ∧
    (∀ l : TransitionCall A P, ∀ candidate ∈ l.candidate, ∀ type id,
      some id ∈ candidate.wanted type → id ∉ b.values.values.identities type →
      transitionStep b l = none) ∧
    (∀ l d, transitionStep b l = some d →
      (∀ type, allocated c (ls ++ ls' ++ [l]) type ≤ maxSafeInteger) →
      ∀ type id, l.Allocates d type id → id ∉ a.values.values.identities type) ∧
    (∀ ls'' e, Run transitionStep anyStep b ls'' e →
      (∀ type, allocated c (ls ++ ls' ++ ls'') type ≤ maxSafeInteger) →
      ∀ type id, id ∈ a.values.values.identities type → id ∉ b.values.values.identities type →
      id ∉ e.values.values.identities type) := by
  refine ⟨identified_of_run hcreated (ha.append hb), ?_, ?_, ?_⟩
  · intro l candidate hcandidate type id hselected hout
    exact transitionStep_eq_none hcandidate hselected hout
  · intro l d hstep hfew type id hallocates
    have hfew' : ∀ type, allocated c (ls ++ ls') type ≤ maxSafeInteger := fun type ↦
      (allocated_le_append c (ls ++ ls') [l] type).trans (hfew type)
    have hle : ∀ type, allocated c ls type ≤ allocated c (ls ++ ls') type :=
      allocated_le_append c ls ls'
    exact not_mem_of_allocates
      (numbered_of_run hcreated ha fun type ↦ (hle type).trans (hfew' type))
      (numbered_of_run hcreated (ha.append hb) hfew') hle hfew' hstep hallocates
  · intro ls'' e he hfew type id hid hout
    exact not_mem_of_run hcreated ha hb he hid hout hfew

end

/-! ### An agreement whose action is replaced -/

/-- A revision of the agreement, under a mapping to one action: the one selected, or a new one. -/
def uplandRevised (revisedAt : String) (selected : Option String) : TransitionCall Unit Unit :=
  ⟨"upland", "revised", revisedAt, some (uplandCandidate none none selected), none⟩

/-- The first action of an agreement is replaced twice, and cannot be selected then. -/
theorem identities_never_reused_replaced : ∃ a b,
    exec transitionStep uplandAgreement [uplandRevised "t1" none] = some a ∧
    exec transitionStep a [uplandRevised "t2" none] = some b ∧
    "action:1" ∉ b.values.values.identities .actions ∧
    transitionStep a (uplandRevised "t2" (some "action:1")) = none := by
  refine ⟨_, _, rfl, rfl, ?_⟩
  have hcreated : createContents "upland" [] (uplandCandidate (some "2025-01-01")
      (some "2025-12-31") none) = .ok uplandAgreement.values := rfl
  have hreplaced : Run transitionStep anyStep uplandAgreement [uplandRevised "t1" none] _ :=
    Run.of_exec rfl
  obtain ⟨_, hselect, _, hdropped⟩ := identities_never_reused hcreated .nil hreplaced
  refine ⟨hdropped [uplandRevised "t2" none] _ (Run.of_exec rfl) ?_ .actions "action:1"
    (by decide) (by decide), hselect _ _ rfl .actions "action:1" (by decide) (by decide)⟩
  intro type
  cases type <;> decide

end FgGas.Agreements
