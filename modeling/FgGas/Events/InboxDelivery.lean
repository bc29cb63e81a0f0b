import Mathlib.Data.List.Perm.Basic
import FgGas.Machine.Run
import FgGas.Events.Row

/-!
# Storing a delivered message once

`saveInboxMessageUseCase` under concurrent deliveries
(`src/events/use-cases/save-inbox-message.use-case.js`, `src/common/sqs-subscriber.js`):
the check for an existing row and the insert are two separate operations, and the index on
`messageId` is not unique (`migrations/20251114120000-init.js`). The check runs on whatever
member the client reads from, which in production is a secondary
(`src/common/mongo-client.js`) and may lack the latest inserts. Rows outlive the queue's
longest redelivery (`src/common/config.js`), so deletions are left out.
-/

namespace FgGas.Events

open Machine

/-- `message.data`, the fields an ordering key is made of. -/
structure MessageData where
  clientRef : Option String
  grantCode : Option String
  code : Option String
  caseRef : Option String
  workflowCode : Option String
  deriving DecidableEq, Repr

/-- A delivered message. -/
structure Message (P : Type) where
  id : String
  data : Option MessageData
  event : P
  deriving DecidableEq, Repr

/-- JavaScript's truth of an optional string. -/
def truthy (s : Option String) : Bool := s.any (· ≠ "")

/-- An optional string in a template literal. -/
def interpolated (s : Option String) : String := s.getD "undefined"

/-- `getMessageGroupId(null, data)`. -/
def getMessageGroupId (data : MessageData) : Option String :=
  if truthy data.clientRef && truthy data.grantCode then
    some s!"{interpolated data.clientRef}-{interpolated data.grantCode}"
  else if truthy data.clientRef && truthy data.code then
    some s!"{interpolated data.clientRef}-{interpolated data.code}"
  else if truthy data.caseRef then
    some s!"{interpolated data.caseRef}-{interpolated data.workflowCode}"
  else if truthy data.grantCode then data.grantCode
  else none

/-- `segregationRef ?? getSegregationRef(message)`; `none` where reading `data` throws. -/
def orderingKey {P : Type} (message : Message P) (segregationRef : Option String) :
    Option (Option String) :=
  match segregationRef with
  | some ref => some (some ref)
  | none => message.data.map getMessageGroupId

/-- A stored inbox document with the id it is looked up by. -/
structure InboxRow (P : Type) where
  messageId : String
  doc : Row P
  deriving DecidableEq, Repr

variable {P : Type}

/-- The row a message becomes; `none` where the key or the model's schema throws. -/
def InboxRow.of (message : Message P) (segregationRef : Option String) : Option (InboxRow P) :=
  (orderingKey message segregationRef).bind fun key ↦
    if validSegregationRef key then some ⟨message.id, Row.inserted .inbox message.event key⟩
    else none

/-- `findByMessageId` on a list of rows. -/
def findByMessageId (rows : List (InboxRow P)) (messageId : String) : Option (InboxRow P) :=
  rows.find? fun row ↦ row.messageId = messageId

/-- The stored rows, in the order of their inserts, and the rows of the deliveries that
have checked and not inserted yet. -/
structure Deliveries (P : Type) where
  rows : List (InboxRow P)
  checked : List (InboxRow P)
  deriving DecidableEq, Repr

/-- `check`: a delivery looks its message up on a member that has the first `shown` rows.
`insert` and `lose`: the `i`-th checked delivery inserts its row, or ends before it does. -/
inductive DeliveryLabel (P : Type)
  | check (message : Message P) (segregationRef : Option String) (shown : Nat)
  | insert (i : Nat)
  | lose (i : Nat)
  deriving DecidableEq, Repr

/-- One step of the deliveries. -/
def deliveryStep (s : Deliveries P) : DeliveryLabel P → Option (Deliveries P)
  | .check message ref shown =>
      match findByMessageId (s.rows.take shown) message.id with
      -- the message has already been stored
      | some _ => some s
      | none =>
          match InboxRow.of message ref with
          | some row => some { s with checked := row :: s.checked }
          | none => some s
  | .insert i => s.checked[i]?.map fun row ↦
      { rows := s.rows ++ [row], checked := s.checked.eraseIdx i }
  | .lose i => s.checked[i]?.map fun _ ↦ { s with checked := s.checked.eraseIdx i }

/-- The rows of an id. -/
def withId (messageId : String) (rows : List (InboxRow P)) : List (InboxRow P) :=
  rows.filter fun row ↦ row.messageId = messageId

/-- A check sees every stored row of its id, while no other delivery of the id is between
its check and its insert. -/
def checksAlone (s : Deliveries P) : DeliveryLabel P → Prop
  | .check message _ shown =>
      withId message.id (s.rows.drop shown) = [] ∧ withId message.id s.checked = []
  | _ => True

instance [DecidableEq P] (s : Deliveries P) (l : DeliveryLabel P) :
    Decidable (checksAlone s l) := by
  cases l <;> unfold checksAlone <;> infer_instance

/-- An id has one row, stored or about to be. -/
def OneEach (s : Deliveries P) : Prop :=
  ∀ messageId, (withId messageId s.rows).length + (withId messageId s.checked).length ≤ 1

theorem InboxRow.of_messageId {message : Message P} {ref : Option String} {row : InboxRow P}
    (h : InboxRow.of message ref = some row) : row.messageId = message.id := by
  obtain ⟨key, _, h⟩ := Option.bind_eq_some_iff.mp h
  split at h
  · rw [← Option.some.inj h]
  · cases h

/-- A lookup that finds nothing on a member with every row of the id: there is none. -/
theorem withId_nil_of_find {rows : List (InboxRow P)} {messageId : String} {shown : Nat}
    (hfind : findByMessageId (rows.take shown) messageId = none)
    (hrest : withId messageId (rows.drop shown) = []) : withId messageId rows = [] := by
  have hshown : withId messageId (rows.take shown) = [] := by
    rw [withId, List.filter_eq_nil_iff]
    exact List.find?_eq_none.mp hfind
  have hsplit := List.filter_append (p := fun row : InboxRow P ↦ row.messageId = messageId)
    (rows.take shown) (rows.drop shown)
  rw [List.take_append_drop] at hsplit
  rw [withId, hsplit]
  exact List.append_eq_nil_iff.mpr ⟨hshown, hrest⟩

/-- Taking one row out of a list takes it out of its id's rows. -/
theorem length_withId_eraseIdx (messageId : String) {rows : List (InboxRow P)} {i : Nat}
    {row : InboxRow P} (h : rows[i]? = some row) :
    (withId messageId (rows.eraseIdx i)).length + (withId messageId [row]).length =
      (withId messageId rows).length := by
  obtain ⟨hi, rfl⟩ := List.getElem?_eq_some_iff.mp h
  have hperm : rows.Perm (rows[i] :: rows.eraseIdx i) := (List.getElem_cons_eraseIdx_perm hi).symm
  have hlen := (hperm.filter fun row ↦ row.messageId = messageId).length_eq
  rw [← List.singleton_append, List.filter_append, List.length_append] at hlen
  rw [withId, withId, withId, hlen, Nat.add_comm]

/-- Every step, its check alone, keeps one row to an id. -/
theorem deliveryStep_oneEach {s s' : Deliveries P} {l : DeliveryLabel P} (hs : OneEach s)
    (hok : checksAlone s l) (h : deliveryStep s l = some s') : OneEach s' := by
  cases l with
  | check message ref shown =>
    simp only [deliveryStep] at h
    split at h
    · rw [← Option.some.inj h]
      exact hs
    · next hfind =>
      split at h
      · next row hrow =>
        obtain rfl := Option.some.inj h
        intro messageId
        by_cases hid : message.id = messageId
        · -- nothing stored and nothing checked for this id before
          subst hid
          have hrows := withId_nil_of_find hfind hok.1
          have hcons : withId message.id (row :: s.checked) = [row] := by
            rw [withId, List.filter_cons_of_pos (by simp [InboxRow.of_messageId hrow])]
            exact congrArg (row :: ·) hok.2
          rw [hrows, hcons]
          exact Nat.le_refl _
        · have hskip : withId messageId (row :: s.checked) = withId messageId s.checked :=
            List.filter_cons_of_neg (by simp [InboxRow.of_messageId hrow, hid])
          rw [hskip]
          exact hs messageId
      · rw [← Option.some.inj h]
        exact hs
  | insert i =>
    obtain ⟨row, hrow, rfl⟩ := Option.map_eq_some_iff.mp h
    intro messageId
    have hlen := length_withId_eraseIdx messageId hrow
    have hsum : (withId messageId (s.rows ++ [row])).length =
        (withId messageId s.rows).length + (withId messageId [row]).length := by
      rw [withId, List.filter_append, List.length_append]
      rfl
    have hone := hs messageId
    show (withId messageId (s.rows ++ [row])).length +
      (withId messageId (s.checked.eraseIdx i)).length ≤ 1
    omega
  | lose i =>
    obtain ⟨row, hrow, rfl⟩ := Option.map_eq_some_iff.mp h
    intro messageId
    have hlen := length_withId_eraseIdx messageId hrow
    have hone := hs messageId
    show (withId messageId s.rows).length + (withId messageId (s.checked.eraseIdx i)).length ≤ 1
    omega

/-- When every check sees the stored rows of its id and runs alone for it, an id is stored
at most once. -/
theorem stored_at_most_once {ls : List (DeliveryLabel P)} {s : Deliveries P}
    (h : Run deliveryStep checksAlone ⟨[], []⟩ ls s) (messageId : String) :
    (withId messageId s.rows).length ≤ 1 := by
  have hone : OneEach s := h.invariant OneEach (fun _ ↦ Nat.zero_le _)
    fun _ _ _ hs hok hst ↦ deliveryStep_oneEach hs hok hst
  exact Nat.le_trans (Nat.le_add_right _ _) (hone messageId)

/-- A message for one grant. -/
def grantMessage : Message Unit := ⟨"m-1", some ⟨some "c-1", some "g-1", none, none, none⟩, ()⟩

/-- A redelivery after the first delivery's insert. -/
theorem stored_at_most_once_redelivered :
    ∃ s, exec deliveryStep ⟨[], []⟩
        [.check grantMessage none 0, .insert 0, .check grantMessage none 1] = some s ∧
      (withId "m-1" s.rows).length ≤ 1 := by
  have hrun : Run deliveryStep checksAlone ⟨[], []⟩
      [.check grantMessage none 0, .insert 0, .check grantMessage none 1] _ :=
    .of_exec_guarded rfl
  exact ⟨_, rfl, stored_at_most_once hrun "m-1"⟩

/-- Two deliveries of one message handled in parallel, both reading an up-to-date copy. -/
theorem stored_twice :
    ∃ s, exec deliveryStep ⟨[], []⟩ [.check grantMessage none 0, .check grantMessage none 0,
        .insert 0, .insert 0] = some s ∧ (withId "m-1" s.rows).length = 2 :=
  ⟨_, rfl, by decide⟩

end FgGas.Events
