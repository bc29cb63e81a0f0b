import FgGas.Machine.Run
import FgGas.Events.Writers

/-!
# Pollers and operators on one row

The life of one inbox or outbox row under any number of pollers and operators
(`src/events/subscribers/inbox.subscriber.js`, `outbox.subscriber.js`): each repository
write is one step on the row. A handler runs between the step that claimed the row for it
and the fenced write of its result, holding the copy it was given; a poller that found a
row without an ordering key holds it until its `deadLetterEvent`. What other rows do never
reaches this one, so they are not part of the state.
-/

namespace FgGas.Events

variable {P : Type}

/-- A running handler: the poll's token, its copy of the row, and whether its claim has
been swept or taken over since. -/
structure Handler (P : Type) where
  token : Token
  entry : Entry P
  lost : Bool
  deriving DecidableEq, Repr

/-- The row, the handlers running on it, and how many pollers are about to dead-letter it. -/
structure Life (P : Type) where
  row : Row P
  handlers : List (Handler P)
  found : Nat
  deriving DecidableEq, Repr

/-- What became of a write: done and answered, done but the answer lost, or not done. -/
inductive Reply
  | answered
  | unanswered
  | refused
  deriving DecidableEq, Repr

/-- The steps. Handlers are addressed by their place in the list. -/
inductive Label (P : Type)
  | claim (token : Token) (segregationRef : String) (now : Nat)
  | complete (i now : Nat) (reply : Reply)
  | fail (i : Nat) (error : Option Failure) (now : Nat) (reply : Reply)
  | crash (i : Nat)
  | expire (now : Nat)
  | dead
  | failed
  | resubmitted
  | redrive (operator : Option String) (now : Nat)
  | purge (operator : Option String) (reasonCode : String) (note : Option String) (now : Nat)
  | edit (edit : Edit P) (now : Nat)
  | find (lockIds : List String)
  | deadLetter
  deriving DecidableEq, Repr

/-- The token of a claim. -/
def Label.token : Label P → Option Token
  | .claim token _ _ => some token
  | _ => none

/-- The label is the end of the handler at place `i`. -/
def Label.finishes (i : Nat) : Label P → Prop
  | .complete j _ _ => j = i
  | .fail j _ _ _ => j = i
  | _ => False

/-- The steps pollers take, as opposed to operators. -/
def Label.byPoller : Label P → Bool
  | .redrive .. => false
  | .purge .. => false
  | .edit .. => false
  | _ => true

/-- A handler whose claim was swept or taken over. -/
def Handler.lose (h : Handler P) : Handler P := { h with lost := true }

/-- The sweeps take the claim from every handler of the row. -/
def Life.swept (s : Life P) (row : Row P) : Life P :=
  { s with row := row, handlers := s.handlers.map Handler.lose }

/-- The row after the fenced write of `entry`, which a lost claim leaves as it was. -/
def Life.afterUpdate (box : Box) (s : Life P) (entry : Entry P) (token : Token) : Row P :=
  (update box entry token s.row).getD s.row

/-- One step. A write whose filter does not match is no step, except a handler's: it ends
all the same. -/
def step (box : Box) (cfg : Config) (s : Life P) : Label P → Option (Life P)
  | .claim token ref now =>
      -- `processWithLock` runs for a truthy segregation reference only
      if ref = "" then none
      else (claimEvents cfg token ref now s.row).map fun r ↦
        { s with
          row := r
          handlers := ⟨token, Entry.fromDocument box r, false⟩ :: s.handlers.map Handler.lose }
  | .complete i now reply =>
      s.handlers[i]?.map fun h ↦
        let entry := h.entry.markAsComplete cfg now
        match reply with
        | .answered =>
            { s with
              row := s.afterUpdate box entry h.token
              handlers := s.handlers.eraseIdx i }
        -- the throw leads into the `catch`, with the entry as already marked
        | .unanswered =>
            { s with
              row := s.afterUpdate box entry h.token
              handlers := s.handlers.set i { h with entry := entry } }
        | .refused => { s with handlers := s.handlers.set i { h with entry := entry } }
  | .fail i error now reply =>
      s.handlers[i]?.map fun h ↦
        let entry := h.entry.markAsFailed box error now
        match reply with
        | .refused => { s with handlers := s.handlers.eraseIdx i }
        | _ =>
            { s with
              row := s.afterUpdate box entry h.token
              handlers := s.handlers.eraseIdx i }
  | .crash i =>
      s.handlers[i]?.map fun _ ↦ { s with handlers := s.handlers.eraseIdx i }
  | .expire now => (processExpiredEvents now s.row).map s.swept
  | .dead => (updateDeadEvents cfg s.row).map s.swept
  | .failed => (updateFailedEvents s.row).map fun r ↦ { s with row := r }
  | .resubmitted => (updateResubmittedEvents s.row).map fun r ↦ { s with row := r }
  | .redrive operator now => (redriveById operator now s.row).map fun r ↦ { s with row := r }
  | .purge operator reasonCode note now =>
      (purgeById cfg operator reasonCode note now s.row).map fun r ↦ { s with row := r }
  | .edit edit now => (editPayloadById edit now s.row).map fun r ↦ { s with row := r }
  | .find lockIds =>
      -- `getNextAvailable` dead-letters what it finds without a segregation reference
      if findNextMessage cfg lockIds s.row && !validSegregationRef s.row.segregationRef then
        some { s with found := s.found + 1 }
      else none
  | .deadLetter =>
      if 0 < s.found then
        some { s with row := deadLetterEvent s.row, found := s.found - 1 }
      else none

/-- A row just inserted, nobody at work on it. -/
def Life.inserted (box : Box) (event : P) (segregationRef : Option String) : Life P :=
  ⟨Row.inserted box event segregationRef, [], 0⟩

/-! ### What one step can do to the row -/

/-- The fenced write of a handler's result, or nothing. -/
theorem afterUpdate_cases (box : Box) (s : Life P) (entry : Entry P) (token : Token) :
    (s.row.claimedBy = some token ∧ s.afterUpdate box entry token = entry.setOn box s.row) ∨
      (s.row.claimedBy ≠ some token ∧ s.afterUpdate box entry token = s.row) := by
  by_cases h : s.row.claimedBy = some token
  · exact .inl ⟨h, by simp only [Life.afterUpdate, update, h, if_true, Option.getD_some]⟩
  · exact .inr ⟨h, by simp only [Life.afterUpdate, update_eq_none h, Option.getD_none]⟩

/-- A handler's step names a handler and leaves the others where they are; the row is
written through the fence, or not at all. -/
structure HandlerStep (box : Box) (s s' : Life P) (h : Handler P) (i : Nat)
    (entry : Entry P) : Prop where
  running : s.handlers[i]? = some h
  row : s'.row = s.row ∨ s'.row = s.afterUpdate box entry h.token
  handlers : s'.handlers = s.handlers.eraseIdx i ∨
    s'.handlers = s.handlers.set i { h with entry := entry }
  found : s'.found = s.found

theorem complete_step {box : Box} {cfg : Config} {s s' : Life P} {i now : Nat} {reply : Reply}
    (h : step box cfg s (.complete i now reply) = some s') :
    ∃ k, HandlerStep box s s' k i (k.entry.markAsComplete cfg now) := by
  obtain ⟨k, hk, rfl⟩ := Option.map_eq_some_iff.mp h
  refine ⟨k, hk, ?_, ?_, ?_⟩ <;> cases reply <;> simp

theorem fail_step {box : Box} {cfg : Config} {s s' : Life P} {i now : Nat}
    {error : Option Failure} {reply : Reply}
    (h : step box cfg s (.fail i error now reply) = some s') :
    ∃ k, HandlerStep box s s' k i (k.entry.markAsFailed box error now) := by
  obtain ⟨k, hk, rfl⟩ := Option.map_eq_some_iff.mp h
  refine ⟨k, hk, ?_, ?_, ?_⟩ <;> cases reply <;> simp

theorem crash_step {box : Box} {cfg : Config} {s s' : Life P} {i : Nat}
    (h : step box cfg s (.crash i) = some s') :
    ∃ k, HandlerStep box s s' k i k.entry := by
  obtain ⟨k, hk, rfl⟩ := Option.map_eq_some_iff.mp h
  exact ⟨k, hk, .inl rfl, .inl rfl, rfl⟩

theorem claim_step {box : Box} {cfg : Config} {s s' : Life P} {token : Token} {ref : String}
    {now : Nat} (h : step box cfg s (.claim token ref now) = some s') :
    ref ≠ "" ∧ ∃ r, claimEvents cfg token ref now s.row = some r ∧
      s' = ⟨r, ⟨token, Entry.fromDocument box r, false⟩ :: s.handlers.map Handler.lose,
        s.found⟩ := by
  simp only [step] at h
  split at h
  · cases h
  · next hr =>
    obtain ⟨r, hc, rfl⟩ := Option.map_eq_some_iff.mp h
    exact ⟨hr, r, hc, rfl⟩

theorem find_step {box : Box} {cfg : Config} {s s' : Life P} {lockIds : List String}
    (h : step box cfg s (.find lockIds) = some s') :
    validSegregationRef s.row.segregationRef = false ∧ s' = { s with found := s.found + 1 } := by
  simp only [step] at h
  split at h
  · next hc =>
    simp only [Bool.and_eq_true, Bool.not_eq_true'] at hc
    exact ⟨hc.2, (Option.some.inj h).symm⟩
  · cases h

theorem deadLetter_step {box : Box} {cfg : Config} {s s' : Life P}
    (h : step box cfg s .deadLetter = some s') :
    0 < s.found ∧ s' = { s with row := deadLetterEvent s.row, found := s.found - 1 } := by
  simp only [step] at h
  split at h
  · next hc => exact ⟨hc, (Option.some.inj h).symm⟩
  · cases h

/-- The handlers after a handler's step are handlers from before, one perhaps with its
copy marked. -/
theorem HandlerStep.mem {box : Box} {s s' : Life P} {k : Handler P} {i : Nat}
    {entry : Entry P} (h : HandlerStep box s s' k i entry) {x : Handler P}
    (hx : x ∈ s'.handlers) : x ∈ s.handlers ∨ x = { k with entry := entry } := by
  rcases h.handlers with he | he
  · rw [he] at hx
    exact .inl (List.mem_of_mem_eraseIdx hx)
  · rw [he] at hx
    exact List.mem_or_eq_of_mem_set hx

theorem HandlerStep.mem_running {box : Box} {s s' : Life P} {k : Handler P} {i : Nat}
    {entry : Entry P} (h : HandlerStep box s s' k i entry) : k ∈ s.handlers :=
  List.mem_of_getElem? h.running

/-- The tokens of the running handlers stay in place, one perhaps dropped. -/
theorem HandlerStep.tokens_sublist {box : Box} {s s' : Life P} {k : Handler P} {i : Nat}
    {entry : Entry P} (h : HandlerStep box s s' k i entry) :
    (s'.handlers.map Handler.token).Sublist (s.handlers.map Handler.token) := by
  rcases h.handlers with he | he
  · rw [he]
    exact (List.eraseIdx_sublist s.handlers i).map _
  · obtain ⟨hi, hk⟩ := List.getElem?_eq_some_iff.mp h.running
    have hi' : i < (s.handlers.map Handler.token).length := by
      rw [List.length_map]
      exact hi
    have hget : (s.handlers.map Handler.token)[i] = k.token := by
      rw [List.getElem_map, hk]
    rw [he, List.map_set, ← hget, List.set_getElem_self]

end FgGas.Events
