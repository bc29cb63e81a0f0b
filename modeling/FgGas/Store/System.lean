import FgGas.Machine.Run
import FgGas.Store.Program

/-!
# Use cases interleaved on one store

Any number of use cases share a store and take their operations in any order. A
transaction works on the snapshot taken with its first operation. An operation that writes
needs its documents free: not taken by another open transaction, and not changed by a commit
since the snapshot. Where they are not, the transaction can only abort, and its callback
runs again; it may abort at any other point as well. A direct write waits for open
transactions. The writes of a transaction reach the store when it commits, and only then. A commit
is always answered.
-/

namespace FgGas.Store

variable {K S D E N A R T : Type}

/-- An open transaction: its snapshot, what commits have changed since, what it has taken,
its writes so far and the operations left. -/
structure Txn (K S D E A : Type) where
  base : S
  dirty : List K
  held : List K
  write : S → S
  rest : Session K S D E A

/-- Where a use case stands: outside its transactions, in a callback before its first
operation in the session, or in the session. -/
inductive Phase (K S D E N A R : Type) : Type
  | running (program : UseCase K S D E N A R)
  | calling (callback rest : Callback K S D E N A) (next : Except E A → UseCase K S D E N A R)
  | inSession (callback : Callback K S D E N A) (next : Except E A → UseCase K S D E N A R)
      (txn : Txn K S D E A)

/-- A use case at work, with the changes its transactions and its writes between them have
made, each as the states before and after. A callback's direct writes are in the log only. -/
structure Thread (K S D E N A R : Type) where
  phase : Phase K S D E N A R
  own : List (S × S)

/-- The result of a use case that has ended. -/
def Thread.result (th : Thread K S D E N A R) : Option R :=
  match th.phase with
  | .running (.ret result) => some result
  | _ => none

/-- A change in the order of the store's history. -/
structure Change (S T : Type) where
  thread : T
  before : S
  after : S

/-- The store, the states it has had before, who has taken which document, the use cases
and the changes made so far. -/
structure System (K S D E N A R T : Type) where
  db : S
  past : List S
  owner : K → Option T
  threads : T → Thread K S D E N A R
  log : List (Change S T)

/-- What a thread does next: take a value from the world, read the `i`-th latest state, take
the one step its program has, or abort its transaction. -/
inductive Move (D : Type) : Type
  | ask (d : D)
  | look (i : Nat)
  | go
  | abort

/-- The use cases about to start. -/
def System.start (s₀ : S) (program : T → UseCase K S D E N A R) : System K S D E N A R T where
  db := s₀
  past := []
  owner := fun _ ↦ none
  threads := fun t ↦ ⟨.running (program t), []⟩
  log := []

/-- An open transaction learns which documents a commit has changed. -/
def Thread.notice (keys : List K) (th : Thread K S D E N A R) : Thread K S D E N A R :=
  match th.phase with
  | .inSession callback next txn =>
      { th with phase := .inSession callback next { txn with dirty := txn.dirty ++ keys } }
  | _ => th

/-- What a read outside a session sees: the current state, or for one not bound to the
primary any state so far, the latest first. -/
def System.visible (s : System K S D E N A R T) (primary : Bool) (i : Nat) : Option S :=
  if primary then some s.db else (s.db :: s.past)[i]?

section
variable [DecidableEq K] [DecidableEq T]

/-- The thread moves on and the store stays as it is. -/
def System.goto (s : System K S D E N A R T) (t : T) (phase : Phase K S D E N A R) :
    System K S D E N A R T :=
  { s with threads := Function.update s.threads t ⟨phase, (s.threads t).own⟩ }

/-- The thread gives up what it has taken. -/
def System.release (s : System K S D E N A R T) (t : T) : System K S D E N A R T :=
  { s with owner := fun k ↦ if s.owner k = some t then none else s.owner k }

/-- The thread changes the store and moves on. -/
def System.change (s : System K S D E N A R T) (t : T) (keys : List K) (write : S → S)
    (phase : Phase K S D E N A R) (own : List (S × S)) : System K S D E N A R T where
  db := write s.db
  past := s.db :: s.past
  owner := s.owner
  threads := Function.update (fun u ↦ (s.threads u).notice keys) t ⟨phase, own⟩
  log := s.log ++ [⟨t, s.db, write s.db⟩]

/-- One operation of an open transaction; none when it needs a document that is not free. -/
def System.perform (s : System K S D E N A R T) (t : T) (callback : Callback K S D E N A)
    (next : Except E A → UseCase K S D E N A R) (txn : Txn K S D E A) (act : Act K S)
    (rest : Session K S D E A) : Option (System K S D E N A R T) :=
  if ∀ k ∈ act.touch, k ∉ txn.dirty ∧ (s.owner k = none ∨ s.owner k = some t) then
    some { s.goto t (.inSession callback next
        { txn with
          held := txn.held ++ act.touch
          write := act.write ∘ txn.write
          rest := rest }) with
      owner := fun k ↦ if k ∈ act.touch then some t else s.owner k }
  else none

/-- A direct write; none while a transaction has taken one of its documents. -/
def System.direct (s : System K S D E N A R T) (t : T) (act : Act K S)
    (phase : Phase K S D E N A R) (own : List (S × S)) : Option (System K S D E N A R T) :=
  if ∀ k ∈ act.touch, s.owner k = none then some (s.change t act.touch act.write phase own)
  else none

/-- One step of the system. -/
def System.step (s : System K S D E N A R T) : T × Move D → Option (System K S D E N A R T)
  | (t, move) =>
    let own := (s.threads t).own
    match (s.threads t).phase, move with
    | .running (.ask next), .ask d => some (s.goto t (.running (next d)))
    | .running (.look primary next), .look i =>
        (s.visible primary i).map fun seen ↦ s.goto t (.running (next seen))
    | .running (.act act next), .go =>
        s.direct t (act s.db) (.running (next s.db)) (own ++ [(s.db, (act s.db).write s.db)])
    | .running (.withTransaction callback next), .go =>
        some (s.goto t (.calling callback callback next))
    | .calling callback (.ask rest) next, .ask d =>
        some (s.goto t (.calling callback (rest d) next))
    | .calling callback (.look primary rest) next, .look i =>
        (s.visible primary i).map fun seen ↦ s.goto t (.calling callback (rest seen) next)
    | .calling callback (.act act rest) next, .go =>
        s.direct t (act s.db) (.calling callback (rest s.db) next) own
    | .calling _ (.fail error) next, .go => some (s.goto t (.running (next (.error error))))
    | .calling callback (.body _ session) next, .go =>
        -- the snapshot is taken
        some (s.goto t (.inSession callback next ⟨s.db, [], [], id, session⟩))
    | .inSession callback next _, .abort =>
        some ((s.release t).goto t (.calling callback callback next))
    | .inSession callback next txn, .ask d =>
        match txn.rest with
        | .ask rest => some (s.goto t (.inSession callback next { txn with rest := rest d }))
        | _ => none
    | .inSession callback next txn, .go =>
        match txn.rest with
        | .ask _ => none
        | .op act rest =>
            s.perform t callback next txn (act (txn.write txn.base))
              (rest (txn.write txn.base))
        | .done value =>
            some ((s.release t).change t txn.held txn.write (.running (next (.ok value)))
              (own ++ [(s.db, txn.write s.db)]))
        | .fail error => some ((s.release t).goto t (.running (next (.error error))))
    | _, _ => none

/-- What one step of a thread does, with what allows it. -/
inductive Steps (s : System K S D E N A R T) (t : T) : Move D → System K S D E N A R T → Prop
  | ask {next : D → UseCase K S D E N A R} {d : D}
      (hphase : (s.threads t).phase = .running (.ask next)) :
      Steps s t (.ask d) (s.goto t (.running (next d)))
  | look {primary : Bool} {next : S → UseCase K S D E N A R} {i : Nat} {seen : S}
      (hphase : (s.threads t).phase = .running (.look primary next))
      (hseen : s.visible primary i = some seen) :
      Steps s t (.look i) (s.goto t (.running (next seen)))
  | act {act : S → Act K S} {next : S → UseCase K S D E N A R}
      (hphase : (s.threads t).phase = .running (.act act next))
      (hfree : ∀ k ∈ (act s.db).touch, s.owner k = none) :
      Steps s t .go (s.change t (act s.db).touch (act s.db).write (.running (next s.db))
        ((s.threads t).own ++ [(s.db, (act s.db).write s.db)]))
  | call {callback : Callback K S D E N A} {next : Except E A → UseCase K S D E N A R}
      (hphase : (s.threads t).phase = .running (.withTransaction callback next)) :
      Steps s t .go (s.goto t (.calling callback callback next))
  | callbackAsk {callback : Callback K S D E N A} {rest : D → Callback K S D E N A}
      {next : Except E A → UseCase K S D E N A R} {d : D}
      (hphase : (s.threads t).phase = .calling callback (.ask rest) next) :
      Steps s t (.ask d) (s.goto t (.calling callback (rest d) next))
  | callbackLook {callback : Callback K S D E N A} {primary : Bool}
      {rest : S → Callback K S D E N A} {next : Except E A → UseCase K S D E N A R} {i : Nat}
      {seen : S} (hphase : (s.threads t).phase = .calling callback (.look primary rest) next)
      (hseen : s.visible primary i = some seen) :
      Steps s t (.look i) (s.goto t (.calling callback (rest seen) next))
  | callbackAct {callback : Callback K S D E N A} {act : S → Act K S}
      {rest : S → Callback K S D E N A} {next : Except E A → UseCase K S D E N A R}
      (hphase : (s.threads t).phase = .calling callback (.act act rest) next)
      (hfree : ∀ k ∈ (act s.db).touch, s.owner k = none) :
      Steps s t .go (s.change t (act s.db).touch (act s.db).write
        (.calling callback (rest s.db) next) (s.threads t).own)
  | callbackFail {callback : Callback K S D E N A} {error : E}
      {next : Except E A → UseCase K S D E N A R}
      (hphase : (s.threads t).phase = .calling callback (.fail error) next) :
      Steps s t .go (s.goto t (.running (next (.error error))))
  | start {callback : Callback K S D E N A} {note : N} {session : Session K S D E A}
      {next : Except E A → UseCase K S D E N A R}
      (hphase : (s.threads t).phase = .calling callback (.body note session) next) :
      Steps s t .go (s.goto t (.inSession callback next ⟨s.db, [], [], id, session⟩))
  | abort {callback : Callback K S D E N A} {next : Except E A → UseCase K S D E N A R}
      {txn : Txn K S D E A} (hphase : (s.threads t).phase = .inSession callback next txn) :
      Steps s t .abort ((s.release t).goto t (.calling callback callback next))
  | sessionAsk {callback : Callback K S D E N A} {next : Except E A → UseCase K S D E N A R}
      {txn : Txn K S D E A} {rest : D → Session K S D E A} {d : D}
      (hphase : (s.threads t).phase = .inSession callback next txn) (hrest : txn.rest = .ask rest) :
      Steps s t (.ask d) (s.goto t (.inSession callback next { txn with rest := rest d }))
  | perform {callback : Callback K S D E N A} {next : Except E A → UseCase K S D E N A R}
      {txn : Txn K S D E A} {act : S → Act K S} {rest : S → Session K S D E A}
      {owner : K → Option T}
      (hphase : (s.threads t).phase = .inSession callback next txn)
      (hrest : txn.rest = .op act rest)
      (hfree : ∀ k ∈ (act (txn.write txn.base)).touch,
        k ∉ txn.dirty ∧ (s.owner k = none ∨ s.owner k = some t))
      (howner : ∀ k, owner k =
        if k ∈ (act (txn.write txn.base)).touch then some t else s.owner k) :
      Steps s t .go { s.goto t (.inSession callback next
        { txn with
          held := txn.held ++ (act (txn.write txn.base)).touch
          write := (act (txn.write txn.base)).write ∘ txn.write
          rest := rest (txn.write txn.base) }) with owner := owner }
  | commit {callback : Callback K S D E N A} {next : Except E A → UseCase K S D E N A R}
      {txn : Txn K S D E A} {value : A}
      (hphase : (s.threads t).phase = .inSession callback next txn)
      (hrest : txn.rest = .done value) :
      Steps s t .go ((s.release t).change t txn.held txn.write (.running (next (.ok value)))
        ((s.threads t).own ++ [(s.db, txn.write s.db)]))
  | throw {callback : Callback K S D E N A} {next : Except E A → UseCase K S D E N A R}
      {txn : Txn K S D E A} {error : E}
      (hphase : (s.threads t).phase = .inSession callback next txn)
      (hrest : txn.rest = .fail error) :
      Steps s t .go ((s.release t).goto t (.running (next (.error error))))

theorem step_cases {s s' : System K S D E N A R T} {t : T} {move : Move D}
    (h : s.step (t, move) = some s') : Steps s t move s' := by
  unfold System.step System.direct System.perform at h
  dsimp only at h
  split at h
  · obtain rfl := Option.some.inj h
    exact .ask ‹_›
  · obtain ⟨seen, hseen, rfl⟩ := Option.map_eq_some_iff.mp h
    exact .look ‹_› hseen
  · obtain ⟨hfree, h⟩ := Option.ite_none_right_eq_some.mp h
    obtain rfl := Option.some.inj h
    exact .act ‹_› hfree
  · obtain rfl := Option.some.inj h
    exact .call ‹_›
  · obtain rfl := Option.some.inj h
    exact .callbackAsk ‹_›
  · obtain ⟨seen, hseen, rfl⟩ := Option.map_eq_some_iff.mp h
    exact .callbackLook ‹_› hseen
  · obtain ⟨hfree, h⟩ := Option.ite_none_right_eq_some.mp h
    obtain rfl := Option.some.inj h
    exact .callbackAct ‹_› hfree
  · obtain rfl := Option.some.inj h
    exact .callbackFail ‹_›
  · obtain rfl := Option.some.inj h
    exact .start ‹_›
  · obtain rfl := Option.some.inj h
    exact .abort ‹_›
  · split at h
    · obtain rfl := Option.some.inj h
      exact .sessionAsk ‹_› ‹_›
    · cases h
  · split at h
    · cases h
    · obtain ⟨hfree, h⟩ := Option.ite_none_right_eq_some.mp h
      obtain rfl := Option.some.inj h
      exact .perform ‹_› ‹_› hfree fun _ ↦ rfl
    · obtain rfl := Option.some.inj h
      exact .commit ‹_› ‹_›
    · obtain rfl := Option.some.inj h
      exact .throw ‹_› ‹_›
  · cases h

/-- The transaction starts on a state its note allows. -/
def admitted (allow : N → S → Prop) (s : System K S D E N A R T) : T × Move D → Prop
  | (t, .go) =>
      match (s.threads t).phase with
      | .calling _ (.body note _) _ => allow note s.db
      | _ => True
  | _ => True

instance {allow : N → S → Prop} [∀ note s, Decidable (allow note s)]
    (s : System K S D E N A R T) : ∀ l : T × Move D, Decidable (admitted allow s l)
  | (t, .go) =>
    match h : (s.threads t).phase with
    | .calling _ (.body note _) _ => decidable_of_iff (allow note s.db) (by simp [admitted, h])
    | .calling _ (.fail _) _ => .isTrue (by simp [admitted, h])
    | .calling _ (.ask _) _ => .isTrue (by simp [admitted, h])
    | .calling _ (.look _ _) _ => .isTrue (by simp [admitted, h])
    | .calling _ (.act _ _) _ => .isTrue (by simp [admitted, h])
    | .running _ => .isTrue (by simp [admitted, h])
    | .inSession _ _ _ => .isTrue (by simp [admitted, h])
  | (_, .ask _) => .isTrue trivial
  | (_, .look _) => .isTrue trivial
  | (_, .abort) => .isTrue trivial

end

end FgGas.Store
