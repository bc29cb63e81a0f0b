import Mathlib.Logic.Function.Basic

/-!
# Programs over a transactional document store

What a use case does to the store, one operation at a time. Inside a transaction the
operations see a snapshot with the transaction's own writes (`Session`). The callback of a
transaction may also read and write outside its session before the first operation in it
(`Callback`), and is run again from its start when the transaction aborts. Around the
transactions a use case reads and writes the store directly (`UseCase`).

`S` is the state of the store, `K` names the documents and unique index entries a write
takes, `D` is what a program asks the world for (a clock, a random draw, a remote file),
and `E` what it throws.
-/

namespace FgGas.Store

variable {K S D E N A B R : Type}

/-- What an operation writes: the documents and index entries it takes, and the change. -/
structure Act (K S : Type) where
  touch : List K
  write : S → S

/-- An operation that only reads. -/
def Act.none : Act K S := ⟨[], id⟩

/-- The operations of one transaction. `op act next` performs `act` on the state it sees and
continues with that state, as it was before the operation. -/
inductive Session (K S D E A : Type) : Type
  | done (value : A)
  | fail (error : E)
  | ask (next : D → Session K S D E A)
  | op (act : S → Act K S) (next : S → Session K S D E A)

/-- A transaction's callback: what it does outside its session first, then the session.
The note is what it has computed by then. `look` reads some state committed so far, on the
primary the current one; `act` writes to the current state. -/
inductive Callback (K S D E N A : Type) : Type
  | body (note : N) (session : Session K S D E A)
  | fail (error : E)
  | ask (next : D → Callback K S D E N A)
  | look (primary : Bool) (next : S → Callback K S D E N A)
  | act (act : S → Act K S) (next : S → Callback K S D E N A)

/-- A use case: what it does between its transactions, and the transactions. -/
inductive UseCase (K S D E N A R : Type) : Type
  | ret (result : R)
  | ask (next : D → UseCase K S D E N A R)
  | look (primary : Bool) (next : S → UseCase K S D E N A R)
  | act (act : S → Act K S) (next : S → UseCase K S D E N A R)
  | withTransaction (callback : Callback K S D E N A)
      (next : Except E A → UseCase K S D E N A R)

/-- One session after another. -/
def Session.bind (x : Session K S D E A) (f : A → Session K S D E B) : Session K S D E B :=
  match x with
  | .done value => f value
  | .fail error => .fail error
  | .ask next => .ask fun d ↦ (next d).bind f
  | .op act next => .op act fun s ↦ (next s).bind f

instance : Monad (Session K S D E) where
  pure := .done
  bind := .bind

/-- Read in the session. -/
def Session.read (f : S → A) : Session K S D E A :=
  .op (fun _ ↦ .none) fun s ↦ .done (f s)

/-- Write in the session. -/
def Session.write (touch : List K) (f : S → S) : Session K S D E Unit :=
  .op (fun _ ↦ ⟨touch, f⟩) fun _ ↦ .done ()

/-- Throw what a check returns, or go on. -/
def Session.orThrow : Except E A → Session K S D E A
  | .ok value => .done value
  | .error error => .fail error

/-- Insert in the session: a unique key in use throws, and takes nothing. -/
def Session.insert (taken : S → Option E) (touch : List K) (f : S → S) :
    Session K S D E Unit :=
  .op (fun s ↦ if (taken s).isSome then .none else ⟨touch, f⟩) fun s ↦
    match taken s with
    | some error => .fail error
    | none => .done ()

/-- Ask the world for a value. -/
def Session.outside : Session K S D E D := .ask .done

end FgGas.Store
