import SignedHttp.Log.Entry
import SignedHttp.Message.Basic
import SignedHttp.Verify.Verdict
import SignedHttp.World

/-!
# Handling Messages

A message on its way is handled by several parties in turn: code of the application,
the signer, the transport, and guards that verify it. Each gives a message or a failure,
may change the world, and may log. A guard also tells the application about verdicts
that are not valid.

`Handled.bind` passes a message from one party to the next, and stops at a failure.

## Main definitions

* `Notice`: A verdict that the application is told of.
* `Handled`: What came of handling a message.
-/

namespace SignedHttp

/-- A verdict that the application is told of, with the URL of its message. -/
structure Notice where
  verdict : Verdict
  url : Bytes

/-- What came of handling a message. -/
structure Handled (α : Type) where
  result : Except Failure α
  world : World
  log : Log := []
  notices : List Notice := []

namespace Handled

variable {α β : Type}

/-- A message that is passed on, and nothing else. -/
def pure (a : α) (w : World) : Handled α := ⟨.ok a, w, [], []⟩

/-- Something more is logged. -/
def logging (log : Log) (h : Handled α) : Handled α := { h with log := h.log ++ log }

/-- The message is handled further, unless there was a failure. -/
def bind (h : Handled α) (f : α → World → Handled β) : Handled β :=
  match h.result with
  | .error e => ⟨.error e, h.world, h.log, h.notices⟩
  | .ok a =>
    let next := f a h.world
    { next with log := h.log ++ next.log, notices := h.notices ++ next.notices }

/-- The handling of one party; a failure is logged as that of the party. -/
def reporting (party : Bytes) (h : Handled α) : Handled α :=
  match h.result with
  | .error e => h.logging [.warn (party ++ " failed: " ++ e.text)]
  | .ok _ => h

/-- A message is handled by some parties of one kind, one after the other. -/
def chain (party : Bytes) (steps : List (α → World → Handled α)) (a : α) (w : World) : Handled α :=
  steps.foldl (fun h step => h.bind fun a w => (step a w).reporting party) (pure a w)

end Handled

end SignedHttp
