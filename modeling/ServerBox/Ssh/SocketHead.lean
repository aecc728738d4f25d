import ServerBox.Std.System
import ServerBox.Std.Taking
import Mathlib

/-!
# The first bytes of a socket

`SocketHead` of `src/lib/core/ssh/socks5.dart`, between a socket that delivers chunks whenever it is
not paused and a program that takes pieces of them, and then the rest. A move is a delivery, a turn
of the program, or one of the stream of the rest; the moves come in any order.
-/

namespace ServerBox.Ssh.Socks5

open ServerBox.Std

abbrev Bytes := List UInt8

/-- What the socket delivers. -/
inductive Delivery (Error : Type) where
  | data (chunk : Bytes)
  | error (error : Error)
  | done

inductive Failure (Error : Type) where
  | error (error : Error)
  /-- `SocketException('Socket closed')`. -/
  | closed

/-- What the future of `take` has come to. -/
inductive Taken (Error : Type) where
  | pending
  | piece (bytes : Bytes)
  | failed (failure : Failure Error)

/-- What the controller of `rest` is given. -/
inductive Forwarded (Error : Type) where
  | data (chunk : Bytes)
  | error (error : Error)
  | close

structure Rest (Error : Type) where
  listened : Bool
  /-- By whoever listens. -/
  paused : Bool
  forwarded : List (Forwarded Error)

def Rest.add {Error : Type} (rest : Rest Error) (events : List (Forwarded Error)) : Rest Error :=
  { rest with forwarded := rest.forwarded ++ events }

structure SocketHead (Error : Type) where
  /-- How often the subscription is paused. -/
  pauses : Nat
  buffer : Bytes
  waiting : Bool
  wanted : Nat
  rest : Option (Rest Error)
  error : Option Error
  ended : Bool

namespace SocketHead

variable {Error : Type}

/-- The subscription starts paused. -/
def listening : SocketHead Error := ⟨1, [], false, 0, none, none, false⟩

/-- `_sub.pause`. -/
def pause (head : SocketHead Error) : SocketHead Error := { head with pauses := head.pauses + 1 }

/-- `_sub.resume`: nothing for a subscription that is not paused. -/
def resume (head : SocketHead Error) : SocketHead Error := { head with pauses := head.pauses - 1 }

/-- `_split`. -/
def split (head : SocketHead Error) (count : Nat) : Bytes × SocketHead Error :=
  (head.buffer.take count, { head with buffer := head.buffer.drop count })

/-- `take`; nothing where it throws a `StateError`. -/
def take (head : SocketHead Error) (count : Nat) : Option (SocketHead Error × Taken Error) :=
  if head.waiting = true ∨ head.rest.isSome = true then none
  else if count ≤ head.buffer.length then
    let (bytes, head) := head.split count
    some (head, .piece bytes)
  else match head.error with
    | some error => some (head, .failed (.error error))
    | none =>
        if head.ended = true then some (head, .failed .closed)
        else some ({ head with wanted := count, waiting := true }.resume, .pending)

/-- `rest`; nothing where it throws a `StateError`. -/
def takeRest (head : SocketHead Error) : Option (SocketHead Error) :=
  if head.rest.isSome = true then none
  else some { head with rest := some ⟨false, false, []⟩ }

/-- `rest.onListen`. -/
def onListen (head : SocketHead Error) (rest : Rest Error) : SocketHead Error :=
  let buffered : List (Forwarded Error) :=
    if head.buffer.isEmpty then [] else [.data head.buffer]
  let failed : List (Forwarded Error) := match head.error with
    | some error => [.error error]
    | none => []
  let head := { head with buffer := [] }
  if head.ended = true then
    { head with rest := some (rest.add (buffered ++ failed ++ [.close])) }
  else { head with rest := some (rest.add (buffered ++ failed)) }.resume

/-- `_onData`. -/
def onData (head : SocketHead Error) (chunk : Bytes) :
    SocketHead Error × Option (Taken Error) :=
  match head.rest with
  | some rest => ({ head with rest := some (rest.add [.data chunk]) }, none)
  | none =>
      let head := { head with buffer := head.buffer ++ chunk }
      if head.waiting = false ∨ head.buffer.length < head.wanted then (head, none)
      else
        let (bytes, head) := ({ head with waiting := false }.pause).split head.wanted
        (head, some (.piece bytes))

/-- `_onError`. -/
def onError (head : SocketHead Error) (error : Error) :
    SocketHead Error × Option (Taken Error) :=
  let head := { head with error := some error }
  match head.rest with
  | some rest => ({ head with rest := some (rest.add [.error error]) }, none)
  | none =>
      ({ head with waiting := false },
        if head.waiting = true then some (.failed (.error error)) else none)

/-- `_onDone`. -/
def onDone (head : SocketHead Error) : SocketHead Error × Option (Taken Error) :=
  let head := { head with ended := true }
  match head.rest with
  | some rest => ({ head with rest := some (rest.add [.close]) }, none)
  | none =>
      ({ head with waiting := false },
        if head.waiting = true then some (.failed .closed) else none)

def receive (head : SocketHead Error) : Delivery Error → SocketHead Error × Option (Taken Error)
  | .data chunk => head.onData chunk
  | .error error => head.onError error
  | .done => head.onDone

end SocketHead

/-! ### A program that reads a socket -/

inductive Consumer (Error Message Value : Type) where
  | running (program : Taking UInt8 Message Value)
  | awaiting (next : Bytes → Taking UInt8 Message Value) (future : Taken Error)
  | failed (failure : Failure Error)

/-- The value that a program came to, or that it failed. -/
def Consumer.outcome {Error Message Value : Type} :
    Consumer Error Message Value → Option (Option Value)
  | .running (.give value) => some (some value)
  | .failed _ => some none
  | _ => none

/-- The future that a program awaits is completed, if one is. -/
def Consumer.completed {Error Message Value : Type} (consumer : Consumer Error Message Value)
    (completed : Option (Taken Error)) : Consumer Error Message Value :=
  match consumer, completed with
  | .awaiting next .pending, some future => .awaiting next future
  | consumer, _ => consumer

@[simp] theorem Consumer.completed_none {Error Message Value : Type}
    (consumer : Consumer Error Message Value) : consumer.completed none = consumer := by
  unfold completed
  split
  next isSome => cases isSome
  next => rfl

structure Session (Error Message Value : Type) where
  head : SocketHead Error
  /-- What the socket delivers yet. -/
  coming : List (Delivery Error)
  consumer : Consumer Error Message Value
  taken : List Bytes
  said : List Message

inductive Move where
  | deliver
  | proceed
  | rest
  | listen
  | pause
  | resume
deriving DecidableEq

namespace Session

variable {Error Message Value : Type}

/-- A socket that delivers these chunks and ends. -/
def start (program : Taking UInt8 Message Value) (chunks : List Bytes) :
    Session Error Message Value :=
  ⟨.listening, chunks.map .data ++ [.done], .running program, [], []⟩

/-- The socket delivers, unless it is paused. -/
def deliver (session : Session Error Message Value) : Option (Session Error Message Value) :=
  match session.coming with
  | [] => none
  | delivery :: coming =>
      if session.head.pauses = 0 then
        let (head, completed) := session.head.receive delivery
        some { session with head, coming, consumer := session.consumer.completed completed }
      else none

/-- A turn of the program, up to what it awaits. -/
def proceed (session : Session Error Message Value) : Option (Session Error Message Value) :=
  match session.consumer with
  | .running (.give _) => none
  | .running (.say message next) =>
      some { session with consumer := .running next, said := session.said ++ [message] }
  | .running (.take count next) =>
      (session.head.take count).map fun (head, future) =>
        { session with head, consumer := .awaiting next future }
  | .awaiting _ .pending => none
  | .awaiting next (.piece bytes) =>
      some { session with consumer := .running (next bytes), taken := session.taken ++ [bytes] }
  | .awaiting _ (.failed failure) => some { session with consumer := .failed failure }
  | .failed _ => none

/-- The rest is taken once the program is through, listened to, paused and resumed. -/
def next (session : Session Error Message Value) : Move → Option (Session Error Message Value)
  | .deliver => session.deliver
  | .proceed => session.proceed
  | .rest =>
      if session.consumer.outcome.isSome = true then
        session.head.takeRest.map fun head => { session with head }
      else none
  | .listen =>
      match session.head.rest with
      | some ⟨false, paused, forwarded⟩ =>
          some { session with head := session.head.onListen ⟨true, paused, forwarded⟩ }
      | _ => none
  | .pause =>
      match session.head.rest with
      | some ⟨true, false, forwarded⟩ =>
          some { session with
            head := { session.head with rest := some ⟨true, true, forwarded⟩ }.pause }
      | _ => none
  | .resume =>
      match session.head.rest with
      | some ⟨true, true, forwarded⟩ =>
          some { session with
            head := { session.head with rest := some ⟨true, false, forwarded⟩ }.resume }
      | _ => none

def system (program : Taking UInt8 Message Value) (chunks : List Bytes) :
    System (Session Error Message Value) Move :=
  .ofNext (· = start program chunks) next

end Session

end ServerBox.Ssh.Socks5
