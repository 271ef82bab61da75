import FCache.Server

/-!
# The Python client

A call of the client runs against the server: each command it sends is one message, and the reply
is checked before the call reads it. A call that raises ends there; what the server has done
remains. A number that does not fit its field and a body that is not there raise in the
libraries the client uses.
-/

namespace FCache

inductive ResponseError where
  | statusError (bodyType : BodyType) (status : Status)
  | bodyTypeError (bodyType : BodyType)
  | disconnected
  deriving DecidableEq

inductive PyError where
  | valueError (msg : String)
  | responseError (e : ResponseError)
  | badNumber
  | noBody
  | badBuffer
  deriving DecidableEq

/-- There is no result when the server does not answer. -/
abbrev Client := ExceptT PyError (StateT Server Option)

namespace Client

def call {α : Type} (m : Client α) (server : Server) : Option (Except PyError α × Server) :=
  (ExceptT.run m).run server

def raiseIf (condition : Bool) (msg : String) : Client Unit :=
  if condition then throw (.valueError msg) else return

def raiseIfFail (rsp : Option Response) (expectedRspBody : BodyType) (allowDuplicate : Bool) :
    Except PyError Response :=
  match rsp with
  | some response =>
    if ¬ (response.status = .ok ∨ allowDuplicate = true ∧ response.status = .duplicate) then
      .error (.responseError (.statusError response.bodyType response.status))
    else if response.bodyType ≠ expectedRspBody then
      .error (.responseError (.bodyTypeError response.bodyType))
    else .ok response
  | none => .error (.responseError .disconnected)

def sendCmd (data : Message) (expectedRspBody : BodyType) (allowDuplicate : Bool := false) :
    Client Response :=
  ExceptT.mk fun server => do
    let (server, rsp) ← Server.machine.step server data
    return (raiseIfFail rsp.decoded expectedRspBody allowDuplicate, server)

/-- An `int32` field of a request. -/
def int32 (x : ℤ) : Client Int32 :=
  if -2 ^ 31 ≤ x ∧ x < 2 ^ 31 then return Int32.ofInt x else throw .badNumber

/-- `flatbuffers.flexbuffers.Loads` of the items of a reply. -/
def loads : FlexBuffer → Client (List FlexScalar)
  | some (.typedVector xs) => return xs
  | _ => throw .badBuffer

variable {α β : Type}

@[simp] theorem call_pure (x : α) (server : Server) :
    call (pure x) server = some (.ok x, server) := rfl

@[simp] theorem call_bind (m : Client α) (f : α → Client β) (server : Server) :
    call (m >>= f) server = (call m server).bind fun r =>
      match r.1 with
      | .ok x => call (f x) r.2
      | .error e => some (.error e, r.2) := by
  unfold call
  rw [ExceptT.run_bind, StateT.run_bind]
  apply congrArg
  funext r
  cases r.1 <;> rfl

theorem call_raiseIf_false (msg : String) (server : Server) :
    call (raiseIf false msg) server = some (.ok (), server) := rfl

theorem call_int32 {x : ℤ} (h : -2 ^ 31 ≤ x ∧ x < 2 ^ 31) (server : Server) :
    call (int32 x) server = some (.ok (Int32.ofInt x), server) := by
  unfold int32
  rw [if_pos h]
  rfl

/-- A command the server answers with one response. -/
theorem call_sendCmd {server server' : Server} {data : Message} {rsp : Response}
    (hstep : Server.machine.step server data = some (server', ⟨[rsp]⟩))
    (expectedRspBody : BodyType) (allowDuplicate : Bool) :
    call (sendCmd data expectedRspBody allowDuplicate) server =
      some (raiseIfFail (some rsp) expectedRspBody allowDuplicate, server') := by
  unfold call sendCmd
  simp only [ExceptT.run_mk, StateT.run, hstep]
  rfl

theorem call_sendCmd_ok {server server' : Server} {data : Message} {rsp : Response}
    (hstep : Server.machine.step server data = some (server', ⟨[rsp]⟩)) (hok : rsp.status = .ok)
    (allowDuplicate : Bool) :
    call (sendCmd data rsp.bodyType allowDuplicate) server = some (.ok rsp, server') := by
  rw [call_sendCmd hstep]
  simp [raiseIfFail, hok]

end Client

end FCache
