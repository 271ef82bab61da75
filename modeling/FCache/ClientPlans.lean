import FCache.ClientRules

/-!
# Calls by the command they send

A call that is taken apart decides by itself, or sends one command and makes its result of the
reply. What is sent and how the reply is read does not depend on the server.
-/

namespace FCache.Client

variable {α β : Type}

/-- The call sends nothing. -/
def Local (m : Client α) : Prop := ∃ r, ∀ server, call m server = some (r, server)

/-- What a call gives that sends nothing. -/
def result (m : Client α) : Except PyError α :=
  match call m {} with
  | some (r, _) => r
  | none => .error (.responseError .disconnected)

namespace Local

variable {m : Client α} {f : α → Client β}

theorem call_eq (h : Local m) (server : Server) : call m server = some (result m, server) := by
  obtain ⟨r, hr⟩ := h
  unfold result
  rw [hr, hr]

theorem pure (x : α) : Local (pure x) := ⟨.ok x, fun _ => rfl⟩

theorem throw (e : PyError) : Local (throw e : Client α) := ⟨.error e, fun _ => rfl⟩

theorem ofExcept (r : Except PyError α) : Local (MonadExcept.ofExcept r) := by
  cases r with
  | ok x => exact pure x
  | error e => exact throw e

theorem raiseIf (condition : Bool) (msg : String) : Local (raiseIf condition msg) := by
  cases condition with
  | true => exact throw (.valueError msg)
  | false => exact pure ()

theorem call_bind_ok (h : Local m) {x : α} (hx : result m = .ok x) (server : Server) :
    call (m >>= f) server = call (f x) server := by
  rw [call_bind, h.call_eq, hx]
  rfl

theorem call_bind_error (h : Local m) {e : PyError} (he : result m = .error e)
    (server : Server) : call (m >>= f) server = some (.error e, server) := by
  rw [call_bind, h.call_eq, he]
  rfl

theorem bind (h : Local m) (hf : ∀ x, Local (f x)) : Local (m >>= f) := by
  cases hm : result m with
  | ok x => exact ⟨result (f x), fun server => (h.call_bind_ok hm server).trans ((hf x).call_eq _)⟩
  | error e => exact ⟨.error e, h.call_bind_error hm⟩

theorem map (g : α → β) (h : Local m) : Local (g <$> m) := by
  rw [map_eq_pure_bind]
  exact h.bind fun x => pure (g x)

end Local

inductive Plan (m : Client α) where
  | here (h : Local m)
  | command (msg : Message) (read : Option Response → Except PyError α)
      (call_eq : ∀ server, call m server =
        (Server.machine.step server msg).map fun s => (read s.2.decoded, s.1))

namespace Plan

variable {m : Client α} {f : α → Client β}

def of_eq {m' : Client α} (h : m = m') (p : Plan m') : Plan m := h ▸ p

def ite {c : Prop} [Decidable c] {m' : Client α} (p : Plan m) (p' : Plan m') :
    Plan (if c then m else m') :=
  if h : c then .of_eq (if_pos h) p else .of_eq (if_neg h) p'

/-- What is done before the command. -/
def bind (h : Local m) (p : ∀ x, Plan (f x)) : Plan (m >>= f) :=
  match hm : result m with
  | .ok x =>
    match p x with
    | .here hf => .here ⟨result (f x), fun server =>
      (h.call_bind_ok hm server).trans (hf.call_eq server)⟩
    | .command msg read call_eq => .command msg read fun server =>
      (h.call_bind_ok hm server).trans (call_eq server)
  | .error e => .here ⟨.error e, h.call_bind_error hm⟩

def sendCmd (msg : Message) (expectedRspBody : BodyType) (allowDuplicate : Bool) :
    Plan (sendCmd msg expectedRspBody allowDuplicate) :=
  .command msg (fun rsp => raiseIfFail rsp expectedRspBody allowDuplicate)
    (call_sendCmd_eq msg expectedRspBody allowDuplicate)

/-- A call that makes its result of that of another. -/
def post {m' : Client β} (g : Except PyError α → Except PyError β)
    (h : ∀ server, call m' server = (call m server).map fun r => (g r.1, r.2)) :
    Plan m → Plan m'
  | .here hm => .here ⟨g (result m), fun server => by rw [h, hm.call_eq, Option.map_some]⟩
  | .command msg read call_eq => .command msg (fun rsp => g (read rsp)) fun server => by
    rw [h, call_eq, Option.map_map]
    rfl

def map (g : α → β) (p : Plan m) : Plan (g <$> m) := p.post (Except.map g) (call_map g m)

/-- What is done after the command. -/
def andThen (p : Plan m) (h : ∀ x, Local (f x)) : Plan (m >>= f) :=
  p.post (fun r => r >>= fun x => result (f x)) fun server => by
    rw [call_bind, Option.map_eq_bind]
    congr 1
    funext r
    rcases r with ⟨e | x, server'⟩
    · rfl
    · exact (h x).call_eq server'

def message : Plan m → Option Message
  | .here _ => none
  | .command msg _ _ => some msg

/-- The result by the reply to the command. -/
def read : Plan m → Option Response → Except PyError α
  | .here _, _ => result m
  | .command _ read _, rsp => read rsp

/-- The call does what its command does, if it sends one. -/
theorem call_eq (p : Plan m) {msg : Message} (h : p.message = some msg) (server : Server) :
    call m server =
      (Server.machine.step server msg).map fun s => (p.read s.2.decoded, s.1) := by
  cases p with
  | here hm => cases h
  | command msg' read call_eq =>
    obtain rfl := Option.some.inj h
    exact call_eq server

end Plan

end FCache.Client
