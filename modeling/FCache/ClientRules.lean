import FCache.Client

/-!
# Rules for the calls of the client

What a call gives is stated against a state that stands for the server's, whatever stands for it
and however. A check or a conversion leaves that state alone; a command takes the server, and with
it the state, one step further.
-/

namespace FCache.Client

variable {σ α β : Type} {R : Server → σ → Prop}

theorem bind_eq_ok {x : Except PyError α} {f : α → Except PyError β} {b : β}
    (h : x >>= f = .ok b) : ∃ a, x = .ok a ∧ f a = .ok b := by
  cases x with
  | error e => cases h
  | ok a => exact ⟨a, rfl, h⟩

theorem call_map (g : α → β) (m : Client α) (server : Server) :
    call (g <$> m) server = (call m server).map fun r => (r.1.map g, r.2) := by
  rw [map_eq_pure_bind, call_bind, Option.map_eq_bind]
  congr 1
  funext r
  rcases r with ⟨e | x, server'⟩ <;> rfl

theorem call_sendCmd_eq (msg : Message) (expectedRspBody : BodyType) (allowDuplicate : Bool)
    (server : Server) : call (sendCmd msg expectedRspBody allowDuplicate) server =
      (Server.machine.step server msg).map fun s =>
        (raiseIfFail s.2.decoded expectedRspBody allowDuplicate, s.1) := by
  unfold call sendCmd
  simp only [ExceptT.run_mk, StateT.run]
  cases Server.machine.step server msg <;> rfl

/-- From every server that `t` stands for the call gives `r`, and leaves one that `t'` stands
for. -/
def Yields (R : Server → σ → Prop) (m : Client α) (t : σ) (r : Except PyError α) (t' : σ) : Prop :=
  ∀ server : Server, R server t → ∃ server', call m server = some (r, server') ∧ R server' t'

/-- Every server that `t` stands for answers the message with a response that decodes to `rsp`. -/
def Answers (R : Server → σ → Prop) (msg : Message) (t : σ) (rsp : Option Response) (t' : σ) :
    Prop :=
  ∀ server : Server, R server t → ∃ server' fbb,
    Server.machine.step server msg = some (server', fbb) ∧ fbb.decoded = rsp ∧ R server' t'

namespace Yields

variable {m : Client α} {f : α → Client β} {t t' t'' : σ}

theorem pure (x : α) (t : σ) : Yields R (pure x) t (.ok x) t :=
  fun server h => ⟨server, rfl, h⟩

theorem throw (e : PyError) (t : σ) : Yields R (throw e : Client α) t (.error e) t :=
  fun server h => ⟨server, rfl, h⟩

theorem bind {x : α} {r : Except PyError β} (hm : Yields R m t (.ok x) t')
    (hf : Yields R (f x) t' r t'') : Yields R (m >>= f) t r t'' := by
  intro server h
  obtain ⟨server₁, hcall₁, h₁⟩ := hm server h
  obtain ⟨server₂, hcall₂, h₂⟩ := hf server₁ h₁
  refine ⟨server₂, ?_, h₂⟩
  rw [call_bind, hcall₁]
  exact hcall₂

theorem bind_error {e : PyError} (hm : Yields R m t (.error e) t') :
    Yields R (m >>= f) t (.error e) t' := by
  intro server h
  obtain ⟨server₁, hcall₁, h₁⟩ := hm server h
  refine ⟨server₁, ?_, h₁⟩
  rw [call_bind, hcall₁]
  rfl

theorem ofExcept (r : Except PyError α) (t : σ) : Yields R (MonadExcept.ofExcept r) t r t := by
  cases r with
  | ok x => exact pure x t
  | error e => exact throw e t

theorem raiseIf_true {condition : Bool} (h : condition = true) (msg : String) (t : σ) :
    Yields R (raiseIf condition msg) t (.error (.valueError msg)) t := by
  subst h
  exact throw (.valueError msg) t

theorem raiseIf_false {condition : Bool} (h : condition = false) (msg : String) (t : σ) :
    Yields R (raiseIf condition msg) t (.ok ()) t := by
  subst h
  exact pure () t

theorem sendCmd {msg : Message} {rsp : Option Response} (h : Answers R msg t rsp t')
    (expectedRspBody : BodyType) (allowDuplicate : Bool) :
    Yields R (sendCmd msg expectedRspBody allowDuplicate) t
      (raiseIfFail rsp expectedRspBody allowDuplicate) t' := by
  intro server hR
  obtain ⟨server', fbb, hstep, hdecoded, hR'⟩ := h server hR
  refine ⟨server', ?_, hR'⟩
  rw [call_sendCmd_eq, hstep, ← hdecoded]
  rfl

/-- A command that succeeds with the expected body. -/
theorem sendCmd_ok {msg : Message} {expectedRspBody : BodyType} {body : Option ResponseTable}
    (h : Answers R msg t (some ⟨.ok, expectedRspBody, body⟩) t') (allowDuplicate : Bool) :
    Yields R (Client.sendCmd msg expectedRspBody allowDuplicate) t
      (.ok ⟨.ok, expectedRspBody, body⟩) t' := by
  have hsend := sendCmd h expectedRspBody allowDuplicate
  simpa [raiseIfFail] using hsend

/-- Two parts that read. -/
theorem seq {r : Except PyError α} {o : α → Except PyError β} (hm : Yields R m t r t)
    (hf : ∀ x, r = .ok x → Yields R (f x) t (o x) t) : Yields R (m >>= f) t (r >>= o) t := by
  cases r with
  | ok x => exact hm.bind (hf x rfl)
  | error e => exact hm.bind_error

theorem map (g : α → β) {r : Except PyError α} (hm : Yields R m t r t') :
    Yields R (g <$> m) t (r.map g) t' := by
  rw [map_eq_pure_bind]
  cases r with
  | ok x => exact hm.bind (pure (g x) t')
  | error e => exact hm.bind_error

end Yields

/-! ### Calls that change nothing if they raise -/

def after (t : σ) : Except PyError (σ × α) → σ
  | .ok p => p.1
  | .error _ => t

/-- The call raises and leaves the state alone, or leaves the state and gives the result of `o`. -/
def Does (R : Server → σ → Prop) (m : Client α) (t : σ) (o : Except PyError (σ × α)) : Prop :=
  Yields R m t (o.map Prod.snd) (after t o)

/-- The check of `raiseIf`. -/
def check (condition : Bool) (msg : String) : Except PyError Unit :=
  if condition then .error (.valueError msg) else .ok ()

theorem Yields.check (condition : Bool) (msg : String) (t : σ) :
    Yields R (raiseIf condition msg) t (check condition msg) t := by
  cases condition with
  | true => exact raiseIf_true rfl msg t
  | false => exact raiseIf_false rfl msg t

namespace Does

variable {m : Client α} {f : α → Client β} {t t' : σ}

theorem throw (e : PyError) (t : σ) : Does R (throw e : Client α) t (.error e) := Yields.throw e t

/-- A first part that reads. -/
theorem bind {r : Except PyError α} {o : α → Except PyError (σ × β)} (hm : Yields R m t r t)
    (hf : ∀ x, r = .ok x → Does R (f x) t (o x)) : Does R (m >>= f) t (r >>= o) := by
  cases r with
  | ok x => exact hm.bind (hf x rfl)
  | error e => exact hm.bind_error

theorem bind_ok {x : α} {o : Except PyError (σ × β)} (hm : Yields R m t (.ok x) t)
    (hf : Does R (f x) t o) : Does R (m >>= f) t o := Yields.bind hm hf

/-- A last part that works on what it is given. -/
theorem bind_pure {x : α} {y : β} (hm : Yields R m t (.ok x) t') (hf : f x = Pure.pure y) :
    Does R (m >>= f) t (.ok (t', y)) := by
  apply Yields.bind hm
  rw [hf]
  exact Yields.pure y t'

theorem bind_error {e : PyError} (hm : Yields R m t (.error e) t) :
    Does R (m >>= f) t (.error e) := hm.bind_error

theorem map {o : Except PyError (σ × α)} (hm : Does R m t o) (g : α → β) :
    Does R (g <$> m) t (o.map fun p => (p.1, g p.2)) := by
  have hmap := Yields.map g hm
  cases o with
  | ok p => exact hmap
  | error e => exact hmap

end Does

/-- A call that reads. -/
theorem Yields.map_does {m : Client α} {t : σ} {r : Except PyError α} (hm : Yields R m t r t)
    (g : α → β) : Does R (g <$> m) t (r.map fun x => (t, g x)) := by
  have hmap := hm.map g
  cases r with
  | ok x => exact hmap
  | error e => exact hmap

end FCache.Client
