import FCache.ApiPlans
import FCache.ServerRefinement

/-!
# The API over the network

Any number of clients call the API over their own connections. What a client gets is what its call
reads from the reply it is given. If they send on quiet connections only, the clients share a dict
of dicts, of values as the store keeps them, and plain lists, read as the server reads them, on
which each of their calls takes effect at one instant between call and return.
-/

namespace FCache.Api

open Client

variable {F A : Type} (w : FlexWriter F A) (lw : ListWriter F A)

inductive Call (F A : Type) where
  | kv (c : KV.Call F A)
  | list (c : ListApi.Call F A)

inductive Result where
  | kv (r : KV.PyResult)
  | list (r : ListApi.Result)
  deriving DecidableEq

def perform : Call F A → Client Result
  | .kv c => .kv <$> KV.perform w c
  | .list c => .list <$> ListApi.perform lw c

def plan : (c : Call F A) → Plan (perform w lw c)
  | .kv c => (KV.plan w c).map Result.kv
  | .list c => (ListApi.plan lw c).map Result.list

/-- What is left to the callers. -/
def Safe (server : Server) : Call F A → Prop
  | .kv _ => True
  | .list c => ListApi.Allowed lw (ListApi.shapes server.listHandler) c

instance (server : Server) (c : Call F A) : Decidable (Safe lw server c) :=
  match c with
  | .kv _ => .isTrue trivial
  | .list c =>
    inferInstanceAs (Decidable (ListApi.Allowed lw (ListApi.shapes server.listHandler) c))

/-- The server by the calls whose commands it is sent. -/
def remote : Machine Server (Call F A) FlatBuilder where
  init := {}
  step server c := (plan w lw c).message.bind (Server.machine.step server)

/-- What a call makes of the reply it is given. -/
def read (c : Call F A) (reply : FlatBuilder) : Except PyError Result :=
  (plan w lw c).read reply.decoded

/-! ### What the calls do -/

def step (t : PlainServer) : Call F A → PlainServer × Except PyError Result
  | .kv c =>
    let r := KV.Dicts.step w t.store c
    ({ t with store := r.1 }, r.2.map .kv)
  | .list c =>
    let r := ListApi.Lists.step lw t.lists c
    ({ t with lists := after t.lists r }, (r.map Prod.snd).map .list)

/-- A dict of dicts and plain lists. A string in a dict ends at its first zero byte. -/
def plain : Machine PlainServer (Call F A) (Except PyError Result) where
  init := {}
  step t c := some (step w lw t c)

variable {w lw} {server server' : Server} {t : PlainServer} {c : Call F A} {fbb : FlatBuilder}

theorem call_perform (h : server.Represents t) (hsafe : Safe lw server c) :
    ∃ server', call (perform w lw c) server = some ((step w lw t c).2, server') ∧
      server'.Represents (step w lw t c).1 := by
  cases c with
  | kv c =>
    obtain ⟨server', hcall, hstore, hlists⟩ :=
      (KV.perform_yields c t.store).map Result.kv server ⟨h.store, rfl⟩
    exact ⟨server', hcall, hstore, hlists ▸ h.lists⟩
  | list c =>
    unfold Safe at hsafe
    rw [ListApi.shapes_eq h.lists] at hsafe
    obtain ⟨server', hcall, hlists, hstore⟩ :=
      Yields.map Result.list (ListApi.perform_does c hsafe) server ⟨h.lists, rfl⟩
    exact ⟨server', hcall, hstore ▸ h.store, hlists⟩

/-- A command sent for a call does what the call does, and the call reads its result. -/
theorem remote_step (h : server.Represents t) (hsafe : Safe lw server c)
    (hstep : (remote w lw).step server c = some (server', fbb)) :
    ∃ t', (plain w lw).step t c = some (t', read w lw c fbb) ∧ server'.Represents t' := by
  obtain ⟨msg, hmessage, hserver⟩ := Option.bind_eq_some_iff.mp hstep
  obtain ⟨server'', hcall, h'⟩ := call_perform (w := w) h hsafe
  rw [(plan w lw c).call_eq hmessage, hserver] at hcall
  obtain ⟨hresult, rfl⟩ := Prod.mk.inj (Option.some.inj hcall)
  refine ⟨(step w lw t c).1, ?_, h'⟩
  show some (step w lw t c) = _
  rw [show read w lw c fbb = (step w lw t c).2 from hresult]

/-- The results that clients read who send on quiet connections only are shown by a dict of dicts,
of the values the store keeps, and plain lists on which each call takes effect at one instant. -/
theorem network_calls {trace : List (AtomicService.Observation (Call F A) FlatBuilder)}
    (h : ((Network.machine ((remote w lw).restrict (Safe lw))).restrict
      Network.QuietSend).Exhibits trace) :
    (AtomicService.machine (plain w lw)).Exhibits
      (AtomicService.readTrace (read w lw) (fun _ => []) trace) := by
  have h₀ : Server.Represents ((remote w lw).restrict (Safe lw)).init (plain w lw).init :=
    Server.Represents.init
  apply AtomicService.exhibits_readTrace h₀ _ (Network.exhibits_of_quietSend h)
  intro server t c server' fbb hrep hstep
  obtain ⟨hsafe, hstep⟩ := Machine.step_restrict_eq_some.mp hstep
  exact remote_step hrep hsafe hstep

/-- Two clients whose first calls overlap; the second has its list before its next call. -/
theorem network_calls_overlap : ∃ trace,
    (AtomicService.machine (plain KV.listWriter ListApi.integerWriter)).Exhibits trace ∧
      trace.filterMap AtomicService.Observation.answer =
        [(0, 0, .ok (.kv .none)), (1, 0, .ok (.list .none)), (1, 1, .ok (.list (.int 2)))] := by
  let evs : List (NetworkEvent (Call FcFloat Empty) FlatBuilder) :=
    [.client 0 (.query (.kv (.setKey "a" (.int 1) none))),
      .client 1 (.query (.list (.create false "a" "int" true))),
      .client 0 (.send 0), .client 1 (.send 0), .handle 1, .client 0 (.wait 0), .handle 0,
      .deliver 0, .client 0 (.wake 0), .client 0 (.finish 0), .deliver 1, .client 1 (.wait 0),
      .client 1 (.finish 0), .client 1 (.query (.list (.addTail "a" [.int 5, .int 3]))),
      .client 1 (.send 1), .handle 1, .deliver 1, .client 1 (.wait 1), .client 1 (.finish 1)]
  have hanswers : ((((Network.machine ((remote KV.listWriter ListApi.integerWriter).restrict
      (Safe ListApi.integerWriter))).restrict Network.QuietSend).run evs).map fun r =>
        (AtomicService.readTrace (read KV.listWriter ListApi.integerWriter) (fun _ => [])
          r.2.flatten).filterMap AtomicService.Observation.answer) =
      some [(0, 0, .ok (.kv .none)), (1, 0, .ok (.list .none)), (1, 1, .ok (.list (.int 2)))] := by
    decide +kernel
  obtain ⟨⟨n, os⟩, hrun, htrace⟩ := Option.map_eq_some_iff.mp hanswers
  exact ⟨_, network_calls ⟨evs, n, os, hrun, rfl⟩, htrace⟩

end FCache.Api
