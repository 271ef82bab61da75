import FCache.KvRefinement
import FCache.Linearizability
import FCache.ListRefinement
import FCache.NetworkLiveness
import FCache.NetworkLog
import FCache.Replies

/-!
# The server as its clients see it

The server refines a plain server, which has the plain store behind one handler and the plain
lists behind the other. Clients that send on quiet connections observe that plain server as an
atomic service: their calls take effect one at a time, between call and answer.
-/

namespace FCache

structure PlainServer where
  store : PlainStore := {}
  lists : PlainLists := ∅

namespace PlainServer

def step (s : PlainServer) : Message → PlainServer × Option Response
  | .kv (some req) => ({ s with store := (s.store.step req).1 }, some (s.store.step req).2)
  | .list (some req) => ({ s with lists := (s.lists.step req).1 }, (s.lists.step req).2)
  | .notBinary => (s, some ⟨.parseError, .none, none⟩)
  | .kv none | .list none | .unknownIdent => (s, some ⟨.commandUnknown, .none, none⟩)

def machine : Machine PlainServer Message (Option Response) where
  init := {}
  step s msg := some (s.step msg)

end PlainServer

namespace Server

/-- The clients with the server. -/
abbrev network : Machine (Network Server Message FlatBuilder) (NetworkEvent Message FlatBuilder)
    (List (AtomicService.Observation Message FlatBuilder)) :=
  Network.machine machine

def Plain (server : Server) : Message → Prop
  | .list (some req) => ListHandler.Plain server.listHandler req
  | _ => True

instance (server : Server) (msg : Message) : Decidable (server.Plain msg) :=
  match msg with
  | .list (some req) => inferInstanceAs (Decidable (ListHandler.Plain server.listHandler req))
  | .list none | .kv _ | .notBinary | .unknownIdent => .isTrue trivial

structure Represents (s : Server) (t : PlainServer) : Prop where
  store : s.kvHandler.Represents t.store
  lists : s.listHandler.Represents t.lists

variable {s s' : Server} {t : PlainServer} {fbb : FlatBuilder}

theorem Represents.init : Represents {} {} :=
  ⟨KvHandler.Represents.init, ListHandler.Represents.init⟩

theorem Represents.step (h : Represents s t) {msg : Message} (hplain : s.Plain msg)
    (hstep : machine.step s msg = some (s', fbb)) :
    ∃ t', PlainServer.machine.step t msg = some (t', fbb.decoded) ∧ Represents s' t' := by
  cases msg with
  | notBinary =>
    cases hstep
    exact ⟨t, rfl, h⟩
  | unknownIdent =>
    cases hstep
    exact ⟨t, rfl, h⟩
  | kv body =>
    cases body with
    | none =>
      cases hstep
      exact ⟨t, rfl, h⟩
    | some req =>
      rw [step_kv] at hstep
      obtain ⟨⟨kv, fbb'⟩, hkv, heq⟩ := Option.map_eq_some_iff.mp hstep
      cases heq
      obtain ⟨kv', store, fbb'', hkv', hstore, hrep⟩ := h.store.step req
      cases hkv.symm.trans hkv'
      cases hstore
      exact ⟨_, rfl, hrep, h.lists⟩
  | list body =>
    cases body with
    | none =>
      cases hstep
      exact ⟨t, rfl, h⟩
    | some req =>
      rw [step_list] at hstep
      obtain ⟨⟨lists, fbb'⟩, hlists, heq⟩ := Option.map_eq_some_iff.mp hstep
      cases heq
      obtain ⟨lists', hstep', hrep⟩ := h.lists.step hplain hlists
      obtain ⟨rfl, hreply⟩ := Prod.mk.inj (Option.some.inj hstep')
      refine ⟨{ t with lists := (t.lists.step req).1 }, ?_, h.store, hrep⟩
      rw [← hreply]
      rfl

/-- Whatever the clients do, the server has run through one log of requests: those of each
connection are the buffers sent on it, in order and each once, and every message a query has is the
reply to a request of its own connection. From then on the log is only added to. -/
theorem network_logged {evs : List (NetworkEvent Message FlatBuilder)}
    {n : Network Server Message FlatBuilder}
    {os : List (List (AtomicService.Observation Message FlatBuilder))}
    (h : network.run evs = some (n, os)) :
    ∃ log, n.Logged machine log ∧ ∀ evs' n' os', network.runFrom n evs' = some (n', os') →
      ∃ more, n'.Logged machine (log ++ more) := by
  obtain ⟨log, hlog⟩ := Network.Logged.init.runFrom h
  exact ⟨[] ++ log, hlog, fun evs' n' os' hrun => hlog.runFrom hrun⟩

/-- Two clients, the first of which gives up its call before the server has handled it. -/
theorem network_logged_timeout : ∃ n os log, network.run
    [.client 0 (.query .unknownIdent), .client 1 (.query .notBinary), .client 0 (.send 0),
      .client 1 (.send 0), .client 0 (.timeout 0), .handle 1, .handle 0] = some (n, os) ∧
    n.Logged machine log := by
  have hrun : (network.run
      [.client 0 (.query .unknownIdent), .client 1 (.query .notBinary), .client 0 (.send 0),
        .client 1 (.send 0), .client 0 (.timeout 0), .handle 1, .handle 0]).isSome := by
    decide +kernel
  obtain ⟨⟨n, os⟩, hrun⟩ := Option.isSome_iff_exists.mp hrun
  obtain ⟨log, hlog, _⟩ := network_logged hrun
  exact ⟨n, os, log, hrun, hlog⟩

/-- Clients that send on quiet connections only, whatever their timeouts, together decode what the
plain server shows as an atomic service. -/
theorem network_plain {trace : List (AtomicService.Observation Message FlatBuilder)}
    (h : ((Network.machine (machine.restrict Plain)).restrict Network.QuietSend).Exhibits trace) :
    (AtomicService.machine PlainServer.machine).Exhibits
      (trace.map (AtomicService.Observation.map FlatBuilder.decoded)) := by
  have h₀ : Represents (machine.restrict Plain).init PlainServer.machine.init := Represents.init
  apply AtomicService.exhibits_of_simulation h₀ _ (Network.exhibits_of_quietSend h)
  intro s t msg s' fbb hrep hstep
  obtain ⟨hplain, hstep⟩ := Machine.step_restrict_eq_some.mp hstep
  exact hrep.step hplain hstep

/-- A list created and read. -/
theorem network_plain_created : (AtomicService.machine PlainServer.machine).Exhibits
    [.called 0 (.list (some (.create { name := [97], type := 0, sorted := true }))),
      .answered 0 0 (some ⟨.ok, .listCreate, none⟩),
      .called 1 (.list (some (.info { name := [97] }))),
      .answered 1 0 (some ⟨.ok, .listInfo, some (.listInfo 0 .int true)⟩)] := by
  have hrun : ((Network.machine (machine.restrict Plain)).restrict Network.QuietSend).Exhibits
      [.called 0 (.list (some (.create { name := [97], type := 0, sorted := true }))),
        .answered 0 0 ⟨[⟨.ok, .listCreate, none⟩]⟩,
        .called 1 (.list (some (.info { name := [97] }))),
        .answered 1 0 ⟨[⟨.ok, .listInfo, some (.listInfo 0 .int true)⟩]⟩] := by
    apply Machine.exhibits_of_run
      [.client 0 (.query (.list (some (.create { name := [97], type := 0, sorted := true })))),
        .client 0 (.send 0), .client 0 (.wait 0), .handle 0, .deliver 0, .client 0 (.wake 0),
        .client 0 (.finish 0), .client 1 (.query (.list (some (.info { name := [97] })))),
        .client 1 (.send 0), .handle 1, .deliver 1, .client 1 (.wait 0), .client 1 (.finish 0)]
    decide +kernel
  exact network_plain hrun

/-- Clients that query one at a time, and give up no query between its send and its read, observe
the server itself as an atomic service, whatever they send. -/
theorem network_careful {trace : List (AtomicService.Observation Message FlatBuilder)}
    (h : (network.restrict Network.Careful).Exhibits trace) :
    (AtomicService.machine machine).Exhibits trace :=
  Network.exhibits_of_quietSend (Network.exhibits_quietSend_of_careful h)

/-- Two clients whose calls overlap: the second asks for a list before the first has created it. -/
theorem network_careful_overlap : (AtomicService.machine machine).Exhibits
    [.called 0 (.list (some (.create { name := [97], type := 0 }))),
      .called 1 (.list (some (.info { name := [97] }))),
      .answered 0 0 ⟨[⟨.ok, .listCreate, none⟩]⟩,
      .answered 1 0 ⟨[⟨.fail, .listInfo, none⟩]⟩] := by
  apply network_careful
  apply Machine.exhibits_of_run
    [.client 0 (.query (.list (some (.create { name := [97], type := 0 })))),
      .client 1 (.query (.list (some (.info { name := [97] })))),
      .client 0 (.send 0), .client 1 (.send 0), .client 0 (.wait 0), .handle 1, .deliver 1,
      .handle 0, .deliver 0, .client 0 (.wake 0), .client 0 (.finish 0), .client 1 (.wait 0),
      .client 1 (.finish 0)]
  decide +kernel

/-- A removal of a range that the list inverts. -/
def Inverts (server : Server) : Message → Prop
  | .list (some (.remove req)) => ∃ l, server.listHandler.lookup req.name = some l ∧
      (ListHandler.removeOperation req).inverted l.list.elems = true
  | _ => False

theorem not_inverts_iff_finishedTypes (server : Server) (req : ListRequest) :
    ¬ server.Inverts (.list (some req)) ↔
      (ListHandler.finishedTypes server.listHandler req).isSome := by
  cases req with
  | remove req =>
    cases hl : server.listHandler.lookup req.name with
    | none => simp [Inverts, ListHandler.finishedTypes, hl]
    | some l =>
      cases hinv : (ListHandler.removeOperation req).inverted l.list.elems <;>
        simp [Inverts, ListHandler.finishedTypes, hl, hinv]
  | add req | append req | set req | intersect req =>
    simp only [Inverts, ListHandler.finishedTypes, not_false_eq_true, true_iff]
    split <;> rfl
  | _ => simp [Inverts, ListHandler.finishedTypes]

/-- The server handles every message but a removal of an inverted range. -/
theorem enabled_iff {server : Server} (h : machine.Reachable server) (msg : Message) :
    machine.Enabled server msg ↔ ¬ server.Inverts msg := by
  obtain ⟨⟨t, hkv⟩, hlists⟩ := reachable_invariant h
  cases msg with
  | notBinary | unknownIdent => exact iff_of_true ⟨_, _, rfl⟩ id
  | kv body =>
    refine iff_of_true ?_ id
    cases body with
    | none => exact ⟨_, _, rfl⟩
    | some req =>
      obtain ⟨kv, rsp, hstep, _⟩ := hkv.step_reply req
      exact ⟨{ server with kvHandler := kv }, ⟨[rsp]⟩, by rw [step_kv, hstep]; rfl⟩
  | list body =>
    cases body with
    | none => exact iff_of_true ⟨_, _, rfl⟩ id
    | some req =>
      rw [not_inverts_iff_finishedTypes, ← ListHandler.types_step hlists]
      unfold ListHandler.types Machine.Enabled
      rw [step_list, Option.isSome_map]
      cases ListHandler.machine.step server.listHandler req <;> simp

/-- A client that has sent a request does not wait for ever, where buffers are sent on quiet
connections and what serves its query is fair: unless the request comes to remove an inverted
range, the call is given up, the connection closes, or the call returns the reply to that
request. -/
theorem network_returns {E : (network.restrict Network.QuietSend).Execution} {i k m t : ℕ}
    {msg : Message} {q : Query Message FlatBuilder} (hfair : Network.FairTo E i k)
    (hinverts : ∀ u, ¬ (E.state u).server.Inverts msg)
    (h : ((E.state t).links i).Awaits k m msg q) :
    ∃ u, t ≤ u ∧ (((E.state u).links i).connection.opened = false ∨
      ((E.state u).links i).connection.queries[k]? = some .timedOut ∨
      ∃ fbb, ((E.state u).links i).connection.queries[k]? = some (.returned m ⟨m, fbb⟩) ∧
        ((E.state u).links i).replies[m]? = some fbb) := by
  have hserved : ∀ u, machine.Enabled (E.state u).server msg :=
    fun u => (enabled_iff (Network.execution_reachable E u) msg).mpr (hinverts u)
  obtain ⟨u, htu, hover⟩ := Network.leadsTo_over hfair hserved t ⟨q, h⟩
  refine ⟨u, htu, ?_⟩
  rcases hover with hclosed | htimeout | ⟨⟨request, fbb⟩, hreturned⟩
  · exact .inl hclosed
  · exact .inr (.inl htimeout)
  · obtain ⟨s, hs⟩ := Network.execution_matches E u
    obtain rfl : request = m := (hs.links i).orderly.onCourse k _ hreturned
    obtain ⟨_, _, _, hreply, _⟩ := (hs.links i).call_of_query hreturned
    exact .inr (.inr ⟨fbb, hreturned, hreply⟩)

/-- One client sends a request and reads its reply, and another goes on calling for ever. -/
def callInput (t : ℕ) : NetworkEvent Message FlatBuilder :=
  [.client 0 (.query .unknownIdent), .client 0 (.send 0), .handle 0, .deliver 0,
    .client 0 (.wait 0), .client 0 (.finish 0)][t]?.getD (.client 1 (.query .notBinary))

theorem callInput_enabled (t : ℕ) :
    ((network.restrict Network.QuietSend).step
      ((network.restrict Network.QuietSend).stateAt callInput t) (callInput t)).isSome := by
  match t with
  | 0 | 1 | 2 | 3 | 4 | 5 => decide +kernel
  | t + 6 => rfl

def callExecution : (network.restrict Network.QuietSend).Execution :=
  .ofInputs callInput callInput_enabled

theorem callExecution_link {t : ℕ} (h : 6 ≤ t) :
    (callExecution.state t).links 0 = (callExecution.state 6).links 0 := by
  induction t, h using Nat.le_induction with
  | base => rfl
  | succ t ht ih =>
    obtain ⟨j, rfl⟩ := Nat.exists_eq_add_of_le' ht
    obtain ⟨hstate, _⟩ := Prod.mk.inj (Option.some.inj (callExecution.step (j + 6)))
    rw [← hstate]
    exact ih

theorem callExecution_fair : Network.FairTo callExecution 0 0 := by
  apply Network.fairTo_of_ended 6
  · intro t ht
    rw [callExecution_link ht]
    decide +kernel
  · intro t ht
    rw [callExecution_link ht]
    decide +kernel
  · intro t ht
    rw [callExecution_link ht]
    exact ⟨.returned 0 ⟨0, ⟨[⟨.commandUnknown, .none, none⟩]⟩⟩, by decide +kernel, rfl⟩

theorem network_returns_unknown : ∃ u, 2 ≤ u ∧
    (((callExecution.state u).links 0).connection.opened = false ∨
      ((callExecution.state u).links 0).connection.queries[0]? = some .timedOut ∨
      ∃ fbb, ((callExecution.state u).links 0).connection.queries[0]? =
          some (.returned 0 ⟨0, fbb⟩) ∧
        ((callExecution.state u).links 0).replies[0]? = some fbb) := by
  have h : ((callExecution.state 2).links 0).Awaits 0 0 .unknownIdent (.sending 0) := by
    constructor <;> decide +kernel
  exact network_returns callExecution_fair (fun u => id) h

end Server

end FCache
