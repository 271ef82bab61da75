import FCache.KvHandler
import FCache.ListHandler

/-!
# The server

The two handlers behind one dispatch on the envelope of a message. A message gets a builder of
its own, which is sent when the handler returns.
-/

namespace FCache

/-- A message by its op code, its `ident` and its body; a body of a type that `ident` has no
command for is missing. -/
inductive Message where
  | notBinary
  | kv (body : Option KVRequest)
  | list (body : Option ListRequest)
  | unknownIdent
  deriving DecidableEq

structure Server where
  kvHandler : KvHandler := {}
  listHandler : ListHandler := ∅
  deriving DecidableEq

namespace Server

open Cpp

def callKvHandler (req : KVRequest) : Cpp (Handling Server) Unit :=
  zoom (fun c => ⟨c.handler.kvHandler, c.fbb⟩)
    (fun h c => ⟨{ c.handler with kvHandler := h.handler }, h.fbb⟩) (KvHandler.handle req)

def callListHandler (req : ListRequest) : Cpp (Handling Server) Unit :=
  zoom (fun c => ⟨c.handler.listHandler, c.fbb⟩)
    (fun h c => ⟨{ c.handler with listHandler := h.handler }, h.fbb⟩) (ListHandler.handle req)

def handleKv : Option KVRequest → Cpp (Handling Server) Unit
  | some req => callKvHandler req
  | none => createEmptyBodyResponse .commandUnknown .none

def handleList : Option ListRequest → Cpp (Handling Server) Unit
  | some req => callListHandler req
  | none => createEmptyBodyResponse .commandUnknown .none

def onMessage : Message → Cpp (Handling Server) Unit
  | .notBinary => createEmptyBodyResponse .parseError .none
  | .kv body => handleKv body
  | .list body => handleList body
  | .unknownIdent => createEmptyBodyResponse .commandUnknown .none

/-- The output of a step is the builder that is sent. -/
def machine : Machine Server Message FlatBuilder where
  init := {}
  step server msg := Handling.answered (onMessage msg ⟨server, {}⟩)

theorem step_kv (server : Server) (req : KVRequest) :
    machine.step server (.kv (some req)) =
      (KvHandler.machine.step server.kvHandler req).map fun r =>
        ({ server with kvHandler := r.1 }, r.2) := by
  unfold machine KvHandler.machine onMessage handleKv callKvHandler
  simp only [zoom_apply]
  cases KvHandler.handle req ⟨server.kvHandler, {}⟩ <;> rfl

theorem step_list (server : Server) (req : ListRequest) :
    machine.step server (.list (some req)) =
      (ListHandler.machine.step server.listHandler req).map fun r =>
        ({ server with listHandler := r.1 }, r.2) := by
  unfold machine ListHandler.machine onMessage handleList callListHandler
  simp only [zoom_apply]
  cases ListHandler.handle req ⟨server.listHandler, {}⟩ <;> rfl

end Server

end FCache
