import GuardedRows.SortedMap.Basic
import GuardedRows.Tx.Lifecycle

/-!
# Clients of transactions

Any number of workers share one store and keep their handles under names. A request is one
operation of one of them; a handle that deletes its transaction or gives its reservation
back is used up, whether that succeeds or not.
-/

set_option autoImplicit false

namespace GuardedRows.Tx

structure Clients (σ : Type) where
  store : σ
  handles : SortedMap String Handle := .empty

inductive HandleRequest where
  | status
  | top
  | push (step : Bytes)
  | pop
  | setStatus (status : Status)
  | setInfo (info : Info) (value : String)
  | delete
  | unreserve
  deriving DecidableEq

inductive Request where
  | create (home : Instance) (drawn : Uuid) (now : UInt64)
  /-- Reserves a transaction and keeps the handle under a name. -/
  | tryReserve (id : Id) (lock : LockId) (drawn : Uuid) (name : String)
  | work (name : String) (request : HandleRequest)
  | releaseDead (isLive : LockId → Bool)

inductive Reply where
  | created (id : Id)
  | reserved (handle : Option Handle)
  | status (status : Option Status)
  | top (step : Option Bytes)
  | done
  | swept (sweep : Sweep)
  | noHandle
  | failed (error : Error)

namespace HandleRequest

def usesUp : HandleRequest → Bool
  | .delete | .unreserve => true
  | _ => false

def run {σ : Type} [RowStore σ] (limit : UInt32) (handle : Handle) :
    HandleRequest → StoreStep σ Reply
  | .status => return .status (← handle.status)
  | .top => return .top (← handle.top)
  | .push step => do handle.push limit step; return .done
  | .pop => do handle.pop; return .done
  | .setStatus target => do handle.setStatus target; return .done
  | .setInfo info value => do handle.setInfo info value; return .done
  | .delete => do handle.delete; return .done
  | .unreserve => do handle.unreserve; return .done

end HandleRequest

namespace Clients

variable {σ : Type} [RowStore σ]

/-- Runs a step on the shared store and answers a failure as such. -/
def answer (clients : Clients σ) (step : StoreStep σ Reply) : Reply × Clients σ :=
  match step clients.store with
  | .ok reply store => (reply, { clients with store })
  | .error error store => (.failed error, { clients with store })

/-- Answers one request. No stack grows beyond `limit` steps. -/
def perform (limit : UInt32) (clients : Clients σ) : Request → Reply × Clients σ
  | .create home drawn now => clients.answer do return .created (← create home drawn now)
  | .tryReserve id lock drawn name =>
      let (reply, clients) :=
        clients.answer do return .reserved (← tryReserve id lock drawn)
      match reply with
      | .reserved (some handle) =>
          (reply, { clients with handles := clients.handles.insert name handle })
      | _ => (reply, clients)
  | .work name request =>
      match clients.handles.get? name with
      | none => (.noHandle, clients)
      | some handle =>
          let (reply, clients) := clients.answer (request.run limit handle)
          if request.usesUp then
            (reply, { clients with handles := clients.handles.erase name })
          else (reply, clients)
  | .releaseDead isLive => clients.answer do return .swept (← releaseDead isLive)

def performAll (limit : UInt32) (clients : Clients σ) : List Request → List Reply × Clients σ
  | [] => ([], clients)
  | request :: rest =>
      let (reply, clients) := clients.perform limit request
      let (replies, clients) := clients.performAll limit rest
      (reply :: replies, clients)

end Clients

end GuardedRows.Tx
