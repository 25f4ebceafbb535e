import GuardedRows.Text
import GuardedRows.Uuid

/-!
# Reservations

A worker is known by its lock, and owns a transaction while the transaction's record holds
the worker's reservation. Every reservation has a UUID of its own, so giving back an old
one cannot clear a newer one of the same lock.
-/

set_option autoImplicit false

namespace GuardedRows.Tx

structure LockId where
  path : String
  node : String
  session : UInt64
  deriving DecidableEq

namespace LockId

def text (lock : LockId) : String :=
  lock.path ++ "/" ++ lock.node ++ "$" ++ Text.hexadecimal lock.session.toNat

/-- Reads a lock id from its end: the session stands after the last dollar sign and the
node after the last slash before it. -/
def parse (text : String) : Except Malformed LockId :=
  match Text.cutLast '$' text.toList with
  | none => .error (.lockId text)
  | some (place, session) =>
      match Text.cutLast '/' place with
      | none => .error (.lockId text)
      | some (path, node) =>
          match Text.word64? 16 (String.ofList session) with
          | none => .error (.lockId text)
          | some session => .ok ⟨String.ofList path, String.ofList node, session⟩

end LockId

structure Reservation where
  lock : LockId
  uuid : Uuid
  deriving DecidableEq

namespace Reservation

def text (reservation : Reservation) : String :=
  reservation.lock.text ++ ":" ++ reservation.uuid.text

/-- Reads a reservation. The UUID stands after the last colon, and is read before the
lock. -/
def parse (text : String) : Except Malformed Reservation :=
  match Text.cutLast ':' text.toList with
  | none => .error (.reservation text)
  | some (lock, uuid) =>
      match Uuid.read? uuid with
      | none => .error (.uuid text)
      | some uuid => (LockId.parse (String.ofList lock)).map (⟨·, uuid⟩)

end Reservation

end GuardedRows.Tx
