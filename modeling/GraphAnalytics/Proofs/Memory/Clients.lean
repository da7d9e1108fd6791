/-
# Clients of a shared budget

Any number of clients reserve bytes from one gauge, create paged arrays out of it, drop them and
give bytes back. In one move one client makes one access to the gauge, so a list of moves is an
interleaving of their calls; whether an exchange fails for no reason is part of the move. A client
can only give back what it has in hand: bytes that it has reserved, or that it has got by dropping
an array.

An array whose table of pages cannot be addressed is not allocated, but by then its bytes are
reserved, and nobody has them. They are counted as stranded.
-/

import GraphAnalytics.Paged.Cells
import Mathlib.Algebra.Ring.Nat

namespace GraphAnalytics.Budget

open Memory

/-- The kinds of elements that clients keep in paged arrays: the bytes of an element, its type, and
the element that a new array is full of. -/
structure Catalogue (ι : Type) where
  width : ι → Nat
  Element : ι → Type
  initial : (kind : ι) → Element kind

/-- Something that a client asks of the budget: to reserve bytes, to create a paged array, or to
create atomic cells. -/
inductive Request (ι : Type) where
  | reserve (bytes : Nat)
  | paged (kind : ι) (capacity : Nat)
  | atomic (capacity : Nat)

variable {ι : Type} {c : Catalogue ι}

inductive Live (c : Catalogue ι) where
  | paged (kind : ι) (array : PagedArray (c.width kind) (c.Element kind))
  | atomic (cells : Cells)

def Live.bytes : Live c → Nat
  | .paged _ array => array.bytes
  | .atomic cells => cells.bytes

/-- What a call gets for its client: the bytes asked for, and so many are left, or the array asked
for. -/
inductive Gain (c : Catalogue ι) where
  | left (remaining : Nat)
  | array (live : Live c)

/-- How a call ends: with a broken precondition, a fault, or a gain. -/
abbrev Outcome (c : Catalogue ι) := Except Violation (Except Fault (Gain c))

namespace Request

def bytes (c : Catalogue ι) : Request ι → Nat
  | .reserve bytes => bytes
  | .paged kind capacity => arrayBytes capacity (c.width kind)
  | .atomic capacity => arrayBytes capacity 8

/-- What is asked for can be allocated once its bytes are reserved. -/
def Allocatable (c : Catalogue ι) : Request ι → Prop
  | .reserve _ => True
  | .paged kind capacity => Addressable (pageCount capacity (c.width kind)) pagePointerBytes
  | .atomic capacity => Addressable (pageCount capacity 8) pagePointerBytes

def InWord : Request ι → Prop
  | .reserve bytes => bytes ≤ Word.top
  | .paged _ capacity | .atomic capacity => capacity ≤ Word.top

/-- The call that serves a request, one access at a time. -/
def serve (c : Catalogue ι) : Request ι → Machine Bool Gauge Reservation (Outcome c)
  | .reserve bytes => (Gauge.reservation bytes).map fun answer => .ok (answer.map .left)
  | .paged kind capacity => (PagedArray.creation capacity (c.initial kind)).map
      (·.map (·.map fun array => .array (.paged kind array)))
  | .atomic capacity => (PagedArray.creation capacity (0 : Int)).map
      (·.map (·.map fun cells => .array (.atomic cells)))

/-- The bytes that are reserved and lost when a call ends like this. -/
def strands (c : Catalogue ι) (request : Request ι) : Turn Reservation (Outcome c) → Nat
  | .done (.error _) => request.bytes c
  | _ => 0

end Request

/-- Somebody who uses the budget, with the call in progress, if there is one, the bytes in hand, and
the arrays that are alive. -/
structure Client (c : Catalogue ι) where
  call : Option (Request ι × Reservation) := none
  loose : Nat := 0
  arrays : List (Live c) := []

/-- Something that a client does: to call for a request, to make the next access of the call in
progress, to drop one of the arrays, which frees its bytes, or to give bytes back. -/
inductive Deed (ι : Type) where
  | ask (request : Request ι)
  | access (lucky : Bool)
  | drop (array : Nat)
  | giveBack (bytes : Nat)

namespace Client

/-- The bytes that a client holds, in hand and in arrays. -/
def held (client : Client c) : Nat := client.loose + (client.arrays.map Live.bytes).sum

def idle (client : Client c) : Client c := { client with call := none }

def after (client : Client c) (request : Request ι) : Turn Reservation (Outcome c) → Client c
  | .more point => { client with call := some (request, point) }
  | .done (.ok (.ok (.left _))) => { client.idle with loose := client.loose + request.bytes c }
  | .done (.ok (.ok (.array live))) => { client.idle with arrays := client.arrays ++ [live] }
  | .done (.ok (.error _)) => client.idle
  | .done (.error _) => client.idle

/-- What a deed makes of the gauge and of the client, and the bytes that it strands. A deed that is
not the client's to do changes nothing. -/
def act (gauge : Gauge) (client : Client c) : Deed ι → Gauge × Client c × Nat
  | .ask request =>
      match client.call with
      | none => (gauge, { client with call := some (request, .observe) }, 0)
      | some _ => (gauge, client, 0)
  | .access lucky =>
      match client.call with
      | some (request, point) =>
          let (gauge, turn) := (request.serve c).step lucky gauge point
          (gauge, client.after request turn, request.strands c turn)
      | none => (gauge, client, 0)
  | .drop array =>
      match client.arrays[array]? with
      | some live =>
          (gauge, { client with
            loose := client.loose + live.bytes
            arrays := client.arrays.eraseIdx array }, 0)
      | none => (gauge, client, 0)
  | .giveBack bytes =>
      if bytes ≤ client.loose then
        (gauge.release bytes, { client with loose := client.loose - bytes }, 0)
      else (gauge, client, 0)

end Client

/-- A gauge and everybody who has ever used it, with the bytes that were reserved for arrays which
could not be allocated. -/
structure Ledger (c : Catalogue ι) where
  gauge : Gauge
  clients : List (Client c) := []
  stranded : Nat := 0

/-- What can happen next: there is one more client, or a client does something. -/
inductive Move (ι : Type) where
  | join
  | act (client : Nat) (deed : Deed ι)

namespace Ledger

def opened (c : Catalogue ι) (budget : Nat) : Ledger c := { gauge := ⟨budget⟩ }

/-- The bytes that are held by anybody. -/
def held (ledger : Ledger c) : Nat := (ledger.clients.map Client.held).sum

def apply (ledger : Ledger c) : Move ι → Ledger c
  | .join => { ledger with clients := ledger.clients ++ [{}] }
  | .act number deed =>
      match ledger.clients[number]? with
      | some client =>
          let (gauge, client, stranded) := client.act ledger.gauge deed
          { gauge
            clients := ledger.clients.set number client
            stranded := ledger.stranded + stranded }
      | none => ledger

def replay (ledger : Ledger c) (moves : List (Move ι)) : Ledger c := moves.foldl apply ledger

/-- What the call of a client returns if it makes its next access now, and the request it serves. -/
def answer? (ledger : Ledger c) (number : Nat) (lucky : Bool) : Option (Request ι × Outcome c) := do
  let client ← ledger.clients[number]?
  let (request, point) ← client.call
  match ((request.serve c).step lucky ledger.gauge point).2 with
  | .done outcome => some (request, outcome)
  | .more _ => none

end Ledger

end GraphAnalytics.Budget
