/-
# No byte is reserved twice or lost

Whatever the clients of a budget do and however their accesses interleave, what is available and
what is held make up the budget. All that an access of a call can do is said once (`Gauge.Step`, and
for requests `Request.Step`), provided that an exchange is only tried from a headroom that was large
enough when it was seen (`Client.Serves`). From there one deed keeps the sum for its client, one
move for the ledger, and so does every list of moves.

Bytes are reserved before an array is allocated. If its table of pages cannot be addressed, they
stay reserved although there is no array, so what is stranded is part of the sum. This takes an
estimate that is cut off at the largest word (`arrayBytes_eq_top`): it happens to nobody unless the
budget is that word, and then all of the budget goes at once.
-/

import GraphAnalytics.Proofs.Memory.Clients
import Mathlib.Algebra.Order.BigOperators.Group.List
import Mathlib.Algebra.Order.Group.Nat
import Mathlib.Data.List.Perm.Basic

namespace GraphAnalytics

/-! ### One access of a reservation -/

namespace Gauge

/-- What an access of a reservation can make of the gauge, and where it can leave the call. -/
inductive Step (bytes : Nat) (gauge : Gauge) : Gauge × Turn Reservation (Except Fault Nat) → Prop
  | waits (room : bytes ≤ gauge.available) :
      Step bytes gauge (gauge, .more (.exchange gauge.available))
  | refused (short : gauge.available < bytes) :
      Step bytes gauge (gauge, .done (.error (.reservationExceeded bytes gauge.available)))
  | taken (room : bytes ≤ gauge.available) :
      Step bytes gauge (⟨gauge.available - bytes⟩, .done (.ok (gauge.available - bytes)))

theorem step_decide (bytes : Nat) (gauge : Gauge) :
    Step bytes gauge (gauge, decide bytes gauge.available) := by
  by_cases short : gauge.available < bytes
  · rw [decide, if_pos short]
    exact .refused short
  · rw [decide, if_neg short]
    exact .waits (Nat.le_of_not_lt short)

/-- An exchange takes the bytes only if the headroom is still the one that was large enough. -/
theorem step_reservation {bytes : Nat} {point : Reservation}
    (sane : ∀ observed, point = .exchange observed → bytes ≤ observed) (lucky : Bool)
    (gauge : Gauge) : Step bytes gauge ((reservation bytes).step lucky gauge point) := by
  cases point with
  | observe => exact step_decide bytes gauge
  | exchange observed =>
      have room := sane observed rfl
      simp only [reservation]
      split
      -- The headroom may have gone down and up again since: what counts is that it is the same.
      · next unchanged =>
          obtain ⟨-, rfl⟩ := unchanged
          exact .taken room
      · exact step_decide bytes gauge

end Gauge

/-! ### Estimates that are cut off -/

namespace Memory

open Word

theorem pageBytes_lt (width : Nat) : pageBytes < 2 * (max width 1 * pageSize width) := by
  have positive : 0 < max width 1 := by omega
  have power : pageBytes / max width 1 < 2 * pageSize width := by
    rw [pageSize, pageShift, Nat.one_shiftLeft, ← Nat.pow_succ']
    exact Nat.lt_log2_self
  calc pageBytes
      < max width 1 * (pageBytes / max width 1 + 1) := Nat.lt_mul_div_succ _ positive
    _ ≤ max width 1 * (2 * pageSize width) := Nat.mul_le_mul_left _ power
    _ = 2 * (max width 1 * pageSize width) := Nat.mul_left_comm _ _ _

/-- If the table of pages cannot be addressed, the estimate is cut off at the largest word. -/
theorem arrayBytes_eq_top {capacity width : Nat} (word : capacity ≤ top)
    (large : ¬ Addressable (pageCount capacity width) pagePointerBytes) :
    arrayBytes capacity width = top := by
  have pages : 0x800000000000000 ≤ pageCount capacity width := by
    unfold Addressable pagePointerBytes at large
    omega
  have full : (0x800000000000000 - 1) * pageSize width ≤ capacity := by
    have filled : 0x800000000000000 * pageSize width ≤ capacity + pageSize width - 1 :=
      (Nat.le_div_iff_mul_le (pageSize_pos width)).mp pages
    omega
  have wide : top < capacity * max width 1 := by
    have half := pageBytes_lt width
    have less := Nat.mul_le_mul_right (max width 1) full
    rw [Nat.mul_assoc, Nat.mul_comm (pageSize width)] at less
    unfold pageBytes at half
    unfold top
    omega
  have elements : satMul capacity width = top := by
    have positive : width ≠ 0 := by
      rintro rfl
      rw [Nat.zero_max, Nat.mul_one] at wide
      omega
    have same : max width 1 = width := by omega
    rw [same] at wide
    exact Nat.min_eq_right (Nat.le_of_lt wide)
  rw [arrayBytes, elements]
  exact Nat.min_eq_right (Nat.le_add_left _ _)

end Memory

namespace Budget

open Memory

variable {ι : Type} {c : Catalogue ι}

/-! ### One access of a call -/

namespace Request

def Makes (c : Catalogue ι) : Request ι → Live c → Prop
  | .reserve _, _ => False
  | .paged kind capacity, live => live = .paged kind (.replicate capacity (c.initial kind))
  | .atomic capacity, live => live = .atomic (.replicate capacity 0)

/-- What a new array frees when it is dropped is what was reserved for it. -/
theorem Makes.bytes_eq {request : Request ι} {live : Live c} (makes : request.Makes c live) :
    live.bytes = request.bytes c := by
  cases request with
  | reserve _ => exact makes.elim
  | paged _ _ | atomic _ =>
      cases makes
      rfl

/-- What an access of the call for a request can make of the gauge, and where it can leave the
call. -/
inductive Step (c : Catalogue ι) (request : Request ι) (gauge : Gauge) :
    Gauge → Turn Reservation (Outcome c) → Prop
  | waits (room : request.bytes c ≤ gauge.available) :
      Step c request gauge gauge (.more (.exchange gauge.available))
  | refused (short : gauge.available < request.bytes c) :
      Step c request gauge gauge
        (.done (.ok (.error (.reservationExceeded (request.bytes c) gauge.available))))
  | reserved (room : request.bytes c ≤ gauge.available) :
      Step c request gauge ⟨gauge.available - request.bytes c⟩
        (.done (.ok (.ok (.left (gauge.available - request.bytes c)))))
  | created {live : Live c} (makes : request.Makes c live)
      (room : request.bytes c ≤ gauge.available) :
      Step c request gauge ⟨gauge.available - request.bytes c⟩ (.done (.ok (.ok (.array live))))
  | broken (large : ¬ request.Allocatable c) (room : request.bytes c ≤ gauge.available) :
      Step c request gauge ⟨gauge.available - request.bytes c⟩ (.done (.error .capacityOverflow))

def finish (c : Catalogue ι) : Request ι → Except Fault Nat → Outcome c
  | .reserve _, answer => .ok (answer.map .left)
  | .paged kind capacity, answer => (PagedArray.grant capacity (c.initial kind) answer).map
      (·.map fun array => .array (.paged kind array))
  | .atomic capacity, answer => (PagedArray.grant capacity (0 : Int) answer).map
      (·.map fun cells => .array (.atomic cells))

/-- Every call reserves the bytes and then ends. -/
theorem serve_eq (request : Request ι) :
    request.serve c = (Gauge.reservation (request.bytes c)).map (request.finish c) := by
  cases request with
  | reserve bytes => rfl
  | paged kind capacity => exact Machine.map_map _ _ _
  | atomic capacity => exact Machine.map_map _ _ _

/-- With the bytes reserved the call gains what was asked for, or it cannot be allocated. -/
theorem step_finish {request : Request ι} {gauge : Gauge}
    (room : request.bytes c ≤ gauge.available) :
    request.Step c gauge ⟨gauge.available - request.bytes c⟩
      (.done (request.finish c (.ok (gauge.available - request.bytes c)))) := by
  cases request with
  | reserve bytes => exact .reserved room
  | paged kind capacity =>
      by_cases fits : Addressable (pageCount capacity (c.width kind)) pagePointerBytes
      · rw [finish, PagedArray.grant, PagedArray.allocate, if_pos fits]
        exact .created rfl room
      · rw [finish, PagedArray.grant, PagedArray.allocate, if_neg fits]
        exact .broken fits room
  | atomic capacity =>
      by_cases fits : Addressable (pageCount capacity 8) pagePointerBytes
      · rw [finish, PagedArray.grant, PagedArray.allocate, if_pos fits]
        exact .created rfl room
      · rw [finish, PagedArray.grant, PagedArray.allocate, if_neg fits]
        exact .broken fits room

theorem finish_error (request : Request ι) (fault : Fault) :
    request.finish c (.error fault) = .ok (.error fault) := by
  cases request <;> rfl

/-- Every access of a call is one of these if its exchange is tried from enough headroom. -/
theorem step_serve {request : Request ι} {point : Reservation}
    (sane : ∀ observed, point = .exchange observed → request.bytes c ≤ observed) (lucky : Bool)
    (gauge : Gauge) :
    request.Step c gauge ((request.serve c).step lucky gauge point).1
      ((request.serve c).step lucky gauge point).2 := by
  have moves := Gauge.step_reservation sane lucky gauge
  rw [serve_eq, Machine.step_map]
  generalize (Gauge.reservation (request.bytes c)).step lucky gauge point = moved at moves ⊢
  cases moves with
  | waits room => exact .waits room
  | refused short =>
      rw [Turn.map, finish_error]
      exact .refused short
  | taken room => exact step_finish room

theorem bytes_eq_top {request : Request ι} (word : request.InWord)
    (large : ¬ request.Allocatable c) : request.bytes c = Word.top := by
  cases request with
  | reserve _ => exact absurd trivial large
  | paged _ _ | atomic _ => exact arrayBytes_eq_top word large

end Request

/-! ### One deed of a client -/

/-- The bytes are none, or they cover a request that is allowed and cannot be allocated. -/
def Strandable (c : Catalogue ι) (Allowed : Request ι → Prop) (bytes : Nat) : Prop :=
  bytes = 0 ∨ ∃ request, Allowed request ∧ ¬ request.Allocatable c ∧ request.bytes c ≤ bytes

namespace Client

variable {Allowed : Request ι → Prop}

/-- The call in progress serves a request that is allowed, and if it is about to exchange, the
headroom was large enough when it was seen. -/
def Serves (Allowed : Request ι → Prop) (client : Client c) : Prop :=
  ∀ request point, client.call = some (request, point) →
    Allowed request ∧ ∀ observed, point = .exchange observed → request.bytes c ≤ observed

theorem serves_of_idle {client : Client c} (idle : client.call = none) : client.Serves Allowed :=
  fun _ _ calls => by cases idle.symm.trans calls

/-- What a deed keeps: no byte appears or disappears, the client goes on serving requests that are
allowed, and bytes are only stranded for what cannot be allocated. -/
structure Kept (Allowed : Request ι → Prop) (gauge : Gauge) (client : Client c)
    (outcome : Gauge × Client c × Nat) : Prop where
  balance : outcome.1.available + outcome.2.1.held + outcome.2.2 = gauge.available + client.held
  serves : outcome.2.1.Serves Allowed
  strands : Strandable c Allowed outcome.2.2

theorem Kept.refl {client : Client c} (serves : client.Serves Allowed) (gauge : Gauge) :
    client.Kept Allowed gauge (gauge, client, 0) := ⟨rfl, serves, .inl rfl⟩

/-- Dropping an array moves its bytes from the arrays to the bytes in hand. -/
theorem sum_eraseIdx {lives : List (Live c)} {array : Nat} {live : Live c}
    (here : lives[array]? = some live) :
    live.bytes + ((lives.eraseIdx array).map Live.bytes).sum = (lives.map Live.bytes).sum := by
  obtain ⟨inside, rfl⟩ := List.getElem?_eq_some_iff.mp here
  exact ((List.getElem_cons_eraseIdx_perm inside).map Live.bytes).sum_eq

/-- What a call takes from the gauge its client has, or it is stranded. -/
theorem kept_access {client : Client c} {request : Request ι} {gauge after : Gauge}
    {turn : Turn Reservation (Outcome c)} (allowed : Allowed request)
    (step : request.Step c gauge after turn) :
    client.Kept Allowed gauge (after, client.after request turn, request.strands c turn) := by
  cases step with
  | waits room =>
      refine ⟨rfl, fun _ _ calls => ?_, .inl rfl⟩
      cases calls
      exact ⟨allowed, fun _ exchanges => by cases exchanges; exact room⟩
  | refused short => exact ⟨rfl, serves_of_idle rfl, .inl rfl⟩
  | reserved room =>
      refine ⟨?_, serves_of_idle rfl, .inl rfl⟩
      simp only [Client.after, idle, held, Request.strands]
      omega
  | created makes room =>
      refine ⟨?_, serves_of_idle rfl, .inl rfl⟩
      have same := makes.bytes_eq
      simp only [Client.after, idle, held, Request.strands, List.map_append, List.sum_append,
        List.map_cons, List.map_nil, List.sum_cons, List.sum_nil]
      omega
  | broken large room =>
      refine ⟨?_, serves_of_idle rfl, .inr ⟨request, allowed, large, Nat.le_refl _⟩⟩
      simp only [Client.after, idle, held, Request.strands]
      omega

theorem available_release {gauge : Gauge} {client : Client c} {bytes : Nat}
    (small : gauge.available + client.held ≤ Word.top) (inHand : bytes ≤ client.loose) :
    (gauge.release bytes).available = gauge.available + bytes := by
  have less : gauge.available + bytes < Word.modulus := by
    unfold held Word.top at small
    unfold Word.modulus
    omega
  exact Nat.mod_eq_of_lt less

theorem kept_act {gauge : Gauge} {client : Client c} (serves : client.Serves Allowed)
    (small : gauge.available + client.held ≤ Word.top) (deed : Deed ι)
    (allowed : ∀ request, deed = .ask request → Allowed request) :
    client.Kept Allowed gauge (client.act gauge deed) := by
  cases deed with
  | ask request =>
      simp only [act]
      split
      · refine ⟨rfl, fun _ _ calls => ?_, .inl rfl⟩
        cases calls
        exact ⟨allowed request rfl, fun _ exchanges => by cases exchanges⟩
      · exact .refl serves gauge
  | access lucky =>
      simp only [act]
      split
      · next request point calls =>
          obtain ⟨isAllowed, sane⟩ := serves request point calls
          exact kept_access isAllowed (Request.step_serve sane lucky gauge)
      · exact .refl serves gauge
  | drop array =>
      simp only [act]
      split
      · next live here =>
          refine ⟨?_, serves, .inl rfl⟩
          have same := sum_eraseIdx here
          simp only [held]
          omega
      · exact .refl serves gauge
  | giveBack bytes =>
      simp only [act]
      split
      · next inHand =>
          refine ⟨?_, serves, .inl rfl⟩
          simp only [available_release small inHand, held]
          omega
      · exact .refl serves gauge

end Client

/-! ### Every interleaving -/

namespace Ledger

variable {Allowed : Request ι → Prop} {budget : Nat} {ledger : Ledger c}

/-- No byte is missing, every call serves a request that is allowed, and what is stranded is
stranded for requests that cannot be allocated. -/
structure Sound (Allowed : Request ι → Prop) (budget : Nat) (ledger : Ledger c) : Prop where
  balance : ledger.gauge.available + ledger.held + ledger.stranded = budget
  serves : ∀ client ∈ ledger.clients, client.Serves Allowed
  strands : Strandable c Allowed ledger.stranded

theorem sound_opened (c : Catalogue ι) (Allowed : Request ι → Prop) (budget : Nat) :
    (opened c budget).Sound Allowed budget :=
  ⟨rfl, fun _ member => absurd member List.not_mem_nil, .inl rfl⟩

theorem Strandable.add {bytes more : Nat} (first : Strandable c Allowed bytes)
    (second : Strandable c Allowed more) : Strandable c Allowed (bytes + more) := by
  rcases first with rfl | ⟨request, allowed, large, covers⟩
  · rwa [Nat.zero_add]
  · exact .inr ⟨request, allowed, large, Nat.le_add_right_of_le covers⟩

/-- What is available and what one client holds is no more than the budget. -/
theorem Sound.small (sound : ledger.Sound Allowed budget) {client : Client c}
    (member : client ∈ ledger.clients) : ledger.gauge.available + client.held ≤ budget := by
  have share : client.held ≤ ledger.held := List.le_sum_of_mem (List.mem_map_of_mem member)
  have balance := sound.balance
  omega

/-- One move keeps a ledger sound. -/
theorem Sound.apply (sound : ledger.Sound Allowed budget) (fits : budget ≤ Word.top)
    {move : Move ι} (allowed : ∀ number request, move = .act number (.ask request) →
      Allowed request) : (ledger.apply move).Sound Allowed budget := by
  cases move with
  | join =>
      refine ⟨?_, fun client member => ?_, sound.strands⟩
      · have balance := sound.balance
        simp only [held] at balance
        simp only [Ledger.apply, held, List.map_append, List.sum_append, List.map_cons,
          List.map_nil, List.sum_cons, List.sum_nil, Client.held]
        omega
      · rcases List.mem_append.mp member with old | new
        · exact sound.serves client old
        · rw [List.mem_singleton.mp new]
          exact Client.serves_of_idle rfl
  | act number deed =>
      simp only [Ledger.apply]
      split
      · next client here =>
          have member := List.mem_of_getElem? here
          have kept := Client.kept_act (sound.serves client member)
            ((sound.small member).trans fits) deed
            fun request asks => allowed number request (by rw [asks])
          generalize client.act ledger.gauge deed = outcome at kept ⊢
          obtain ⟨gauge, after, stranded⟩ := outcome
          have moved : gauge.available + after.held + stranded =
            ledger.gauge.available + client.held := kept.balance
          obtain ⟨inside, rfl⟩ := List.getElem?_eq_some_iff.mp here
          -- All others keep what they hold, so the sum changes by the share of this client.
          obtain ⟨before, later, all, -, changed⟩ :=
            @List.exists_of_set _ number after ledger.clients inside
          refine ⟨?_, fun client member => ?_, Strandable.add sound.strands kept.strands⟩
          · have balance := sound.balance
            rw [held, all] at balance
            simp only [held, changed]
            simp only [List.map_append, List.map_cons, List.sum_append, List.sum_cons] at balance ⊢
            omega
          · rcases List.mem_or_eq_of_mem_set member with old | rfl
            · exact sound.serves client old
            · exact kept.serves
      · exact sound

theorem Sound.replay (sound : ledger.Sound Allowed budget) (fits : budget ≤ Word.top)
    {moves : List (Move ι)}
    (allowed : ∀ number request, .act number (.ask request) ∈ moves → Allowed request) :
    (ledger.replay moves).Sound Allowed budget := by
  induction moves generalizing ledger with
  | nil => exact sound
  | cons move moves ih =>
      refine ih (sound.apply fits fun number request asks => ?_) fun number request member => ?_
      · exact allowed number request (asks ▸ List.mem_cons_self)
      · exact allowed number request (List.mem_cons_of_mem move member)

/-! ### What clients can rely on -/

theorem apply_access {number : Nat} {client : Client c} {request : Request ι}
    {point : Reservation} (here : ledger.clients[number]? = some client)
    (calls : client.call = some (request, point)) (lucky : Bool) :
    ledger.apply (.act number (.access lucky)) =
      { gauge := ((request.serve c).step lucky ledger.gauge point).1
        clients := ledger.clients.set number
          (client.after request ((request.serve c).step lucky ledger.gauge point).2)
        stranded := ledger.stranded +
          request.strands c ((request.serve c).step lucky ledger.gauge point).2 } := by
  simp only [Ledger.apply, here, Client.act, calls]

/-- What a call returns in its next access is what such an access can do. -/
theorem Sound.step_of_answer (sound : ledger.Sound Allowed budget) {number : Nat} {lucky : Bool}
    {request : Request ι} {outcome : Outcome c}
    (answers : ledger.answer? number lucky = some (request, outcome)) :
    ∃ client after, ledger.clients[number]? = some client ∧
      request.Step c ledger.gauge after (.done outcome) ∧
      ledger.apply (.act number (.access lucky)) =
        { gauge := after
          clients := ledger.clients.set number (client.after request (.done outcome))
          stranded := ledger.stranded + request.strands c (.done outcome) } := by
  simp only [answer?, Option.bind_eq_bind, Option.bind_eq_some_iff] at answers
  obtain ⟨client, here, ⟨served, point⟩, calls, returns⟩ := answers
  have step := Request.step_serve (sound.serves client (List.mem_of_getElem? here) served
    point calls).2 lucky ledger.gauge
  rw [apply_access here calls]
  split at returns
  · next ended turn =>
      cases returns
      rw [turn] at step ⊢
      exact ⟨client, _, here, step, rfl⟩
  · cases returns

/-- A client whose call does not return in its next access, or who does not call, leaves the gauge
as it is. -/
theorem Sound.gauge_of_silence (sound : ledger.Sound Allowed budget) {number : Nat} {lucky : Bool}
    (silent : ledger.answer? number lucky = none) :
    (ledger.apply (.act number (.access lucky))).gauge = ledger.gauge := by
  cases here : ledger.clients[number]? with
  | none => simp only [Ledger.apply, here]
  | some client =>
      cases calls : client.call with
      | none => simp only [Ledger.apply, here, Client.act, calls]
      | some call =>
          obtain ⟨request, point⟩ := call
          have step := Request.step_serve (sound.serves client (List.mem_of_getElem? here) request
            point calls).2 lucky ledger.gauge
          simp only [answer?, here, calls, Option.bind_eq_bind, Option.bind_some] at silent
          rw [apply_access here calls]
          split at silent
          · cases silent
          · next goesOn turn =>
              rw [turn] at step
              generalize ((request.serve c).step lucky ledger.gauge point).1 = after at step ⊢
              cases step with
              | waits room => rfl

/-- What the clients of a budget can rely on. What is available and what is held make up the budget,
but for what is stranded, and giving back what is in hand adds it to what is available. A call is
refused only if the headroom is smaller at that moment than what it asks for. A reservation answers
what its own exchange has left, and a new array is as it was asked for and frees what was taken for
it. Bytes are taken in vain only for an array whose table of pages cannot be addressed. -/
structure Reliable (budget : Nat) (ledger : Ledger c) : Prop where
  balance : ledger.gauge.available + ledger.held + ledger.stranded = budget
  returned : ∀ number client bytes, ledger.clients[number]? = some client → bytes ≤ client.loose →
    (ledger.apply (.act number (.giveBack bytes))).gauge.available = ledger.gauge.available + bytes
  refused : ∀ number lucky request fault,
    ledger.answer? number lucky = some (request, .ok (.error fault)) →
      fault = .reservationExceeded (request.bytes c) ledger.gauge.available ∧
      ledger.gauge.available < request.bytes c ∧
      ∃ client, ledger.clients[number]? = some client ∧
        ledger.apply (.act number (.access lucky)) =
          { ledger with clients := ledger.clients.set number client.idle }
  reserved : ∀ number lucky request remaining,
    ledger.answer? number lucky = some (request, .ok (.ok (.left remaining))) →
      remaining + request.bytes c = ledger.gauge.available ∧
      (ledger.apply (.act number (.access lucky))).gauge.available = remaining
  created : ∀ number lucky request live,
    ledger.answer? number lucky = some (request, .ok (.ok (.array live))) →
      request.Makes c live ∧
      (ledger.apply (.act number (.access lucky))).gauge.available + live.bytes =
        ledger.gauge.available
  broken : ∀ number lucky request violation,
    ledger.answer? number lucky = some (request, .error violation) →
      violation = .capacityOverflow ∧ ¬ request.Allocatable c ∧
      (ledger.apply (.act number (.access lucky))).stranded =
        ledger.stranded + request.bytes c
  silent : ∀ number lucky, ledger.answer? number lucky = none →
    (ledger.apply (.act number (.access lucky))).gauge = ledger.gauge

theorem Sound.reliable (sound : ledger.Sound Allowed budget) (fits : budget ≤ Word.top) :
    ledger.Reliable budget where
  balance := sound.balance
  returned number client bytes here inHand := by
    have small := (sound.small (List.mem_of_getElem? here)).trans fits
    simp only [Ledger.apply, here, Client.act, if_pos inHand]
    exact Client.available_release small inHand
  refused number lucky request fault answers := by
    obtain ⟨client, after, here, step, next⟩ := sound.step_of_answer answers
    cases step with
    | refused short => exact ⟨rfl, short, client, here, next⟩
  reserved number lucky request remaining answers := by
    obtain ⟨client, after, here, step, next⟩ := sound.step_of_answer answers
    cases step with
    | reserved room => exact ⟨Nat.sub_add_cancel room, by rw [next]⟩
  created number lucky request live answers := by
    obtain ⟨client, after, here, step, next⟩ := sound.step_of_answer answers
    cases step with
    | created makes room => exact ⟨makes, by rw [next, makes.bytes_eq, Nat.sub_add_cancel room]⟩
  broken number lucky request violation answers := by
    obtain ⟨client, after, here, step, next⟩ := sound.step_of_answer answers
    cases step with
    | broken large room => exact ⟨rfl, large, by rw [next]; rfl⟩
  silent number lucky silent := sound.gauge_of_silence silent

/-- However the calls of any number of clients interleave, what is available, held and stranded make
up the budget, and the clients can rely on every answer; once nothing is held, everything that is
not stranded is available again. Bytes are only stranded for an array whose table of pages cannot be
addressed, and if its capacity is a word that takes the whole of the largest budget. -/
theorem budget_kept (c : Catalogue ι) {budget : Nat} (fits : budget ≤ Word.top)
    (moves : List (Move ι)) :
    let ledger := (opened c budget).replay moves
    ledger.Reliable budget ∧
    (ledger.held = 0 → ledger.gauge.available + ledger.stranded = budget) ∧
    (ledger.stranded ≠ 0 → ∃ number request, .act number (.ask request) ∈ moves ∧
      ¬ request.Allocatable c ∧
      (request.InWord → ledger.stranded = budget ∧ budget = Word.top)) := by
  have sound : ((opened c budget).replay moves).Sound
      (fun request => ∃ number, .act number (.ask request) ∈ moves) budget :=
    (sound_opened c _ budget).replay fits fun number request asks => ⟨number, asks⟩
  have balance := sound.balance
  refine ⟨sound.reliable fits, fun nothing => ?_, fun some => ?_⟩
  · rwa [nothing, Nat.add_zero] at balance
  · rcases sound.strands with none | ⟨request, ⟨number, asks⟩, large, covers⟩
    · exact absurd none some
    · refine ⟨number, request, asks, large, fun word => ?_⟩
      -- What is stranded covers the largest word, and is part of a budget that is no larger.
      rw [Request.bytes_eq_top word large] at covers
      omega

/-- One kind of elements, each of them wider than a page. -/
def wide : Catalogue Unit := ⟨fun _ => 40000, fun _ => Nat, fun _ => 0⟩

/-- The first client wants `60000` bytes and is overtaken by the second, who creates four cells, and
then delayed by an exchange that fails for no reason. An element is refused to the second client,
and everything is given back. -/
def contention : List (Move Unit) :=
  [.join, .join, .act 0 (.ask (.reserve 60000)), .act 1 (.ask (.atomic 4)),
    .act 0 (.access true), .act 1 (.access true), .act 1 (.access true),
    .act 0 (.access true), .act 0 (.access false), .act 0 (.access true),
    .act 1 (.ask (.paged () 1)), .act 1 (.access true),
    .act 1 (.drop 0), .act 0 (.giveBack 60000), .act 1 (.giveBack 96)]

theorem budget_kept_contention :
    100000 ≤ Word.top ∧
    ((opened wide 100000).replay (contention.take 10)).gauge.available = 39904 ∧
    ((opened wide 100000).replay (contention.take 11)).gauge.available < 40064 ∧
    ((opened wide 100000).replay contention).gauge.available = 100000 := by
  have fits : 100000 ≤ Word.top := by decide
  have refused := (budget_kept wide fits (contention.take 11)).1.refused 1 true (.paged () 1) _ rfl
  have settled := (budget_kept wide fits contention).2.1 (by decide +kernel)
  have nothing : ((opened wide 100000).replay contention).stranded = 0 := by decide +kernel
  exact ⟨fits, by decide +kernel, refused.2.1, by omega⟩

/-- The pages of `2 ^ 60` wide elements cannot be listed, and their bytes are cut off at the largest
word: the client gets nothing, holds nothing, and nothing is left of the budget. -/
theorem budget_stranded :
    let ledger := (opened wide Word.top).replay [.join, .act 0 (.ask (.paged () (2 ^ 60))),
      .act 0 (.access true), .act 0 (.access true)]
    ledger.held = 0 ∧ ledger.gauge.available = 0 ∧
      ledger.gauge.available + ledger.held ≠ Word.top := by
  decide +kernel

end Ledger

end Budget

end GraphAnalytics
