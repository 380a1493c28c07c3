import LegacyV4v.GuardedRun
import LegacyV4v.StreamSocket
import Mathlib.Data.List.AList

/-! # Who holds a ring

A ring is shared by its sponsor, by the accepted connections in `r->privates`, and by calls of
`v4v_accept` that have taken a reference and not yet linked their socket.  `refcnt` counts them,
and the ring goes with the last.

Two things go wrong.  `v4v_release` drops the reference of an accepted socket before it takes the
socket off the list: if it is the last, `delete_ring` finds the socket still linked, complains,
and frees the list that is unlinked from next.  And `new_ring`, when it fails because the socket
is in use, clears `sponsor->r` all the same: an accepted socket on which bind is called forgets
its ring, and once it is closed it stays in `r->privates` for ever.  `Careful` excludes the two,
and then the count is exact, all sockets of a ring are open and point to it, and a ring goes
when nobody is left. -/
namespace V4v.Linux
open GuardedRun

/-! ## Rings and sockets -/

/-- `v4v_ptype`. -/
inductive PType where
  | dgram
  | stream
  deriving DecidableEq, Repr

/-- `struct ring`, with the addresses of its sockets. -/
structure RingObj where
  id : RingId
  type : RType
  sponsor : Option Nat
  privates : List Nat
  refcnt : Int
  deriving DecidableEq, Repr

/-- `struct v4v_private`, with the address of its ring. -/
structure SockObj where
  ptype : PType
  state : SockState
  r : Option Nat
  deriving DecidableEq, Repr

/-- The rings of `ring_list` and the open sockets, by address; the calls of `v4v_accept` that
have taken a reference, each with its socket to be and the ring; and what `delete_ring` found in
the rings that it deleted. -/
structure Heap where
  rings : AList fun _ : Nat => RingObj
  socks : AList fun _ : Nat => SockObj
  accepting : List (Nat × Nat)
  deleted : List RingObj

/-- What `new_ring` gets: the address of the new ring, whether there is memory, the port that
`v4v_find_spare_port_number` returns, and whether `register_ring` succeeds. -/
structure NewRing where
  addr : Nat
  allocates : Bool
  spare : UInt32
  registers : Bool

namespace Heap

/-- `v4v_id_in_use`. -/
def idInUse (s : Heap) (id : RingId) : Bool :=
  s.rings.entries.any fun x => x.2.id.addr.port == id.addr.port && x.2.id.partner == id.partner

/-- `delete_ring`, which looks at the ring only to complain. -/
def deleteRing (s : Heap) (i : Nat) (r : RingObj) : Heap :=
  { s with rings := s.rings.erase i, deleted := r :: s.deleted }

/-- `get_ring`. -/
def getRing (s : Heap) (i : Nat) : Option Heap :=
  match s.rings.lookup i with
  | none => none
  | some r =>
    if r.refcnt = 0 then none
    else some { s with rings := s.rings.insert i { r with refcnt := r.refcnt + 1 } }

/-- `put_ring`. -/
def putRing (s : Heap) (i : Nat) : Heap :=
  match s.rings.lookup i with
  | none => s
  | some r =>
    if r.refcnt - 1 = 0 then s.deleteRing i { r with refcnt := r.refcnt - 1 }
    else { s with rings := s.rings.insert i { r with refcnt := r.refcnt - 1 } }

/-- Change the ring at `i`, if there is one. -/
def modifyRing (s : Heap) (i : Nat) (f : RingObj → RingObj) : Heap :=
  match s.rings.lookup i with
  | none => s
  | some r => { s with rings := s.rings.insert i (f r) }

/-- `new_ring`, and whether it succeeds.  The reset after a failure is outside the lock. -/
def newRing (s : Heap) (p : Nat) (k : SockObj) (id : RingId) (n : NewRing) : Bool × Heap :=
  if id.addr.domain ≠ domidAny then (false, s)
  else if n.allocates = false then (false, s)
  else
    let reset := { s with socks := s.socks.insert p { k with r := none, state := .idle } }
    if k.state ≠ .idle then (false, reset)
    else if id.addr.port ≠ 0 ∧ s.idInUse id = true then (false, reset)
    else if n.registers = false then (false, reset)
    else
      let port := if id.addr.port = 0 then n.spare else id.addr.port
      (true, { s with
        rings := s.rings.insert n.addr ⟨⟨⟨port, id.addr.domain⟩, id.partner⟩, .idle, some p, [], 1⟩
        socks := s.socks.insert p { k with r := some n.addr, state := .bound } })

/-- `v4v_bind`. -/
def bind (s : Heap) (p : Nat) (k : SockObj) (id : RingId) (n : NewRing) : Heap :=
  if id.addr.domain ≠ domidAny then s
  else
    let out := s.newRing p k id n
    if k.ptype = .dgram ∧ out.1 = true then out.2.modifyRing n.addr fun r => { r with type := .dgram }
    else out.2

/-- `v4v_listen`. -/
def listen (s : Heap) (p : Nat) (k : SockObj) : Heap :=
  if k.ptype = .stream ∧ k.state = .bound then
    match k.r with
    | none => s
    | some i =>
      { s.modifyRing i fun r => { r with type := .listener } with
        socks := s.socks.insert p { k with state := .listening } }
  else s

/-- `v4v_accept`, when it has an entry, up to `get_ring`; `a` is the address of the new socket. -/
def acceptBegin (s : Heap) (k : SockObj) (a : Nat) : Heap :=
  if k.ptype = .stream ∧ k.state = .listening then
    match k.r with
    | none => s
    | some i =>
      match s.getRing i with
      | none => s
      | some s' => { s' with accepting := (a, i) :: s'.accepting }
  else s

/-- The rest of `v4v_accept`, which links the socket, or drops the reference if there is no file
descriptor. -/
def acceptEnd (s : Heap) (a i : Nat) (okay : Bool) : Heap :=
  if okay then
    { s.modifyRing i fun r => { r with privates := a :: r.privates } with
      socks := s.socks.insert a ⟨.stream, .accepted, some i⟩
      accepting := s.accepting.erase (a, i) }
  else
    { s.putRing i with accepting := s.accepting.erase (a, i) }

/-- `v4v_release`. -/
def release (s : Heap) (p : Nat) (k : SockObj) : Heap :=
  let s' :=
    match k.r with
    | none => s
    | some i =>
      match s.rings.lookup i with
      | none => s
      | some r =>
        if r.sponsor ≠ some p then
          (s.putRing i).modifyRing i fun r => { r with privates := r.privates.erase p }
        else
          putRing { s with rings := s.rings.insert i { r with sponsor := none } } i
  { s' with socks := s'.socks.erase p }

end Heap

/-! ## Runs -/

/-- What the sockets' users do. -/
inductive OwnAct where
  | openSock (p : Nat) (ptype : PType)
  | bind (p : Nat) (id : RingId) (n : NewRing)
  | listen (p : Nat)
  | acceptBegin (p a : Nat)
  | acceptEnd (a i : Nat) (okay : Bool)
  | release (p : Nat)

namespace Heap

/-- Nothing is at the address, and no call of `v4v_accept` has it. -/
def Free (s : Heap) (a : Nat) : Prop := s.socks.lookup a = none ∧ ∀ x ∈ s.accepting, x.1 ≠ a

/-- One step.  A new ring and a new socket get addresses where nothing is. -/
inductive Step (s : Heap) : OwnAct → Heap → Prop
  | openSock {p : Nat} {ptype : PType} : s.Free p →
      Step s (.openSock p ptype) { s with socks := s.socks.insert p ⟨ptype, .idle, none⟩ }
  | bind {p : Nat} {k : SockObj} {id : RingId} {n : NewRing} : s.socks.lookup p = some k →
      s.rings.lookup n.addr = none → Step s (.bind p id n) (s.bind p k id n)
  | listen {p : Nat} {k : SockObj} : s.socks.lookup p = some k → Step s (.listen p) (s.listen p k)
  | acceptBegin {p a : Nat} {k : SockObj} : s.socks.lookup p = some k → s.Free a →
      Step s (.acceptBegin p a) (s.acceptBegin k a)
  | acceptEnd {a i : Nat} {okay : Bool} : (a, i) ∈ s.accepting →
      Step s (.acceptEnd a i okay) (s.acceptEnd a i okay)
  | release {p : Nat} {k : SockObj} : s.socks.lookup p = some k →
      Step s (.release p) (s.release p k)

/-- No socket, no ring. -/
def init : Heap := ⟨∅, ∅, [], []⟩

/-- The states to which steps that satisfy `ok` lead. -/
abbrev Reached (ok : Heap → OwnAct → Prop) : Heap → Prop := Reachable (fun s => s = init) Step ok

/-- What the driver relies on: an accepted socket that is closed is not the last to hold its
ring, and bind is not called on an accepted socket, unless it fails before it looks at it. -/
def Careful (s : Heap) : OwnAct → Prop
  | .bind p id n => id.addr.domain = domidAny → n.allocates = true →
    ∀ i r, s.rings.lookup i = some r → p ∉ r.privates
  | .release p => ∀ k i r, s.socks.lookup p = some k → k.r = some i →
    s.rings.lookup i = some r → r.sponsor ≠ some p → r.refcnt ≠ 1
  | _ => True

/-- How many hold the ring at `i`. -/
def holders (s : Heap) (i : Nat) (r : RingObj) : Nat :=
  (if r.sponsor.isSome then 1 else 0) + r.privates.length + s.accepting.countP fun x => x.2 == i

/-- The sockets of a ring are open and point to it, and a socket points to a ring of which it is
one; a call of `v4v_accept` in progress has its ring; and nobody held the rings that are gone. -/
structure Linked (s : Heap) : Prop where
  privates : ∀ i r p, s.rings.lookup i = some r → p ∈ r.privates → r.sponsor ≠ some p ∧
    ∃ k, s.socks.lookup p = some k ∧ k.r = some i ∧ k.state = .accepted
  nodup : ∀ i r, s.rings.lookup i = some r → r.privates.Nodup
  pointer : ∀ p k i, s.socks.lookup p = some k → k.r = some i →
    ∃ r, s.rings.lookup i = some r ∧ (r.sponsor = some p ∨ p ∈ r.privates)
  idle : ∀ p k, s.socks.lookup p = some k → k.state = .idle → k.r = none
  accepting : ∀ x ∈ s.accepting, s.socks.lookup x.1 = none ∧
    ∃ r, s.rings.lookup x.2 = some r ∧ r.sponsor ≠ some x.1
  apart : (s.accepting.map Prod.fst).Nodup
  deleted : ∀ r ∈ s.deleted, r.sponsor = none ∧ r.privates = []

/-- **The invariant.** -/
structure Inv (s : Heap) : Prop extends s.Linked where
  count : ∀ i r, s.rings.lookup i = some r → r.refcnt = s.holders i r ∧ 1 ≤ r.refcnt

/-- What `put_ring` finds: one reference to ring `i` that nobody holds any more. -/
structure Surplus (s : Heap) (i : Nat) (r : RingObj) : Prop extends s.Linked where
  ring : s.rings.lookup i = some r
  count : r.refcnt = s.holders i r + 1
  others : ∀ j r', j ≠ i → s.rings.lookup j = some r' → r'.refcnt = s.holders j r' ∧ 1 ≤ r'.refcnt

theorem Inv.init : Inv init := by
  constructor
  · constructor <;> simp [Heap.init]
  · simp [Heap.init]

/-! ## Lookups -/

theorem lookup_insert_some {β : Type} {m : AList fun _ : Nat => β} {i j : Nat} {a b : β}
    (h : (m.insert i a).lookup j = some b) : j = i ∧ b = a ∨ j ≠ i ∧ m.lookup j = some b := by
  by_cases hji : j = i
  · subst hji
    rw [AList.lookup_insert] at h
    exact .inl ⟨rfl, (Option.some.inj h).symm⟩
  · rw [AList.lookup_insert_ne hji] at h
    exact .inr ⟨hji, h⟩

theorem lookup_erase_some {β : Type} {m : AList fun _ : Nat => β} {i j : Nat} {b : β}
    (h : (m.erase i).lookup j = some b) : j ≠ i ∧ m.lookup j = some b := by
  by_cases hji : j = i
  · subst hji
    rw [AList.lookup_erase] at h
    cases h
  · rw [AList.lookup_erase_ne hji] at h
    exact ⟨hji, h⟩

theorem modifyRing_of_lookup {s : Heap} {i : Nat} {r : RingObj} (f : RingObj → RingObj)
    (h : s.rings.lookup i = some r) :
    s.modifyRing i f = { s with rings := s.rings.insert i (f r) } := by
  rw [modifyRing, h]

/-- An accepted socket is open, and no call of `v4v_accept` has its address. -/
theorem Linked.not_free {s : Heap} (h : s.Linked) {a i p : Nat} {r : RingObj} (ha : s.Free a)
    (hr : s.rings.lookup i = some r) (hp : p ∈ r.privates) : p ≠ a := by
  rintro rfl
  obtain ⟨-, k, hk, -⟩ := h.privates i r p hr hp
  rw [ha.1] at hk
  cases hk

/-- A socket that is not in the accepted state is no accepted socket. -/
theorem Linked.not_private {s : Heap} (h : s.Linked) {p : Nat} {k : SockObj}
    (hk : s.socks.lookup p = some k) (hst : k.state ≠ .accepted) {i : Nat} {r : RingObj}
    (hr : s.rings.lookup i = some r) : p ∉ r.privates := by
  intro hp
  obtain ⟨-, k', hk', -, hst'⟩ := h.privates i r p hr hp
  obtain rfl := Option.some.inj (hk.symm.trans hk')
  exact hst hst'

/-- The ring to which a socket points has it. -/
theorem Linked.owner {s : Heap} (h : s.Linked) {p i : Nat} {k : SockObj} {r : RingObj}
    (hk : s.socks.lookup p = some k) (hki : k.r = some i) (hr : s.rings.lookup i = some r) :
    r.sponsor = some p ∨ p ∈ r.privates := by
  obtain ⟨r', hr', hown⟩ := h.pointer p k i hk hki
  obtain rfl := Option.some.inj (hr.symm.trans hr')
  exact hown

/-- A ring has none of the sockets that calls of `v4v_accept` are about to make. -/
theorem Linked.not_sponsor {s : Heap} (h : s.Linked) {x : Nat × Nat} {r : RingObj}
    (hx : x ∈ s.accepting) (hr : s.rings.lookup x.2 = some r) : r.sponsor ≠ some x.1 := by
  obtain ⟨-, r', hr', hne⟩ := h.accepting x hx
  obtain rfl := Option.some.inj (hr.symm.trans hr')
  exact hne

/-- An accepted socket is one of the ring to which it points. -/
theorem Linked.ring_unique {s : Heap} (h : s.Linked) {p i j : Nat} {k : SockObj} {r : RingObj}
    (hr : s.rings.lookup j = some r) (hp : p ∈ r.privates) (hk : s.socks.lookup p = some k)
    (hki : k.r = some i) : j = i := by
  obtain ⟨-, k', hk', hkj, -⟩ := h.privates j r p hr hp
  obtain rfl := Option.some.inj (hk.symm.trans hk')
  exact Option.some.inj (hkj.symm.trans hki)

theorem Linked.accepting_ne {s : Heap} (h : s.Linked) {x : Nat × Nat} {p : Nat} {k : SockObj}
    (hx : x ∈ s.accepting) (hk : s.socks.lookup p = some k) : x.1 ≠ p := by
  rintro rfl
  rw [(h.accepting x hx).1] at hk
  cases hk

/-- What has to be shown when the ring at `i` changes, and sockets and calls with it. -/
theorem Linked.replace {s : Heap} {i : Nat} {r' : RingObj} {socks : AList fun _ : Nat => SockObj}
    {accepting : List (Nat × Nat)} (h : s.Linked)
    (hprivates : ∀ q ∈ r'.privates, r'.sponsor ≠ some q ∧
      ∃ k, socks.lookup q = some k ∧ k.r = some i ∧ k.state = .accepted)
    (hnodup : r'.privates.Nodup)
    (howner : ∀ q k, socks.lookup q = some k → k.r = some i →
      r'.sponsor = some q ∨ q ∈ r'.privates)
    (hothers : ∀ j r q, j ≠ i → s.rings.lookup j = some r → q ∈ r.privates →
      socks.lookup q = s.socks.lookup q)
    (hold : ∀ q k j, j ≠ i → socks.lookup q = some k → k.r = some j → s.socks.lookup q = some k)
    (hidle : ∀ q k, socks.lookup q = some k → k.state = .idle → k.r = none)
    (haccepting : ∀ x ∈ accepting, x ∈ s.accepting ∧ socks.lookup x.1 = none ∧
      (x.2 = i → r'.sponsor ≠ some x.1))
    (hapart : (accepting.map Prod.fst).Nodup) :
    Linked { s with rings := s.rings.insert i r', socks := socks, accepting := accepting } := by
  refine ⟨?_, ?_, ?_, hidle, ?_, hapart, h.deleted⟩
  · intro j r q hj hq
    rcases lookup_insert_some hj with ⟨rfl, rfl⟩ | ⟨hne, hj⟩
    · exact hprivates q hq
    · obtain ⟨hs, k, hk, hkr, hst⟩ := h.privates j r q hj hq
      exact ⟨hs, k, (hothers j r q hne hj hq).trans hk, hkr, hst⟩
  · intro j r hj
    rcases lookup_insert_some hj with ⟨-, rfl⟩ | ⟨-, hj⟩
    · exact hnodup
    · exact h.nodup j r hj
  · intro q k j hk hkj
    by_cases hji : j = i
    · subst hji
      exact ⟨r', AList.lookup_insert _, howner q k hk hkj⟩
    · obtain ⟨r, hr, hown⟩ := h.pointer q k j (hold q k j hji hk hkj) hkj
      exact ⟨r, (AList.lookup_insert_ne hji).trans hr, hown⟩
  · intro x hx
    obtain ⟨hxs, hfree, hspon⟩ := haccepting x hx
    refine ⟨hfree, ?_⟩
    by_cases hxi : x.2 = i
    · exact ⟨r', by rw [hxi]; exact AList.lookup_insert _, hspon hxi⟩
    · obtain ⟨-, r, hr, hne⟩ := h.accepting x hxs
      exact ⟨r, (AList.lookup_insert_ne hxi).trans hr, hne⟩

/-- A ring that keeps its sockets may change otherwise. -/
theorem Linked.setRing {s : Heap} {i : Nat} {r r' : RingObj} (h : s.Linked)
    (hr : s.rings.lookup i = some r) (hs : r'.sponsor = r.sponsor)
    (hp : r'.privates = r.privates) : Linked { s with rings := s.rings.insert i r' } := by
  refine h.replace ?_ ?_ ?_ (fun _ _ _ _ _ _ => rfl) (fun _ _ _ _ hk _ => hk) h.idle ?_ h.apart
  · intro q hq
    rw [hp] at hq
    rw [hs]
    exact h.privates i r q hr hq
  · rw [hp]
    exact h.nodup i r hr
  · intro q k hk hki
    rw [hs, hp]
    exact h.owner hk hki hr
  · intro x hx
    refine ⟨hx, (h.accepting x hx).1, ?_⟩
    rintro rfl
    rw [hs]
    exact h.not_sponsor hx hr

/-! ## Opening, binding, listening -/

theorem inv_openSock {s : Heap} {p : Nat} {ptype : PType} (h : s.Inv) (hp : s.Free p) :
    Inv { s with socks := s.socks.insert p ⟨ptype, .idle, none⟩ } := by
  refine ⟨⟨?_, h.nodup, ?_, ?_, ?_, h.apart, h.deleted⟩, h.count⟩
  · intro i r q hr hq
    dsimp only
    rw [AList.lookup_insert_ne (h.not_free hp hr hq)]
    exact h.privates i r q hr hq
  · intro q k i hk hki
    rcases lookup_insert_some hk with ⟨-, rfl⟩ | ⟨-, hk⟩
    · cases hki
    · exact h.pointer q k i hk hki
  · intro q k hk hst
    rcases lookup_insert_some hk with ⟨-, rfl⟩ | ⟨-, hk⟩
    · rfl
    · exact h.idle q k hk hst
  · intro x hx
    dsimp only
    rw [AList.lookup_insert_ne (hp.2 x hx)]
    exact h.accepting x hx

/-- A change of a ring that leaves its holders alone. -/
theorem inv_modifyRing {s : Heap} {i : Nat} {f : RingObj → RingObj} (h : s.Inv)
    (hf : ∀ r, (f r).sponsor = r.sponsor ∧ (f r).privates = r.privates ∧ (f r).refcnt = r.refcnt) :
    (s.modifyRing i f).Inv := by
  cases hr : s.rings.lookup i with
  | none =>
    rw [modifyRing, hr]
    exact h
  | some r =>
    rw [modifyRing_of_lookup f hr]
    obtain ⟨hs, hp, hc⟩ := hf r
    refine ⟨h.setRing hr hs hp, ?_⟩
    intro j r' hj
    rcases lookup_insert_some hj with ⟨rfl, rfl⟩ | ⟨-, hj⟩
    · rw [holders, hs, hp, hc]
      exact h.count j r hr
    · exact h.count j r' hj

/-- An open socket that is no accepted one changes, and its ring stays or is forgotten. -/
theorem inv_setSock {s : Heap} {p : Nat} {k k' : SockObj} (h : s.Inv)
    (hk : s.socks.lookup p = some k) (hr : k'.r = k.r ∨ k'.r = none)
    (hidle : k'.state = .idle → k'.r = none)
    (hfree : ∀ i r, s.rings.lookup i = some r → p ∉ r.privates) :
    Inv { s with socks := s.socks.insert p k' } := by
  refine ⟨⟨?_, h.nodup, ?_, ?_, ?_, h.apart, h.deleted⟩, h.count⟩
  · intro i r q hri hq
    have hne : q ≠ p := by
      rintro rfl
      exact hfree i r hri hq
    dsimp only
    rw [AList.lookup_insert_ne hne]
    exact h.privates i r q hri hq
  · intro q x i hx hxi
    rcases lookup_insert_some hx with ⟨rfl, rfl⟩ | ⟨-, hx⟩
    · rcases hr with hr | hr
      · exact h.pointer q k i hk (hr ▸ hxi)
      · rw [hr] at hxi
        cases hxi
    · exact h.pointer q x i hx hxi
  · intro q x hx hst
    rcases lookup_insert_some hx with ⟨-, rfl⟩ | ⟨-, hx⟩
    · exact hidle hst
    · exact h.idle q x hx hst
  · intro x hx
    dsimp only
    rw [AList.lookup_insert_ne (h.accepting_ne hx hk)]
    exact h.accepting x hx

/-- A new ring, for an idle socket. -/
theorem inv_newRing {s : Heap} {p i : Nat} {k : SockObj} {id : RingId} {type : RType} (h : s.Inv)
    (hk : s.socks.lookup p = some k) (hst : k.state = .idle) (hi : s.rings.lookup i = none) :
    Inv { s with
      rings := s.rings.insert i ⟨id, type, some p, [], 1⟩
      socks := s.socks.insert p { k with r := some i, state := .bound } } := by
  have hring : ∀ j r, s.rings.lookup j = some r → j ≠ i := by
    rintro j r hj rfl
    rw [hi] at hj
    cases hj
  have hnone : s.accepting.countP (fun x => x.2 == i) = 0 := by
    rw [List.countP_eq_zero]
    intro x hx
    obtain ⟨-, r, hr, -⟩ := h.accepting x hx
    simpa using hring x.2 r hr
  refine ⟨h.replace (fun q hq => by cases hq) List.nodup_nil ?_ ?_ ?_ ?_ ?_ h.apart, ?_⟩
  · intro q x hx hxi
    rcases lookup_insert_some hx with ⟨rfl, -⟩ | ⟨-, hx⟩
    · exact .inl rfl
    · obtain ⟨r, hr, -⟩ := h.pointer q x i hx hxi
      exact absurd rfl (hring i r hr)
  · intro j r q _ hj hq
    refine AList.lookup_insert_ne ?_
    rintro rfl
    exact h.not_private hk (by simp [hst]) hj hq
  · intro q x j hji hx hxj
    rcases lookup_insert_some hx with ⟨-, rfl⟩ | ⟨-, hx⟩
    · exact absurd (Option.some.inj hxj).symm hji
    · exact hx
  · intro q x hx hst'
    rcases lookup_insert_some hx with ⟨-, rfl⟩ | ⟨-, hx⟩
    · cases hst'
    · exact h.idle q x hx hst'
  · intro x hx
    obtain ⟨hfree, r, hr, -⟩ := h.accepting x hx
    exact ⟨hx, (AList.lookup_insert_ne (h.accepting_ne hx hk)).trans hfree,
      fun hxi => absurd hxi (hring x.2 r hr)⟩
  · intro j r hj
    rcases lookup_insert_some hj with ⟨rfl, rfl⟩ | ⟨-, hj⟩
    · simp [holders, hnone]
    · exact h.count j r hj

theorem inv_bind {s : Heap} {p : Nat} {k : SockObj} {id : RingId} {n : NewRing} (h : s.Inv)
    (hk : s.socks.lookup p = some k) (hn : s.rings.lookup n.addr = none)
    (hok : s.Careful (.bind p id n)) : (s.bind p k id n).Inv := by
  rw [bind]
  split
  · exact h
  · next hdom =>
    have hdom : id.addr.domain = domidAny := by simpa using hdom
    have hnew : (s.newRing p k id n).2.Inv := by
      rw [newRing, if_neg (by simpa using hdom)]
      split
      · exact h
      · next halloc =>
        have hfree := hok hdom (by simpa using halloc)
        have hreset : Inv { s with socks := s.socks.insert p { k with r := none, state := .idle } } :=
          inv_setSock h hk (.inr rfl) (fun _ => rfl) hfree
        dsimp only
        split
        · exact hreset
        · next hst =>
          split
          · exact hreset
          · split
            · exact hreset
            · exact inv_newRing h hk (by simpa using hst) hn
    dsimp only
    split
    · exact inv_modifyRing hnew fun _ => ⟨rfl, rfl, rfl⟩
    · exact hnew

theorem inv_listen {s : Heap} {p : Nat} {k : SockObj} (h : s.Inv)
    (hk : s.socks.lookup p = some k) : (s.listen p k).Inv := by
  rw [listen]
  split
  · next hst =>
    split
    · exact h
    · next i hi =>
      have hmod : (s.modifyRing i fun r => { r with type := .listener }).Inv :=
        inv_modifyRing h fun _ => ⟨rfl, rfl, rfl⟩
      have hsocks : (s.modifyRing i fun r => { r with type := .listener }).socks = s.socks := by
        rw [modifyRing]
        split <;> rfl
      have hk' : (s.modifyRing i fun r => { r with type := .listener }).socks.lookup p = some k := by
        rw [hsocks]
        exact hk
      have hset : Inv { s.modifyRing i fun r => { r with type := .listener } with
          socks := (s.modifyRing i fun r => { r with type := .listener }).socks.insert p
            { k with state := .listening } } :=
        inv_setSock hmod hk' (.inl rfl) (by simp) fun j r hr =>
          hmod.not_private hk' (by simp [hst.2]) hr
      rwa [hsocks] at hset
  · exact h

/-! ## Taking a reference and giving it back -/

theorem inv_acceptBegin {s : Heap} {p a : Nat} {k : SockObj} (h : s.Inv)
    (hk : s.socks.lookup p = some k) (ha : s.Free a) : (s.acceptBegin k a).Inv := by
  rw [acceptBegin]
  split
  · next hst =>
    split
    · exact h
    · next i hi =>
      -- the listener sponsors the ring
      obtain ⟨r, hr, -⟩ := h.pointer p k i hk hi
      have hspon : r.sponsor = some p :=
        (h.owner hk hi hr).resolve_right (h.not_private hk (by simp [hst.2]) hr)
      have hpa : p ≠ a := by
        rintro rfl
        rw [ha.1] at hk
        cases hk
      obtain ⟨hcount, hpos⟩ := h.count i r hr
      have hget : s.getRing i =
          some { s with rings := s.rings.insert i { r with refcnt := r.refcnt + 1 } } := by
        rw [getRing, hr]
        exact if_neg (by omega)
      have hlinked : Linked { s with rings := s.rings.insert i { r with refcnt := r.refcnt + 1 } } :=
        h.setRing hr rfl rfl
      rw [hget]
      refine ⟨⟨hlinked.privates, hlinked.nodup, hlinked.pointer, hlinked.idle, ?_, ?_,
        hlinked.deleted⟩, ?_⟩
      · intro x hx
        rcases List.mem_cons.mp hx with rfl | hx
        · refine ⟨ha.1, _, AList.lookup_insert _, ?_⟩
          dsimp only
          rw [hspon]
          simpa using hpa
        · exact hlinked.accepting x hx
      · refine List.nodup_cons.mpr ⟨?_, h.apart⟩
        intro hmem
        obtain ⟨x, hx, hxa⟩ := List.mem_map.mp hmem
        exact ha.2 x hx hxa
      · intro j r' hj
        rcases lookup_insert_some hj with ⟨rfl, rfl⟩ | ⟨hne, hj⟩
        · simp only [holders, List.countP_cons, beq_self_eq_true, if_true] at hcount ⊢
          omega
        · have hij : ((a, i).2 == j) = false := by simpa using Ne.symm hne
          simpa only [holders, List.countP_cons, hij, Bool.false_eq_true, if_false, Nat.add_zero]
            using h.count j r' hj
  · exact h

/-- `put_ring` drops the reference, and with the last one the ring, which nobody holds then. -/
theorem Surplus.putRing {s : Heap} {i : Nat} {r : RingObj} (h : s.Surplus i r) :
    (s.putRing i).Inv := by
  have hcount := h.count
  rw [Heap.putRing, h.ring]
  dsimp only
  split
  · next hlast =>
    -- nobody is left
    have hnone : s.holders i r = 0 := by omega
    rw [holders, Nat.add_eq_zero_iff, Nat.add_eq_zero_iff, List.length_eq_zero_iff,
      List.countP_eq_zero] at hnone
    obtain ⟨⟨hs, hp⟩, hacc⟩ := hnone
    have hs : r.sponsor = none := by simpa using hs
    have hkeep : ∀ j r', j ≠ i → s.rings.lookup j = some r' →
        (s.rings.erase i).lookup j = some r' :=
      fun j r' hne hj => (AList.lookup_erase_ne hne).trans hj
    refine ⟨⟨?_, ?_, ?_, h.idle, ?_, h.apart, ?_⟩, ?_⟩
    · intro j r' q hj hq
      exact h.privates j r' q (lookup_erase_some hj).2 hq
    · intro j r' hj
      exact h.nodup j r' (lookup_erase_some hj).2
    · intro q x j hx hxj
      obtain ⟨r', hr', hown⟩ := h.pointer q x j hx hxj
      have hne : j ≠ i := by
        rintro rfl
        obtain rfl := Option.some.inj (h.ring.symm.trans hr')
        simp [hs, hp] at hown
      exact ⟨r', hkeep j r' hne hr', hown⟩
    · intro x hx
      obtain ⟨hfree, r', hr', hown⟩ := h.accepting x hx
      exact ⟨hfree, r', hkeep x.2 r' (by simpa using hacc x hx) hr', hown⟩
    · intro x hx
      rcases List.mem_cons.mp hx with rfl | hx
      · exact ⟨hs, hp⟩
      · exact h.deleted x hx
    · intro j r' hj
      obtain ⟨hne, hj⟩ := lookup_erase_some hj
      exact h.others j r' hne hj
  · next hlast =>
    refine ⟨h.setRing h.ring rfl rfl, ?_⟩
    intro j r' hj
    rcases lookup_insert_some hj with ⟨rfl, rfl⟩ | ⟨hne, hj⟩
    · change r.refcnt - 1 = (s.holders j r : Int) ∧ 1 ≤ r.refcnt - 1
      constructor <;> omega
    · exact h.others j r' hne hj

/-! `put_ring` leaves sockets and calls alone. -/

theorem putRing_setSocks (s : Heap) (i : Nat) (socks : AList fun _ : Nat => SockObj) :
    putRing { s with socks := socks } i = { s.putRing i with socks := socks } := by
  simp only [putRing]
  cases s.rings.lookup i with
  | none => rfl
  | some r =>
    dsimp only
    split <;> rfl

theorem putRing_setAccepting (s : Heap) (i : Nat) (accepting : List (Nat × Nat)) :
    putRing { s with accepting := accepting } i = { s.putRing i with accepting := accepting } := by
  simp only [putRing]
  cases s.rings.lookup i with
  | none => rfl
  | some r =>
    dsimp only
    split <;> rfl

/-- A call less at ring `i`, and as many at the others. -/
theorem countP_erase_call {accepting : List (Nat × Nat)} {a i : Nat} (h : (a, i) ∈ accepting)
    (j : Nat) : accepting.countP (fun x => x.2 == j) =
      (accepting.erase (a, i)).countP (fun x => x.2 == j) + if i = j then 1 else 0 := by
  have hperm := List.perm_cons_erase h
  rw [hperm.countP_eq, List.countP_cons]
  congr 1
  by_cases hij : i = j <;> simp [hij]

theorem inv_acceptEnd {s : Heap} {a i : Nat} {okay : Bool} (h : s.Inv)
    (ha : (a, i) ∈ s.accepting) : (s.acceptEnd a i okay).Inv := by
  obtain ⟨hfree, r, hr, hspon⟩ := h.accepting _ ha
  dsimp only at hfree hr hspon
  have hsub := List.erase_sublist (a := (a, i)) (l := s.accepting)
  have hnotin : ∀ x ∈ s.accepting.erase (a, i), x.1 ≠ a := by
    intro x hx
    have hnd : (a :: (s.accepting.erase (a, i)).map Prod.fst).Nodup :=
      ((List.perm_cons_erase ha).map Prod.fst).nodup_iff.mp h.apart
    rintro rfl
    exact (List.nodup_cons.mp hnd).1 (List.mem_map_of_mem hx)
  have hcounts := countP_erase_call ha
  obtain ⟨hcount, hpos⟩ := h.count i r hr
  cases okay with
  | false =>
    have hsurplus : Surplus { s with accepting := s.accepting.erase (a, i) } i r := by
      refine ⟨⟨h.privates, h.nodup, h.pointer, h.idle, ?_, ?_, h.deleted⟩, hr, ?_, ?_⟩
      · exact fun x hx => h.accepting x (hsub.subset hx)
      · exact h.apart.sublist (hsub.map _)
      · rw [holders, hcounts i, if_pos rfl] at hcount
        rw [holders]
        dsimp only
        omega
      · intro j r' hne hj
        have hold := h.count j r' hj
        rwa [holders, hcounts j, if_neg (Ne.symm hne), Nat.add_zero] at hold
    have hinv := hsurplus.putRing
    rw [putRing_setAccepting] at hinv
    rw [acceptEnd, if_neg (by simp)]
    exact hinv
  | true =>
    rw [acceptEnd, if_pos rfl, modifyRing_of_lookup _ hr]
    have hopen : ∀ q k x, s.socks.lookup q = some k → (s.socks.insert a x).lookup q = some k :=
      fun q k x hk => (AList.lookup_insert_ne (h.accepting_ne ha hk).symm).trans hk
    have hnew : ∀ j r', s.rings.lookup j = some r' → a ∉ r'.privates := by
      intro j r' hj hmem
      obtain ⟨-, k, hk, -⟩ := h.privates j r' a hj hmem
      exact h.accepting_ne ha hk rfl
    refine ⟨h.replace ?_ (List.nodup_cons.mpr ⟨hnew i r hr, h.nodup i r hr⟩) ?_ ?_ ?_ ?_ ?_
      (h.apart.sublist (hsub.map _)), ?_⟩
    · intro q hq
      rcases List.mem_cons.mp hq with rfl | hq
      · exact ⟨hspon, _, AList.lookup_insert _, rfl, rfl⟩
      · obtain ⟨hne, k, hk, hkr, hst⟩ := h.privates i r q hr hq
        exact ⟨hne, k, hopen q k _ hk, hkr, hst⟩
    · intro q k hk hki
      rcases lookup_insert_some hk with ⟨rfl, -⟩ | ⟨-, hk⟩
      · exact .inr List.mem_cons_self
      · exact (h.owner hk hki hr).imp_right (List.mem_cons_of_mem a)
    · intro j r' q _ hj hq
      refine AList.lookup_insert_ne ?_
      rintro rfl
      exact hnew j r' hj hq
    · intro q k j hji hk hkj
      rcases lookup_insert_some hk with ⟨-, rfl⟩ | ⟨-, hk⟩
      · exact absurd (Option.some.inj hkj).symm hji
      · exact hk
    · intro q k hk hst
      rcases lookup_insert_some hk with ⟨-, rfl⟩ | ⟨-, hk⟩
      · cases hst
      · exact h.idle q k hk hst
    · intro x hx
      have hxs := hsub.subset hx
      refine ⟨hxs, (AList.lookup_insert_ne (hnotin x hx)).trans (h.accepting x hxs).1, ?_⟩
      rintro rfl
      have hne : r.sponsor ≠ some x.1 := h.not_sponsor hxs hr
      exact hne
    · intro j r' hj
      rcases lookup_insert_some hj with ⟨rfl, rfl⟩ | ⟨hne, hj⟩
      · rw [holders, hcounts j, if_pos rfl] at hcount
        rw [holders, List.length_cons]
        refine ⟨?_, hpos⟩
        dsimp only
        omega
      · have hold := h.count j r' hj
        rwa [holders, hcounts j, if_neg (Ne.symm hne), Nat.add_zero] at hold

/-! ## Closing -/

/-- An accepted socket goes, and it is not the last. -/
theorem inv_release_private {s : Heap} {p i : Nat} {k : SockObj} {r : RingObj} (h : s.Inv)
    (hk : s.socks.lookup p = some k) (hki : k.r = some i) (hr : s.rings.lookup i = some r)
    (hspon : r.sponsor ≠ some p) (hlast : r.refcnt ≠ 1) :
    Inv { (s.putRing i).modifyRing i (fun r => { r with privates := r.privates.erase p }) with
      socks := s.socks.erase p } := by
  have hp : p ∈ r.privates := (h.owner hk hki hr).resolve_left hspon
  have hput : s.putRing i =
      { s with rings := s.rings.insert i { r with refcnt := r.refcnt - 1 } } := by
    rw [putRing, hr]
    exact if_neg (by omega)
  rw [hput, modifyRing_of_lookup _ (AList.lookup_insert _)]
  dsimp only
  rw [AList.insert_insert]
  obtain ⟨hcount, hpos⟩ := h.count i r hr
  have hnd := h.nodup i r hr
  refine ⟨h.replace ?_ (hnd.erase p) ?_ ?_ ?_ ?_ ?_ h.apart, ?_⟩
  · intro q hq
    obtain ⟨hqp, hq⟩ := (List.Nodup.mem_erase_iff hnd).mp hq
    obtain ⟨hs, k', hk', hkr, hst⟩ := h.privates i r q hr hq
    exact ⟨hs, k', (AList.lookup_erase_ne hqp).trans hk', hkr, hst⟩
  · intro q k' hk' hki'
    obtain ⟨hqp, hk'⟩ := lookup_erase_some hk'
    exact (h.owner hk' hki' hr).imp_right (List.mem_erase_of_ne hqp).mpr
  · -- the socket is on no other ring's list
    intro j r' q hji hj hq
    refine AList.lookup_erase_ne ?_
    rintro rfl
    exact hji (h.ring_unique hj hq hk hki)
  · exact fun q k' j _ hk' _ => (lookup_erase_some hk').2
  · exact fun q k' hk' hst => h.idle q k' (lookup_erase_some hk').2 hst
  · intro x hx
    refine ⟨hx, (AList.lookup_erase_ne (h.accepting_ne hx hk)).trans (h.accepting x hx).1, ?_⟩
    rintro rfl
    have hne : r.sponsor ≠ some x.1 := h.not_sponsor hx hr
    exact hne
  · intro j r' hj
    rcases lookup_insert_some hj with ⟨rfl, rfl⟩ | ⟨-, hj⟩
    · have hlen := List.length_erase_of_mem hp
      have hne := List.length_pos_of_mem hp
      rw [holders] at hcount ⊢
      dsimp only
      rw [hlen]
      constructor <;> omega
    · exact h.count j r' hj

/-- The sponsor goes. -/
theorem inv_release_sponsor {s : Heap} {p i : Nat} {k : SockObj} {r : RingObj} (h : s.Inv)
    (hk : s.socks.lookup p = some k) (hki : k.r = some i) (hr : s.rings.lookup i = some r)
    (hspon : r.sponsor = some p) :
    Inv { putRing { s with rings := s.rings.insert i { r with sponsor := none } } i with
      socks := s.socks.erase p } := by
  have hp : ∀ j r', s.rings.lookup j = some r' → p ∉ r'.privates := by
    intro j r' hj hmem
    obtain rfl := h.ring_unique hj hmem hk hki
    obtain rfl := Option.some.inj (hr.symm.trans hj)
    exact (h.privates j r p hr hmem).1 hspon
  obtain ⟨hcount, hpos⟩ := h.count i r hr
  have hsurplus : Surplus { s with
      rings := s.rings.insert i { r with sponsor := none }
      socks := s.socks.erase p } i { r with sponsor := none } := by
    refine ⟨h.replace ?_ (h.nodup i r hr) ?_ ?_ ?_ ?_ ?_ h.apart, AList.lookup_insert _, ?_, ?_⟩
    · intro q hq
      obtain ⟨-, k', hk', hkr, hst⟩ := h.privates i r q hr hq
      have hqp : q ≠ p := by
        rintro rfl
        exact hp i r hr hq
      exact ⟨by simp, k', (AList.lookup_erase_ne hqp).trans hk', hkr, hst⟩
    · intro q k' hk' hki'
      obtain ⟨hqp, hk'⟩ := lookup_erase_some hk'
      refine .inr ((h.owner hk' hki' hr).resolve_left ?_)
      rw [hspon]
      simpa using Ne.symm hqp
    · intro j r' q _ hj hq
      refine AList.lookup_erase_ne ?_
      rintro rfl
      exact hp j r' hj hq
    · exact fun q k' j _ hk' _ => (lookup_erase_some hk').2
    · exact fun q k' hk' hst => h.idle q k' (lookup_erase_some hk').2 hst
    · intro x hx
      exact ⟨hx, (AList.lookup_erase_ne (h.accepting_ne hx hk)).trans (h.accepting x hx).1,
        fun _ => by simp⟩
    · rw [holders, hspon] at hcount
      rw [holders]
      simp only [Option.isSome_some, if_true, Option.isSome_none, Bool.false_eq_true, if_false]
        at hcount ⊢
      omega
    · intro j r' hne hj
      rcases lookup_insert_some hj with ⟨rfl, -⟩ | ⟨-, hj⟩
      · exact absurd rfl hne
      · exact h.count j r' hj
  have hinv := hsurplus.putRing
  rwa [putRing_setSocks { s with rings := s.rings.insert i { r with sponsor := none } }] at hinv

theorem inv_release {s : Heap} {p : Nat} {k : SockObj} (h : s.Inv)
    (hk : s.socks.lookup p = some k) (hok : s.Careful (.release p)) : (s.release p k).Inv := by
  rw [release]
  cases hki : k.r with
  | none =>
    have hp : ∀ j r, s.rings.lookup j = some r → p ∉ r.privates := by
      intro j r hj hmem
      obtain ⟨-, k', hk', hkj, -⟩ := h.privates j r p hj hmem
      obtain rfl := Option.some.inj (hk.symm.trans hk')
      rw [hki] at hkj
      cases hkj
    refine ⟨⟨?_, h.nodup, ?_, ?_, ?_, h.apart, h.deleted⟩, h.count⟩
    · intro j r q hj hq
      obtain ⟨hs, k', hk', hkr, hst⟩ := h.privates j r q hj hq
      have hqp : q ≠ p := by
        rintro rfl
        exact hp j r hj hq
      exact ⟨hs, k', (AList.lookup_erase_ne hqp).trans hk', hkr, hst⟩
    · exact fun q k' j hk' => h.pointer q k' j (lookup_erase_some hk').2
    · exact fun q k' hk' => h.idle q k' (lookup_erase_some hk').2
    · intro x hx
      obtain ⟨hfree, hring⟩ := h.accepting x hx
      exact ⟨(AList.lookup_erase_ne (h.accepting_ne hx hk)).trans hfree, hring⟩
  | some i =>
    obtain ⟨r, hr, -⟩ := h.pointer p k i hk hki
    dsimp only
    rw [hr]
    dsimp only
    split
    · next hspon =>
      have hinv := inv_release_private h hk hki hr hspon (hok k i r hk hki hr hspon)
      have hsocks : ((s.putRing i).modifyRing i
          fun r => { r with privates := r.privates.erase p }).socks = s.socks := by
        rw [modifyRing, putRing, hr]
        dsimp only
        split <;> split <;> rfl
      rwa [hsocks]
    · next hspon =>
      have hinv := inv_release_sponsor h hk hki hr (by simpa using hspon)
      have hsocks : (putRing { s with rings := s.rings.insert i { r with sponsor := none } } i).socks
          = s.socks := by
        rw [putRing]
        split
        · rfl
        · split <;> rfl
      rwa [hsocks]

theorem inv_step {s s' : Heap} {a : OwnAct} (h : s.Inv) (hok : s.Careful a) (hs : s.Step a s') :
    s'.Inv := by
  cases hs with
  | openSock hp => exact inv_openSock h hp
  | bind hk hn => exact inv_bind h hk hn hok
  | listen hk => exact inv_listen h hk
  | acceptBegin hk ha => exact inv_acceptBegin h hk ha
  | acceptEnd ha => exact inv_acceptEnd h ha
  | release hk => exact inv_release h hk hok

/-! ## Every run -/

/-- When no call of `v4v_accept` has a reference to it, a ring's count is that of its sponsor and
of its accepted sockets, all of them open, and it is at least one; a ring that was deleted had
neither; and no socket points to a ring that is gone. -/
structure Owned (s : Heap) : Prop where
  count : ∀ i r, s.rings.lookup i = some r → 1 ≤ r.refcnt ∧
    ((∀ x ∈ s.accepting, x.2 ≠ i) →
      r.refcnt = (if r.sponsor.isSome then 1 else 0) + r.privates.length)
  privates : ∀ i r p, s.rings.lookup i = some r → p ∈ r.privates → ∃ k, s.socks.lookup p = some k
  deleted : ∀ r ∈ s.deleted, r.sponsor = none ∧ r.privates = []
  pointer : ∀ p k i, s.socks.lookup p = some k → k.r = some i → ∃ r, s.rings.lookup i = some r

/-- **Rings are owned**, in every run in which no accepted socket is the last of its ring to be
closed, and bind is not called on one. -/
theorem rings_owned (s : Heap) (h : Reached Careful s) : s.Owned := by
  have hinv : s.Inv := h.invariant (fun s hs => by rw [hs]; exact Inv.init)
    fun _ _ _ hs hok hstep => inv_step hs hok hstep
  refine ⟨?_, ?_, hinv.deleted, ?_⟩
  · intro i r hr
    obtain ⟨hcount, hpos⟩ := hinv.count i r hr
    refine ⟨hpos, fun hquiet => ?_⟩
    have hnone : s.accepting.countP (fun x => x.2 == i) = 0 := by
      rw [List.countP_eq_zero]
      intro x hx
      simpa using hquiet x hx
    rw [hcount, holders, hnone]
    split <;> simp
  · intro i r p hr hp
    obtain ⟨-, k, hk, -⟩ := hinv.privates i r p hr hp
    exact ⟨k, hk⟩
  · intro p k i hk hki
    obtain ⟨r, hr, -⟩ := hinv.pointer p k i hk hki
    exact ⟨r, hr⟩

/-! A listener with an accepted connection, and the two ways to lose count. -/

/-- The listener of the examples, with its accepted connection, at addresses 0 and 1. -/
def served : Heap :=
  let opened : Heap := { init with socks := init.socks.insert 0 ⟨.stream, .idle, none⟩ }
  let bound := opened.bind 0 ⟨.stream, .idle, none⟩ ⟨⟨10, domidAny⟩, domidAny⟩ ⟨50, true, 0, true⟩
  let listening := bound.listen 0 ⟨.stream, .bound, some 50⟩
  (listening.acceptBegin ⟨.stream, .listening, some 50⟩ 1).acceptEnd 1 50 true

theorem reached_served : Reached Careful served := by
  have hinit : Reached Careful init := .start rfl
  have hopened := hinit.next (i := OwnAct.openSock 0 .stream) trivial (.openSock ⟨rfl, by simp [init]⟩)
  have hbound := hopened.next
    (i := OwnAct.bind 0 ⟨⟨10, domidAny⟩, domidAny⟩ ⟨50, true, 0, true⟩)
    (by intro _ _ i r hr; cases hr) (.bind rfl rfl)
  have hlistening := hbound.next (i := OwnAct.listen 0) trivial (.listen rfl)
  have hbegun := hlistening.next (i := OwnAct.acceptBegin 0 1) trivial
    (.acceptBegin rfl ⟨rfl, by intro x hx; cases hx⟩)
  exact hbegun.next (i := OwnAct.acceptEnd 1 50 true) trivial (.acceptEnd List.mem_cons_self)

/-- Closed after the listener, the connection is on the list of the ring that it deletes; and
closed after a bind, it stays on the list of a ring that goes on. -/
theorem closed_socket_on_list :
    (∃ s, Reached (fun _ _ => True) s ∧ s.accepting = [] ∧ ∃ r ∈ s.deleted, 1 ∈ r.privates) ∧
    (∃ s, Reached (fun _ _ => True) s ∧ s.accepting = [] ∧ ∃ r, s.rings.lookup 50 = some r ∧
      1 ∈ r.privates ∧ s.socks.lookup 1 = none) := by
  have hserved : Reached (fun _ _ => True) served := reached_served.mono fun _ _ _ => trivial
  constructor
  · have hfirst := hserved.next (i := OwnAct.release 0) trivial (.release rfl)
    have hlast := hfirst.next (i := OwnAct.release 1) trivial (.release rfl)
    exact ⟨_, hlast, rfl, _, List.mem_cons_self, by decide⟩
  · have hforgot := hserved.next (i := OwnAct.bind 1 ⟨⟨10, domidAny⟩, domidAny⟩ ⟨51, true, 0, true⟩)
      trivial (.bind rfl rfl)
    have hlast := hforgot.next (i := OwnAct.release 1) trivial (.release rfl)
    exact ⟨_, hlast, rfl, _, rfl, by decide, rfl⟩

/-- Closed before the listener, the connection leaves the ring to it. -/
theorem rings_owned_served : ∃ s, Reached Careful s ∧ s.Owned ∧
    (s.rings.lookup 50).map (fun r => (r.refcnt, r.privates)) = some (1, []) := by
  have hlast := reached_served.next (i := OwnAct.release 1)
    (by intro k i r hk hi hr _; cases hk; cases hi; cases hr; decide) (.release rfl)
  exact ⟨_, hlast, rings_owned _ hlast, rfl⟩

end Heap

end V4v.Linux
