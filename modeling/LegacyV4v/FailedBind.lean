import LegacyV4v.RingFormat
import LegacyV4v.RingOwnership

/-! # Binds that fail

`v4v_bind` with all its results.  `new_ring` has one tail for the failures behind its lock, and it puts the
socket to IDLE without a ring, which is how it found the socket only if that was idle: a second bind on a
socket in use takes its ring away, and the ring stays on `ring_list` without it. -/
namespace V4v.Linux
open GuardedRun

def eaddrinuse : Int := 98

/-- `allocate_ring`: the check of the size, `vmalloc`, and the memory for the page list. -/
def allocateRing (ringLen : UInt32) (vmalloc pfnList : Bool) : Int :=
  if ringLen ≠ roundup ringLen then -einval
  else if !vmalloc then -enomem
  else if !pfnList then -enomem
  else 0

/-- What a call of `v4v_bind` meets: the address of the new ring, if there is memory for its `struct ring`;
the ring size set for the socket; the memory for ring and page list; a spare port; and what
`register_ring` returns. -/
structure BindCall where
  addr : Option Nat
  desiredRingSize : UInt32
  vmalloc : Bool
  pfnList : Bool
  spare : UInt32
  registered : Int

/-- The call as the lists of rings and sockets see it. -/
def BindCall.newRing (c : BindCall) (addr : Nat) : NewRing :=
  ⟨addr, allocateRing c.desiredRingSize c.vmalloc c.pfnList = 0, c.spare, c.registered = 0⟩

/-- The call fails before `new_ring` takes its lock. -/
def BindCall.FailsEarly (c : BindCall) (id : RingId) : Prop :=
  id.addr.domain ≠ domidAny ∨ allocateRing c.desiredRingSize c.vmalloc c.pfnList ≠ 0

namespace Heap
variable {s s' : Heap} {p addr : Nat} {k : SockObj} {id : RingId} {c : BindCall} {ret : Int}

/-- What `new_ring` returns. -/
def newRingRet (s : Heap) (k : SockObj) (id : RingId) (c : BindCall) : Int :=
  if id.addr.domain ≠ domidAny then -einval
  else if allocateRing c.desiredRingSize c.vmalloc c.pfnList ≠ 0 then
    allocateRing c.desiredRingSize c.vmalloc c.pfnList
  else if k.state ≠ .idle then -einval
  else if id.addr.port ≠ 0 ∧ s.idInUse id = true then -eaddrinuse
  else c.registered

/-- `v4v_bind` on the socket `k` at `p`: what it returns, and what it leaves.  `none` when `new_ring` clears
the memory for its `struct ring` without having any. -/
def v4vBind (s : Heap) (p : Nat) (k : SockObj) (id : RingId) (c : BindCall) : Option (Int × Heap) :=
  if id.addr.domain ≠ domidAny then some (-einval, s)
  else
    match c.addr with
    | none => none
    | some addr => some (s.newRingRet k id c, s.bind p k id (c.newRing addr))

/-- The socket after a failure behind the lock. -/
def forgetRing (s : Heap) (p : Nat) (k : SockObj) : Heap :=
  { s with socks := s.socks.insert p { k with r := none, state := .idle } }

/-- **How `new_ring` fails**: early, with nothing changed, or with the socket put to IDLE. -/
theorem newRing_failed (hret : s.newRingRet k id c ≠ 0) :
    (s.newRing p k id (c.newRing addr)).1 = false ∧
      (c.FailsEarly id ∧ (s.newRing p k id (c.newRing addr)).2 = s ∨
        ¬ c.FailsEarly id ∧ (s.newRing p k id (c.newRing addr)).2 = s.forgetRing p k) := by
  unfold newRingRet at hret
  unfold newRing BindCall.newRing BindCall.FailsEarly
  dsimp only
  split
  · next hdomain => exact ⟨rfl, .inl ⟨.inl hdomain, rfl⟩⟩
  · next hdomain =>
    rw [if_neg hdomain] at hret
    by_cases halloc : allocateRing c.desiredRingSize c.vmalloc c.pfnList = 0
    · have hlate : ¬(id.addr.domain ≠ domidAny ∨
          allocateRing c.desiredRingSize c.vmalloc c.pfnList ≠ 0) := by
        rintro (hbad | hbad)
        · exact hdomain hbad
        · exact hbad halloc
      rw [if_neg (not_not_intro halloc)] at hret
      rw [if_neg (by simp [halloc])]
      split
      · exact ⟨rfl, .inr ⟨hlate, rfl⟩⟩
      · next hidle =>
        rw [if_neg hidle] at hret
        split
        · exact ⟨rfl, .inr ⟨hlate, rfl⟩⟩
        · next hfree =>
          rw [if_neg hfree] at hret
          rw [if_pos (by simp [hret])]
          exact ⟨rfl, .inr ⟨hlate, rfl⟩⟩
    · rw [if_pos (by simp [halloc])]
      exact ⟨rfl, .inl ⟨.inr halloc, rfl⟩⟩

/-- A failed `v4v_bind` leaves what `new_ring` leaves. -/
theorem v4vBind_failed (h : s.v4vBind p k id c = some (ret, s')) (hret : ret ≠ 0) :
    c.FailsEarly id ∧ s' = s ∨ ¬ c.FailsEarly id ∧ s' = s.forgetRing p k := by
  unfold v4vBind at h
  split at h
  · next hdomain =>
    obtain rfl := (Prod.mk.inj (Option.some.inj h)).2
    exact .inl ⟨.inl hdomain, rfl⟩
  · next hdomain =>
    split at h
    · cases h
    · next addr _ =>
      obtain ⟨rfl, rfl⟩ := Prod.mk.inj (Option.some.inj h)
      obtain ⟨hfalse, hcases⟩ : (s.newRing p k id (c.newRing addr)).1 = false ∧ _ := newRing_failed hret
      have hbind : s.bind p k id (c.newRing addr) = (s.newRing p k id (c.newRing addr)).2 := by
        unfold bind
        dsimp only
        rw [if_neg hdomain, hfalse]
        exact if_neg fun hboth => Bool.false_ne_true hboth.2
      rwa [hbind]

/-- The rings and sockets are the same: `ring_list`, and for each socket its ring and state. -/
structure SameAs (s s' : Heap) : Prop where
  rings : s'.rings = s.rings
  socks : ∀ q, s'.socks.lookup q = s.socks.lookup q

/-- **When a failed bind changes nothing**: when it fails before the lock, or finds the socket idle and without
a ring. -/
theorem bind_failed_same_iff (hk : s.socks.lookup p = some k)
    (h : s.v4vBind p k id c = some (ret, s')) (hret : ret ≠ 0) :
    s.SameAs s' ↔ c.FailsEarly id ∨ k.state = .idle ∧ k.r = none := by
  rcases v4vBind_failed h hret with ⟨hearly, rfl⟩ | ⟨hlate, rfl⟩
  · exact iff_of_true ⟨rfl, fun _ => rfl⟩ (.inl hearly)
  · rw [or_iff_right hlate]
    constructor
    · intro hsame
      have hp : some { k with r := none, state := .idle } = some k :=
        (AList.lookup_insert _).symm.trans ((hsame.socks p).trans hk)
      rw [← Option.some.inj hp]
      exact ⟨rfl, rfl⟩
    · rintro ⟨hidle, hr⟩
      refine ⟨rfl, fun q => ?_⟩
      by_cases hq : q = p
      · subst hq
        rw [forgetRing, AList.lookup_insert, hk, ← hidle, ← hr]
      · exact AList.lookup_insert_ne hq

/-- A call for which there is memory, and which `register_ring` answers with 0. -/
def smoothBind (addr : Nat) : BindCall := ⟨some addr, 64, true, true, 0, 0⟩

/-- The example's listener and connection, and a socket at 7 that is idle. -/
def servedIdle : Heap := { served with socks := served.socks.insert 7 ⟨.stream, .idle, none⟩ }

theorem bind_failed_same_idle : ∃ s', servedIdle.v4vBind 7 ⟨.stream, .idle, none⟩
    ⟨⟨10, domidAny⟩, domidAny⟩ (smoothBind 51) = some (-eaddrinuse, s') ∧ servedIdle.SameAs s' := by
  have hrun : (servedIdle.v4vBind 7 ⟨.stream, .idle, none⟩ ⟨⟨10, domidAny⟩, domidAny⟩
      (smoothBind 51)).map Prod.fst = some (-eaddrinuse) := by decide
  obtain ⟨⟨ret, s'⟩, h, rfl⟩ := Option.map_eq_some_iff.mp hrun
  exact ⟨s', h, (bind_failed_same_iff rfl h (by decide)).mpr (.inr ⟨rfl, rfl⟩)⟩

/-- Bind on the accepted connection returns an error, and the connection has lost its ring. -/
theorem bind_failed_forgets_ring : ¬ ∀ s, Reached (fun _ _ => True) s → ∀ p k id c ret s',
    s.socks.lookup p = some k → s.v4vBind p k id c = some (ret, s') → ret ≠ 0 → s.SameAs s' := by
  intro hall
  have hrun : (served.v4vBind 1 ⟨.stream, .accepted, some 50⟩ ⟨⟨11, domidAny⟩, domidAny⟩
      (smoothBind 51)).map (fun out => (out.1, (out.2.socks.lookup 1).map SockObj.r)) =
      some (-einval, some none) := by decide
  obtain ⟨⟨ret, s'⟩, h, heq⟩ := Option.map_eq_some_iff.mp hrun
  obtain ⟨hret, hr⟩ := Prod.mk.inj heq
  dsimp only at hret hr
  have hsame := hall served (reached_served.mono fun _ _ _ => trivial) 1 _ _ _ ret s' rfl h
    (by rw [hret]; decide)
  rw [hsame.socks 1] at hr
  exact absurd hr (by decide)

end Heap
end V4v.Linux
