import LegacyV4v.RankedLocks
import LegacyV4v.LockBalance

/-! # The order of the locks, and what they keep apart

The hypervisor runs the calls of its guests on many processors at once.  Every call is a script of
the locks it takes, in the order in which the code takes them, with the accesses it makes under
them; which branch it takes may depend on anything, so each branch is a script of its own.  L1 is
taken below `domain_lock`, L2 below L1 and L3 below L2, and a notify with ring data takes R(L1) once
more under R(L1).

No call ever waits in a circle.  The locks keep apart what the comments on them promise, with four
exceptions: a registration of a known ring gives its pages back under R(L2) alone while a sender
copies to them, the debug key reads rings under R(L2) alone, and the firewall rules have no lock. -/
namespace V4v
open RankedLocks

/-! ## Locks and accesses -/

/-- `domain_lock` of a domain, L1, L2 of a domain, and L3 of a ring. -/
inductive LockName where
  | domainLock (d : DomId)
  | v4vLock
  | table (d : DomId)
  | ring (id : RingId)
  deriving DecidableEq, Repr

namespace LockName

/-- The order in which the locks are taken. -/
def rank : LockName → ℕ
  | domainLock _ => 0
  | v4vLock => 1
  | table _ => 2
  | ring _ => 3

end LockName

/-- What a call does with a `v4v_ring_info`: it works on it under L3, it gives the pages back to list
others, it reads it for the debug key, or it frees it. -/
inductive RingUse where
  | work
  | clear
  | peek
  | free
  deriving DecidableEq, Repr

/-- An access to `d->v4v`, to a hash table, to a ring in a hash table, or to `viprules`. -/
inductive Access where
  | pointer (d : DomId) (write : Bool)
  | table (d : DomId) (write : Bool)
  | ring (id : RingId) (how : RingUse)
  | rules (write : Bool)
  deriving DecidableEq, Repr

abbrev LockOp := Op LockName Access

abbrev Held := List (LockName × Mode)

/-- The ring with this port and partner in the table of `d`. -/
def ringOf (d : DomId) (port : UInt32) (partner : DomId) : RingId := ⟨⟨port, d⟩, partner⟩

/-! ## The scripts -/

abbrev readLock (l : LockName) : LockOp := .take l .shared
abbrev readUnlock (l : LockName) : LockOp := .drop l .shared
abbrev writeLock (l : LockName) : LockOp := .take l .exclusive
abbrev writeUnlock (l : LockName) : LockOp := .drop l .exclusive

/-- The branches of `v4v_ring_add`. -/
inductive AddBranch where
  | misaligned
  | rejected
  | noMemory
  | new (port : UInt32) (partner : DomId) (pagesOk : Bool)
  | known (port : UInt32) (partner : DomId) (pagesOk : Bool)

/-- `v4v_ring_add`.  A ring that is not in the table yet is nobody else's, so filling it in is no
access.  A known ring whose pages are refused keeps R(L2). -/
def ringAddLocks (d : DomId) : AddBranch → List LockOp
  | .misaligned => []
  | .rejected => [readLock .v4vLock, .act (.pointer d false), readUnlock .v4vLock]
  | .noMemory =>
    [readLock .v4vLock, .act (.pointer d false),
      readLock (.table d), .act (.table d false), readUnlock (.table d),
      readUnlock .v4vLock]
  | .new port partner pagesOk =>
    [readLock .v4vLock, .act (.pointer d false),
      readLock (.table d), .act (.table d false), readUnlock (.table d),
      writeLock (.ring (ringOf d port partner)), writeUnlock (.ring (ringOf d port partner))] ++
    (if pagesOk then
      [writeLock (.table d), .act (.table d true), writeUnlock (.table d)] else []) ++
    [readUnlock .v4vLock]
  | .known port partner pagesOk =>
    [readLock .v4vLock, .act (.pointer d false),
      readLock (.table d), .act (.table d false), .act (.ring (ringOf d port partner) .clear),
      writeLock (.ring (ringOf d port partner)), .act (.ring (ringOf d port partner) .work),
      writeUnlock (.ring (ringOf d port partner))] ++
    (if pagesOk then [readUnlock (.table d)] else []) ++
    [readUnlock .v4vLock]

/-- The branches of `v4v_ring_remove`. -/
inductive RemoveBranch where
  | rejected
  | missing
  | removed (port : UInt32) (partner : DomId)

/-- `v4v_ring_remove`. -/
def ringRemoveLocks (d : DomId) : RemoveBranch → List LockOp
  | .rejected => [readLock .v4vLock, .act (.pointer d false), readUnlock .v4vLock]
  | .missing =>
    [readLock .v4vLock, .act (.pointer d false),
      writeLock (.table d), .act (.table d true), writeUnlock (.table d), readUnlock .v4vLock]
  | .removed port partner =>
    [readLock .v4vLock, .act (.pointer d false),
      writeLock (.table d), .act (.table d true), .act (.ring (ringOf d port partner) .free),
      writeUnlock (.table d), readUnlock .v4vLock]

/-- The branches of `v4v_send` and `v4v_sendv`. -/
inductive SendBranch where
  | noV4v
  | noDomain
  | refused
  | noTable (dst : DomId)
  | noRing (dst : DomId)
  | ring (dst : DomId) (port : UInt32) (partner : DomId)

/-- `v4v_send`, and `v4v_sendv` likewise. -/
def sendLocks (d : DomId) : SendBranch → List LockOp
  | .noV4v | .noDomain => [readLock .v4vLock, .act (.pointer d false), readUnlock .v4vLock]
  | .refused =>
    [readLock .v4vLock, .act (.pointer d false), .act (.rules false), readUnlock .v4vLock]
  | .noTable dst =>
    [readLock .v4vLock, .act (.pointer d false), .act (.rules false),
      .act (.pointer dst false), readUnlock .v4vLock]
  | .noRing dst =>
    [readLock .v4vLock, .act (.pointer d false), .act (.rules false), .act (.pointer dst false),
      readLock (.table dst), .act (.table dst false), readUnlock (.table dst),
      readUnlock .v4vLock]
  | .ring dst port partner =>
    [readLock .v4vLock, .act (.pointer d false), .act (.rules false), .act (.pointer dst false),
      readLock (.table dst), .act (.table dst false),
      writeLock (.ring (ringOf dst port partner)), .act (.ring (ringOf dst port partner) .work),
      writeUnlock (.ring (ringOf dst port partner)),
      readUnlock (.table dst), readUnlock .v4vLock]

/-- `v4v_notify_ring`: the space, then `v4v_pending_find`, each under L3. -/
def notifyRingLocks (d : DomId) (r : UInt32 × DomId) : List LockOp :=
  [writeLock (.ring (ringOf d r.1 r.2)), .act (.ring (ringOf d r.1 r.2) .work),
    writeUnlock (.ring (ringOf d r.1 r.2)),
    writeLock (.ring (ringOf d r.1 r.2)), .act (.ring (ringOf d r.1 r.2) .work),
    writeUnlock (.ring (ringOf d r.1 r.2))]

/-- The branches of `v4v_fill_ring_data`. -/
inductive EntBranch where
  | noDomain
  | noTable (dst : DomId)
  | noRing (dst : DomId)
  | ring (dst : DomId) (port : UInt32) (partner : DomId)

/-- `v4v_fill_ring_data`. -/
def fillRingDataLocks : EntBranch → List LockOp
  | .noDomain => []
  | .noTable dst => [.act (.pointer dst false)]
  | .noRing dst =>
    [.act (.pointer dst false), readLock (.table dst), .act (.table dst false),
      readUnlock (.table dst)]
  | .ring dst port partner =>
    [.act (.pointer dst false), readLock (.table dst), .act (.table dst false),
      writeLock (.ring (ringOf dst port partner)), .act (.ring (ringOf dst port partner) .work),
      writeUnlock (.ring (ringOf dst port partner)), readUnlock (.table dst)]

/-- `v4v_fill_ring_datas`, for the entries up to the first that fails. -/
def fillRingDatasLocks (ents : List EntBranch) : List LockOp :=
  readLock .v4vLock :: ents.flatMap fillRingDataLocks ++ [readUnlock .v4vLock]

/-- The branches of `v4v_notify`: no `d->v4v`, or the rings of the table and then the entries, if
there is ring data that can be read. -/
inductive NotifyBranch where
  | noV4v
  | rings (rings : List (UInt32 × DomId)) (ents : Option (List EntBranch))

/-- `v4v_notify`. -/
def notifyLocks (d : DomId) : NotifyBranch → List LockOp
  | .noV4v => [readLock .v4vLock, .act (.pointer d false), readUnlock .v4vLock]
  | .rings rings ents =>
    [readLock .v4vLock, .act (.pointer d false), readLock (.table d), .act (.table d false)] ++
      (rings.flatMap (notifyRingLocks d) ++
        (readUnlock (.table d) :: ((ents.elim [] fillRingDatasLocks) ++ [readUnlock .v4vLock])))

/-- The branches of `do_v4v_op`: a call that goes no further, and the commands. -/
inductive OpBranch where
  | none
  | registerRing (b : AddBranch)
  | unregisterRing (b : RemoveBranch)
  | send (b : SendBranch)
  | notify (b : NotifyBranch)
  | viptables (write : Bool)

def opLocks (d : DomId) : OpBranch → List LockOp
  | .none => []
  | .registerRing b => ringAddLocks d b
  | .unregisterRing b => ringRemoveLocks d b
  | .send b => sendLocks d b
  | .notify b => notifyLocks d b
  | .viptables write => [.act (.rules write)]

/-- `do_v4v_op`, called by a processor of domain `d`. -/
def doV4vOpLocks (d : DomId) (b : OpBranch) : List LockOp :=
  writeLock (.domainLock d) :: opLocks d b ++ [writeUnlock (.domainLock d)]

/-- `v4v_destroy`, where `d` has these rings. -/
def destroyLocks (d : DomId) (rings : List (UInt32 × DomId)) : List LockOp :=
  [writeLock .v4vLock, .act (.pointer d false)] ++
    (rings.flatMap (fun r => [.act (.table d true), .act (.ring (ringOf d r.1 r.2) .free)]) ++
      [.act (.pointer d true), writeUnlock .v4vLock])

/-- `v4v_init`. -/
def initLocks (d : DomId) : List LockOp :=
  [writeLock .v4vLock, .act (.pointer d true), writeUnlock .v4vLock]

/-- `dump_domain_rings`. -/
def dumpDomainRingsLocks (d : DomId × List (UInt32 × DomId)) : List LockOp :=
  [.act (.pointer d.1 false), readLock (.table d.1), .act (.table d.1 false)] ++
    (d.2.flatMap (fun r => [.act (.ring (ringOf d.1 r.1 r.2) .peek)]) ++ [readUnlock (.table d.1)])

/-- `dump_rings`. -/
def dumpRingsLocks (doms : List (DomId × List (UInt32 × DomId))) : List LockOp :=
  readLock .v4vLock :: doms.flatMap dumpDomainRingsLocks ++ [readUnlock .v4vLock]

/-- The scripts of the code. -/
inductive Calls : List LockOp → Prop
  | op (d : DomId) (b : OpBranch) : Calls (doV4vOpLocks d b)
  | destroy (d : DomId) (rings : List (UInt32 × DomId)) : Calls (destroyLocks d rings)
  | init (d : DomId) : Calls (initLocks d)
  | dump (doms : List (DomId × List (UInt32 × DomId))) : Calls (dumpRingsLocks doms)

/-! ## Every script keeps to the discipline -/

/-- The locks under which the code makes an access. -/
def Covers : Access → Held → Prop
  | .pointer _ false, held => (.v4vLock, .shared) ∈ held ∨ (.v4vLock, .exclusive) ∈ held
  | .pointer _ true, held => (.v4vLock, .exclusive) ∈ held
  | .table d false, held => (.table d, .shared) ∈ held ∧ (.v4vLock, .shared) ∈ held
  | .table d true, held =>
    ((.table d, .exclusive) ∈ held ∧ (.v4vLock, .shared) ∈ held) ∨ (.v4vLock, .exclusive) ∈ held
  | .ring id .work, held => (.ring id, .exclusive) ∈ held ∧ (.table id.addr.domain, .shared) ∈ held ∧
    (.v4vLock, .shared) ∈ held
  | .ring id .clear, held => (.domainLock id.addr.domain, .exclusive) ∈ held ∧
    (.table id.addr.domain, .shared) ∈ held ∧ (.v4vLock, .shared) ∈ held
  | .ring id .peek, held =>
    (.table id.addr.domain, .shared) ∈ held ∧ (.v4vLock, .shared) ∈ held
  | .ring id .free, held => ((.table id.addr.domain, .exclusive) ∈ held ∧
    (.v4vLock, .shared) ∈ held) ∨ (.v4vLock, .exclusive) ∈ held
  | .rules _, _ => True

/-- The lock that a call takes again: R(L1), in `v4v_fill_ring_datas`. -/
abbrev TakenAgain (l : LockName) : Prop := l = .v4vLock

/-- What a processor of `d` holds in `do_v4v_op`. -/
def inOp (d : DomId) : Held := [(.domainLock d, .exclusive)]

/-- What a branch keeps when the call returns. -/
def OpBranch.kept (d : DomId) : OpBranch → Held
  | .registerRing (.known _ _ false) => [(.table d, .shared)]
  | _ => []

section
variable {d : DomId}

theorem ringAddLocks_leads (b : AddBranch) : Leads LockName.rank TakenAgain Covers (inOp d) (ringAddLocks d b)
    ((OpBranch.registerRing b).kept d ++ inOp d) := by
  cases b with
  | new port partner pagesOk =>
    cases pagesOk <;> simp [ringAddLocks, Covers, LockName.rank, inOp, ringOf, OpBranch.kept]
  | known port partner pagesOk =>
    cases pagesOk <;> simp [ringAddLocks, Covers, LockName.rank, inOp, ringOf, OpBranch.kept]
  | _ => simp [ringAddLocks, Covers, LockName.rank, inOp, OpBranch.kept]

theorem ringRemoveLocks_leads (b : RemoveBranch) :
    Leads LockName.rank TakenAgain Covers (inOp d) (ringRemoveLocks d b) (inOp d) := by
  cases b <;> simp [ringRemoveLocks, Covers, LockName.rank, inOp, ringOf]

theorem sendLocks_leads (b : SendBranch) :
    Leads LockName.rank TakenAgain Covers (inOp d) (sendLocks d b) (inOp d) := by
  cases b <;> simp [sendLocks, Covers, LockName.rank, inOp, ringOf]

/-- What a processor of `d` holds in `v4v_notify`, and under R(L2) in it. -/
def inNotify (d : DomId) : Held := (.v4vLock, .shared) :: inOp d

theorem notifyRingLocks_leads (r : UInt32 × DomId) :
    Leads LockName.rank TakenAgain Covers ((.table d, .shared) :: inNotify d) (notifyRingLocks d r)
      ((.table d, .shared) :: inNotify d) := by
  simp [notifyRingLocks, Covers, LockName.rank, inNotify, inOp, ringOf]

theorem fillRingDataLocks_leads (e : EntBranch) :
    Leads LockName.rank TakenAgain Covers ((.v4vLock, .shared) :: inNotify d) (fillRingDataLocks e)
      ((.v4vLock, .shared) :: inNotify d) := by
  cases e <;> simp [fillRingDataLocks, Covers, LockName.rank, inNotify, inOp, ringOf]

/-- R(L1) is taken once more here. -/
theorem fillRingDatasLocks_leads (ents : List EntBranch) :
    Leads LockName.rank TakenAgain Covers (inNotify d) (fillRingDatasLocks ents) (inNotify d) := by
  refine leads_take.mpr ⟨Or.inr ⟨rfl, rfl, List.mem_cons_self⟩, ?_⟩
  refine (leads_flatMap ents fillRingDataLocks_leads).append ?_
  simp [inNotify]

theorem notifyLocks_leads (b : NotifyBranch) :
    Leads LockName.rank TakenAgain Covers (inOp d) (notifyLocks d b) (inOp d) := by
  cases b with
  | noV4v => simp [notifyLocks, Covers, LockName.rank, inOp]
  | rings rings ents =>
    have hbegin : Leads LockName.rank TakenAgain Covers (inOp d) [readLock .v4vLock, .act (.pointer d false),
        readLock (.table d), .act (.table d false)] ((.table d, .shared) :: inNotify d) := by
      simp [Covers, LockName.rank, inNotify, inOp]
    have hents : Leads LockName.rank TakenAgain Covers (inNotify d) (ents.elim [] fillRingDatasLocks)
        (inNotify d) := by
      cases ents with
      | none => exact leads_nil.mpr rfl
      | some ents => exact fillRingDatasLocks_leads ents
    refine hbegin.append ((leads_flatMap rings notifyRingLocks_leads).append ?_)
    refine leads_drop.mpr ⟨List.mem_cons_self, ?_⟩
    rw [List.erase_cons_head]
    refine hents.append ?_
    simp [inNotify]

theorem opLocks_leads (b : OpBranch) :
    Leads LockName.rank TakenAgain Covers (inOp d) (opLocks d b) (b.kept d ++ inOp d) := by
  cases b with
  | none => exact leads_nil.mpr rfl
  | registerRing b => exact ringAddLocks_leads b
  | unregisterRing b => exact ringRemoveLocks_leads b
  | send b => exact sendLocks_leads b
  | notify b => exact notifyLocks_leads b
  | viptables write => simp [opLocks, Covers, OpBranch.kept]

theorem doV4vOpLocks_leads (b : OpBranch) :
    Leads LockName.rank TakenAgain Covers [] (doV4vOpLocks d b) (b.kept d) := by
  refine leads_take.mpr ⟨Or.inl fun x hx => absurd hx List.not_mem_nil, ?_⟩
  refine (opLocks_leads b).append ?_
  cases b with
  | registerRing b =>
    cases b with
    | known port partner pagesOk => cases pagesOk <;> simp [OpBranch.kept, inOp]
    | _ => simp [OpBranch.kept, inOp]
  | _ => simp [OpBranch.kept, inOp]

theorem destroyLocks_leads (rings : List (UInt32 × DomId)) :
    Leads LockName.rank TakenAgain Covers [] (destroyLocks d rings) [] := by
  have hbegin : Leads LockName.rank TakenAgain Covers [] [writeLock .v4vLock, .act (.pointer d false)]
      [(.v4vLock, .exclusive)] := by
    simp [Covers]
  refine hbegin.append ((leads_flatMap rings fun r => ?_).append ?_)
  · simp [Covers]
  · simp [Covers]

theorem dumpRingsLocks_leads (doms : List (DomId × List (UInt32 × DomId))) :
    Leads LockName.rank TakenAgain Covers [] (dumpRingsLocks doms) [] := by
  refine leads_take.mpr ⟨Or.inl fun x hx => absurd hx List.not_mem_nil, ?_⟩
  refine (leads_flatMap doms fun d => ?_).append (by simp)
  have hbegin : Leads LockName.rank TakenAgain Covers [(.v4vLock, .shared)] [.act (.pointer d.1 false),
      readLock (.table d.1), .act (.table d.1 false)]
      [(.table d.1, .shared), (.v4vLock, .shared)] := by
    simp [Covers, LockName.rank]
  refine hbegin.append ((leads_flatMap d.2 fun r => ?_).append (by simp))
  simp [Covers, ringOf]

end

/-- **Every call keeps to the order of the locks**, and makes its accesses under the locks that the
code means for them. -/
theorem Calls.disciplined {ops : List LockOp} (h : Calls ops) :
    Disciplined LockName.rank TakenAgain Covers [] ops := by
  cases h with
  | op d b => exact (doV4vOpLocks_leads b).1
  | destroy d rings => exact (destroyLocks_leads rings).1
  | init d => simp [initLocks, Disciplined, Covers]
  | dump doms => exact (dumpRingsLocks_leads doms).1

/-- All that a call can keep is R(L2). -/
theorem Calls.kept {ops : List LockOp} (h : Calls ops) :
    ∀ x ∈ after [] ops, ∃ d, x = (LockName.table d, Mode.shared) := by
  intro x hx
  cases h with
  | op d b =>
    rw [(doV4vOpLocks_leads b).2] at hx
    unfold OpBranch.kept at hx
    split at hx
    · exact ⟨d, List.mem_singleton.mp hx⟩
    · cases hx
  | destroy d rings =>
    rw [(destroyLocks_leads rings).2] at hx
    cases hx
  | init d => simp [initLocks, after] at hx
  | dump doms =>
    rw [(dumpRingsLocks_leads doms).2] at hx
    cases hx

/-! ## The calls of the sequential model

There a call runs alone, and what it holds in the end is what a branch of its script keeps. -/

/-- What is held, by name and mode; a reference to a domain is no lock. -/
def Lock.name? : Lock → Option (LockName × Mode)
  | .l1Read => some (.v4vLock, .shared)
  | .l1Write => some (.v4vLock, .exclusive)
  | .l2Read d => some (.table d, .shared)
  | .l2Write d => some (.table d, .exclusive)
  | .l3 id => some (.ring id, .exclusive)
  | .domainLock d => some (.domainLock d, .exclusive)
  | .domainRef _ => none

/-- The branch is one of this command. -/
def OpBranch.Of : OpBranch → V4vOp → Prop
  | .registerRing _, .registerRing _ | .unregisterRing _, .unregisterRing _ => True
  | .send _, .send _ | .send _, .sendv _ | .notify _, .notify _ => True
  | .viptables true, .viptablesAdd .. | .viptables true, .viptablesDel .. => True
  | .viptables false, .viptablesList .. => True
  | .none, _ => True
  | _, _ => False

section
variable {s : Hyp} {d : DomId} {l : Lock} {x : LockName × Mode}

/-- A reference to a domain shows in no lock. -/
theorem Lock.acquire_domainRef (hx : l.name? = some x) :
    (s.acquire (.domainRef d)).holds l = s.holds l := by
  cases l with
  | domainRef d' => cases hx
  | _ => simp [Hyp.acquire]

/-- R(L2) shows in R(L2) of the same domain. -/
theorem Lock.acquire_l2Read (hx : l.name? = some x) : (s.acquire (.l2Read d)).holds l =
    s.holds l + ([(.table d, .shared)] : Held).count x := by
  cases l with
  | l2Read d' =>
    cases hx
    by_cases hd : d' = d
    · subst hd
      simp [Hyp.acquire]
    · simp [Hyp.acquire, hd, Ne.symm hd]
  | domainRef d' => cases hx
  | _ =>
    cases hx
    simp [Hyp.acquire]

/-- A call of the sequential model ends as a branch of its script does. -/
theorem doV4vOp_ends_as_branch {op : V4vOp} {o : OpOut} (h : doV4vOp s d op = some o) :
    ∃ b : OpBranch, b.Of op ∧
      ∀ l x, l.name? = some x → o.state.holds l = s.holds l + (b.kept d).count x := by
  rcases doV4vOp_holds_cases h with ⟨k, hleak, hholds⟩ | ⟨_, hholds⟩
  · rw [hholds]
    cases op with
    | registerRing a =>
      obtain ⟨_, _, rfl⟩ := hleak
      exact ⟨.registerRing (.known 0 0 false), trivial, fun l x => Lock.acquire_l2Read⟩
    | send a =>
      obtain ⟨_, _, _, _, rfl⟩ := hleak
      exact ⟨.send .refused, trivial, fun l x hx =>
        (Lock.acquire_domainRef hx).trans (Int.add_zero _).symm⟩
    | sendv a =>
      obtain ⟨_, _, _, _, _, rfl⟩ := hleak
      exact ⟨.send .refused, trivial, fun l x hx =>
        (Lock.acquire_domainRef hx).trans (Int.add_zero _).symm⟩
    | _ => exact hleak.elim
  · refine ⟨.none, by unfold OpBranch.Of; split <;> trivial, fun l x _ => ?_⟩
    rw [hholds]
    exact (Int.add_zero _).symm

end

/-! ## Any number of processors -/

section
variable {ι : Type*} [DecidableEq ι]

abbrev Processors (ι : Type*) := System ι LockName Access

/-- The states that the processors can come to, each running one call after the other. -/
def Processors.Reachable : Processors ι → Prop :=
  GuardedRun.Reachable System.Start
    (fun s (a : RankedLocks.Act ι LockName Access) s' => s.Enabled Calls a ∧ s.step a = some s')
    fun _ _ => True

variable {s : Processors ι} {i j : ι}

theorem Processors.Reachable.inv (h : s.Reachable) :
    RankedLocks.Inv LockName.rank TakenAgain Covers s :=
  h.invariant (fun _ hs => hs.inv) fun _ _ _ hs _ hstep =>
    hs.step (fun _ hcall => hcall.disciplined) hstep.1 hstep.2

theorem Processors.Reachable.keeps (h : s.Reachable) :
    Keeps s fun x => ∃ d, x = (LockName.table d, Mode.shared) :=
  h.invariant (fun _ hs => hs.keeps) fun _ _ _ hs _ hstep =>
    hs.step (fun _ hcall => hcall.kept) hstep.1 hstep.2

theorem LockName.rank_lt (l : LockName) : l.rank < 4 := by
  cases l <;> simp [LockName.rank]

theorem Processors.Reachable.begin (h : s.Reachable) {ops : List LockOp} (hcall : Calls ops)
    (hidle : s.cpu i = ⟨[], []⟩) : Processors.Reachable (s.set i ⟨[], ops⟩) :=
  .next (i := .begin i ops) h trivial
    ⟨⟨hcall, by simp [System.Busy, hidle]⟩, rfl⟩

theorem Processors.Reachable.advance [Fintype ι] {n : ℕ} {t : Processors ι} (h : s.Reachable)
    (ht : s.advance i n = some t) : t.Reachable := by
  induction n generalizing s with
  | zero => exact Option.some.inj ht ▸ h
  | succ n ih =>
    unfold System.advance at ht
    split at ht
    · next hcan =>
      obtain ⟨u, hu, ht⟩ := Option.bind_eq_some_iff.mp ht
      exact ih (.next (i := .go i) h trivial ⟨hcan, hu⟩) ht
    · cases ht

/-- **The hypervisor does not deadlock.**  Whatever calls any number of processors are in, some
processor can go on, also if readers let waiting writers pass.  Two things can prevent it: that
somebody waits to write-lock a table that a registration has kept read-locked when it returned, and
that a writer has come to L1 between the two times that a notify takes it. -/
theorem hypercalls_go_on (h : s.Reachable) (hbusy : s.Busy i) :
    ∃ j, s.Free j ∨
      (∃ d, s.Waits j (.table d) .exclusive ∧ (.table d, .shared) ∈ s.left) ∨
      (s.Waits j .v4vLock .shared ∧ (.v4vLock, .shared) ∈ (s.cpu j).held ∧
        ∃ k, s.Waits k .v4vLock .exclusive) := by
  obtain ⟨j, hfree | ⟨l, m, hwaits, x, hx, hxl, hnot⟩ | ⟨l, rfl, hrenews⟩⟩ :=
    h.inv.goesOn LockName.rank_lt hbusy
  · exact ⟨j, Or.inl hfree⟩
  · obtain ⟨d, rfl⟩ := h.keeps.left x hx
    obtain rfl := hxl
    refine ⟨j, Or.inr (Or.inl ⟨d, ?_, hx⟩)⟩
    cases m with
    | exclusive => exact hwaits
    | shared => exact absurd ⟨rfl, rfl⟩ hnot
  · exact ⟨j, Or.inr (Or.inr hrenews)⟩

/-! ## What the locks keep apart -/

/-- The domain whose data an access is to. -/
def Access.domain? : Access → Option DomId
  | .pointer d _ | .table d _ => some d
  | .ring id _ => some id.addr.domain
  | .rules _ => none

/-- The access is to the table or to its rings. -/
def Access.InTable : Access → Prop
  | .table _ _ | .ring _ _ => True
  | _ => False

/-- The first access needs what it is to for itself, and the second is to the same.  Of two uses of
one ring these do not exclude each other: that one gives the pages back or is the debug key, while
the other works on the ring. -/
def Excludes : Access → Access → Prop
  | .pointer d true, b => b.domain? = some d
  | .table d true, b => b.InTable ∧ b.domain? = some d
  | .ring id .free, .ring id' _ => id = id'
  | .ring id .work, .ring id' .work | .ring id .clear, .ring id' .clear => id = id'
  | _, _ => False

section
variable {held : Held} {a : Access} {d : DomId}

/-- Who touches a domain's data holds L1. -/
theorem Covers.v4vLock (h : Covers a held) (hd : a.domain? = some d) :
    ∃ m, (.v4vLock, m) ∈ held := by
  cases a with
  | pointer d' w =>
    cases w with
    | false => exact h.elim (fun h => ⟨_, h⟩) fun h => ⟨_, h⟩
    | true => exact ⟨_, h⟩
  | table d' w =>
    cases w with
    | false => exact ⟨_, h.2⟩
    | true => exact h.elim (fun h => ⟨_, h.2⟩) fun h => ⟨_, h⟩
  | ring id u =>
    cases u with
    | work => exact ⟨_, h.2.2⟩
    | clear => exact ⟨_, h.2.2⟩
    | peek => exact ⟨_, h.2⟩
    | free => exact h.elim (fun h => ⟨_, h.2⟩) fun h => ⟨_, h⟩
  | rules w => cases hd

/-- Who touches a table or its rings holds L2, or L1 for writing. -/
theorem Covers.table (h : Covers a held) (hin : a.InTable) (hd : a.domain? = some d) :
    (∃ m, (.table d, m) ∈ held) ∨ (.v4vLock, .exclusive) ∈ held := by
  cases a with
  | pointer d' w => cases hin
  | table d' w =>
    cases hd
    cases w with
    | false => exact Or.inl ⟨_, h.1⟩
    | true => exact h.imp_left fun h => ⟨_, h.1⟩
  | ring id u =>
    cases hd
    cases u with
    | work => exact Or.inl ⟨_, h.2.1⟩
    | clear => exact Or.inl ⟨_, h.2.1⟩
    | peek => exact Or.inl ⟨_, h.1⟩
    | free => exact h.imp_left fun h => ⟨_, h.1⟩
  | rules w => cases hin

end

/-- Who holds L1 for writing is alone with all domains, and who holds L2 for writing and L1 is alone
with its table. -/
theorem Processors.Reachable.alone (h : s.Reachable) (hij : i ≠ j) {b : Access} {d : DomId}
    (hi : ((.table d, .exclusive) ∈ (s.cpu i).held ∧ (.v4vLock, .shared) ∈ (s.cpu i).held) ∨
      (.v4vLock, .exclusive) ∈ (s.cpu i).held)
    (hj : s.At j b) (hin : b.InTable) (hd : b.domain? = some d) : False := by
  have hcov := h.inv.covered hj
  rcases hi with ⟨htable, hshared⟩ | hglobal
  · rcases hcov.table hin hd with ⟨m, hm⟩ | hexcl
    · exact hij (h.inv.apart htable hm).symm
    · exact hij (h.inv.apart hexcl hshared)
  · obtain ⟨m, hm⟩ := hcov.v4vLock hd
    exact hij (h.inv.apart hglobal hm).symm

end

/-! ## A registration beside a send -/

/-- Domain 1 sends to port 5 of domain 2. -/
def sendToFive : List LockOp := doV4vOpLocks 1 (.send (.ring 2 5 1))

/-- Domain 2 registers the ring of port 5 again. -/
def registerFive : List LockOp := doV4vOpLocks 2 (.registerRing (.known 5 1 true))

/-- Both calls have begun. -/
def sendAndRegister : Processors (Fin 2) :=
  ((⟨fun _ => ⟨[], []⟩, []⟩ : Processors (Fin 2)).set 0 ⟨[], sendToFive⟩).set 1 ⟨[], registerFive⟩

/-- The sender copies to the ring while its pages are given back. -/
theorem send_beside_register : ∃ s : Processors (Fin 2), s.Reachable ∧
    s.At 0 (.ring (ringOf 2 5 1) .work) ∧ s.At 1 (.ring (ringOf 2 5 1) .clear) := by
  have hstart : Processors.Reachable (⟨fun _ => ⟨[], []⟩, []⟩ : Processors (Fin 2)) :=
    .start ⟨fun _ => rfl, rfl⟩
  have hbegun : Processors.Reachable sendAndRegister :=
    (hstart.begin (i := 0) (.op 1 _) rfl).begin (i := 1) (.op 2 _) rfl
  have hrun : ((sendAndRegister.advance 0 8).bind fun t => t.advance 1 5).any (fun t =>
      (t.cpu 0).rest.head? = some (.act (.ring (ringOf 2 5 1) .work)) &&
        (t.cpu 1).rest.head? = some (.act (.ring (ringOf 2 5 1) .clear))) = true := by
    decide
  obtain ⟨s, hs, hat⟩ := (Option.any_eq_true ..).mp hrun
  obtain ⟨t, ht, hs⟩ := Option.bind_eq_some_iff.mp hs
  rw [Bool.and_eq_true, decide_eq_true_iff, decide_eq_true_iff] at hat
  exact ⟨s, (hbegun.advance ht).advance hs, hat⟩

/-- While the two are there, some processor can go on. -/
theorem hypercalls_go_on_beside : ∃ s : Processors (Fin 2), s.Busy 0 ∧ ∃ j, s.Free j ∨
    (∃ d, s.Waits j (.table d) .exclusive ∧ (.table d, .shared) ∈ s.left) ∨
    (s.Waits j .v4vLock .shared ∧ (.v4vLock, .shared) ∈ (s.cpu j).held ∧
      ∃ k, s.Waits k .v4vLock .exclusive) := by
  obtain ⟨s, hs, hat, _⟩ := send_beside_register
  have hbusy : s.Busy 0 := Or.inl fun hnil => by
    rw [System.At, hnil] at hat
    cases hat
  exact ⟨s, hbusy, hypercalls_go_on hs hbusy⟩

end V4v
