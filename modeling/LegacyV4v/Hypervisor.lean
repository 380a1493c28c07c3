import LegacyV4v.ChainedHash
import LegacyV4v.RingInsert
import LegacyV4v.Viptables

/-! # The hypervisor's state

What `v4v.c` keeps: for each domain a hash table of rings, the firewall rules, and,
as counters, the locks and references it holds.

The counters follow the locking order of the source: L1 is `v4v_lock`, L2 the lock of
a domain's `struct v4v_domain`, L3 the lock of one ring.  L1 and L2 are taken for
reading or for writing.  Hypercalls are taken one after the other here, so a counter
that is not zero between two of them is a lock that was not given back. -/
namespace V4v
open MachineWord

/-! ## The hash table -/

/-- `V4V_HTABLE_SIZE`. -/
def htableSize : Nat := 32

/-- `v4v_hash_fn`. -/
def hashFn (id : RingId) : Fin htableSize :=
  let ret : UInt16 := (id.addr.port >>> 16).toUInt16
  let ret := ret ^^^ id.addr.port.toUInt16
  let ret := ret ^^^ id.addr.domain
  let ret := ret ^^^ id.partner
  ⟨(ret &&& 31).toNat, by
    rw [UInt16.toNat_and]
    exact Nat.lt_of_le_of_lt Nat.and_le_right (by decide)⟩

/-- `ring_hash` of `struct v4v_domain`. -/
abbrev RingTable := ChainedHash.Table RingInfo htableSize

/-- Every ring of a table, bucket by bucket. -/
def RingTable.rings (t : RingTable) : List RingInfo := (List.finRange htableSize).flatMap t

/-- `v4v_ring_find_info`. -/
def ringFindInfo (t : RingTable) (id : RingId) : Option RingInfo :=
  ChainedHash.find RingInfo.id hashFn t id

/-- `v4v_ring_find_info_by_addr`: the ring for partner `p`, or else the one for any
partner. -/
def ringFindInfoByAddr (t : RingTable) (d : DomId) (a : Addr) (p : DomId) : Option RingInfo :=
  match ringFindInfo t ⟨⟨a.port, d⟩, p⟩ with
  | some r => some r
  | none => ringFindInfo t ⟨⟨a.port, d⟩, domidAny⟩

/-! ## The state -/

/-- What is held of a lock, or of a domain. -/
inductive Lock where
  | l1Read
  | l1Write
  | l2Read (d : DomId)
  | l2Write (d : DomId)
  | l3 (id : RingId)
  | domainLock (d : DomId)
  | domainRef (d : DomId)
  deriving DecidableEq, Repr

/-- `struct domain`.  `v4v` is `none` while `d->v4v` is `NULL`. -/
structure Domain where
  isPrivileged : Bool
  isDying : Bool
  v4v : Option RingTable

/-- The state.  `pageRefs` and `typeRefs` count the general and the writable-type
references v4v holds on a machine page; `signals` are the `VIRQ_V4V` raised so far. -/
structure Hyp where
  domains : DomId → Option Domain
  viprules : List Rule
  holds : Lock → Int
  pageRefs : Nat → Int
  typeRefs : Nat → Int
  signals : List DomId

namespace Hyp
variable (s : Hyp)

def acquire (l : Lock) : Hyp :=
  { s with holds := fun k => if k = l then s.holds k + 1 else s.holds k }

def release (l : Lock) : Hyp :=
  { s with holds := fun k => if k = l then s.holds k - 1 else s.holds k }

/-- `d->v4v`. -/
def v4v (d : DomId) : Option RingTable := (s.domains d).bind Domain.v4v

/-- Assign `d->v4v`. -/
def setV4v (d : DomId) (t : Option RingTable) : Hyp :=
  let dom := (s.domains d).map fun dom => { dom with v4v := t }
  { s with domains := Function.update s.domains d dom }

/-- `get_page` or `get_page_from_gfn`. -/
def getPage (mfn : Nat) : Hyp :=
  { s with pageRefs := fun k => if k = mfn then s.pageRefs k + 1 else s.pageRefs k }

/-- `put_page`. -/
def putPage (mfn : Nat) : Hyp :=
  { s with pageRefs := fun k => if k = mfn then s.pageRefs k - 1 else s.pageRefs k }

/-- `get_page_type (page, PGT_writable_page)`. -/
def getPageType (mfn : Nat) : Hyp :=
  { s with typeRefs := fun k => if k = mfn then s.typeRefs k + 1 else s.typeRefs k }

/-- `put_page_type`. -/
def putPageType (mfn : Nat) : Hyp :=
  { s with typeRefs := fun k => if k = mfn then s.typeRefs k - 1 else s.typeRefs k }

/-- `put_page_and_type` on each page of the list but page 0. -/
def putPagesAndTypes : List Nat → Hyp
  | [] => s
  | mfn :: l =>
    let s := putPagesAndTypes l
    if mfn ≠ 0 then (s.putPage mfn).putPageType mfn else s

/-- `v4v_signal_domain`. -/
def signalDomain (d : DomId) : Hyp := { s with signals := d :: s.signals }

/-- `v4v_signal_domid`: the domain is referenced while it is signalled. -/
def signalDomid (d : DomId) : Hyp :=
  match s.domains d with
  | none => s
  | some _ => ((s.acquire (.domainRef d)).signalDomain d).release (.domainRef d)

end Hyp

/-! ## What the operations leave alone -/

namespace Hyp
variable {s : Hyp} {l : Lock} {d e : DomId}

@[simp] theorem acquire_domains : (s.acquire l).domains = s.domains := rfl
@[simp] theorem acquire_v4v : (s.acquire l).v4v d = s.v4v d := rfl
@[simp] theorem release_v4v : (s.release l).v4v d = s.v4v d := rfl

@[simp] theorem release_acquire (s : Hyp) (l : Lock) : (s.acquire l).release l = s := by
  have hholds : ((s.acquire l).release l).holds = s.holds := by
    funext k
    simp only [acquire, release]
    split <;> omega
  exact congrArg (fun holds => { s with holds := holds }) hholds

theorem acquire_setV4v (s : Hyp) (l : Lock) (d : DomId) (t : Option RingTable) :
    (s.acquire l).setV4v d t = (s.setV4v d t).acquire l := rfl

/-- Two locks that are taken can be given back in either order. -/
theorem acquire_comm (s : Hyp) (l l' : Lock) :
    (s.acquire l).acquire l' = (s.acquire l').acquire l := by
  have hholds : ((s.acquire l).acquire l').holds = ((s.acquire l').acquire l).holds := by
    funext k
    simp only [acquire]
    split <;> split <;> rfl
  exact congrArg (fun holds => { s with holds := holds }) hholds

theorem v4v_of_domains {dom : Domain} (h : s.domains d = some dom) : s.v4v d = dom.v4v := by
  unfold v4v
  rw [h]
  rfl

theorem v4v_of_none (h : s.domains d = none) : s.v4v d = none := by
  unfold v4v
  rw [h]
  rfl

theorem domains_of_v4v {t : RingTable} (h : s.v4v d = some t) : s.domains d ≠ none := by
  intro hnone
  rw [v4v_of_none hnone] at h
  cases h

/-- Assigning `d->v4v` of a domain that exists. -/
theorem setV4v_v4v {t : Option RingTable} (h : s.domains d ≠ none) :
    (s.setV4v d t).v4v e = if e = d then t else s.v4v e := by
  unfold v4v setV4v
  by_cases he : e = d
  · subst he
    obtain ⟨dom, hdom⟩ := Option.ne_none_iff_exists'.mp h
    simp [hdom]
  · simp [he]

@[simp] theorem putPagesAndTypes_holds (mfns : List Nat) :
    (s.putPagesAndTypes mfns).holds = s.holds := by
  induction mfns with
  | nil => rfl
  | cons mfn l ih =>
    unfold putPagesAndTypes
    dsimp only
    split
    · exact ih
    · exact ih

@[simp] theorem putPagesAndTypes_domains (mfns : List Nat) :
    (s.putPagesAndTypes mfns).domains = s.domains := by
  induction mfns with
  | nil => rfl
  | cons mfn l ih =>
    unfold putPagesAndTypes
    dsimp only
    split
    · exact ih
    · exact ih

theorem signal_if_domains {c : Prop} [Decidable c] :
    (if c then s.signalDomain d else s).domains = s.domains := by
  split <;> rfl

theorem signal_if_holds {c : Prop} [Decidable c] :
    (if c then s.signalDomain d else s).holds = s.holds := by
  split <;> rfl

@[simp] theorem signalDomid_domains : (s.signalDomid d).domains = s.domains := by
  unfold signalDomid; split <;> rfl

@[simp] theorem signalDomid_holds : (s.signalDomid d).holds = s.holds := by
  unfold signalDomid
  split
  · rfl
  · funext k
    simp only [acquire, release, signalDomain]
    split <;> omega

end Hyp
end V4v
