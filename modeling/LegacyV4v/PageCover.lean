import LegacyV4v.RingContainment
import LegacyV4v.RingInvariants

/-! # Do the registered pages cover the ring?

`v4v_find_ring_mfns` compares the size of the listed pages with `len` alone.  The data of
the ring starts 60 bytes into its first page, so a list that is just long enough for `len`
can be short of up to 60 bytes, and the end of the ring has no page. -/
namespace V4v
open MachineWord CyclicBuffer ChainedHash

/-- The pages hold the header and all data; then every page an insertion asks for is there,
wherever `tx_ptr` stands and whatever `rx_ptr` the owner shows. -/
def RingInfo.Covered (r : RingInfo) : Prop :=
  sizeofRing + r.len.toNat ≤ r.npage.toNat * pageSize ∧
    ∀ tx mem src proto buf len out, RingInfo.TxOk { r with txPtr := tx, mem := mem } →
      sizeofMessageHeader + len.toNat ≤ r.len.toNat →
      ringbufInsert { r with txPtr := tx, mem := mem } src proto buf len = some out →
      ∀ p ∈ out.maps, r.mapPage p = true

/-- The list has just the pages `len` bytes take, and with the ring header they would take
one more. -/
def TightList (npage len : UInt32) : Prop :=
  npage.toNat = (len.toNat + 4095) / 4096 ∧ (len.toNat % 4096 = 0 ∨ 4048 ≤ len.toNat % 4096)

instance (npage len : UInt32) : Decidable (TightList npage len) :=
  inferInstanceAs (Decidable (_ ∧ _))

section
variable {r : RingInfo}

/-- Every page an insertion asks for is a page of the ring, if the pages cover it. -/
theorem insert_maps (hs : r.Sane) (hm : r.Mapped)
    (hcover : sizeofRing + r.len.toNat ≤ r.npage.toNat * pageSize) {src : Addr}
    {proto len : UInt32} {buf : GuestBuf} {out : InsertOut} (hn : len.toNat ≤ 4294967280)
    (hout : ringbufInsert r src proto buf len = some out) {p : Nat} (hp : p ∈ out.maps) :
    r.mapPage p = true := by
  have hzero : r.mapPage 0 = true := hm.mapPage
  have hmaps : r.Admits len → p ∈ (r.writeMessage src proto buf len).maps → r.mapPage p = true := by
    intro hadm hp
    have := RingInfo.writeMessage_maps hs hn hadm.1 hcover hp
    simpa [RingInfo.mapPage] using this
  by_cases hadm : r.Admits len
  · rw [ringbufInsert, RingInfo.insertWith_of_admits hadm hm] at hout
    split at hout
    · obtain rfl := Option.some.inj hout
      rcases List.mem_cons.mp hp with rfl | hp
      · exact hzero
      · exact hmaps hadm hp
    · obtain rfl := Option.some.inj hout
      rcases List.mem_append.mp hp with hp | hp
      · rcases List.mem_cons.mp hp with rfl | hp
        · exact hzero
        · exact hmaps hadm hp
      · rw [List.mem_singleton.mp hp]; exact hzero
  · -- a refused message has looked at the first page at most
    have hfirst : ∀ p ∈ out.maps, p = 0 := by
      rw [ringbufInsert, RingInfo.insertWith, RingInfo.reserve_of_mapped hm] at hout
      split at hout
      · obtain rfl := Option.some.inj hout
        intro p hp; cases hp
      · rename_i hfit
        have hspace : sizeT (r.space r.rxPtr) ≤ RingInfo.messageSize len := by
          unfold RingInfo.Admits at hadm; omega
        rw [if_pos hspace] at hout
        dsimp only at hout
        rw [if_pos (by simp [eagain])] at hout
        obtain rfl := Option.some.inj hout
        intro p hp
        exact List.mem_singleton.mp hp
    rw [hfirst p hp]; exact hzero

/-- For a ring with pages and a checked length, covering is a matter of the page count. -/
theorem covered_iff (hlen : r.LenOk) (hm : r.Mapped) :
    r.Covered ↔ sizeofRing + r.len.toNat ≤ r.npage.toNat * pageSize := by
  refine ⟨fun h => h.1, fun hcover => ⟨hcover, ?_⟩⟩
  intro tx mem src proto buf len out htx hfit hout p hp
  have hle := hlen.len_le
  have hs : RingInfo.Sane { r with txPtr := tx, mem := mem } :=
    ⟨hlen.len_mod, hlen.len_ge, hlen.len_le, htx.2, htx.1⟩
  exact insert_maps hs hm hcover (by unfold sizeofMessageHeader at hfit; omega) hout hp

/-- The page count a registration accepts is short exactly when the list is tight. -/
theorem cover_iff_not_tight {npage len : UInt32} (hmod : len.toNat % 16 = 0)
    (hge : 48 ≤ len.toNat) (hcover : ¬ npage <<< 12 < len) :
    sizeofRing + len.toNat ≤ npage.toNat * pageSize ↔ ¬ TightList npage len := by
  have hle := len_le_of_cover hcover
  have hn := npage.toNat_lt
  unfold TightList sizeofRing pageSize
  omega

end

/-- The ring a successful registration leaves in the table. -/
theorem AddEffect.registered {s : Hyp} {d : DomId} {a : RegisterArgs} {s' : Hyp}
    (h : AddEffect s d a 0 s') : ∃ ring npage mfns pending t, a.header d = .ok ring ∧
      a.pfnList.map PfnList.npage = some npage ∧ ¬ npage <<< 12 < ring.len ∧
      s'.v4v d = some t ∧
      ringFindInfo t ring.id = some (V4v.registered ring npage mfns pending a.mem) := by
  cases h with
  | refused _ hret => exact absurd rfl hret
  | stranded _ _ hret => exact absurd rfl hret
  | @again t ring r npage mfns _ ht hring hfind _ hlist hcover hup =>
    obtain ⟨t', ht', hfound⟩ := hup.found ht
    refine ⟨ring, npage, mfns, r.pending, t', hring, hlist, hcover, ht', ?_⟩
    rw [hfound, if_pos (ringFindInfo_id hfind).symm]
  | @added t ring npage mfns _ ht hring hfind _ hlist hcover hdom =>
    refine ⟨ring, npage, mfns, [], ChainedHash.insert RingInfo.id hashFn t
      (V4v.registered ring npage mfns [] a.mem), hring, hlist, hcover, ?_, ?_⟩
    · exact (Hyp.v4v_assigned ht hdom d).trans (if_pos rfl)
    · exact find_insert.trans (if_pos rfl)

/-- **When registration covers the ring.**  After a `V4VOP_register_ring` that returned 0 the
ring is in the table, and its pages cover header and data exactly when the page list was
not tight. -/
theorem register_covered_iff {s : Hyp} {d : DomId} {a : RegisterArgs} {o : OpOut}
    (h : doV4vOp s d (.registerRing a) = some o) (hret : o.ret = 0) :
    ∃ ring pfnList t r, a.ring = some ring ∧ a.pfnList = some pfnList ∧
      o.state.v4v d = some t ∧
      ringFindInfo t ⟨⟨ring.id.addr.port, d⟩, ring.id.partner⟩ = some r ∧
      (r.Covered ↔ ¬ TightList pfnList.npage ring.len) := by
  obtain ⟨o', heff, rfl⟩ := doV4vOp_effect h
  cases heff with
  | inert _ hfail => exact absurd hret (hfail trivial)
  | register _ hadd =>
    dsimp only at hret
    rw [hret] at hadd
    obtain ⟨ring, npage, mfns, pending, t, hring, hlist, hcover, ht, hfind⟩ := hadd.registered
    obtain ⟨r, hr, hid, hlen, hge, hmod, _⟩ := header_ok hring
    obtain ⟨pfnList, hpfn, rfl⟩ := Option.map_eq_some_iff.mp hlist
    refine ⟨r, pfnList, t, _, hr, hpfn, ht, by rw [← hid]; exact hfind, ?_⟩
    have hok : LenChecked (registered ring pfnList.npage mfns pending a.mem) :=
      registered_lenChecked hring hcover
    have hmapped : (registered ring pfnList.npage mfns pending a.mem).Mapped := by
      refine ⟨fun hz => ?_, Option.some_ne_none _⟩
      have hle := len_le_of_cover hcover
      rw [show pfnList.npage = 0 from hz] at hle
      rw [hlen] at hle
      simp at hle
      omega
    rw [← hlen] at hmod hge ⊢
    rw [covered_iff (hok.lenOk hmapped) hmapped]
    exact cover_iff_not_tight hmod hge hcover

/-- A state with one domain, 1, that has no rings yet. -/
def oneDomain : Hyp := Hyp.after [.create 1 false true]

/-- Domain 1 registers a ring of `len` bytes on one page. -/
def registerOnePage (len : UInt32) : V4vOp := .registerRing (.smooth ⟨⟨5, 1⟩, 2⟩ len 0 0 1)

/-- One page covers a ring of 48 bytes. -/
theorem register_covered_small : ∃ o t r,
    doV4vOp oneDomain 1 (registerOnePage 48) = some o ∧ o.ret = 0 ∧ o.state.v4v 1 = some t ∧
      ringFindInfo t ⟨⟨5, 1⟩, 2⟩ = some r ∧ r.Covered := by
  have hret : (doV4vOp oneDomain 1 (registerOnePage 48)).map OpOut.ret = some 0 := by decide
  obtain ⟨o, ho, hret⟩ := Option.map_eq_some_iff.mp hret
  obtain ⟨ring, pfnList, t, r, hring, hlist, ht, hfind, hiff⟩ := register_covered_iff ho hret
  cases hring
  cases hlist
  exact ⟨o, t, r, ho, hret, ht, hfind, hiff.mpr (by decide)⟩

/-- A ring of 4096 bytes is accepted on one page, which has no room for the ring header. -/
theorem register_page_not_covered : ∃ o t r,
    doV4vOp oneDomain 1 (registerOnePage 4096) = some o ∧ o.ret = 0 ∧ o.state.v4v 1 = some t ∧
      ringFindInfo t ⟨⟨5, 1⟩, 2⟩ = some r ∧
      r.npage.toNat * pageSize < sizeofRing + r.len.toNat ∧ ¬ r.Covered := by
  have hrun : (doV4vOp oneDomain 1 (registerOnePage 4096)).bind (fun o =>
      (o.state.v4v 1).bind fun t => (ringFindInfo t ⟨⟨5, 1⟩, 2⟩).map fun r =>
        (o.ret, r.npage, r.len)) = some (0, 1, 4096) := by decide
  obtain ⟨o, ho, hrun⟩ := Option.bind_eq_some_iff.mp hrun
  obtain ⟨t, ht, hrun⟩ := Option.bind_eq_some_iff.mp hrun
  obtain ⟨r, hr, heq⟩ := Option.map_eq_some_iff.mp hrun
  obtain ⟨hret, heq⟩ := Prod.mk.inj heq
  obtain ⟨hnpage, hlen⟩ := Prod.mk.inj heq
  have hshort : r.npage.toNat * pageSize < sizeofRing + r.len.toNat := by
    rw [hnpage, hlen]
    decide
  exact ⟨o, t, r, ho, hret, ht, hr, hshort, fun hcov => absurd hcov.1 (Nat.not_le.mpr hshort)⟩

end V4v
