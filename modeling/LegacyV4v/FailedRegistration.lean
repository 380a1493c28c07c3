import LegacyV4v.TableEffects

/-! # Registrations that fail

`v4v_ring_add` of a ring that is registered already gives up its pages and writes the new `len` and `tx_ptr`
before `v4v_find_ring_mfns` looks at the page list.  A call that fails behind that point leaves the ring
without pages; all other failures leave the tables as they were. -/
namespace V4v
open MachineWord ChainedHash

/-- What a registration sets: `len`, `tx_ptr`, `npage` and the page list. -/
def RingInfo.registration (r : RingInfo) : UInt32 × UInt32 × UInt32 × Option (List Nat) :=
  (r.len, r.txPtr, r.npage, r.mfns)

namespace Hyp
variable {s s' : Hyp} {d : DomId}

/-- The ring of domain `d` under `id`. -/
def ringUnder (s : Hyp) (d : DomId) (id : RingId) : Option RingInfo :=
  (s.v4v d).bind fun t => ringFindInfo t id

/-- The same rings are registered, with the same lengths, `tx_ptr`s and pages. -/
def SameRegistrations (s s' : Hyp) : Prop :=
  ∀ e id, (s'.ringUnder e id).map RingInfo.registration = (s.ringUnder e id).map RingInfo.registration

/-- The same rings are found, so that sends find them as before. -/
def SameRings (s s' : Hyp) : Prop := ∀ e id, s'.ringUnder e id = s.ringUnder e id

theorem SameRings.registrations (h : s.SameRings s') : s.SameRegistrations s' :=
  fun e id => congrArg (Option.map RingInfo.registration) (h e id)

theorem SameRings.of_domains (h : s'.domains = s.domains) : s.SameRings s' := by
  intro e id
  unfold ringUnder
  rw [Hyp.v4v_congr h]

/-- An update changes what is found under one id. -/
theorem Updates.ringUnder {r r' : RingInfo} (h : s.Updates s' d r r') (e : DomId) (id : RingId) :
    s'.ringUnder e id = if e = d ∧ id = r.id then some r' else s.ringUnder e id := by
  obtain ⟨t, ht, hr, hdom⟩ := h.table
  unfold Hyp.ringUnder
  by_cases he : e = d
  · subst he
    obtain ⟨t', ht', hfound⟩ := h.found ht
    rw [ht', ht, Option.bind_some, Option.bind_some, hfound]
    by_cases hid : id = r.id
    · rw [if_pos hid, if_pos ⟨rfl, hid⟩]
    · rw [if_neg hid, if_neg fun hboth => hid hboth.2]
  · rw [if_neg fun hboth => he hboth.1, (Hyp.v4v_assigned ht hdom e).trans (if_neg he)]

theorem Updates.ringUnder_self {r r' : RingInfo} (h : s.Updates s' d r r') :
    s.ringUnder d r.id = some r := by
  obtain ⟨t, ht, hr, -⟩ := h.table
  unfold Hyp.ringUnder
  rw [ht, Option.bind_some, hr]

end Hyp

/-- The call finds no ring to take apart: it is refused before the table is searched, no ring is registered
under the id, or the one that is has no pages, and the length and `tx_ptr` that the call brings. -/
def RegisterArgs.Spares (a : RegisterArgs) (s : Hyp) (d : DomId) : Prop :=
  a.ringOkay = true → a.pfnListOkay = true → a.pageAligned = true → ∀ ring r, a.header d = .ok ring →
    s.ringUnder d ring.id = some r → r.mfns = none ∧ r.len = ring.len ∧ r.txPtr = ring.txPtr

/-- A stranded ring has kept its registration when it had no pages, and what the call brings. -/
theorem unbacked_registration_iff {ring : RingHeader} {r : RingInfo} :
    (unbacked ring r).registration = r.registration ↔
      r.mfns = none ∧ r.len = ring.len ∧ r.txPtr = ring.txPtr := by
  unfold RingInfo.registration unbacked
  dsimp only
  rw [Prod.mk.injEq, Prod.mk.injEq, Prod.mk.injEq]
  constructor
  · rintro ⟨hlen, htx, -, hmfns⟩
    exact ⟨hmfns.symm, hlen.symm, htx.symm⟩
  · rintro ⟨hmfns, hlen, htx⟩
    exact ⟨hlen.symm, htx.symm, rfl, hmfns.symm⟩

theorem unbacked_eq {ring : RingHeader} {r : RingInfo} (hid : r.id = ring.id) (hmfns : r.mfns = none)
    (hlen : r.len = ring.len) (htx : r.txPtr = ring.txPtr) : unbacked ring r = r := by
  unfold unbacked
  rw [← hid, ← hlen, ← htx, ← hmfns]

/-- Behind the checks, a ring that is there is registered again unless its new pages cannot be taken. -/
theorem ringAdd_found {s : Hyp} {d : DomId} {a : RegisterArgs} {ring : RingHeader} {r : RingInfo}
    (halign : a.pageAligned = true) (hring : a.header d = .ok ring)
    (hfind : s.ringUnder d ring.id = some r) : (ringAdd s d a).1 = 0 ↔ a.PagesUsable ring.len := by
  obtain ⟨t, ht, hr⟩ := Option.bind_eq_some_iff.mp hfind
  have hadd : (ringAdd s d a).1 =
      (registerAgain ((s.acquire .l1Read).acquire (.l2Read d)) d t ring r a).1 := by
    unfold ringAdd
    rw [halign, Bool.not_true, if_neg Bool.false_ne_true, hring]
    dsimp only
    rw [Hyp.acquire_v4v, ht]
    dsimp only
    rw [hr]
  rw [hadd]
  unfold registerAgain
  dsimp only
  rcases findRingMfns_cases ((ringRemoveMfns ((s.acquire .l1Read).acquire (.l2Read d)) r).acquire
    (.l3 ring.id)) ring.len a with ⟨hpages, hret, hnone⟩ | ⟨npage, mfns, hpages, -, hsome, -, -⟩
  · rw [hnone]
    exact iff_of_false hret hpages
  · rw [hsome]
    exact iff_of_true rfl hpages

/-- A failed `v4v_ring_add`: the tables are as before, unless it strands a ring. -/
theorem ringAdd_failed {s : Hyp} {d : DomId} {a : RegisterArgs} (hring : a.ringOkay = true)
    (hlist : a.pfnListOkay = true) (hret : (ringAdd s d a).1 ≠ 0) :
    (s.SameRegistrations (ringAdd s d a).2 ↔ a.Spares s d) ∧
      (a.Spares s d → s.SameRings (ringAdd s d a).2) := by
  cases ringAdd_effect s d a with
  | refused hnot _ hdom =>
    refine ⟨iff_of_true (Hyp.SameRings.of_domains hdom).registrations ?_, fun _ => .of_domains hdom⟩
    intro _ _ halign ring r hhead hfind
    obtain ⟨t, ht, hr⟩ := Option.bind_eq_some_iff.mp hfind
    exact absurd ((strands_iff ht hhead).mpr ⟨halign, by rw [hr]; exact Option.some_ne_none r,
      mt (ringAdd_found halign hhead hfind).mpr hret⟩) hnot
  | @stranded ring r hstrands hhead _ hup =>
    have hid : r.id = ring.id := hup.id_eq.symm
    have hspares : a.Spares s d ↔ r.mfns = none ∧ r.len = ring.len ∧ r.txPtr = ring.txPtr := by
      have hself := hup.ringUnder_self
      rw [hid] at hself
      constructor
      · exact fun h => h hring hlist hstrands.1 ring r hhead hself
      · intro h _ _ _ ring' r' hhead' hfind'
        obtain rfl := Except.ok.inj (hhead.symm.trans hhead')
        obtain rfl := Option.some.inj (hself.symm.trans hfind')
        exact h
    constructor
    · rw [hspares, ← unbacked_registration_iff]
      constructor
      · intro hsame
        have hthere := hsame d r.id
        rw [hup.ringUnder, if_pos ⟨rfl, rfl⟩, hup.ringUnder_self] at hthere
        exact Option.some.inj hthere
      · intro hsame e id
        rw [hup.ringUnder]
        split
        · next hboth =>
          rw [hboth.1, hboth.2, hup.ringUnder_self, Option.map_some, Option.map_some, hsame]
        · rfl
    · intro h e id
      obtain ⟨hmfns, hlen, htx⟩ := hspares.mp h
      rw [hup.ringUnder, unbacked_eq hid hmfns hlen htx]
      split
      · next hboth => rw [hboth.1, hboth.2, hup.ringUnder_self]
      · rfl
  | again _ _ _ _ _ _ hzero => exact absurd hzero hret
  | added _ _ _ _ _ _ hzero => exact absurd hzero hret

/-- **When a failed registration is atomic.**  A `V4VOP_register_ring` that returns an error keeps all
registrations exactly when it found no ring to take apart; then every ring is found as before. -/
theorem register_failed_atomic_iff {s : Hyp} {d : DomId} {a : RegisterArgs} {o : OpOut}
    (h : doV4vOp s d (.registerRing a) = some o) (hret : o.ret ≠ 0) :
    (s.SameRegistrations o.state ↔ a.Spares s d) ∧ (a.Spares s d → s.SameRings o.state) := by
  obtain ⟨priv, o', ho', rfl⟩ := doV4vOp_dispatch h
  rw [dispatch] at ho'
  split at ho'
  · next hokay =>
    obtain rfl := Option.some.inj ho'
    have hspares : a.Spares s d := by
      intro hring hlist
      rw [hring, hlist] at hokay
      exact absurd hokay (by decide)
    have hsame : s.SameRings s := fun _ _ => rfl
    exact ⟨iff_of_true hsame.registrations hspares, fun _ => hsame⟩
  · next hokay =>
    obtain rfl := Option.some.inj ho'
    rw [Bool.or_eq_true, not_or, Bool.not_eq_true', Bool.not_eq_true', Bool.not_eq_false,
      Bool.not_eq_false] at hokay
    exact ringAdd_failed (s := s.acquire (.domainLock d)) hokay.1 hokay.2 hret

/-- Domain 1 with a ring of 64 bytes, in page 1. -/
def soleRing : Hyp :=
  Hyp.after [.create 1 false true, .hypercall 1 (.registerRing (.smooth ⟨⟨5, 1⟩, 2⟩ 64 0 0 1))]

/-- The ring is registered again, with a page list without its magic. -/
def badList (id : RingId) : RegisterArgs :=
  { RegisterArgs.smooth id 64 0 0 1 with pfnList := some ⟨0, 1⟩ }

theorem register_failed_other_id : ∃ o,
    doV4vOp soleRing 1 (.registerRing (badList ⟨⟨6, 1⟩, 2⟩)) = some o ∧ o.ret = -einval ∧
      soleRing.SameRings o.state := by
  have hrun : (doV4vOp soleRing 1 (.registerRing (badList ⟨⟨6, 1⟩, 2⟩))).map OpOut.ret = some (-einval) := by
    decide
  obtain ⟨o, ho, hret⟩ := Option.map_eq_some_iff.mp hrun
  refine ⟨o, ho, hret, (register_failed_atomic_iff ho (by rw [hret]; decide)).2 ?_⟩
  intro _ _ _ ring r hhead hfind
  obtain rfl := Except.ok.inj hhead
  have hnone : (soleRing.ringUnder 1 ⟨⟨6, 1⟩, 2⟩).isNone = true := by decide
  cases (Option.isNone_iff_eq_none.mp hnone).symm.trans hfind

/-- The failed call takes the ring's page: it cannot be sent to any more. -/
theorem register_failed_takes_pages : ¬ ∀ s : Hyp, s.Reachable → ∀ d a o,
    doV4vOp s d (.registerRing a) = some o → o.ret ≠ 0 → s.SameRegistrations o.state := by
  intro hall
  have hbefore : (soleRing.ringUnder 1 ⟨⟨5, 1⟩, 2⟩).map RingInfo.mfns = some (some [1]) := by decide
  have hrun : (doV4vOp soleRing 1 (.registerRing (badList ⟨⟨5, 1⟩, 2⟩))).map (fun o =>
      (o.ret, (o.state.ringUnder 1 ⟨⟨5, 1⟩, 2⟩).map RingInfo.mfns)) = some (-einval, some none) := by decide
  obtain ⟨o, ho, heq⟩ := Option.map_eq_some_iff.mp hrun
  obtain ⟨hret, hafter⟩ := Prod.mk.inj heq
  have hsame := hall soleRing (Hyp.after_reachable _) 1 _ o ho (by rw [hret]; decide) 1 ⟨⟨5, 1⟩, 2⟩
  have hpages := congrArg (Option.map fun p : UInt32 × UInt32 × UInt32 × Option (List Nat) => p.2.2.2) hsame
  rw [Option.map_map, Option.map_map] at hpages
  have heq : some (none : Option (List Nat)) = some (some [1]) := hafter.symm.trans (hpages.trans hbefore)
  exact absurd heq (by decide)

end V4v
