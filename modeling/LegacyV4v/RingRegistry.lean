import Mathlib.Data.Finset.Basic
import LegacyV4v.TableEffects

/-! # The ring registry

What the hash tables stand for: a finite set of ring ids.  A registration that succeeds
adds an id, a removal that succeeds takes it out, and the death of a domain takes out all
of its ids; nothing else changes the set.  It is computed from what the hypercalls return
alone.  The tables of the hypervisor refine it in every run: each holds exactly the
registered ids of its domain, each id once and in the bucket of its hash. -/
namespace V4v
open ChainedHash GuardedRun

/-- The ids that are registered. -/
abbrev Registry := Finset RingId

namespace Registry

/-- What an event does to the registry.  The id of a ring names the domain that registers
it, whatever the ring header says. -/
def next (reg : Registry) : Event → Registry
  | .returned d (.registerRing a) ret _ =>
    match a.ring with
    | none => reg
    | some ring =>
      if ret = 0 then insert ⟨⟨ring.id.addr.port, d⟩, ring.id.partner⟩ reg else reg
  | .returned d (.unregisterRing a) ret _ =>
    match a.ring with
    | none => reg
    | some ring =>
      if ret = 0 then reg.erase ⟨⟨ring.id.addr.port, d⟩, ring.id.partner⟩ else reg
  | .killed d => reg.filter fun id => id.addr.domain ≠ d
  | _ => reg

/-- The registry behind a run. -/
def ofEvents (es : List Event) : Registry := es.foldl next ∅

/-- The id for a port and a partner: the specific one, or else the one for any partner. -/
def lookup (reg : Registry) (d : DomId) (a : Addr) (p : DomId) : Option RingId :=
  if ⟨⟨a.port, d⟩, p⟩ ∈ reg then some ⟨⟨a.port, d⟩, p⟩
  else if ⟨⟨a.port, d⟩, domidAny⟩ ∈ reg then some ⟨⟨a.port, d⟩, domidAny⟩
  else none

end Registry

/-! ## The tables of the domains -/

/-- The table of domain `d` holds the registered ids of `d`; a domain without a table has
none. -/
structure Records (reg : Registry) (d : DomId) (t : RingTable) : Prop where
  wellFormed : WellFormed RingInfo.id hashFn t
  owned : ∀ r, Mem t r → r.id.addr.domain = d
  found : ∀ id, id.addr.domain = d → ((ringFindInfo t id).isSome ↔ id ∈ reg)

/-- The tables of all domains refine the registry. -/
structure Refines (s : Hyp) (reg : Registry) : Prop where
  records : ∀ d t, s.v4v d = some t → Records reg d t
  gone : ∀ d, s.v4v d = none → ∀ id ∈ reg, id.addr.domain ≠ d

section
variable {reg reg' : Registry} {d : DomId} {t t' : RingTable}

/-- The relation looks at the ids of the table only. -/
theorem Records.of_keys (h : Records reg d t) (hkeys : keys RingInfo.id t' = keys RingInfo.id t) :
    Records reg d t' where
  wellFormed := by
    have hwf := h.wellFormed
    rw [wellFormed_iff_keys] at hwf ⊢
    rwa [hkeys]
  owned := by
    rintro r ⟨i, hi⟩
    have hmem : r.id ∈ keys RingInfo.id t i := by
      rw [← hkeys]
      exact List.mem_map_of_mem hi
    obtain ⟨r', hr', hid⟩ := List.mem_map.mp hmem
    rw [← hid]
    exact h.owned r' ⟨i, hr'⟩
  found := by
    intro id hid
    rw [← h.found id hid]
    unfold ringFindInfo
    rw [find_isSome, find_isSome, hkeys]

/-- The relation looks at the domain's own ids only. -/
theorem Records.of_reg (h : Records reg d t)
    (hreg : ∀ id, id.addr.domain = d → (id ∈ reg' ↔ id ∈ reg)) : Records reg' d t :=
  ⟨h.wellFormed, h.owned, fun id hid => (h.found id hid).trans (hreg id hid).symm⟩

theorem Records.insert (h : Records reg d t) {r : RingInfo} (hdom : r.id.addr.domain = d)
    (hnew : ringFindInfo t r.id = none) :
    Records (insert r.id reg) d (ChainedHash.insert RingInfo.id hashFn t r) where
  wellFormed := h.wellFormed.insert hnew
  owned := by
    intro r' hr'
    rcases mem_insert hr' with rfl | hr'
    · exact hdom
    · exact h.owned r' hr'
  found := by
    intro id hid
    unfold ringFindInfo
    rw [find_insert, Finset.mem_insert]
    by_cases heq : id = r.id
    · simp [heq]
    · rw [if_neg heq, or_iff_right heq]
      exact h.found id hid

theorem Records.erase (h : Records reg d t) (id : RingId) :
    Records (reg.erase id) d (ChainedHash.erase RingInfo.id hashFn t id) where
  wellFormed := h.wellFormed.erase id
  owned r hr := h.owned r (mem_erase hr)
  found := by
    intro id' hid
    unfold ringFindInfo
    rw [h.wellFormed.find_erase, Finset.mem_erase]
    by_cases heq : id' = id
    · simp [heq]
    · rw [if_neg heq, and_iff_right heq]
      exact h.found id' hid

/-- What is found by address is what the registry has. -/
theorem Records.lookup (h : Records reg d t) (a : Addr) (p : DomId) :
    (ringFindInfoByAddr t d a p).map RingInfo.id = reg.lookup d a p := by
  have hfound : ∀ q, (⟨⟨a.port, d⟩, q⟩ ∈ reg) ↔ (ringFindInfo t ⟨⟨a.port, d⟩, q⟩).isSome :=
    fun q => (h.found ⟨⟨a.port, d⟩, q⟩ rfl).symm
  unfold ringFindInfoByAddr Registry.lookup
  simp only [hfound]
  cases hspec : ringFindInfo t ⟨⟨a.port, d⟩, p⟩ with
  | some r => simp [ringFindInfo_id hspec]
  | none =>
    cases hany : ringFindInfo t ⟨⟨a.port, d⟩, domidAny⟩ with
    | some r => simp [ringFindInfo_id hany]
    | none => simp

end

/-! ## One action -/

namespace Registry
variable (reg : Registry)

/-- The registry of a call that failed. -/
theorem next_failed {d : DomId} {op : V4vOp} {ret : Int} {ins : List Insertion} (h : ret ≠ 0) :
    reg.next (.returned d op ret ins) = reg := by
  unfold next
  split
  · rename_i heq
    cases heq
    split
    · rfl
    · exact if_neg h
  · rename_i heq
    cases heq
    split
    · rfl
    · exact if_neg h
  · rename_i heq
    cases heq
  · rfl

/-- The registry of a call that registers or removes nothing. -/
theorem next_inert {d : DomId} {op : V4vOp} {ret : Int} {ins : List Insertion}
    (h : op.IsRegistration → ret ≠ 0) : reg.next (.returned d op ret ins) = reg := by
  cases op with
  | registerRing a => exact reg.next_failed (h trivial)
  | unregisterRing a => exact reg.next_failed (h trivial)
  | _ => rfl

theorem next_registered {d : DomId} {a : RegisterArgs} {ring : RingHeader} {ins : List Insertion}
    (h : a.header d = .ok ring) :
    reg.next (.returned d (.registerRing a) 0 ins) = insert ring.id reg := by
  obtain ⟨r, hr, hid, _⟩ := header_ok h
  unfold next
  dsimp only
  rw [hr, hid]
  exact if_pos rfl

theorem next_removed {d : DomId} {a : UnregisterArgs} {ring : RingHeader} {ins : List Insertion}
    (h : a.ring = some ring) : reg.next (.returned d (.unregisterRing a) 0 ins) =
      reg.erase ⟨⟨ring.id.addr.port, d⟩, ring.id.partner⟩ := by
  unfold next
  dsimp only
  rw [h]
  exact if_pos rfl

end Registry

namespace Refines
variable {s s' : Hyp} {reg reg' : Registry}

theorem sameIds (h : Refines s reg) (hs : s.SameIds s') : Refines s' reg where
  records := by
    intro d t' ht'
    have hkeys := hs d
    rw [ht', Option.map_some] at hkeys
    obtain ⟨t, ht, heq⟩ := Option.map_eq_some_iff.mp hkeys.symm
    exact (h.records d t ht).of_keys heq.symm
  gone := by
    intro d hnone
    have hkeys := hs d
    rw [hnone, Option.map_none] at hkeys
    exact h.gone d (Option.map_eq_none_iff.mp hkeys.symm)

/-- Assigning the table of one domain, when the registry changes at its ids only. -/
theorem setV4v (h : Refines s reg) {d : DomId} {t₀ t : RingTable} (hd : s.v4v d = some t₀)
    (hdom : s'.domains = (s.setV4v d (some t)).domains) (ht : Records reg' d t)
    (hreg : ∀ id, id.addr.domain ≠ d → (id ∈ reg' ↔ id ∈ reg)) : Refines s' reg' where
  records := by
    intro e t' ht'
    rw [Hyp.v4v_assigned hd hdom] at ht'
    split at ht'
    · rename_i he
      obtain rfl := Option.some.inj ht'
      rw [he]
      exact ht
    · rename_i he
      exact (h.records e t' ht').of_reg fun id hid => hreg id (by rw [hid]; exact he)
  gone := by
    intro e hnone id hid hidom
    rw [Hyp.v4v_assigned hd hdom] at hnone
    split at hnone
    · cases hnone
    · rename_i he
      exact h.gone e hnone id ((hreg id (by rw [hidom]; exact he)).mp hid) hidom

theorem register (h : Refines s reg) {d : DomId} {a : RegisterArgs} {ret : Int}
    {ins : List Insertion} (heff : AddEffect s d a ret s') :
    Refines s' (reg.next (.returned d (.registerRing a) ret ins)) := by
  cases heff with
  | refused _ hret hdom =>
    rw [reg.next_failed hret]
    exact h.sameIds (.of_domains hdom)
  | stranded _ _ hret hup =>
    rw [reg.next_failed hret]
    exact h.sameIds hup.sameIds
  | @again t ring r _ _ _ ht hring hfind hret _ _ hup =>
    obtain ⟨_, _, hid, _⟩ := header_ok hring
    -- the id is in the registry already
    have hmem : ring.id ∈ reg := by
      rw [← (h.records d t ht).found ring.id (by rw [hid]), hfind]
      rfl
    rw [hret, reg.next_registered hring, Finset.insert_eq_of_mem hmem]
    exact h.sameIds hup.sameIds
  | @added t ring npage mfns _ ht hring hfind hret _ _ hdom =>
    obtain ⟨_, _, hid, _⟩ := header_ok hring
    rw [hret, reg.next_registered hring]
    have hrec := (h.records d t ht).insert (r := registered ring npage mfns [] a.mem)
      (show ring.id.addr.domain = d by rw [hid]) hfind
    refine h.setV4v ht hdom hrec fun id hne => ?_
    rw [Finset.mem_insert, or_iff_right]
    rintro rfl
    exact hne (by rw [hid])

theorem unregister (h : Refines s reg) {d : DomId} {a : UnregisterArgs} {ret : Int}
    {ins : List Insertion} (heff : RemoveEffect s d a ret s') :
    Refines s' (reg.next (.returned d (.unregisterRing a) ret ins)) := by
  cases heff with
  | refused hret hdom =>
    rw [reg.next_failed hret]
    exact h.sameIds (.of_domains hdom)
  | removed ht hring hid hret hdom =>
    rw [hret, reg.next_removed hring, ← hid]
    refine h.setV4v ht hdom ((h.records d _ ht).erase _) fun id hne => ?_
    rw [Finset.mem_erase, and_iff_right]
    rintro rfl
    exact hne (by rw [hid])

theorem kill (h : Refines s reg) {d : DomId} (hkill : killDomain s d = some s') :
    Refines s' (reg.next (.killed d)) where
  records := by
    intro e t ht
    rw [killDomain_v4v hkill] at ht
    split at ht
    · cases ht
    · rename_i he
      refine (h.records e t ht).of_reg fun id hid => ?_
      rw [Registry.next, Finset.mem_filter, and_iff_left]
      rwa [hid]
  gone := by
    intro e hnone id hid
    rw [Registry.next, Finset.mem_filter] at hid
    rw [killDomain_v4v hkill] at hnone
    split at hnone
    · rename_i he
      rw [he]
      exact hid.2
    · exact h.gone e hnone id hid.1

theorem create (h : Refines s reg) {d : DomId} {priv alloc : Bool}
    (hcreate : createDomain s d priv alloc = some s') : Refines s' reg := by
  rcases createDomain_v4v hcreate with hv | ⟨hold, hv⟩
  · exact h.sameIds fun e => by rw [hv]
  · refine ⟨fun e t ht => ?_, fun e hnone => ?_⟩
    · rw [hv] at ht
      split at ht
      · rename_i he
        obtain rfl := Option.some.inj ht
        refine ⟨wellFormed_empty, fun r ⟨i, hi⟩ => (by cases hi), fun id hid => ?_⟩
        -- a domain that is only now created has no id in the registry
        refine iff_of_false (by simp [ringFindInfo, find]) fun hmem => ?_
        exact h.gone d hold id hmem (hid.trans he)
      · exact h.records e t ht
    · rw [hv] at hnone
      split at hnone
      · cases hnone
      · exact h.gone e hnone

/-- **One action of the system is one step of the registry.** -/
theorem step (h : Refines s reg) {act : Act} {e : Event} (hstep : s.step act = some (e, s')) :
    Refines s' (reg.next e) := by
  cases step_effect hstep with
  | @hypercall d op o heff =>
    have h₀ : Refines (s.acquire (.domainLock d)) reg := h.sameIds fun _ => rfl
    suffices h' : Refines o.state (reg.next (.returned d op o.ret o.inserted)) from
      h'.sameIds fun _ => rfl
    cases heff with
    | inert _ hfail hdom =>
      rw [reg.next_inert hfail]
      exact h₀.sameIds (.of_domains hdom)
    | register _ hadd => exact h₀.register hadd
    | unregister hrem => exact h₀.unregister hrem
    | send _ hsend => exact h₀.sameIds hsend.sameIds
    | sendv _ _ hsend => exact h₀.sameIds hsend.sameIds
    | notify hpend => exact h₀.sameIds hpend.sameIds
  | guestWrite hup => exact h.sameIds hup.sameIds
  | create hcreate => exact h.create hcreate
  | kill hkill => exact h.kill hkill

theorem boot : Refines Hyp.boot ∅ :=
  ⟨fun _ _ ht => (by cases ht), fun _ _ _ hid => absurd hid (Finset.notMem_empty _)⟩

end Refines

/-- **The tables refine the registry** in every run, whatever calls fail on the way: the
table of a domain holds each id once, in the bucket of its hash, and only ids of that
domain; and what `v4v_ring_find_info_by_addr` finds is what the registry has. -/
theorem tables_refine_registry {ok : Hyp → Act → Prop} {es : List Event} {s : Hyp}
    (h : Hyp.Runs ok es s) {d : DomId} {t : RingTable} (ht : s.v4v d = some t) :
    WellFormed RingInfo.id hashFn t ∧ (∀ r, Mem t r → r.id.addr.domain = d) ∧
      ∀ a p, (ringFindInfoByAddr t d a p).map RingInfo.id =
        (Registry.ofEvents es).lookup d a p := by
  have hrefines : Refines s (Registry.ofEvents es) :=
    h.simulates Registry.next Refines.boot fun s act e s' reg hs _ hstep => hs.step hstep
  have hrec := hrefines.records d t ht
  exact ⟨hrec.wellFormed, hrec.owned, hrec.lookup⟩

/-- Domain 1 registers port 5 for domain 2 and for anyone, fails to register it for domain
3, and gives up the ring for domain 2. -/
def threeCalls : List Act :=
  [.create 1 false true,
    .hypercall 1 (.registerRing (.smooth ⟨⟨5, 1⟩, 2⟩ 48 0 0 1)),
    .hypercall 1 (.registerRing (.smooth ⟨⟨5, 1⟩, domidAny⟩ 48 0 0 1)),
    .hypercall 1 (.registerRing (.smooth ⟨⟨5, 1⟩, 3⟩ 8192 0 0 1)),
    .hypercall 1 (.unregisterRing ⟨true, some ⟨ringMagic, ⟨⟨5, 7⟩, 2⟩, 0, 0, 0⟩⟩)]

/-- Behind these calls domain 2 finds the ring for anyone. -/
theorem threeCalls_refine : ∃ es s t, Hyp.Runs (fun _ _ => True) es s ∧ s.v4v 1 = some t ∧
    (Registry.ofEvents es).lookup 1 ⟨5, 1⟩ 2 = some ⟨⟨5, 1⟩, domidAny⟩ ∧
    WellFormed RingInfo.id hashFn t ∧
    (ringFindInfoByAddr t 1 ⟨5, 1⟩ 2).map RingInfo.id = some ⟨⟨5, 1⟩, domidAny⟩ := by
  have hexec : (exec Hyp.step Hyp.boot threeCalls).map (fun p =>
      ((p.2.v4v 1).isSome, (Registry.ofEvents p.1).lookup 1 ⟨5, 1⟩ 2)) =
      some (true, some ⟨⟨5, 1⟩, domidAny⟩) := by decide
  obtain ⟨p, hp, heq⟩ := Option.map_eq_some_iff.mp hexec
  obtain ⟨hsome, hlookup⟩ := Prod.mk.inj heq
  obtain ⟨t, ht⟩ := Option.isSome_iff_exists.mp hsome
  have hrun : Hyp.Runs (fun _ _ => True) p.1 p.2 := run_of_exec hp fun _ _ _ => trivial
  obtain ⟨hwf, _, hfind⟩ := tables_refine_registry hrun ht
  exact ⟨p.1, p.2, t, hrun, ht, hlookup, hwf, (hfind ⟨5, 1⟩ 2).trans hlookup⟩

end V4v
