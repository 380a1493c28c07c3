import LegacyV4v.IrpQueue

/-! # The records of the IRP queue are exact

An insertion puts an IRP at one end of the queue and at the same end of its destination's chain,
with a new record if it is the first; a removal takes it out of both, and the record goes with the
last.  `Represented` says that counters, records and chains describe one and the same queue.  It
is kept by every step, also when an allocation fails, and it is what the `ASSERT`s need. -/
namespace V4v.Windows
open GuardedRun PointerChain

namespace Csq

/-! ## The writes of a destination -/

section
variable {s s' : Csq} {i : Nat} {b : Addr}

theorem mem_writesTo {j : Nat} : j ∈ s.writesTo b ↔
    j ∈ s.pendingIrpQueue ∧ s.isWrite j = true ∧ s.stash j = some b := by
  rw [writesTo, List.mem_filter, Bool.and_eq_true, beq_iff_eq]

theorem filter_place (p : Nat → Bool) (head : Bool) (i : Nat) (l : List Nat) :
    (place head i l).filter p = if p i then place head i (l.filter p) else l.filter p := by
  cases head <;> by_cases h : p i = true <;> simp [place, h]

theorem mem_place {head : Bool} {j : Nat} {l : List Nat} : j ∈ place head i l ↔ j = i ∨ j ∈ l := by
  cases head <;> simp [place, or_comm]

/-- The queue has got one more IRP. -/
theorem writesTo_place {t : Csq} {head : Bool} (hq : t.pendingIrpQueue = place head i s.pendingIrpQueue)
    (hw : ∀ j ∈ s.pendingIrpQueue, t.isWrite j = s.isWrite j)
    (hst : ∀ j ∈ s.pendingIrpQueue, t.stash j = s.stash j) :
    t.writesTo b = if t.isWrite i = true ∧ t.stash i = some b then place head i (s.writesTo b)
      else s.writesTo b := by
  have hsame : s.pendingIrpQueue.filter (fun j => t.isWrite j && t.stash j == some b) =
      s.writesTo b :=
    List.filter_congr fun j hj => by rw [hw j hj, hst j hj]
  rw [writesTo, hq, filter_place, hsame]
  simp only [Bool.and_eq_true, beq_iff_eq]

/-- An IRP has left the queue. -/
theorem writesTo_erase {t : Csq} (hnd : s.pendingIrpQueue.Nodup)
    (hq : t.pendingIrpQueue = s.pendingIrpQueue.erase i)
    (hw : ∀ j, j ≠ i → t.isWrite j = s.isWrite j) (hst : ∀ j, j ≠ i → t.stash j = s.stash j) :
    t.writesTo b = (s.writesTo b).erase i := by
  have hnd' : (s.writesTo b).Nodup := hnd.filter _
  rw [writesTo, hq, hnd.erase_eq_filter, hnd'.erase_eq_filter, writesTo, List.filter_filter,
    List.filter_filter]
  refine List.filter_congr fun j _ => ?_
  by_cases hji : j = i
  · simp [hji]
  · rw [hw j hji, hst j hji, Bool.and_comm]

/-- A record goes on to describe its destination if nothing that it describes has changed. -/
theorem Records.congr {d : Destination} (h : s.Records d)
    (hw : s'.writesTo d.dst = s.writesTo d.dst)
    (hnext : ∀ j ∈ s.writesTo d.dst, s'.next j = s.next j)
    (hlen : ∀ j ∈ s.writesTo d.dst, payloadDataLen (s'.irps j) = payloadDataLen (s.irps j)) :
    s'.Records d := by
  refine ⟨?_, ?_, ?_, ?_⟩
  · rw [hw]
    exact h.chain.congr hnext
  · rw [hw]
    exact h.refc
  · rw [hw]
    exact h.pos
  · intro j hj
    rw [hw] at hj
    rw [hlen j (List.mem_of_mem_head? hj)]
    exact h.length j hj

end

/-! ## Steps keep the invariant -/

section
variable {s s' : Csq} {i : Nat} {a : Addr}

/-- What has to be shown when the writes of one destination change. -/
theorem Represented.update (h : s.Represented) (hnd : s'.pendingIrpQueue.Nodup)
    (hcount : s'.pendingIrpCount = s'.pendingIrpQueue.length)
    (hbound : s'.pendingIrpQueue.length ≤ maxIrpCount)
    (hdestCount : s'.destCount = s'.destList.length)
    (hdests : (s'.destList.map Destination.dst).Nodup)
    (hstash : ∀ j ∈ s'.pendingIrpQueue, s'.isWrite j = true → s'.stash j ≠ none)
    (hother : ∀ b, b ≠ a → s'.writesTo b = s.writesTo b ∧ ∀ j ∈ s.writesTo b,
      s'.next j = s.next j ∧ payloadDataLen (s'.irps j) = payloadDataLen (s.irps j))
    (hdest : ∀ d, d.dst ≠ a → (d ∈ s'.destList ↔ d ∈ s.destList))
    (hrec : ∀ d ∈ s'.destList, d.dst = a → s'.Records d)
    (hcov : s'.writesTo a ≠ [] → ∃ d ∈ s'.destList, d.dst = a) : s'.Represented := by
  refine ⟨hnd, hcount, hbound, hdestCount, hdests, ?_, ?_⟩
  · intro j hj hw
    obtain ⟨b, hb⟩ := Option.ne_none_iff_exists'.mp (hstash j hj hw)
    have hmem : j ∈ s'.writesTo b := mem_writesTo.mpr ⟨hj, hw, hb⟩
    by_cases hba : b = a
    · subst hba
      obtain ⟨d, hd, hdb⟩ := hcov (List.ne_nil_of_mem hmem)
      exact ⟨d, hd, by rw [hb, hdb]⟩
    · rw [(hother b hba).1] at hmem
      obtain ⟨hjq, hjw, hjb⟩ := mem_writesTo.mp hmem
      obtain ⟨d, hd, hdj⟩ := h.covered j hjq hjw
      obtain rfl := Option.some.inj (hjb.symm.trans hdj)
      exact ⟨d, (hdest d hba).mpr hd, hb⟩
  · intro d hd
    by_cases hda : d.dst = a
    · exact hrec d hd hda
    · obtain ⟨hw, hsame⟩ := hother d.dst hda
      exact (h.records d ((hdest d hda).mp hd)).congr hw (fun j hj => (hsame j hj).1)
        fun j hj => (hsame j hj).2

/-- No write enters or leaves the queue. -/
theorem Represented.quiet (h : s.Represented) (hnd : s'.pendingIrpQueue.Nodup)
    (hcount : s'.pendingIrpCount = s'.pendingIrpQueue.length)
    (hbound : s'.pendingIrpQueue.length ≤ maxIrpCount) (hlist : s'.destList = s.destList)
    (hdestCount : s'.destCount = s.destCount)
    (hsame : ∀ b, s'.writesTo b = s.writesTo b ∧ ∀ j ∈ s.writesTo b,
      s'.next j = s.next j ∧ payloadDataLen (s'.irps j) = payloadDataLen (s.irps j))
    (hcov : ∀ j ∈ s'.pendingIrpQueue, s'.isWrite j = true →
      j ∈ s.pendingIrpQueue ∧ s.isWrite j = true ∧ s'.stash j = s.stash j) : s'.Represented := by
  refine ⟨hnd, hcount, hbound, ?_, ?_, ?_, ?_⟩
  · rw [hdestCount, hlist]
    exact h.destCount
  · rw [hlist]
    exact h.dests
  · intro j hj hw
    obtain ⟨hjq, hjw, hst⟩ := hcov j hj hw
    rw [hlist, hst]
    exact h.covered j hjq hjw
  · intro d hd
    rw [hlist] at hd
    obtain ⟨hw, hnext⟩ := hsame d.dst
    exact (h.records d hd).congr hw (fun j hj => (hnext j hj).1) fun j hj => (hnext j hj).2

/-- An IRP that is not queued changes. -/
theorem Represented.change {irp : Irp} (h : s.Represented) (hi : i ∉ s.pendingIrpQueue) :
    Represented { s with irps := Function.update s.irps i irp } := by
  have hsame : ∀ j ∈ s.pendingIrpQueue, Function.update s.irps i irp j = s.irps j := by
    intro j hj
    rw [Function.update_of_ne]
    rintro rfl
    exact hi hj
  refine h.quiet h.nodup h.count h.bound rfl rfl (fun b => ⟨?_, fun j hj => ?_⟩) ?_
  · refine List.filter_congr fun j hj => ?_
    simp only [isWrite, stash, hsame j hj]
  · have hj := (mem_writesTo.mp hj).1
    simp only [next, hsame j hj, and_self]
  · intro j hj hw
    simp only [isWrite, hsame j hj] at hw
    exact ⟨hj, hw, by simp only [stash, hsame j hj]⟩

theorem Represented.setRecord {r : Option Destination} (h : s.Represented)
    (hi : i ∉ s.pendingIrpQueue) : (s.setRecord i r).Represented :=
  h.change hi

/-- A buffer or a context is written to. -/
theorem Represented.scribble {bufferDst resetDst : Addr} {sdst : Nat → Addr} (h : s.Represented) :
    Represented { s with
      irps := Function.update s.irps i
        { s.irps i with bufferDst := bufferDst, resetDst := resetDst }
      sdst := sdst } := by
  have hflags : ∀ j, (Function.update s.irps i
      { s.irps i with bufferDst := bufferDst, resetDst := resetDst } j).flags = (s.irps j).flags ∧
      (Function.update s.irps i
        { s.irps i with bufferDst := bufferDst, resetDst := resetDst } j).record =
          (s.irps j).record ∧
      (Function.update s.irps i
        { s.irps i with bufferDst := bufferDst, resetDst := resetDst } j).length =
          (s.irps j).length := by
    intro j
    by_cases hji : j = i
    · subst hji
      simp only [Function.update_self, and_self]
    · simp only [Function.update_of_ne hji, and_self]
  refine h.quiet h.nodup h.count h.bound rfl rfl (fun b => ⟨?_, fun j hj => ?_⟩) ?_
  · refine List.filter_congr fun j _ => ?_
    simp only [isWrite, stash, hflags j]
  · simp only [next, payloadDataLen, hflags j, and_self]
  · intro j hj hw
    simp only [isWrite, hflags j] at hw
    exact ⟨hj, hw, by simp only [stash, hflags j]⟩

end

/-! ## Linking and unlinking -/

section
variable {s : Csq} {i : Nat}

theorem writesTo_ne_none {a : Addr} {j : Nat} (h : j ∈ s.writesTo a) : s.stash j ≠ none := by
  rw [(mem_writesTo.mp h).2.2]
  exact Option.some_ne_none a

theorem place_length (head : Bool) (i : Nat) (l : List Nat) :
    (place head i l).length = l.length + 1 := by
  cases head <;> simp [place]

theorem place_nodup {head : Bool} {l : List Nat} (h : l.Nodup) (hi : i ∉ l) :
    (place head i l).Nodup := by
  cases head with
  | true => exact List.nodup_cons.mpr ⟨hi, h⟩
  | false =>
    refine List.nodup_append.mpr ⟨h, by simp, fun a ha b hb => ?_⟩
    rintro rfl
    exact hi (List.mem_singleton.mp hb ▸ ha)

/-- The record of the new IRP is there, and it is in no chain yet. -/
structure Fresh (s : Csq) (i : Nat) (a : Addr) : Prop where
  represented : s.Represented
  queued : i ∉ s.pendingIrpQueue
  isWrite : s.isWrite i = true
  stash : s.stash i = some a
  next : s.next i = none
  room : s.pendingIrpQueue.length < maxIrpCount

/-- A record that describes the new IRP in its place makes the queue right again. -/
theorem Fresh.link {t : Csq} {a : Addr} {front : Bool} (h : s.Fresh i a)
    (hq : t.pendingIrpQueue = place front i s.pendingIrpQueue)
    (hcount : t.pendingIrpCount = s.pendingIrpCount + 1) (hsame : s.SameIrps t)
    (hstash : ∀ j, t.stash j = s.stash j)
    (hnext : ∀ j, j ≠ i → j ∉ s.writesTo a → t.next j = s.next j)
    (hdestCount : t.destCount = t.destList.length)
    (hdests : (t.destList.map Destination.dst).Nodup)
    (hdest : ∀ d, d.dst ≠ a → (d ∈ t.destList ↔ d ∈ s.destList))
    (hrec : ∀ d ∈ t.destList, d.dst = a → t.Records d)
    (hcov : ∃ d ∈ t.destList, d.dst = a) : t.Represented := by
  refine h.represented.update ?_ ?_ ?_ hdestCount hdests ?_ ?_ hdest hrec fun _ => hcov
  · rw [hq]
    exact place_nodup h.represented.nodup h.queued
  · rw [hcount, hq, place_length, h.represented.count]
    push_cast
    rfl
  · rw [hq, place_length]
    exact h.room
  · intro j hj hw
    rw [hq, mem_place] at hj
    rw [hstash]
    rcases hj with rfl | hj
    · rw [h.stash]
      exact Option.some_ne_none a
    · rw [hsame.isWrite] at hw
      obtain ⟨d, -, hd⟩ := h.represented.covered j hj hw
      rw [hd]
      exact Option.some_ne_none d.dst
  · intro b hb
    have hwrites := writesTo_place (b := b) hq (fun j _ => hsame.isWrite j) fun j _ => hstash j
    rw [hstash, h.stash, if_neg (fun hx => hb (Option.some.inj hx.2).symm)] at hwrites
    refine ⟨hwrites, fun j hj => ⟨hnext j ?_ ?_, hsame.length j⟩⟩
    · rintro rfl
      exact h.queued (mem_writesTo.mp hj).1
    · intro hja
      exact hb (Option.some.inj ((mem_writesTo.mp hj).2.2.symm.trans (mem_writesTo.mp hja).2.2))

/-- The writes of the destination, when the new IRP is queued. -/
theorem Fresh.writesTo {t : Csq} {a : Addr} {front : Bool} (h : s.Fresh i a)
    (hq : t.pendingIrpQueue = place front i s.pendingIrpQueue) (hsame : s.SameIrps t)
    (hstash : ∀ j, t.stash j = s.stash j) : t.writesTo a = place front i (s.writesTo a) := by
  rw [writesTo_place hq (fun j _ => hsame.isWrite j) fun j _ => hstash j]
  exact if_pos ⟨(hsame.isWrite i).trans h.isWrite, (hstash i).trans h.stash⟩

/-- There is a record for the destination. -/
theorem Fresh.chain {a : Addr} {l₁ l₂ : List Destination} {xdst : Destination} (front : Bool)
    (h : s.Fresh i a) (hlist : s.destList = l₁ ++ xdst :: l₂) (hdst : xdst.dst = a) :
    ∃ s' d, s.chainIrp { xdst with refc := xdst.refc + 1 } i front = some (s', d) ∧
      s'.pendingIrpQueue = s.pendingIrpQueue ∧ s'.pendingIrpCount = s.pendingIrpCount ∧
      s.SameIrps s' ∧ (∀ j, s'.stash j = s.stash j) ∧ Represented { s' with
        destList := l₁ ++ d :: l₂
        pendingIrpQueue := place front i s.pendingIrpQueue
        pendingIrpCount := s.pendingIrpCount + 1 } := by
  have hmem : xdst ∈ s.destList := by
    rw [hlist]
    simp
  obtain ⟨hchain, hrefc, hpos, hlength⟩ := h.represented.records xdst hmem
  rw [hdst] at hchain hrefc hpos hlength
  have hi : i ∉ s.writesTo a := fun hi => h.queued (mem_writesTo.mp hi).1
  obtain ⟨s', d, heq, hre, hchain', hframe, hd, hdrefc, hdlen⟩ :=
    chainIrp_spec front (show Chain s.next { xdst with refc := xdst.refc + 1 }.nextIrp _ from hchain) hpos
      (h.represented.nodup.filter _) hi h.next (by rw [h.stash]; exact Option.some_ne_none a)
      (fun j hj => writesTo_ne_none hj) (List.length_filter_le _ _)
  refine ⟨s', d, heq, hre.queue, hre.count, hre.irps, hre.stash, ?_⟩
  have hdx : d.dst = xdst.dst := hd
  have hda : d.dst = a := hdx.trans hdst
  have hdests := h.represented.dests
  rw [hlist] at hdests
  have hdestCount := h.represented.destCount
  rw [hlist] at hdestCount
  refine h.link rfl rfl hre.irps hre.stash hframe ?_ (dests_replace hdx hdests) ?_ ?_
    ⟨d, by simp, hda⟩
  · rw [show s'.destCount = s.destCount from hre.destCount, hdestCount]
    simp
  · intro d' hd'
    dsimp only
    rw [hlist, mem_split_of_ne (hda ▸ hd'), mem_split_of_ne (hdst ▸ hd')]
  · intro d' hd' hda'
    obtain rfl := eq_of_replace hdx hdests hd' (hda'.trans hdst.symm)
    have hw := h.writesTo (t := { s' with
      destList := l₁ ++ d' :: l₂
      pendingIrpQueue := place front i s.pendingIrpQueue
      pendingIrpCount := s.pendingIrpCount + 1 }) rfl hre.irps hre.stash
    refine ⟨?_, ?_, ?_, ?_⟩
    · rw [hda, hw]
      exact hchain'
    · rw [hda, hw, place_length, hdrefc, hrefc]
    · rw [hda, hw]
      cases front <;> simp [place]
    · intro j hj
      rw [hda, hw] at hj
      rw [hdlen, show payloadDataLen (s'.irps j) = _ from hre.irps.length j]
      cases front with
      | true =>
        obtain rfl := Option.some.inj hj
        rfl
      | false =>
        rw [if_neg (by simp)]
        refine hlength j ?_
        rw [place, if_neg (by simp), List.head?_append_of_ne_nil _ hpos] at hj
        exact hj

/-- There is none, and a new one is made. -/
theorem Fresh.newRecord {a : Addr} (front : Bool) (h : s.Fresh i a)
    (hnone : ∀ d ∈ s.destList, d.dst ≠ a) : Represented { s with
      destList := s.destList ++ [⟨1, payloadDataLen (s.irps i), some i, a⟩]
      destCount := s.destCount + 1
      pendingIrpQueue := place front i s.pendingIrpQueue
      pendingIrpCount := s.pendingIrpCount + 1 } := by
  have hempty : s.writesTo a = [] := by
    rw [List.eq_nil_iff_forall_not_mem]
    intro j hj
    obtain ⟨hjq, hjw, hja⟩ := mem_writesTo.mp hj
    obtain ⟨d, hd, hdj⟩ := h.represented.covered j hjq hjw
    exact hnone d hd (Option.some.inj (hdj.symm.trans hja))
  have hplace : place front i [] = [i] := by cases front <;> rfl
  refine h.link (t := { s with
      destList := s.destList ++ [⟨1, payloadDataLen (s.irps i), some i, a⟩]
      destCount := s.destCount + 1
      pendingIrpQueue := place front i s.pendingIrpQueue
      pendingIrpCount := s.pendingIrpCount + 1 }) rfl rfl (.refl s) (fun _ => rfl)
    (fun _ _ _ => rfl) ?_ ?_ ?_ ?_ ⟨_, List.mem_append_right _ List.mem_cons_self, rfl⟩
  · rw [h.represented.destCount]
    simp
  · rw [List.map_append, List.map_singleton]
    refine List.nodup_append.mpr
      ⟨h.represented.dests, by simp, fun b hb c hc => ?_⟩
    obtain ⟨d, hd, rfl⟩ := List.mem_map.mp hb
    rw [List.mem_singleton.mp hc]
    exact hnone d hd
  · intro d hda
    dsimp only
    rw [List.mem_append, List.mem_singleton]
    constructor
    · rintro (hd | rfl)
      · exact hd
      · exact absurd rfl hda
    · exact .inl
  · intro d hd hda
    rcases List.mem_append.mp hd with hd | hd
    · exact absurd hda (hnone d hd)
    · obtain rfl := List.mem_singleton.mp hd
      have hw := h.writesTo (t := { s with
        destList := s.destList ++ [⟨1, payloadDataLen (s.irps i), some i, a⟩]
        destCount := s.destCount + 1
        pendingIrpQueue := place front i s.pendingIrpQueue
        pendingIrpCount := s.pendingIrpCount + 1 }) rfl (.refl s) fun _ => rfl
      rw [hempty, hplace] at hw
      refine ⟨?_, ?_, ?_, ?_⟩
      · dsimp only
        rw [hw]
        exact ⟨rfl, h.next⟩
      · dsimp only
        rw [hw]
        rfl
      · dsimp only
        rw [hw]
        simp
      · intro j hj
        dsimp only at hj ⊢
        rw [hw] at hj
        obtain rfl := Option.some.inj hj
        rfl

theorem linkDestination_spec (front first second : Bool) (h : s.Represented)
    (hi : i ∉ s.pendingIrpQueue) (hw : s.isWrite i = true)
    (hroom : s.pendingIrpQueue.length < maxIrpCount) :
    ∃ linked s', s.linkDestination i front first second = some (linked, s') ∧
      s'.pendingIrpQueue = s.pendingIrpQueue ∧ s'.pendingIrpCount = s.pendingIrpCount ∧
      s.SameIrps s' ∧ (linked = true → s'.stash i = some (s.getDestination i)) ∧
      (∀ j, j ≠ i → s'.stash j = s.stash j) ∧ if linked then Represented { s' with
        pendingIrpQueue := place front i s.pendingIrpQueue
        pendingIrpCount := s.pendingIrpCount + 1 } else s'.Represented := by
  rw [linkDestination]
  dsimp only
  split
  · exact ⟨false, _, rfl, rfl, rfl, sameIrps_setRecord _ _ _, by simp,
      fun j hj => stash_setRecord_of_ne s _ hj, h.setRecord hi⟩
  · generalize hdst : s.getDestination i = a
    have hfresh : Fresh (s.setRecord i (some ⟨0, 0, none, a⟩)) i a := by
      refine ⟨h.setRecord hi, hi, ?_, ?_, ?_, hroom⟩
      · rw [(sameIrps_setRecord s i _).isWrite]
        exact hw
      · simp only [stash, setRecord, Function.update_self, Option.map_some]
      · rw [next_setRecord, Function.update_self]
        rfl
    have hsame := sameIrps_setRecord s i (some ⟨0, 0, none, a⟩)
    have hothers : ∀ j, j ≠ i → (s.setRecord i (some ⟨0, 0, none, a⟩)).stash j = s.stash j :=
      fun j hj => stash_setRecord_of_ne s _ hj
    split
    · next before xdst after hfind =>
      obtain ⟨hlist, hx⟩ := findDestination_some hfind
      have hmem : xdst ∈ s.destList := by
        rw [show s.destList = before ++ xdst :: after from hlist]
        simp
      have hrefc : xdst.refc ≠ 0 := by
        obtain ⟨-, hr, hpos, -⟩ := h.records xdst hmem
        rw [hr]
        exact fun hzero => hpos (List.length_eq_zero_iff.mp hzero)
      rw [if_neg hrefc]
      obtain ⟨s', d, heq, hq, hcount, hirps, hst, hrep⟩ := hfresh.chain front hlist hx
      rw [heq]
      exact ⟨true, _, rfl, hq, hcount, hsame.trans hirps, fun _ => (hst i).trans hfresh.stash,
        fun j hj => (hst j).trans (hothers j hj), hrep⟩
    · next hfind =>
      split
      · exact ⟨false, _, rfl, rfl, rfl, hsame.trans (sameIrps_setRecord _ _ _), by simp,
          fun j hj => (stash_setRecord_of_ne _ _ hj).trans (hothers j hj),
          hfresh.represented.setRecord hi⟩
      · exact ⟨true, _, rfl, rfl, rfl, hsame, fun _ => hfresh.stash, hothers,
          hfresh.newRecord front (findDestination_none hfind)⟩

/-- With nothing queued there are no records. -/
theorem Represented.noDests (h : s.Represented) (hzero : s.pendingIrpCount = 0) :
    s.destCount = 0 := by
  rw [h.count] at hzero
  have hnil : s.pendingIrpQueue = [] := List.length_eq_zero_iff.mp (by exact_mod_cast hzero)
  rw [h.destCount]
  cases hl : s.destList with
  | nil => rfl
  | cons d l =>
    obtain ⟨-, -, hpos, -⟩ := h.records d (by rw [hl]; exact List.mem_cons_self)
    exact absurd (by rw [writesTo, hnil]; rfl) hpos

/-- No `ASSERT` fails in an insertion, and the IRP is in its place, or the queue is as before. -/
theorem insertIrpEx_spec (insertHead first second : Bool) (h : s.Represented)
    (hi : i ∉ s.pendingIrpQueue) : ∃ status s',
      s.insertIrpEx i insertHead first second = some (status, s') ∧ s'.Represented ∧
      s.SameIrps s' ∧ (∀ j, j ≠ i → s'.stash j = s.stash j) ∧
      (status = .success → s.isWrite i = true → s'.stash i = some (s.getDestination i)) ∧
      s'.pendingIrpQueue =
        if status = .success then place insertHead i s.pendingIrpQueue else s.pendingIrpQueue := by
  have hassert : ¬ (s.pendingIrpCount = 0 ∧ s.destCount ≠ 0) := fun hx => hx.2 (h.noDests hx.1)
  rw [insertIrpEx, if_neg hassert]
  split
  · exact ⟨.quotaExceeded, s, rfl, h, .refl s, fun _ _ => rfl, by simp, rfl⟩
  · next hquota =>
    have hroom : s.pendingIrpQueue.length < maxIrpCount := by
      refine lt_of_le_of_ne h.bound fun heq => hquota ?_
      rw [h.count, heq]
    have hcount : ¬ s.pendingIrpCount < 0 := by
      rw [h.count]
      omega
    dsimp only
    split_ifs with hw
    · obtain ⟨linked, s', heq, hq, hc, hsame, hown, hothers, hrep⟩ :=
        linkDestination_spec insertHead first second h hi hw hroom
      rw [heq]
      cases linked with
      | false => exact ⟨.noMemory, s', rfl, hrep, hsame, hothers, by simp, hq⟩
      | true =>
        dsimp only
        rw [hc, if_neg hcount, hq]
        exact ⟨.success, _, rfl, hrep, hsame, hothers, fun _ _ => hown rfl, rfl⟩
    · dsimp only
      rw [if_neg hcount]
      refine ⟨.success, _, rfl, ?_, .refl s, fun _ _ => rfl, fun _ hw' => absurd hw' hw, rfl⟩
      have hwi : s.isWrite i ≠ true := hw
      refine h.quiet (place_nodup h.nodup hi) ?_ ?_ rfl rfl (fun b => ⟨?_, fun _ _ => ⟨rfl, rfl⟩⟩) ?_
      · dsimp only
        rw [h.count, place_length]
        push_cast
        rfl
      · dsimp only
        rw [place_length]
        exact hroom
      · exact (writesTo_place (t := { s with
          pendingIrpQueue := place insertHead i s.pendingIrpQueue
          pendingIrpCount := s.pendingIrpCount + 1 }) rfl (fun _ _ => rfl) fun _ _ => rfl).trans
          (if_neg fun hx => hwi hx.1)
      · intro j hj hjw
        rcases mem_place.mp hj with rfl | hj
        · exact absurd hjw hwi
        · exact ⟨hj, hjw, rfl⟩

/-- What `V4vCsqUnchainIrp` has left, without the record of the IRP, has the chain of its
destination without the IRP, and the others as they were. -/
structure Unchained (s : Csq) (i : Nat) (a : Addr) (u : Csq) : Prop where
  queue : u.pendingIrpQueue = s.pendingIrpQueue.erase i
  count : u.pendingIrpCount = s.pendingIrpCount - 1
  irps : s.SameIrps u
  stash : ∀ j, j ≠ i → u.stash j = s.stash j
  next : ∀ j, j ≠ i → j ∉ s.writesTo a → u.next j = s.next j
  own : s.stash i = some a

theorem Unchained.writesTo {u : Csq} {a : Addr} (hu : s.Unchained i a u) (h : s.Represented)
    (b : Addr) : u.writesTo b = (s.writesTo b).erase i :=
  writesTo_erase h.nodup hu.queue (fun j _ => hu.irps.isWrite j) hu.stash

/-- With the right record, or none, the queue is right again. -/
theorem Unchained.unlink {u : Csq} {a : Addr} (hu : s.Unchained i a u) (h : s.Represented)
    (hi : i ∈ s.pendingIrpQueue) (hdestCount : u.destCount = u.destList.length)
    (hdests : (u.destList.map Destination.dst).Nodup)
    (hdest : ∀ d, d.dst ≠ a → (d ∈ u.destList ↔ d ∈ s.destList))
    (hrec : ∀ d ∈ u.destList, d.dst = a → u.Records d)
    (hcov : u.writesTo a ≠ [] → ∃ d ∈ u.destList, d.dst = a) : u.Represented := by
  have hlen := List.length_erase_of_mem hi
  have hpos := List.length_pos_of_mem hi
  have hne : ∀ j ∈ u.pendingIrpQueue, j ≠ i ∧ j ∈ s.pendingIrpQueue := by
    intro j hj
    rw [hu.queue] at hj
    exact (List.Nodup.mem_erase_iff h.nodup).mp hj
  refine h.update ?_ ?_ ?_ hdestCount hdests ?_ ?_ hdest hrec hcov
  · rw [hu.queue]
    exact h.nodup.erase i
  · rw [hu.count, hu.queue, hlen, h.count]
    omega
  · have hbound := h.bound
    rw [hu.queue, hlen]
    omega
  · intro j hj hw
    obtain ⟨hji, hjq⟩ := hne j hj
    rw [hu.irps.isWrite] at hw
    obtain ⟨d, -, hd⟩ := h.covered j hjq hw
    rw [hu.stash j hji, hd]
    exact Option.some_ne_none d.dst
  · intro b hb
    have hib : i ∉ s.writesTo b := by
      intro hmem
      exact hb (Option.some.inj ((mem_writesTo.mp hmem).2.2.symm.trans hu.own))
    refine ⟨by rw [hu.writesTo h, List.erase_of_not_mem hib], fun j hj => ⟨hu.next j ?_ ?_, ?_⟩⟩
    · rintro rfl
      exact hib hj
    · intro hja
      exact hb (Option.some.inj ((mem_writesTo.mp hj).2.2.symm.trans (mem_writesTo.mp hja).2.2))
    · exact hu.irps.length j

/-- The chains are those of the unchained queue, and the record of the IRP is gone. -/
theorem Relinked.unchained {s₂ u : Csq} {a : Addr} (hre : s.Relinked s₂) (hown : s.stash i = some a)
    (hframe : ∀ j, j ∉ s.writesTo a → s₂.next j = s.next j)
    (hirps : u.irps = (s₂.setRecord i none).irps) (hsdst : u.sdst = s₂.sdst)
    (hq : u.pendingIrpQueue = s.pendingIrpQueue.erase i)
    (hcount : u.pendingIrpCount = s.pendingIrpCount - 1) : s.Unchained i a u := by
  have hsame := hre.irps.trans (sameIrps_setRecord s₂ i none)
  refine ⟨hq, hcount, ⟨fun j => ?_, hsdst.trans hre.irps.2⟩, fun j hji => ?_, fun j hji hja => ?_,
    hown⟩
  · rw [hirps]
    exact hsame.1 j
  · rw [← hre.stash j, Csq.stash, hirps]
    exact stash_setRecord_of_ne s₂ none hji
  · rw [← hframe j hja, Csq.next, hirps]
    exact (congrFun (next_setRecord s₂ i none) j).trans (Function.update_of_ne hji _ _)

/-- The record goes with the last write of its destination. -/
theorem Unchained.last {u : Csq} {before after : List Destination} {xdst : Destination}
    (hu : s.Unchained i xdst.dst u) (h : s.Represented) (hi : i ∈ s.pendingIrpQueue)
    (hlist : s.destList = before ++ xdst :: after) (hulist : u.destList = before ++ after)
    (hudestCount : u.destCount = s.destCount - 1) (hnil : (s.writesTo xdst.dst).erase i = []) :
    u.Represented := by
  have hdests := h.dests
  rw [hlist] at hdests
  refine hu.unlink h hi ?_ ?_ ?_ ?_ ?_
  · rw [hudestCount, h.destCount, hlist, hulist]
    simp only [List.length_append, List.length_cons]
    push_cast
    omega
  · rw [hulist]
    exact hdests.sublist (List.Sublist.map _
      (List.Sublist.append_left (List.sublist_cons_self _ _) _))
  · intro d hd
    rw [hlist, hulist, mem_split_of_ne hd]
  · intro d hd hda
    rw [hulist] at hd
    exact absurd hda (dst_ne_of_split hdests hd)
  · intro hne
    exact absurd ((hu.writesTo h _).trans hnil) hne

/-- Otherwise it has to describe the writes that are left. -/
theorem Unchained.more {u : Csq} {before after : List Destination} {xdst d : Destination}
    (hu : s.Unchained i xdst.dst u) (h : s.Represented) (hi : i ∈ s.pendingIrpQueue)
    (hlist : s.destList = before ++ xdst :: after) (hulist : u.destList = before ++ d :: after)
    (hudestCount : u.destCount = s.destCount) (hd : d.dst = xdst.dst) (hrec : u.Records d) :
    u.Represented := by
  have hdests := h.dests
  rw [hlist] at hdests
  refine hu.unlink h hi ?_ ?_ ?_ ?_ ?_
  · rw [hudestCount, h.destCount, hlist, hulist]
    simp only [List.length_append, List.length_cons]
  · rw [hulist]
    exact dests_replace hd hdests
  · intro d' hd'
    rw [hlist, hulist, mem_split_of_ne (hd ▸ hd'), mem_split_of_ne hd']
  · intro d' hd' hda
    rw [hulist] at hd'
    obtain rfl := eq_of_replace hd hdests hd' hda
    exact hrec
  · intro _
    exact ⟨d, by rw [hulist]; exact List.mem_append_right _ List.mem_cons_self, hd⟩

/-- A queued write is found: its record, the record of its destination, and its place in the
chain. -/
theorem Represented.found (h : s.Represented) (hi : i ∈ s.pendingIrpQueue)
    (hw : s.isWrite i = true) : ∃ idst before xdst after k₁ k₂,
      (s.irps i).record = some idst ∧ s.stash i = some xdst.dst ∧
      findDestination idst.dst s.destList = some (before, xdst, after) ∧
      s.destList = before ++ xdst :: after ∧ s.writesTo xdst.dst = k₁ ++ i :: k₂ := by
  obtain ⟨d, hd, hstash⟩ := h.covered i hi hw
  obtain ⟨idst, hidst⟩ := stash_ne_none (i := i) (s := s) (hstash ▸ Option.some_ne_none _)
  have hown : s.stash i = some idst.dst := by
    rw [stash, hidst]
    rfl
  cases hfind : findDestination idst.dst s.destList with
  | none => exact absurd (Option.some.inj (hstash.symm.trans hown)) (findDestination_none hfind d hd)
  | some found =>
    obtain ⟨before, xdst, after⟩ := found
    obtain ⟨hlist, hx⟩ := findDestination_some hfind
    rw [← hx] at hown
    obtain ⟨k₁, k₂, hk⟩ := List.append_of_mem (mem_writesTo.mpr ⟨hi, hw, hown⟩)
    exact ⟨idst, before, xdst, after, k₁, k₂, hidst, hown, hfind, hlist, hk⟩

theorem unlinkDestination_spec (h : s.Represented) (hi : i ∈ s.pendingIrpQueue)
    (hw : s.isWrite i = true) : ∃ s', s.unlinkDestination i = some s' ∧
      s'.pendingIrpQueue = s.pendingIrpQueue ∧ s'.pendingIrpCount = s.pendingIrpCount ∧
      s.SameIrps s' ∧ (∀ j, j ≠ i → s'.stash j = s.stash j) ∧ Represented { s' with
        pendingIrpQueue := s.pendingIrpQueue.erase i
        pendingIrpCount := s.pendingIrpCount - 1 } := by
  obtain ⟨idst, before, xdst, after, k₁, k₂, hidst, hown, hfind, hlist, hk⟩ := h.found hi hw
  have hmem : xdst ∈ s.destList := by
    rw [hlist]
    simp
  obtain ⟨hchain, hrefc, hpos, hlength⟩ := h.records xdst hmem
  have hcountPos : ¬ s.destCount ≤ 0 := by
    rw [h.destCount]
    have := List.length_pos_of_mem hmem
    omega
  have hrefc0 : ¬ (xdst.refc = 0 ∨ xdst.nextIrp = none) := by
    rintro (hzero | hnull)
    · rw [hrefc] at hzero
      exact hpos (List.length_eq_zero_iff.mp hzero)
    · rw [hchain.head, hk] at hnull
      cases k₁ <;> cases hnull
  rw [unlinkDestination, if_neg hcountPos, hidst]
  dsimp only
  rw [hfind]
  dsimp only
  rw [if_neg hrefc0]
  -- the chain without the IRP
  have hnd : (s.writesTo xdst.dst).Nodup := h.nodup.filter _
  have herase : (s.writesTo xdst.dst).erase i = k₁ ++ k₂ := by
    rw [hk] at hnd ⊢
    have hk₁ : i ∉ k₁ := fun hmem => (List.nodup_append.mp hnd).2.2 i hmem i List.mem_cons_self rfl
    rw [List.erase_append_right _ hk₁, List.erase_cons_head]
  have hleft : i ∉ k₁ ++ k₂ := herase ▸ hnd.not_mem_erase
  have hshort : k₁.length < s.pendingIrpQueue.length := by
    have hle : (s.writesTo xdst.dst).length ≤ s.pendingIrpQueue.length := List.length_filter_le _ _
    rw [hk, List.length_append, List.length_cons] at hle
    omega
  rw [hk] at hchain hnd
  obtain ⟨s₂, d₂, heq, hre, hchain₂, hframe, hd₂, hrefc₂, hlen₂⟩ :=
    unchainIrp_spec hchain hnd (fun j hj => writesTo_ne_none (hk ▸ hj)) hshort
  rw [heq]
  dsimp only
  have hu : ∀ u : Csq, u.irps = (s₂.setRecord i none).irps → u.sdst = s₂.sdst →
      u.pendingIrpQueue = s.pendingIrpQueue.erase i →
      u.pendingIrpCount = s.pendingIrpCount - 1 → s.Unchained i xdst.dst u :=
    fun u => hre.unchained hown fun j hja => hframe j fun hmem =>
      hja (hk ▸ List.mem_append_left _ hmem)
  have hothers : ∀ j, j ≠ i → (s₂.setRecord i none).stash j = s.stash j :=
    fun j hji => (stash_setRecord_of_ne s₂ none hji).trans (hre.stash j)
  have hirps : s.SameIrps (s₂.setRecord i none) := hre.irps.trans (sameIrps_setRecord _ _ _)
  have hrest : d₂.refc - 1 = (k₁ ++ k₂).length := by
    rw [hrefc₂, hrefc, hk]
    simp
  split
  · next hlast =>
    have hnil : k₁ ++ k₂ = [] := List.length_eq_zero_iff.mp (hrest ▸ hlast)
    have hnull : d₂.nextIrp = none := by
      rw [hchain₂.head, hnil]
      rfl
    rw [if_neg (fun hx => hx hnull)]
    refine ⟨_, rfl, hre.queue, hre.count, hirps, hothers,
      Unchained.last (hu _ rfl rfl rfl rfl) h hi hlist rfl ?_ (herase.trans hnil)⟩
    rw [← hre.destCount]
    rfl
  · next hmore =>
    refine ⟨_, rfl, hre.queue, hre.count, hirps, hothers,
      Unchained.more (hu _ rfl rfl rfl rfl) h hi hlist rfl hre.destCount hd₂ ?_⟩
    -- the record of the destination, with one reference less
    have hwrites := ((hu { s₂.setRecord i none with
      destList := before ++ { d₂ with refc := d₂.refc - 1 } :: after
      pendingIrpQueue := s.pendingIrpQueue.erase i
      pendingIrpCount := s.pendingIrpCount - 1 } rfl rfl rfl rfl).writesTo h xdst.dst).trans herase
    rw [← hd₂] at hwrites
    refine ⟨?_, ?_, ?_, ?_⟩
    · rw [hwrites]
      refine hchain₂.congr fun j hj => ?_
      refine (congrFun (next_setRecord s₂ i none) j).trans (Function.update_of_ne ?_ _ _)
      rintro rfl
      exact hleft hj
    · rw [hwrites]
      exact hrest
    · rw [hwrites]
      intro hnil
      rw [hnil] at hrest
      exact hmore hrest
    · intro j hj
      rw [hwrites] at hj
      rw [show payloadDataLen _ = payloadDataLen (s.irps j) from hirps.length j]
      refine (hlen₂ j hj).trans ?_
      split
      · rfl
      · next hne =>
        refine hlength j ?_
        rw [hk, List.head?_append_of_ne_nil _ hne]
        rwa [List.head?_append_of_ne_nil _ hne] at hj

/-- No `ASSERT` fails in a removal. -/
theorem removeIrp_spec (h : s.Represented) (hi : i ∈ s.pendingIrpQueue) :
    ∃ s', s.removeIrp i = some s' ∧ s'.Represented ∧ s.SameIrps s' ∧
      (∀ j, j ≠ i → s'.stash j = s.stash j) ∧
      s'.pendingIrpQueue = s.pendingIrpQueue.erase i := by
  obtain ⟨s₁, heq, hq, hcount, hsame, hothers, hrep⟩ : ∃ s₁,
      (if has (s.irps i).flags peekWrite then s.unlinkDestination i else some s) = some s₁ ∧
      s₁.pendingIrpQueue = s.pendingIrpQueue ∧ s₁.pendingIrpCount = s.pendingIrpCount ∧
      s.SameIrps s₁ ∧ (∀ j, j ≠ i → s₁.stash j = s.stash j) ∧ Represented { s₁ with
        pendingIrpQueue := s.pendingIrpQueue.erase i
        pendingIrpCount := s.pendingIrpCount - 1 } := by
    split
    · next hw => exact unlinkDestination_spec h hi hw
    · next hw =>
      have hlen := List.length_erase_of_mem hi
      have hpos := List.length_pos_of_mem hi
      have hbound := h.bound
      refine ⟨s, rfl, rfl, rfl, .refl s, fun _ _ => rfl, h.quiet (h.nodup.erase i) ?_ ?_ rfl rfl ?_ ?_⟩
      · dsimp only
        rw [hlen, h.count]
        omega
      · dsimp only
        omega
      · refine fun b => ⟨?_, fun _ _ => ⟨rfl, rfl⟩⟩
        have hib : i ∉ s.writesTo b := fun hmem => hw (mem_writesTo.mp hmem).2.1
        exact (writesTo_erase (t := { s with
          pendingIrpQueue := s.pendingIrpQueue.erase i
          pendingIrpCount := s.pendingIrpCount - 1 }) h.nodup rfl (fun _ _ => rfl)
            fun _ _ => rfl).trans (List.erase_of_not_mem hib)
      · exact fun j hj hjw => ⟨List.mem_of_mem_erase hj, hjw, rfl⟩
  rw [removeIrp]
  dsimp only
  rw [heq]
  dsimp only
  rw [hq, hcount]
  refine ⟨_, if_neg ?_, hrep, hsame, hothers, rfl⟩
  rintro (hneg | ⟨hzero, hdest⟩)
  · have hc := hrep.count
    dsimp only at hc
    rw [hc] at hneg
    omega
  · exact hdest (hrep.noDests hzero)

end

/-! ## Every run -/

theorem Represented.empty {s : Csq} (h : s.Empty) : s.Represented := by
  obtain ⟨hq, hcount, hlist, hdestCount⟩ := h
  refine ⟨?_, ?_, ?_, ?_, ?_, ?_, ?_⟩
  · rw [hq]
    exact List.nodup_nil
  · rw [hcount, hq]
    rfl
  · rw [hq]
    exact Nat.zero_le _
  · rw [hdestCount, hlist]
    rfl
  · rw [hlist]
    exact List.nodup_nil
  · intro i hi
    rw [hq] at hi
    cases hi
  · intro d hd
    rw [hlist] at hd
    cases hd

theorem Represented.step {s s' : Csq} {a : CsqAct} (h : s.Represented) (hs : s.Step a s') :
    s'.Represented := by
  cases hs with
  | @insert i insertHead first second status s' hi heq =>
    obtain ⟨status', s'', heq', hrep, -⟩ := insertIrpEx_spec insertHead first second h hi
    obtain ⟨-, rfl⟩ := Prod.mk.inj (Option.some.inj (heq.symm.trans heq'))
    exact hrep
  | remove hi heq =>
    obtain ⟨s'', heq', hrep, -⟩ := removeIrp_spec h hi
    obtain rfl := Option.some.inj (heq.symm.trans heq')
    exact hrep
  | change hi => exact h.change hi
  | scribble => exact h.scribble

/-- What the records tell Xen. -/
theorem Represented.ringData {s : Csq} (h : s.Represented) : s.copyDestinationRingData =
    some (s.destList.map fun d => (d.dst, d.nextLength)) := by
  rw [copyDestinationRingData, if_pos (Int.le_of_eq h.destCount), h.destCount, Int.toNat_natCast,
    List.take_length]

/-- **The queue and its records agree.**  The counters count, and the queue is not too long; the
destinations that have a record are those to which a queued write goes, and each has one; its
chain holds these writes in the order of the queue, its count is theirs, and its length is what is
sent for the first of them; insertion and removal fail no `ASSERT` and follow no null pointer; and
what Xen is told is, for each destination with a queued write, the size of the next. -/
structure Exact (s : Csq) : Prop where
  count : s.pendingIrpCount = s.pendingIrpQueue.length ∧ s.pendingIrpQueue.length ≤ maxIrpCount
  destCount : s.destCount = s.destList.length
  one : (s.destList.map Destination.dst).Nodup
  covered : ∀ i ∈ s.pendingIrpQueue, s.isWrite i = true →
    ∃ d ∈ s.destList, s.stash i = some d.dst
  needed : ∀ d ∈ s.destList, s.writesTo d.dst ≠ []
  chain : ∀ d ∈ s.destList, Chain s.next d.nextIrp (s.writesTo d.dst) ∧
    d.refc = (s.writesTo d.dst).length
  nextLength : ∀ d ∈ s.destList, ∀ i, (s.writesTo d.dst).head? = some i →
    d.nextLength.toNat = doWriteBytes (s.sdst (s.irps i).fileObject) (s.irps i)
  insert : ∀ i insertHead first second, i ∉ s.pendingIrpQueue → ∃ status s',
    s.insertIrpEx i insertHead first second = some (status, s') ∧
      (status = .success → s'.pendingIrpQueue = place insertHead i s.pendingIrpQueue ∧
        (s.isWrite i = true → s'.stash i = some (s.getDestination i)))
  remove : ∀ i ∈ s.pendingIrpQueue, ∃ s', s.removeIrp i = some s' ∧
    s'.pendingIrpQueue = s.pendingIrpQueue.erase i
  ringData : ∃ data, s.copyDestinationRingData = some data ∧
    ∀ dst i, (s.writesTo dst).head? = some i →
      ∃ len, (dst, len) ∈ data ∧ len.toNat = doWriteBytes (s.sdst (s.irps i).fileObject) (s.irps i)

theorem Represented.exact {s : Csq} (h : s.Represented) : s.Exact := by
  have hnext : ∀ d ∈ s.destList, ∀ i, (s.writesTo d.dst).head? = some i →
      d.nextLength.toNat = doWriteBytes (s.sdst (s.irps i).fileObject) (s.irps i) := by
    intro d hd i hi
    rw [(h.records d hd).length i hi]
    exact payloadDataLen_toNat _ _
  refine ⟨⟨h.count, h.bound⟩, h.destCount, h.dests, h.covered, fun d hd => (h.records d hd).pos,
    fun d hd => ⟨(h.records d hd).chain, (h.records d hd).refc⟩, hnext, ?_, ?_, ?_⟩
  · intro i insertHead first second hi
    obtain ⟨status, s', heq, -, -, -, hown, hq⟩ := insertIrpEx_spec insertHead first second h hi
    exact ⟨status, s', heq, fun hst => ⟨by rw [hq, if_pos hst], hown hst⟩⟩
  · intro i hi
    obtain ⟨s', heq, -, -, -, hq⟩ := removeIrp_spec h hi
    exact ⟨s', heq, hq⟩
  · refine ⟨_, h.ringData, fun dst i hi => ?_⟩
    obtain ⟨hiq, hiw, hst⟩ := mem_writesTo.mp (List.mem_of_mem_head? hi)
    obtain ⟨d, hd, hdi⟩ := h.covered i hiq hiw
    obtain rfl := Option.some.inj (hst.symm.trans hdi)
    exact ⟨d.nextLength, List.mem_map_of_mem hd, hnext d hd i hi⟩

/-- The buffers and the contexts of queued IRPs are left alone. -/
def BuffersKept (_ : Csq) : CsqAct → Prop
  | .scribble .. => False
  | _ => True

/-- Then a queued write goes where its record says. -/
theorem stash_of_buffersKept {s : Csq} (h : Reachable Empty Step BuffersKept s) :
    s.Represented ∧ ∀ i ∈ s.pendingIrpQueue, s.isWrite i = true →
      s.stash i = some (s.getDestination i) := by
  refine h.invariant (P := fun s => s.Represented ∧ ∀ i ∈ s.pendingIrpQueue,
    s.isWrite i = true → s.stash i = some (s.getDestination i)) ?_ ?_
  · intro s hs
    refine ⟨.empty hs, fun i hi => ?_⟩
    rw [hs.1] at hi
    cases hi
  · rintro s a s' ⟨hrep, hread⟩ hok hs
    refine ⟨hrep.step hs, fun j hj hw => ?_⟩
    cases hs with
    | @insert i insertHead first second status s' hi heq =>
      obtain ⟨status', s'', heq', -, hsame, hothers, hown, hq⟩ :=
        insertIrpEx_spec insertHead first second hrep hi
      obtain ⟨rfl, rfl⟩ := Prod.mk.inj (Option.some.inj (heq.symm.trans heq'))
      rw [hsame.isWrite] at hw
      rw [hsame.getDestination]
      by_cases hji : j = i
      · subst hji
        refine hown ?_ hw
        by_contra hne
        rw [hq, if_neg hne] at hj
        exact hi hj
      · rw [hothers j hji]
        refine hread j ?_ hw
        rw [hq] at hj
        split at hj
        · exact (mem_place.mp hj).resolve_left hji
        · exact hj
    | @remove i s' hi heq =>
      obtain ⟨s'', heq', -, hsame, hothers, hq⟩ := removeIrp_spec hrep hi
      obtain rfl := Option.some.inj (heq.symm.trans heq')
      rw [hq] at hj
      obtain ⟨hji, hjq⟩ := (List.Nodup.mem_erase_iff hrep.nodup).mp hj
      rw [hsame.isWrite] at hw
      rw [hsame.getDestination, hothers j hji]
      exact hread j hjq hw
    | @change i irp hi =>
      have hji : j ≠ i := by
        rintro rfl
        exact hi hj
      have hsame : Function.update s.irps i irp j = s.irps j := Function.update_of_ne hji _ _
      simp only [isWrite, hsame] at hw
      simp only [stash, getDestination, hsame]
      exact hread j hj hw
    | scribble => exact hok.elim

/-- **The records are exact** in every run; and while buffers and contexts are left alone, the
destination of a queued write is the one that the IRP shows. -/
theorem queue_exact (s : Csq) (h : Reached s) : s.Exact ∧
    (Reachable Empty Step BuffersKept s → ∀ i ∈ s.pendingIrpQueue, s.isWrite i = true →
      s.stash i = some (s.getDestination i)) := by
  have hrep : s.Represented := h.invariant (fun _ hs => .empty hs)
    fun _ _ _ hs _ hstep => hs.step hstep
  exact ⟨hrep.exact, fun hkept => (stash_of_buffersKept hkept).2⟩

/-- A datagram of 10 bytes to port 9 of domain 2. -/
def datagramIrp : Irp where
  flags := peekDgram ||| peekWrite
  length := 16
  fileObject := 0
  bufferDst := ⟨9, 2⟩
  resetDst := ⟨0, 0⟩
  record := none
  length_le := by decide

/-- A queue with IRPs like it. -/
def datagramQueue : Csq := ⟨fun _ => datagramIrp, fun _ => ⟨0, 0⟩, [], 0, [], 0⟩

/-- Two datagrams for one destination, the second put in front. -/
theorem queue_exact_two : ∃ s, Reached s ∧ s.Exact ∧ s.pendingIrpQueue = [2, 1] ∧
    s.destList = [⟨2, 10, some 2, ⟨9, 2⟩⟩] ∧ s.next 2 = some 1 ∧ s.next 1 = none := by
  have hempty : Reached datagramQueue := .start ⟨rfl, rfl, rfl, rfl⟩
  have hone := hempty.next (i := CsqAct.insert 1 false true true) trivial
    (.insert (by decide) rfl)
  have htwo := hone.next (i := CsqAct.insert 2 true true true) trivial
    (.insert (by decide) rfl)
  exact ⟨_, htwo, (queue_exact _ htwo).1, rfl, rfl, rfl, rfl⟩

end Csq

end V4v.Windows
