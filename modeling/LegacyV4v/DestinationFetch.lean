import LegacyV4v.IrpQueueExact

/-! # The destination of a datagram is read more than once

The destination of a datagram stands in the caller's buffer, which the caller can change at any
time.  `V4vCsqLinkDestination` reads it when it fills in the IRP's own record, again for every
record that it compares with, and again for a new record.  Each of these reads may see something
else; `reads n` is what the buffer shows at the `n`th.

`V4vCsqUnlinkDestination` looks for the destination in the IRP's own record.  It finds the chain
with the IRP if the last reads have seen what the first ones saw, and no record of that destination
was passed over. -/
namespace V4v.Windows
open GuardedRun PointerChain

/-- `*dst`, field by field: the port is read first, and then the domain. -/
def fetch (reads : Nat → Addr) (n : Nat) : Addr := ⟨(reads n).port, (reads (n + 1)).domain⟩

/-- The loop over `destList` in `V4vCsqLinkDestination`.  `XENV4V_ADDR_COMPARE` reads the port, and
the domain only if the port is the same.  The second part of the result is where the last two reads
are: those of the comparison that succeeds, or those that are left for a new record. -/
def findFetched (reads : Nat → Addr) : Nat → List Destination →
    Option (List Destination × Destination × List Destination) × Nat
  | n, [] => (none, n)
  | n, xdst :: l =>
    if xdst.dst.port = (reads n).port then
      if xdst.dst.domain = (reads (n + 1)).domain then (some ([], xdst, l), n)
      else
        let o := findFetched reads (n + 2) l
        (o.1.map fun f => (xdst :: f.1, f.2), o.2)
    else
      let o := findFetched reads (n + 1) l
      (o.1.map fun f => (xdst :: f.1, f.2), o.2)

section
variable {reads : Nat → Addr} {n k : Nat} {l before after : List Destination} {xdst : Destination}

/-- The record that is found bears the address that was read last. -/
theorem findFetched_some (h : findFetched reads n l = (some (before, xdst, after), k)) :
    l = before ++ xdst :: after ∧ xdst.dst = fetch reads k := by
  induction l generalizing n before with
  | nil => cases h
  | cons x l ih =>
    have hrest : ∀ {n}, ((findFetched reads n l).1.map fun f => (x :: f.1, f.2),
        (findFetched reads n l).2) = (some (before, xdst, after), k) →
        x :: l = before ++ xdst :: after ∧ xdst.dst = fetch reads k := by
      intro n hmap
      obtain ⟨hfound, hk⟩ := Prod.mk.inj hmap
      obtain ⟨f, hf, heq⟩ := Option.map_eq_some_iff.mp hfound
      obtain ⟨rfl, hf₂⟩ := Prod.mk.inj heq
      have hsearch : findFetched reads n l = (some (f.1, xdst, after), k) :=
        Prod.ext (by rw [hf, ← hf₂]) hk
      obtain ⟨rfl, hdst⟩ := ih hsearch
      exact ⟨rfl, hdst⟩
    rw [findFetched] at h
    split at h
    · next hport =>
      split at h
      · next hdomain =>
        cases h
        exact ⟨rfl, by rw [fetch, ← hport, ← hdomain]⟩
      · exact hrest h
    · exact hrest h

end

namespace Csq

section
variable {l before after : List Destination} {xdst : Destination}

/-- If the buffer keeps still, the search is the one that `findDestination` makes. -/
theorem findFetched_const (dst : Addr) (n : Nat) (l : List Destination) :
    (findFetched (fun _ => dst) n l).1 = findDestination dst l := by
  induction l generalizing n with
  | nil => rfl
  | cons x l ih =>
    rw [findFetched, findDestination]
    by_cases hport : x.dst.port = dst.port
    · rw [if_pos hport]
      by_cases hdomain : x.dst.domain = dst.domain
      · rw [if_pos hdomain, if_pos (show x.dst = dst from by
          cases hx : x.dst
          rw [hx] at hport hdomain
          subst hport hdomain
          rfl)]
      · rw [if_neg hdomain, if_neg fun hx => hdomain (congrArg Addr.domain hx)]
        dsimp only
        rw [ih]
    · rw [if_neg hport, if_neg fun hx => hport (congrArg Addr.port hx)]
      dsimp only
      rw [ih]

/-- A record that is there already is found before one that is put behind it. -/
theorem findDestination_append {dst : Addr} {d new : Destination} (hd : d ∈ l) (hdst : d.dst = dst)
    (h : findDestination dst (l ++ [new]) = some (before, xdst, after)) : xdst ∈ l := by
  induction l generalizing before with
  | nil => cases hd
  | cons x l ih =>
    rw [List.cons_append, findDestination] at h
    split at h
    · cases h
      exact List.mem_cons_self
    · next hx =>
      obtain ⟨f, hf, heq⟩ := Option.map_eq_some_iff.mp h
      obtain ⟨-, hf₂⟩ := Prod.mk.inj heq
      have hsearch : findDestination dst (l ++ [new]) = some (f.1, xdst, after) := by
        rw [hf, ← hf₂]
      rcases List.mem_cons.mp hd with rfl | hd
      · exact absurd hdst hx
      · exact List.mem_cons_of_mem x (ih hd hsearch)

end

/-- `V4vCsqLinkDestination` for a datagram. -/
def linkFetched (s : Csq) (i : Nat) (front first second : Bool) (reads : Nat → Addr) :
    Option (Bool × Csq) :=
  if first = false then some (false, s.setRecord i none)
  else
    let s := s.setRecord i (some ⟨0, 0, none, fetch reads 0⟩)
    match findFetched reads 2 s.destList with
    | (some (before, xdst, after), _) =>
      if xdst.refc = 0 then none
      else
        (s.chainIrp { xdst with refc := xdst.refc + 1 } i front).map fun o =>
          (true, { o.1 with destList := before ++ o.2 :: after })
    | (none, n) =>
      if second = false then some (false, s.setRecord i none)
      else
        some (true, { s with
          destList := s.destList ++ [⟨1, payloadDataLen (s.irps i), some i, fetch reads n⟩]
          destCount := s.destCount + 1 })

/-- `V4vCsqInsertIrpEx` for a datagram write. -/
def insertFetched (s : Csq) (i : Nat) (insertHead first second : Bool) (reads : Nat → Addr) :
    Option (InsertStatus × Csq) :=
  if s.pendingIrpCount = 0 ∧ s.destCount ≠ 0 then none
  else if s.pendingIrpCount = maxIrpCount then some (.quotaExceeded, s)
  else
    match s.linkFetched i insertHead first second reads with
    | none => none
    | some (false, s) => some (.noMemory, s)
    | some (true, s) =>
      if s.pendingIrpCount < 0 then none
      else
        some (.success, { s with
          pendingIrpQueue := place insertHead i s.pendingIrpQueue
          pendingIrpCount := s.pendingIrpCount + 1 })

/-- A datagram write: its destination is in its buffer. -/
def IsDatagram (s : Csq) (i : Nat) : Prop :=
  s.isWrite i = true ∧ has (s.irps i).flags peekRst = false ∧ has (s.irps i).flags peekStream = false

/-- With a buffer that keeps still it is the insertion with one read. -/
theorem insertFetched_const (s : Csq) (i : Nat) (insertHead first second : Bool)
    (h : s.IsDatagram i) :
    s.insertFetched i insertHead first second (fun _ => (s.irps i).bufferDst) =
      s.insertIrpEx i insertHead first second := by
  obtain ⟨hwrite, hrst, hstream⟩ := h
  have hdst : s.getDestination i = (s.irps i).bufferDst := by
    rw [getDestination, hrst, hstream, if_neg Bool.false_ne_true, if_neg Bool.false_ne_true]
  have hlink : s.linkFetched i insertHead first second (fun _ => (s.irps i).bufferDst) =
      s.linkDestination i insertHead first second := by
    rw [linkFetched, linkDestination, hdst]
    dsimp only
    rw [← findFetched_const _ 2,
      show fetch (fun _ => (s.irps i).bufferDst) 0 = (s.irps i).bufferDst from rfl]
    generalize findFetched (fun _ => (s.irps i).bufferDst) 2 _ = o
    obtain ⟨f, n⟩ := o
    cases f <;> rfl
  rw [insertFetched, insertIrpEx, hlink]
  dsimp only
  rw [show has (s.irps i).flags peekWrite = true from hwrite]
  rfl

/-- The port and the domain that are read last are those that were read first, and a new record is
made only for a destination that has none. -/
def Steady (s : Csq) (reads : Nat → Addr) : Prop :=
  fetch reads (findFetched reads 2 s.destList).2 = fetch reads 0 ∧
    ((findFetched reads 2 s.destList).1 = none → ∀ d ∈ s.destList, d.dst ≠ fetch reads 0)

instance (s : Csq) (reads : Nat → Addr) : Decidable (s.Steady reads) :=
  inferInstanceAs (Decidable (_ ∧ (_ → _)))

/-- The record that `V4vCsqUnlinkDestination` finds for the IRP has the IRP in its chain. -/
def OnItsRecord (s : Csq) (i : Nat) : Prop :=
  ∃ idst before xdst after l, (s.irps i).record = some idst ∧
    findDestination idst.dst s.destList = some (before, xdst, after) ∧
      Chain s.next xdst.nextIrp l ∧ i ∈ l

section
variable {s s' : Csq} {i : Nat} {insertHead first second : Bool} {reads : Nat → Addr}

/-- How an IRP can be queued: behind the record that was found, or with a new one.  What fails
leaves no trace in the queue. -/
theorem insertFetched_cases {status : InsertStatus} (h : s.Represented)
    (hi : i ∉ s.pendingIrpQueue)
    (heq : s.insertFetched i insertHead first second reads = some (status, s')) :
    (status ≠ .success ∧ s'.Represented) ∨
      (status = .success ∧ s.pendingIrpQueue.length < maxIrpCount ∧
        ((∃ before xdst after k t d,
          findFetched reads 2 s.destList = (some (before, xdst, after), k) ∧
          (s.setRecord i (some ⟨0, 0, none, fetch reads 0⟩)).chainIrp
            { xdst with refc := xdst.refc + 1 } i insertHead = some (t, d) ∧
          s' = { t with
            destList := before ++ d :: after
            pendingIrpQueue := place insertHead i t.pendingIrpQueue
            pendingIrpCount := t.pendingIrpCount + 1 }) ∨
        ∃ k, findFetched reads 2 s.destList = (none, k) ∧
          s' = { s.setRecord i (some ⟨0, 0, none, fetch reads 0⟩) with
            destList := s.destList ++ [⟨1, payloadDataLen (s.irps i), some i, fetch reads k⟩]
            destCount := s.destCount + 1
            pendingIrpQueue := place insertHead i s.pendingIrpQueue
            pendingIrpCount := s.pendingIrpCount + 1 })) := by
  rw [insertFetched] at heq
  split at heq
  · cases heq
  split at heq
  · cases heq
    exact .inl ⟨by simp, h⟩
  next hquota =>
  have hroom : s.pendingIrpQueue.length < maxIrpCount := by
    refine lt_of_le_of_ne h.bound fun hlen => hquota ?_
    rw [h.count, hlen]
  rw [linkFetched] at heq
  dsimp only at heq
  by_cases hfirst : first = false
  · rw [if_pos hfirst] at heq
    cases heq
    exact .inl ⟨by simp, h.setRecord hi⟩
  rw [if_neg hfirst, show (s.setRecord i (some ⟨0, 0, none, fetch reads 0⟩)).destList = s.destList
    from rfl] at heq
  rcases hfind : findFetched reads 2 s.destList with ⟨f, k⟩
  rw [hfind] at heq
  cases f with
  | some f =>
    obtain ⟨before, xdst, after⟩ := f
    dsimp only at heq
    by_cases hrefc : xdst.refc = 0
    · rw [if_pos hrefc] at heq
      cases heq
    rw [if_neg hrefc] at heq
    cases hchain : (s.setRecord i (some ⟨0, 0, none, fetch reads 0⟩)).chainIrp
        { xdst with refc := xdst.refc + 1 } i insertHead with
    | none =>
      rw [hchain] at heq
      cases heq
    | some o =>
      rw [hchain] at heq
      dsimp only [Option.map_some] at heq
      split at heq
      · cases heq
      · obtain ⟨rfl, rfl⟩ := Prod.mk.inj (Option.some.inj heq)
        exact .inr ⟨rfl, hroom, .inl ⟨before, xdst, after, k, o.1, o.2, rfl, hchain, rfl⟩⟩
  | none =>
    dsimp only at heq
    by_cases hsecond : second = false
    · rw [if_pos hsecond] at heq
      cases heq
      exact .inl ⟨by simp, Represented.setRecord (h.setRecord hi) hi⟩
    rw [if_neg hsecond] at heq
    dsimp only at heq
    split at heq
    · cases heq
    · obtain ⟨rfl, rfl⟩ := Prod.mk.inj (Option.some.inj heq)
      refine .inr ⟨rfl, hroom, .inr ⟨k, rfl, ?_⟩⟩
      simp only [setRecord, Function.update_self, payloadDataLen]

/-- The record of the new IRP, in front of everything else. -/
theorem fresh_setRecord (h : s.Represented) (hi : i ∉ s.pendingIrpQueue) (hw : s.isWrite i = true)
    (hroom : s.pendingIrpQueue.length < maxIrpCount) (a : Addr) :
    Fresh (s.setRecord i (some ⟨0, 0, none, a⟩)) i a := by
  refine ⟨h.setRecord hi, hi, ?_, ?_, ?_, hroom⟩
  · rw [(sameIrps_setRecord s i _).isWrite]
    exact hw
  · simp only [stash, setRecord, Function.update_self, Option.map_some]
  · rw [next_setRecord, Function.update_self]
    rfl

/-- A queued write can be found. -/
theorem Represented.onItsRecord (h : s.Represented) (hi : i ∈ s.pendingIrpQueue)
    (hw : s.isWrite i = true) : s.OnItsRecord i := by
  obtain ⟨idst, before, xdst, after, k₁, k₂, hidst, -, hfind, hlist, hk⟩ := h.found hi hw
  have hmem : xdst ∈ s.destList := by
    rw [hlist]
    exact List.mem_append_right _ List.mem_cons_self
  refine ⟨idst, before, xdst, after, _, hidst, hfind, (h.records xdst hmem).chain, ?_⟩
  rw [hk]
  exact List.mem_append_right _ List.mem_cons_self

/-- An IRP on another chain is not found: the records that were there lead through the writes that
were queued before. -/
theorem Fresh.not_onItsRecord {a : Addr} (h : s.Fresh i a) (hstash : s'.stash i = some a)
    (hnext : ∀ j ∈ s.writesTo a, s'.next j = s.next j)
    (hold : ∀ before xdst after, findDestination a s'.destList = some (before, xdst, after) →
      xdst ∈ s.destList) : ¬ s'.OnItsRecord i := by
  rintro ⟨idst, before, xdst, after, l, hidst, hfind, hchain, hmem⟩
  have hdst : idst.dst = a := by
    rw [Csq.stash, hidst] at hstash
    exact Option.some.inj hstash
  rw [hdst] at hfind
  have hx := (findDestination_some hfind).2
  have hrec := (h.represented.records xdst (hold _ _ _ hfind)).chain
  rw [hx] at hrec
  rw [hchain.unique (hrec.congr hnext)] at hmem
  exact h.queued (mem_writesTo.mp hmem).1

/-- With steady reads the queue is right again. -/
theorem insertFetched_represented (h : s.Represented) (hi : i ∉ s.pendingIrpQueue)
    (hw : s.isWrite i = true) (hsteady : s.Steady reads)
    (heq : s.insertFetched i insertHead first second reads = some (.success, s')) :
    s'.Represented ∧ s'.isWrite i = true ∧ i ∈ s'.pendingIrpQueue := by
  obtain ⟨hstatus, -⟩ | ⟨-, hroom, ⟨before, xdst, after, k, t, d, hfind, hchain, rfl⟩ |
    ⟨k, hfind, rfl⟩⟩ := insertFetched_cases h hi heq
  · exact absurd rfl hstatus
  all_goals
    have hfresh := fresh_setRecord h hi hw hroom (fetch reads 0)
    rw [Steady, hfind] at hsteady
    dsimp only at hsteady
    refine ⟨?_, ?_, mem_place.mpr (.inl rfl)⟩
  · obtain ⟨hlist, hdst⟩ := findFetched_some hfind
    obtain ⟨t', d', heq', hq, hcount, -, -, hrep⟩ :=
      hfresh.chain insertHead hlist (hdst.trans hsteady.1)
    obtain ⟨rfl, rfl⟩ := Prod.mk.inj (Option.some.inj (hchain.symm.trans heq'))
    rw [hq, hcount]
    exact hrep
  · obtain ⟨hlist, hdst⟩ := findFetched_some hfind
    obtain ⟨t', d', heq', -, -, hsame, -⟩ := hfresh.chain insertHead hlist (hdst.trans hsteady.1)
    obtain ⟨rfl, rfl⟩ := Prod.mk.inj (Option.some.inj (hchain.symm.trans heq'))
    exact (hsame.isWrite i).trans hfresh.isWrite
  · have hnew := hfresh.newRecord insertHead (hsteady.2 rfl)
    rw [hsteady.1]
    have hlen : payloadDataLen ((s.setRecord i (some ⟨0, 0, none, fetch reads 0⟩)).irps i) =
        payloadDataLen (s.irps i) := (sameIrps_setRecord s i _).length i
    rw [hlen] at hnew
    exact hnew
  · exact hfresh.isWrite

/-- **One insertion.** -/
theorem insertFetched_iff (h : s.Represented) (hi : i ∉ s.pendingIrpQueue)
    (hw : s.isWrite i = true)
    (heq : s.insertFetched i insertHead first second reads = some (.success, s')) :
    s'.OnItsRecord i ↔ s.Steady reads := by
  constructor
  · intro hon
    by_contra hsteady
    obtain ⟨hstatus, -⟩ | ⟨-, hroom, ⟨before, xdst, after, k, t, d, hfind, hchain, rfl⟩ |
      ⟨k, hfind, rfl⟩⟩ := insertFetched_cases h hi heq
    · exact absurd rfl hstatus
    · -- the record that was found is that of another destination
      have hfresh := fresh_setRecord h hi hw hroom (fetch reads 0)
      obtain ⟨hlist, hdst⟩ := findFetched_some hfind
      have hne : xdst.dst ≠ fetch reads 0 := by
        intro hx
        refine hsteady ⟨?_, fun hnone => ?_⟩
        · rw [hfind]
          exact hdst.symm.trans hx
        · rw [hfind] at hnone
          cases hnone
      have hmem : xdst ∈ s.destList := by
        rw [hlist]
        exact List.mem_append_right _ List.mem_cons_self
      have hrec := hfresh.represented.records xdst hmem
      have hqueued : i ∉ (s.setRecord i (some ⟨0, 0, none, fetch reads 0⟩)).writesTo xdst.dst :=
        fun hx => hi (mem_writesTo.mp hx).1
      obtain ⟨t', d', heq', hre, -, hframe, hd, -⟩ := chainIrp_spec insertHead
        (show Chain _ { xdst with refc := xdst.refc + 1 }.nextIrp _ from hrec.chain) hrec.pos
        (hfresh.represented.nodup.filter _) hqueued hfresh.next
        (by rw [hfresh.stash]; exact Option.some_ne_none _) (fun j hj => writesTo_ne_none hj)
        (List.length_filter_le _ _)
      obtain ⟨rfl, rfl⟩ := Prod.mk.inj (Option.some.inj (hchain.symm.trans heq'))
      refine absurd hon (hfresh.not_onItsRecord ?_ (fun j hj => ?_) ?_)
      · exact (hre.stash i).trans hfresh.stash
      · refine hframe j ?_ fun hjx => hne ?_
        · rintro rfl
          exact hi (mem_writesTo.mp hj).1
        · exact Option.some.inj
            ((mem_writesTo.mp hjx).2.2.symm.trans (mem_writesTo.mp hj).2.2)
      · intro before' xdst' after' hfind'
        obtain ⟨hlist', hdst'⟩ := findDestination_some hfind'
        have hmem' : xdst' ∈ before ++ d :: after := by
          rw [show before ++ d :: after = before' ++ xdst' :: after' from hlist']
          exact List.mem_append_right _ List.mem_cons_self
        have hdx : d.dst = xdst.dst := hd
        rw [mem_split_of_ne fun hx => hne (hdx.symm.trans (hx.symm.trans hdst'))] at hmem'
        show xdst' ∈ s.destList
        rw [hlist]
        exact (mem_split_of_ne fun hx => hne (hx.symm.trans hdst')).mpr hmem'
    · -- the new record is that of another destination, or there was one before
      have hfresh := fresh_setRecord h hi hw hroom (fetch reads 0)
      refine absurd hon (hfresh.not_onItsRecord hfresh.stash (fun j _ => rfl) ?_)
      intro before' xdst' after' hfind'
      by_cases hsame : ∃ d ∈ s.destList, d.dst = fetch reads 0
      · obtain ⟨d, hd, hdst⟩ := hsame
        exact findDestination_append hd hdst hfind'
      · have hother : fetch reads k ≠ fetch reads 0 := by
          intro hk
          refine hsteady ⟨?_, fun _ d hd hdst => hsame ⟨d, hd, hdst⟩⟩
          rw [hfind]
          exact hk
        obtain ⟨hlist', hdst'⟩ := findDestination_some hfind'
        have hmem' : xdst' ∈ s.destList ++ [⟨1, payloadDataLen (s.irps i), some i, fetch reads k⟩] := by
          rw [show s.destList ++ [_] = before' ++ xdst' :: after' from hlist']
          exact List.mem_append_right _ List.mem_cons_self
        rcases List.mem_append.mp hmem' with hold | hnew
        · exact hold
        · rw [List.mem_singleton.mp hnew] at hdst'
          exact absurd hdst' hother
  · intro hsteady
    obtain ⟨hrep, hwrite, hmem⟩ := insertFetched_represented h hi hw hsteady heq
    exact hrep.onItsRecord hmem hwrite

end

end Csq

/-! ## Runs -/

/-- A step of the queue, or the insertion of a datagram whose destination is being written to. -/
inductive FetchAct where
  | csq (a : CsqAct)
  | fetch (i : Nat) (insertHead first second : Bool) (reads : Nat → Addr)

namespace Csq

/-- One step. -/
inductive FetchStep (s : Csq) : FetchAct → Csq → Prop
  | csq {a : CsqAct} {s' : Csq} : s.Step a s' → FetchStep s (.csq a) s'
  | fetch {i : Nat} {insertHead first second : Bool} {reads : Nat → Addr} {status : InsertStatus}
      {s' : Csq} : i ∉ s.pendingIrpQueue → s.isWrite i = true →
      s.insertFetched i insertHead first second reads = some (status, s') →
      FetchStep s (.fetch i insertHead first second reads) s'

/-- The reads of every insertion are steady. -/
def ReadsSteady (s : Csq) : FetchAct → Prop
  | .csq _ => True
  | .fetch _ _ _ _ reads => s.Steady reads

theorem Represented.fetchStep {s s' : Csq} {a : FetchAct} (h : s.Represented)
    (hok : s.ReadsSteady a) (hs : s.FetchStep a s') : s'.Represented := by
  cases hs with
  | csq hs => exact h.step hs
  | @fetch i insertHead first second reads status s' hi hw heq =>
    rcases insertFetched_cases h hi heq with ⟨-, hrep⟩ | ⟨rfl, -⟩
    · exact hrep
    · exact (insertFetched_represented h hi hw hok heq).1

theorem length_datagram : (16 : UInt32).toNat ≤ 4294967296 - 4096 := by decide

/-- Datagrams to port 5 of domain 2. -/
def datagrams : Csq where
  irps := fun _ => ⟨peekDgram ||| peekWrite, 16, 0, ⟨5, 2⟩, ⟨0, 0⟩, none, length_datagram⟩
  sdst := fun _ => ⟨0, 0⟩
  pendingIrpQueue := []
  pendingIrpCount := 0
  destList := []
  destCount := 0

/-- The first of them is queued. -/
def oneDatagram : Csq :=
  { datagrams.setRecord 0 (some ⟨0, 0, none, ⟨5, 2⟩⟩) with
    pendingIrpQueue := [0]
    pendingIrpCount := 1
    destList := [⟨1, 10, some 0, ⟨5, 2⟩⟩]
    destCount := 1 }

theorem insertFetched_oneDatagram :
    datagrams.insertFetched 0 false true true (fun _ => ⟨5, 2⟩) = some (.success, oneDatagram) :=
  rfl

/-- What the buffer of the second datagram shows: port 6 when the IRP's own record is filled in, and
port 5 from then on. -/
def scribbled (n : Nat) : Addr := if n < 2 then ⟨6, 2⟩ else ⟨5, 2⟩

end Csq

end V4v.Windows
