import LegacyV4v.Xenbus

/-! # What `receive_from_xenstored` makes of the bytes that are there

The replies and watch events come as a stream of bytes that is cut anywhere.  One call looks at
what is in the ring: at a header if it is there whole, at a watch event if it is there whole, and at
as much of the payload of a reply as there is.  Here it is said of each case what the call does, in
terms of the bytes in the ring and not of where they lie in it. -/
namespace V4v.Xenutil
open IndexedRing

/-! ## Indices that do not wrap -/

theorem toNat_add_of_lt {a : UInt32} {k : Nat} (h : a.toNat + k < 4294967296) :
    (a + UInt32.ofNat k).toNat = a.toNat + k := by
  rw [UInt32.toNat_add, MachineWord.toNat_ofNat_of_lt (by omega), Nat.mod_eq_of_lt h]

namespace Xenbus

/-- How many bytes of xenstored are in the ring. -/
def avail (s : Xenbus) : Nat := (s.sharedBuf.rspProd - s.sharedBuf.rspCons).toNat

/-- The bytes of xenstored that are in the ring. -/
def rspBytes (s : Xenbus) : List UInt8 :=
  get xenstoreRingSize s.sharedBuf.rsp s.sharedBuf.rspCons.toNat s.avail

@[simp] theorem length_rspBytes (s : Xenbus) : s.rspBytes.length = s.avail := length_get

theorem rspProd_eq (s : Xenbus) :
    s.sharedBuf.rspProd = s.sharedBuf.rspCons + UInt32.ofNat s.avail := by
  rw [avail, UInt32.ofNat_toNat, UInt32.add_comm, UInt32.sub_add_cancel]

/-- `rsp_cons` is moved on. -/
def consume (s : Xenbus) (n : Nat) : Xenbus :=
  { s with sharedBuf := { s.sharedBuf with rspCons := s.sharedBuf.rspCons + UInt32.ofNat n } }

variable {s : Xenbus} {n : Nat}

theorem avail_consume (h : n ≤ s.avail) : (s.consume n).avail = s.avail - n := by
  have hcons := s.sharedBuf.rspCons.toNat_lt
  have hprod := s.sharedBuf.rspProd.toNat_lt
  have hlt : s.avail < 4294967296 := UInt32.toNat_lt _
  change (s.sharedBuf.rspProd - (s.sharedBuf.rspCons + UInt32.ofNat n)).toNat = _
  rw [avail, UInt32.toNat_sub] at h hlt ⊢
  rw [UInt32.toNat_sub, UInt32.toNat_add, MachineWord.toNat_ofNat_of_lt (by omega)]
  omega

/-- The size of the ring divides that of the range of indices. -/
theorem add_ofNat_mod_ring (cons : UInt32) (n : Nat) :
    (cons + UInt32.ofNat n).toNat % xenstoreRingSize = (cons.toNat + n) % xenstoreRingSize := by
  rw [UInt32.toNat_add, UInt32.toNat_ofNat']
  unfold xenstoreRingSize
  omega

theorem rspBytes_consume (h : n ≤ s.avail) : (s.consume n).rspBytes = s.rspBytes.drop n := by
  rw [rspBytes, avail_consume h, rspBytes, drop_get h]
  exact get_congr (add_ofNat_mod_ring s.sharedBuf.rspCons n)

/-- Bytes of the ring, some way behind `rsp_cons`. -/
theorem get_of_rspBytes (before xs after : List UInt8) (h : s.rspBytes = before ++ xs ++ after) :
    get xenstoreRingSize s.sharedBuf.rsp (s.sharedBuf.rspCons.toNat + before.length) xs.length =
      xs := by
  have hlen := s.length_rspBytes
  rw [h, List.length_append, List.length_append] at hlen
  have hdrop : s.rspBytes.drop before.length = xs ++ after := by
    rw [h, List.append_assoc, List.drop_left' rfl]
  rw [rspBytes, drop_get (by omega)] at hdrop
  have htake := congrArg (List.take xs.length) hdrop
  rwa [take_get (by omega), List.take_left' rfl] at htake

end Xenbus

/-! ## Watch events -/

/-- The loop that looks for the end of a string finds it, wherever the indices wrap. -/
theorem scanNul_of_get (messageEnd : UInt32) {rsp : Nat → UInt8} {i : UInt32} {xs : List UInt8}
    (hbytes : get xenstoreRingSize rsp i.toNat (xs.length + 1) = xs ++ [0]) (hxs : 0 ∉ xs)
    (hend : xs.length ≤ (messageEnd - i).toNat) :
    scanNul rsp messageEnd i = i + UInt32.ofNat xs.length := by
  induction xs generalizing i with
  | nil =>
    rw [List.length_nil, get_succ, ← maskXenstoreIdx_eq] at hbytes
    rw [scanNul, if_pos (List.cons.inj hbytes).1]
    exact (UInt32.add_zero i).symm
  | cons x xs ih =>
    rw [List.length_cons, get_succ, ← maskXenstoreIdx_eq] at hbytes
    obtain ⟨hhead, htail⟩ := List.cons.inj hbytes
    rw [List.length_cons] at hend
    have hx : x ≠ 0 := fun heq => hxs (heq ▸ List.mem_cons_self)
    have hi : i ≠ messageEnd := by
      rintro rfl
      rw [UInt32.sub_self, UInt32.toNat_zero] at hend
      omega
    have hnext : (messageEnd - (i + 1)).toNat = (messageEnd - i).toNat - 1 := by
      have hne : i.toNat ≠ messageEnd.toNat := fun heq => hi (UInt32.toNat.inj heq)
      have hlt := i.toNat_lt
      have hlt' := messageEnd.toNat_lt
      rw [UInt32.toNat_sub, UInt32.toNat_sub, UInt32.toNat_add, UInt32.toNat_one]
      omega
    have htail' : get xenstoreRingSize rsp (i + 1).toNat (xs.length + 1) = xs ++ [0] :=
      (get_congr (Xenbus.add_ofNat_mod_ring i 1)).trans htail
    rw [scanNul, if_neg (hhead ▸ hx), dif_neg hi,
      ih htail' (fun hmem => hxs (List.mem_cons_of_mem _ hmem)) (by rw [hnext]; omega),
      UInt32.add_assoc, List.length_cons, Nat.add_comm xs.length, UInt32.ofNat_add]
    rfl

theorem scanNul_eq (messageEnd : UInt32) {rsp : Nat → UInt8} {i : UInt32} {xs : List UInt8}
    (hbytes : get xenstoreRingSize rsp i.toNat (xs.length + 1) = xs ++ [0]) (hxs : 0 ∉ xs)
    (hend : i.toNat + xs.length ≤ messageEnd.toNat) :
    scanNul rsp messageEnd i = i + UInt32.ofNat xs.length := by
  refine scanNul_of_get messageEnd hbytes hxs ?_
  rw [UInt32.toNat_sub_of_le _ _ (UInt32.le_iff_toNat_le.mpr (by omega))]
  omega

namespace Xenbus
variable {s : Xenbus} {hdr : XsdSockmsg}

@[simp] theorem sharedBuf_fireWatchByIdent (s : Xenbus) (ident : List UInt8) :
    (s.fireWatchByIdent ident).sharedBuf = s.sharedBuf := by
  rw [fireWatchByIdent]
  split <;> rfl

/-- A watch event that is not there whole is left alone. -/
theorem receiveWatch_of_lt (h : s.avail < sizeofSockmsg + hdr.len.toNat) :
    s.receiveWatch hdr = some (false, s) := by
  rw [receiveWatch]
  exact if_pos h

/-- **A watch event** triggers the handler of its token. -/
theorem receiveWatch_eq {path token after : List UInt8}
    (hbytes : s.rspBytes = hdr.bytes ++ (path ++ 0 :: (token ++ [0])) ++ after)
    (hlen : hdr.len.toNat = (path ++ 0 :: (token ++ [0])).length) (hpath : 0 ∉ path)
    (htoken : 0 ∉ token) (hshort : token.length ≤ 16)
    (hwrap : s.sharedBuf.rspCons.toNat + s.avail < 4294967296)
    (hallow : s.allowXenbusWatchOperation = true) :
    s.receiveWatch hdr = some (true,
      (s.fireWatchByIdent (token ++ [0])).consume (sizeofSockmsg + hdr.len.toNat)) := by
  have h16 : sizeofSockmsg = 16 := rfl
  have h1024 : xenstoreRingSize = 1024 := rfl
  have hsize := s.length_rspBytes
  rw [hbytes, List.length_append, List.length_append, XsdSockmsg.length_bytes, ← hlen] at hsize
  have hlen' : hdr.len.toNat = path.length + (token.length + 1 + 1) := by
    rw [hlen, List.length_append, List.length_cons, List.length_append]
    rfl
  have hconsLt : s.sharedBuf.rspCons.toNat + (sizeofSockmsg + hdr.len.toNat) < 4294967296 := by omega
  -- the indices
  have hend : s.sharedBuf.rspCons + 16 + hdr.len =
      s.sharedBuf.rspCons + UInt32.ofNat (sizeofSockmsg + hdr.len.toNat) := by
    rw [UInt32.ofNat_add, UInt32.ofNat_toNat, UInt32.add_assoc]
    rfl
  have hendNat : (s.sharedBuf.rspCons + 16 + hdr.len).toNat =
      s.sharedBuf.rspCons.toNat + (sizeofSockmsg + hdr.len.toNat) := by
    rw [hend, toNat_add_of_lt hconsLt]
  have hprodNat : s.sharedBuf.rspProd.toNat = s.sharedBuf.rspCons.toNat + s.avail := by
    rw [← toNat_add_of_lt hwrap, ← rspProd_eq]
  have hstart : (s.sharedBuf.rspCons + 16).toNat = s.sharedBuf.rspCons.toNat + sizeofSockmsg :=
    toNat_add_of_lt (k := 16) (by omega)
  have hpathNat : (s.sharedBuf.rspCons + 16 + UInt32.ofNat path.length).toNat =
      s.sharedBuf.rspCons.toNat + sizeofSockmsg + path.length := by
    rw [toNat_add_of_lt (by omega), hstart]
  have hidentNat : (s.sharedBuf.rspCons + 16 + UInt32.ofNat path.length + 1).toNat =
      s.sharedBuf.rspCons.toNat + sizeofSockmsg + path.length + 1 := by
    rw [← hpathNat]
    exact toNat_add_of_lt (k := 1) (by omega)
  have hidentEndNat := toNat_add_of_lt
    (a := s.sharedBuf.rspCons + 16 + UInt32.ofNat path.length + 1) (k := token.length) (by omega)
  -- the two strings
  have hpathBytes : get xenstoreRingSize s.sharedBuf.rsp (s.sharedBuf.rspCons + 16).toNat
      (path.length + 1) = path ++ [0] := by
    have hget := get_of_rspBytes hdr.bytes (path ++ [0]) (token ++ [0] ++ after) (by rw [hbytes]; simp only [List.append_assoc,
        List.cons_append, List.nil_append])
    rwa [XsdSockmsg.length_bytes, List.length_append, ← hstart] at hget
  have hidentBytes : get xenstoreRingSize s.sharedBuf.rsp
      (s.sharedBuf.rspCons + 16 + UInt32.ofNat path.length + 1).toNat (token.length + 1) =
        token ++ [0] := by
    have hget := get_of_rspBytes (hdr.bytes ++ (path ++ [0])) (token ++ [0]) after (by rw [hbytes]; simp only [List.append_assoc,
        List.cons_append, List.nil_append])
    rwa [List.length_append, XsdSockmsg.length_bytes, List.length_append, List.length_append,
      ← Nat.add_assoc, ← Nat.add_assoc, List.length_singleton, ← hidentNat] at hget
  have hpathEnd := scanNul_eq (s.sharedBuf.rspCons + 16 + hdr.len) hpathBytes hpath
    (by omega)
  have hidentEnd := scanNul_eq (s.sharedBuf.rspCons + 16 + hdr.len) hidentBytes htoken
    (by omega)
  have hgap : s.sharedBuf.rspCons + 16 + UInt32.ofNat path.length + 1 + UInt32.ofNat token.length -
      (s.sharedBuf.rspCons + 16 + UInt32.ofNat path.length + 1) = UInt32.ofNat token.length := by
    rw [UInt32.add_comm _ (UInt32.ofNat token.length), UInt32.add_sub_cancel]
  have hgapNat : (UInt32.ofNat token.length + 1).toNat = token.length + 1 := by
    rw [← MachineWord.toNat_ofNat_of_lt (n := token.length + 1) (by omega), UInt32.ofNat_add]
    rfl
  have hcopy := memcpyFromRing_eq s.sharedBuf.rsp (token.length + 1)
    (s.sharedBuf.rspCons + 16 + UInt32.ofNat path.length + 1) (by omega)
  have hmoved : s.sharedBuf.rspCons ≠ s.sharedBuf.rspCons + 16 + hdr.len := by
    intro heq
    rw [← UInt32.toNat_inj, hendNat] at heq
    omega
  have hne : ∀ {x y : UInt32}, x.toNat ≠ y.toNat → x ≠ y := fun h heq => h (heq ▸ rfl)
  have hwhole : ¬ (s.sharedBuf.rspProd - s.sharedBuf.rspCons).toNat <
      sizeofSockmsg + hdr.len.toNat := by
    rw [← avail, ← hsize]
    exact Nat.not_lt_of_le (Nat.le_add_right _ _)
  rw [receiveWatch]
  dsimp only
  rw [if_neg hwhole, if_neg (not_not_intro (UInt32.le_iff_toNat_le.mpr (by omega))), hpathEnd,
    if_neg (not_not_intro (UInt32.le_iff_toNat_le.mpr (by omega))), if_neg (hne (by omega)),
    hidentEnd, if_neg (not_not_intro (UInt32.le_iff_toNat_le.mpr (by omega))),
    if_neg (fun h => hne (by omega) h.1), hgap,
    if_neg (not_not_intro (UInt32.lt_iff_toNat_lt.mpr (by
      rw [MachineWord.toNat_ofNat_of_lt (by omega)]; exact Nat.lt_succ_of_le hshort))),
    hgapNat, hcopy, hidentBytes]
  dsimp only
  rw [if_pos hallow, bne_iff_ne.mpr hmoved, hend, consume, sharedBuf_fireWatchByIdent]

/-! ## Replies -/

theorem toNat_min (a b : UInt32) : (min a b).toNat = min a.toNat b.toNat := by
  rw [UInt32.min_def]
  by_cases h : a ≤ b
  · rw [if_pos h, Nat.min_eq_left (UInt32.le_iff_toNat_le.mp h)]
  · rw [if_neg h, Nat.min_eq_right (Nat.le_of_lt (Nat.lt_of_not_le (h ∘ UInt32.le_iff_toNat_le.mpr)))]

/-- Whether the index has moved. -/
theorem bne_add_ofNat (cons : UInt32) {n : Nat} (h : n < 4294967296) :
    (cons != cons + UInt32.ofNat n) = (n != 0) := by
  by_cases hn : n = 0
  · subst hn
    rw [show cons + UInt32.ofNat 0 = cons from UInt32.add_zero cons, bne_self_eq_false]
    rfl
  · rw [bne_iff_ne.mpr hn, bne_iff_ne]
    intro heq
    have hnat := congrArg UInt32.toNat heq
    have hlt := cons.toNat_lt
    rw [UInt32.toNat_add, MachineWord.toNat_ofNat_of_lt h] at hnat
    omega

/-- Bytes are skipped. -/
theorem receiveFromXenstored_discard {mem : UInt32 → Option (Nat → UInt8)}
    (h : s.consResponseDiscardBytes ≠ 0) : s.receiveFromXenstored mem =
      some (true, { s.consume (min s.consResponseDiscardBytes.toNat s.avail) with
        consResponseDiscardBytes := s.consResponseDiscardBytes -
          UInt32.ofNat (min s.consResponseDiscardBytes.toNat s.avail) }) := by
  rw [receiveFromXenstored]
  dsimp only
  rw [if_pos h, avail, ← toNat_min, UInt32.ofNat_toNat, consume, UInt32.ofNat_toNat]

/-- The bytes of a reply that are there go to its buffer, as far as they fit. -/
def takeReply (s : Xenbus) (q : PendingReq) (n : Nat) : PendingReq :=
  { (if q.replyBufSize > q.replyPayloadReceived then
      q.copyReply (s.rspBytes.take (min n (q.replyBufSize - q.replyPayloadReceived)))
    else q) with replyPayloadReceived := q.replyPayloadReceived + n }

theorem replyHeader_takeReply (s : Xenbus) (q : PendingReq) (n : Nat) :
    (s.takeReply q n).replyHeader = q.replyHeader := by
  rw [takeReply]
  split <;> rfl

theorem replyBufSize_takeReply (s : Xenbus) (q : PendingReq) (n : Nat) :
    (s.takeReply q n).replyBufSize = q.replyBufSize := by
  rw [takeReply]
  split <;> rfl

/-- What a buffer has when bytes of the reply have been copied to it. -/
theorem payload_takeReply {q : PendingReq} {buf : List UInt8} (hpayload : q.replyPayload = some buf)
    (hsized : buf.length = q.replyBufSize) (hlt : q.replyPayloadReceived < 4294967296)
    (hn : n ≤ s.avail) :
    ∃ buf', (s.takeReply q n).replyPayload = some buf' ∧ buf'.length = buf.length ∧
      buf'.take (q.replyPayloadReceived + n) =
        (buf.take q.replyPayloadReceived ++ s.rspBytes.take n).take buf.length := by
  obtain ⟨k, hk⟩ : ∃ k, k = q.replyPayloadReceived := ⟨_, rfl⟩
  rw [← hk] at hlt ⊢
  rw [takeReply, ← hk]
  by_cases hsize : q.replyBufSize > k
  · -- there is room in the buffer
    obtain ⟨j, hj⟩ : ∃ j, j = min n (q.replyBufSize - k) := ⟨_, rfl⟩
    have hlen : (s.rspBytes.take j).length = j := by
      rw [List.length_take, s.length_rspBytes]
      omega
    have hboth : (buf.take k ++ s.rspBytes.take j).length = k + j := by
      rw [List.length_append, List.length_take, hlen]
      omega
    refine ⟨buf.take k ++ s.rspBytes.take j ++ buf.drop (k + j), ?_, ?_, ?_⟩
    · rw [if_pos hsize, ← hj, PendingReq.copyReply, ← hk, MachineWord.toNat_ofNat_of_lt hlt, hlen, hpayload]
      rfl
    · rw [List.length_append, hboth, List.length_drop]
      omega
    · by_cases hjn : j = n
      · rw [← hjn]
        exact (List.take_left' hboth).trans (List.take_of_length_le (by rw [hboth]; omega)).symm
      · have hfull : k + j = buf.length := by omega
        have htake : (buf.take k).length = k := by
          rw [List.length_take]
          omega
        have hright : (buf.take k ++ s.rspBytes.take n).take (k + j) = buf.take k ++ s.rspBytes.take j := by
          rw [List.take_append, htake, Nat.add_sub_cancel_left, List.take_take, List.take_take,
            Nat.min_eq_right (Nat.le_add_right k j), Nat.min_eq_left (by omega)]
        rw [hfull, List.drop_length, List.append_nil, ← hfull, hright]
        exact List.take_of_length_le (by rw [hboth]; omega)
  · -- the buffer is full
    have hfull : ∀ i, k ≤ i → buf.take i = buf := fun i hi => List.take_of_length_le (by omega)
    refine ⟨buf, ?_, rfl, ?_⟩
    · rw [if_neg hsize]
      exact hpayload
    · rw [hfull _ (Nat.le_add_right k n), hfull k (Nat.le_refl k), List.take_left' rfl]

/-- **A reply is received into.** -/
theorem receiveFromXenstored_body (mem : UInt32 → Option (Nat → UInt8)) {r k n : Nat}
    (hdiscard : s.consResponseDiscardBytes = 0) (hcurrent : s.currentRxReq = some r)
    (hk : (s.reqs r).replyPayloadReceived = k) (hle : k ≤ (s.reqs r).replyHeader.len.toNat)
    (hn : n = min s.avail ((s.reqs r).replyHeader.len.toNat - k))
    (hahead : s.avail ≤ xenstoreRingSize) :
    s.receiveFromXenstored mem = some (n != 0,
      if k + n = (s.reqs r).replyHeader.len.toNat then
        { (s.consume n).setReq r { s.takeReply (s.reqs r) n with xenbusReplied := true } with
          currentRxReq := none }
      else (s.consume n).setReq r (s.takeReply (s.reqs r) n)) := by
  have h1024 : xenstoreRingSize = 1024 := rfl
  have hlen := (s.reqs r).replyHeader.len.toNat_lt
  have hofk : (UInt32.ofNat (s.reqs r).replyPayloadReceived).toNat = k := by
    rw [hk, MachineWord.toNat_ofNat_of_lt (by omega)]
  have hrest : ((s.reqs r).replyHeader.len -
      UInt32.ofNat (s.reqs r).replyPayloadReceived).toNat =
        (s.reqs r).replyHeader.len.toNat - k := by
    rw [UInt32.toNat_sub_of_le _ _ (UInt32.le_iff_toNat_le.mpr (hofk ▸ hle)), hofk]
  have hmin : (min (s.sharedBuf.rspProd - s.sharedBuf.rspCons) ((s.reqs r).replyHeader.len -
      UInt32.ofNat (s.reqs r).replyPayloadReceived)).toNat = n := by
    rw [toNat_min, hrest, ← avail, hn]
  have hmin' : min (s.sharedBuf.rspProd - s.sharedBuf.rspCons) ((s.reqs r).replyHeader.len -
      UInt32.ofNat (s.reqs r).replyPayloadReceived) = UInt32.ofNat n := by
    rw [← hmin, UInt32.ofNat_toNat]
  have hcopy : memcpyFromRing s.sharedBuf.rsp (min n ((s.reqs r).replyBufSize - k))
      (maskXenstoreIdx s.sharedBuf.rspCons) xenstoreRingSize =
        some (s.rspBytes.take (min n ((s.reqs r).replyBufSize - k))) := by
    rw [memcpyFromRing_eq _ _ _ (by omega), rspBytes, take_get (by omega)]
  rw [receiveFromXenstored]
  dsimp only
  rw [if_neg (not_not_intro hdiscard), hcurrent]
  dsimp only
  rw [receiveBody]
  dsimp only
  rw [hmin, hmin', hofk, hcopy, bne_add_ofNat _ (by omega), Option.map_some]
  have hfits : k + n ≤ (s.reqs r).replyHeader.len.toNat := by omega
  by_cases hsize : (s.reqs r).replyBufSize > k
  · rw [if_pos hsize]
    dsimp only
    rw [show ((s.reqs r).copyReply _).replyPayloadReceived = k from hk,
      if_neg (show ¬ ¬ k + n ≤ ((s.reqs r).copyReply _).replyHeader.len.toNat from
        not_not_intro hfits), takeReply, hk, if_pos hsize]
    rfl
  · rw [if_neg hsize]
    dsimp only
    rw [hk, if_neg (not_not_intro hfits), takeReply, hk, if_neg hsize]
    rfl

/-- Not even a header is there. -/
theorem receiveFromXenstored_of_lt {mem : UInt32 → Option (Nat → UInt8)}
    (hdiscard : s.consResponseDiscardBytes = 0) (hcurrent : s.currentRxReq = none)
    (h : s.avail < sizeofSockmsg) : s.receiveFromXenstored mem = some (false, s) := by
  rw [receiveFromXenstored]
  dsimp only
  rw [if_neg (not_not_intro hdiscard), hcurrent]
  dsimp only
  exact if_pos h

/-- A header is there. -/
theorem receiveFromXenstored_header (mem : UInt32 → Option (Nat → UInt8)) {after : List UInt8}
    (hdiscard : s.consResponseDiscardBytes = 0) (hcurrent : s.currentRxReq = none)
    (hbytes : s.rspBytes = hdr.bytes ++ after) : s.receiveFromXenstored mem =
      if hdr.type = xsWatchEvent then s.receiveWatch hdr
      else s.receiveHeader hdr (mem hdr.reqId) := by
  have hlen := s.length_rspBytes
  rw [hbytes, List.length_append, XsdSockmsg.length_bytes] at hlen
  have hwhole : ¬ (s.sharedBuf.rspProd - s.sharedBuf.rspCons).toNat < sizeofSockmsg := by
    rw [← avail, ← hlen]
    exact Nat.not_lt_of_le (Nat.le_add_right _ _)
  have hcopy := memcpyFromRing_eq s.sharedBuf.rsp sizeofSockmsg s.sharedBuf.rspCons (by decide)
  have hget := get_of_rspBytes [] hdr.bytes after hbytes
  rw [XsdSockmsg.length_bytes] at hget
  rw [receiveFromXenstored]
  dsimp only
  rw [if_neg (not_not_intro hdiscard), hcurrent]
  dsimp only
  rw [if_neg hwhole, hcopy, show get _ _ s.sharedBuf.rspCons.toNat _ = _ from hget]
  dsimp only
  rw [XsdSockmsg.ofBytes_bytes]

/-- A reply that nobody waits for, ... -/
theorem receiveHeader_unknown {mem : Option (Nat → UInt8)} (htype : hdr.type ≤ xsIsDomainIntroduced)
    (hfind : s.findPendingRxReq hdr.reqId = none) : s.receiveHeader hdr mem =
      some (true, { s.consume sizeofSockmsg with consResponseDiscardBytes := hdr.len }) := by
  rw [receiveHeader, if_neg (UInt32.not_lt.mpr htype), hfind]
  dsimp only
  rw [show (s.sharedBuf.rspCons != s.sharedBuf.rspCons + 16) = true from
    bne_add_ofNat _ (n := sizeofSockmsg) (by decide)]
  rfl

/-- ... and one to a pending request. -/
theorem receiveHeader_known {mem : Option (Nat → UInt8)} {r : Nat}
    (htype : hdr.type ≤ xsIsDomainIntroduced) (hfind : s.findPendingRxReq hdr.reqId = some r) :
    s.receiveHeader hdr mem = some (true,
      { (s.consume sizeofSockmsg).setReq r ((s.reqs r).startReply hdr mem) with
        currentRxReq := some r }) := by
  rw [receiveHeader, if_neg (UInt32.not_lt.mpr htype), hfind]
  dsimp only
  rw [show (s.sharedBuf.rspCons != s.sharedBuf.rspCons + 16) = true from
    bne_add_ofNat _ (n := sizeofSockmsg) (by decide)]
  rfl

end Xenbus

/-! ## Ids -/

section
variable {s s₀ : Xenbus}

/-- A request is found by its id. -/
theorem Xenbus.find_congr (hpending : s.pending = s₀.pending)
    (hids : ∀ j, (s.reqs j).id = (s₀.reqs j).id) (id : UInt32) :
    s.findPendingRxReq id = s₀.findPendingRxReq id := by
  rw [Xenbus.findPendingRxReq, Xenbus.findPendingRxReq, hpending]
  exact congrArg (fun p => s₀.pending.find? p) (funext fun r => by rw [hids r])

/-- A request that is written to keeps its id. -/
theorem ids_setReq {r : Nat} {q : PendingReq} (h : ∀ j, (s.reqs j).id = (s₀.reqs j).id)
    (hid : q.id = (s.reqs r).id) (j : Nat) : ((s.setReq r q).reqs j).id = (s₀.reqs j).id := by
  by_cases hjr : j = r
  · subst hjr
    rw [Xenbus.reqs_setReq_self, hid, h]
  · rw [Xenbus.reqs_setReq_of_ne _ _ hjr, h]

theorem id_startReply (q : PendingReq) (hdr : XsdSockmsg) (mem : Option (Nat → UInt8)) :
    (q.startReply hdr mem).id = q.id := by
  unfold PendingReq.startReply
  split
  · rfl
  · split <;> rfl

theorem id_takeReply (s : Xenbus) (q : PendingReq) (n : Nat) : (s.takeReply q n).id = q.id := by
  rw [Xenbus.takeReply]
  split <;> rfl

end

end V4v.Xenutil
