import LegacyV4v.XenbusClient

/-! # What is read out of a watch event

`receive_from_xenstored` looks for the ends of the path and of the token of a watch event in the ring
and copies both to the stack.  Indices run free and wrap at 2^32; the searches compare them for
equality, but three assertions compare them by size.  Here it is worked out at which positions the
assertions hold: everywhere but where the indices wrap between the end of the path and the end of
what is in the ring. -/
namespace V4v.Xenutil
open IndexedRing

/-- What becomes of a watch event; `path` and `ident` are what the arrays `watch_path` and
`watch_ident` have when `fire_watch_by_ident` is called. -/
inductive WatchParse where
  | incomplete
  | malformed
  | event (path ident : List UInt8)

/-- How `receive_from_xenstored` reads a watch event; `stack` is what is in `watch_path` before. -/
def parseWatch (buf : XenstoreDomainInterface) (hdr : XsdSockmsg) (stack : List UInt8) :
    Option WatchParse :=
  let cons := buf.rspCons
  let bytesAvail := buf.rspProd - cons
  if bytesAvail.toNat < sizeofSockmsg + hdr.len.toNat then some .incomplete
  else
    let messageEnd := cons + 16 + hdr.len
    if ¬ messageEnd ≤ buf.rspProd then none
    else
      let pathStart := cons + 16
      let pathEnd := scanNul buf.rsp messageEnd pathStart
      if ¬ pathEnd ≤ messageEnd then none
      else if pathEnd = messageEnd then some .malformed
      else
        match memcpyFromRing buf.rsp (min (pathEnd - pathStart + 1).toNat 64)
            (maskXenstoreIdx pathStart) xenstoreRingSize with
        | none => none
        | some bs =>
          let path := (bs ++ stack.drop bs.length).set 63 0
          let identStart := pathEnd + 1
          let identEnd := scanNul buf.rsp messageEnd identStart
          if ¬ identEnd ≤ messageEnd then none
          else if identEnd = messageEnd ∧ buf.rsp (maskXenstoreIdx identEnd) ≠ 0 then some .malformed
          else if ¬ identEnd - identStart < 17 then none
          else
            match memcpyFromRing buf.rsp (identEnd - identStart + 1).toNat
                (maskXenstoreIdx identStart) xenstoreRingSize with
            | none => none
            | some ident => some (.event path ident)

/-- The string that is in an array. -/
def cString (bs : List UInt8) : List UInt8 := bs.takeWhile (· != 0)

theorem cString_append {xs ys : List UInt8} (h : 0 ∉ xs) : cString (xs ++ 0 :: ys) = xs := by
  rw [cString, List.takeWhile_append_of_pos]
  · rw [List.takeWhile_cons_of_neg (by simp), List.append_nil]
  · intro x hx
    exact bne_iff_ne.mpr fun heq => h (heq ▸ hx)

namespace Xenbus
variable {s : Xenbus} {hdr : XsdSockmsg} {mem : Option (Nat → UInt8)}
  {path token extra after stack : List UInt8}

/-- What `receive_from_xenstored` does with what it has read. -/
def applyWatch (s : Xenbus) (hdr : XsdSockmsg) : WatchParse → Bool × Xenbus
  | .incomplete => (false, s)
  | .malformed => (s.sharedBuf.rspCons != s.sharedBuf.rspCons + 16 + hdr.len,
      { s with sharedBuf := { s.sharedBuf with rspCons := s.sharedBuf.rspCons + 16 + hdr.len } })
  | .event _ ident => (s.sharedBuf.rspCons != s.sharedBuf.rspCons + 16 + hdr.len,
      { (if s.allowXenbusWatchOperation then s.fireWatchByIdent ident else s) with
        sharedBuf := { s.sharedBuf with rspCons := s.sharedBuf.rspCons + 16 + hdr.len } })

/-- **A watch event is read**, and then applied. -/
theorem receiveWatch_eq_parse (s : Xenbus) (hdr : XsdSockmsg) (stack : List UInt8) :
    s.receiveWatch hdr = (parseWatch s.sharedBuf hdr stack).map (s.applyWatch hdr) := by
  rw [receiveWatch, parseWatch]
  dsimp only
  split
  · rfl
  split
  · rfl
  split
  · rfl
  split
  · rfl
  rw [memcpyFromRing_eq _ _ _ (Nat.le_trans (Nat.min_le_right _ _) (by decide))]
  dsimp only
  split
  · rfl
  split
  · rfl
  split
  · rfl
  generalize memcpyFromRing s.sharedBuf.rsp _ _ _ = ident
  cases ident with
  | none => rfl
  | some ident => rfl

/-! ## Where the assertions hold -/

theorem toNat_add_mod (a : UInt32) (k : Nat) :
    (a + UInt32.ofNat k).toNat = (a.toNat + k) % 4294967296 := by
  rw [UInt32.toNat_add, UInt32.toNat_ofNat']
  omega

/-- **What the stack gets of a path**: the first 63 characters, and a NUL. -/
theorem cString_watchPath (hpath : 0 ∉ path) (hstack : stack.length = 64) :
    cString (((((path ++ [0]).take 64) ++ stack.drop ((path ++ [0]).take 64).length)).set 63 0) =
      path.take 63 := by
  obtain ⟨arr, harr⟩ : ∃ arr, arr = (path ++ [0]).take 64 ++ stack.drop ((path ++ [0]).take 64).length :=
    ⟨_, rfl⟩
  have hlen : arr.length = 64 := by
    rw [harr, List.length_append, List.length_drop, hstack, List.length_take, List.length_append]
    omega
  have hset : arr.set 63 0 = arr.take 63 ++ [0] := by
    rw [List.set_eq_take_append_cons_drop, if_pos (by omega), List.drop_of_length_le (by omega)]
  have htake : 0 ∉ path.take 63 := fun hmem => hpath (List.mem_of_mem_take hmem)
  rw [← harr, hset]
  by_cases hshort : path.length < 63
  · have hall : (path ++ [0]).take 64 = path ++ [0] := List.take_of_length_le (by
      rw [List.length_append, List.length_singleton]
      omega)
    obtain ⟨k, hk⟩ : ∃ k, 63 - path.length = k + 1 := ⟨62 - path.length, by omega⟩
    obtain ⟨ys, hys⟩ : ∃ ys, arr.take 63 ++ [0] = path ++ 0 :: ys := by
      rw [harr, hall, List.append_assoc, List.take_append, List.take_of_length_le (by omega), hk,
        List.append_assoc]
      exact ⟨_, rfl⟩
    rw [hys, cString_append hpath, List.take_of_length_le (by omega)]
  · have hpre : arr.take 63 = path.take 63 := by
      rw [harr, List.take_append_of_le_length (by
        rw [List.length_take, List.length_append, List.length_singleton]
        omega), List.take_take, Nat.min_eq_left (by decide), List.take_append_of_le_length (by omega)]
    rw [hpre, cString_append htake]

/-- Where the two strings end, and what is copied, decides what is read. -/
theorem parseWatch_of_scan {buf : XenstoreDomainInterface} {cons pathEnd identEnd messageEnd : UInt32}
    {bs ident : List UInt8} (hcons : buf.rspCons = cons)
    (hwhole : ¬ (buf.rspProd - cons).toNat < sizeofSockmsg + hdr.len.toNat)
    (hend : cons + 16 + hdr.len = messageEnd)
    (hpath : scanNul buf.rsp messageEnd (cons + 16) = pathEnd) (hpathEnd : pathEnd ≠ messageEnd)
    (hbs : memcpyFromRing buf.rsp (min (pathEnd - (cons + 16) + 1).toNat 64)
      (maskXenstoreIdx (cons + 16)) xenstoreRingSize = some bs)
    (hident : scanNul buf.rsp messageEnd (pathEnd + 1) = identEnd) (hidentEnd : identEnd ≠ messageEnd)
    (hshort : identEnd - (pathEnd + 1) < 17)
    (hcopy : memcpyFromRing buf.rsp (identEnd - (pathEnd + 1) + 1).toNat (maskXenstoreIdx (pathEnd + 1))
      xenstoreRingSize = some ident) :
    parseWatch buf hdr stack =
      if messageEnd ≤ buf.rspProd ∧ pathEnd ≤ messageEnd ∧ identEnd ≤ messageEnd then
        some (.event ((bs ++ stack.drop bs.length).set 63 0) ident)
      else none := by
  rw [parseWatch]
  dsimp only
  rw [hcons, if_neg hwhole, hend, hpath]
  by_cases hfirst : messageEnd ≤ buf.rspProd
  swap
  · rw [if_pos hfirst, if_neg (fun h => hfirst h.1)]
  rw [if_neg (not_not_intro hfirst)]
  by_cases hsecond : pathEnd ≤ messageEnd
  swap
  · rw [if_pos hsecond, if_neg (fun h => hsecond h.2.1)]
  rw [if_neg (not_not_intro hsecond), if_neg hpathEnd, hbs]
  dsimp only
  rw [hident]
  by_cases hthird : identEnd ≤ messageEnd
  swap
  · rw [if_pos hthird, if_neg (fun h => hthird h.2.2)]
  rw [if_neg (not_not_intro hthird), if_neg (fun h => hidentEnd h.1), if_neg (not_not_intro hshort), hcopy,
    if_pos ⟨hfirst, hsecond, hthird⟩]

/-- A watch event of this path and token is in the ring, whole; there may be more in its payload. -/
structure WatchThere (s : Xenbus) (hdr : XsdSockmsg) (path token extra after : List UInt8) : Prop where
  bytes : s.rspBytes = hdr.bytes ++ (path ++ 0 :: (token ++ 0 :: extra)) ++ after
  len : hdr.len.toNat = (path ++ 0 :: (token ++ 0 :: extra)).length
  pathEnd : 0 ∉ path
  tokenEnd : 0 ∉ token
  short : token.length ≤ 16
  window : s.avail ≤ xenstoreRingSize

/-- How many bytes there are. -/
theorem WatchThere.sizes (h : WatchThere s hdr path token extra after) :
    hdr.len.toNat = path.length + token.length + extra.length + 2 ∧
      16 + hdr.len.toNat + after.length = s.avail ∧ s.avail ≤ 1024 := by
  have hsize := s.length_rspBytes
  have hlen := h.len
  rw [h.bytes, List.length_append, List.length_append, XsdSockmsg.length_bytes, ← hlen] at hsize
  rw [List.length_append, List.length_cons, List.length_append, List.length_cons] at hlen
  exact ⟨by omega, hsize, h.window⟩

/-- The path in the ring, ... -/
theorem WatchThere.get_path (h : WatchThere s hdr path token extra after) :
    get xenstoreRingSize s.sharedBuf.rsp (s.sharedBuf.rspCons + 16).toNat (path.length + 1) =
      path ++ [0] := by
  have hget := get_of_rspBytes hdr.bytes (path ++ [0]) (token ++ 0 :: extra ++ after)
    (by rw [h.bytes]; simp only [List.append_assoc, List.cons_append, List.nil_append])
  rw [XsdSockmsg.length_bytes, List.length_append, List.length_singleton] at hget
  exact (get_congr (add_ofNat_mod_ring s.sharedBuf.rspCons 16)).trans hget

/-- ... and the token. -/
theorem WatchThere.get_token (h : WatchThere s hdr path token extra after) :
    get xenstoreRingSize s.sharedBuf.rsp
      (s.sharedBuf.rspCons + UInt32.ofNat (16 + path.length + 1)).toNat (token.length + 1) =
      token ++ [0] := by
  have hget := get_of_rspBytes (hdr.bytes ++ (path ++ [0])) (token ++ [0]) (extra ++ after)
    (by rw [h.bytes]; simp only [List.append_assoc, List.cons_append, List.nil_append])
  rw [List.length_append, XsdSockmsg.length_bytes, List.length_append, List.length_append,
    List.length_singleton] at hget
  exact (get_congr (add_ofNat_mod_ring s.sharedBuf.rspCons _)).trans hget

/-- Two indices on the way, the one `j` behind the other. -/
theorem sub_of_offsets (cons : UInt32) {i j : Nat} (hij : i ≤ j) (hj : j < 4294967296) :
    (cons + UInt32.ofNat j - (cons + UInt32.ofNat i)).toNat = j - i := by
  have hlt := cons.toNat_lt
  rw [UInt32.toNat_sub, toNat_add_mod, toNat_add_mod]
  omega

theorem le_of_offsets (cons : UInt32) {i j : Nat} (hij : i ≤ j) (hj : j < 4294967296) :
    cons + UInt32.ofNat i ≤ cons + UInt32.ofNat j ↔
      cons.toNat + j < 4294967296 ∨ 4294967296 ≤ cons.toNat + i := by
  have hlt := cons.toNat_lt
  rw [UInt32.le_iff_toNat_le, toNat_add_mod, toNat_add_mod]
  omega

/-- **What is read out of a watch event** that is there whole: its path and its token, if no comparison
of indices is upset by a wrap. -/
theorem WatchThere.parse (h : WatchThere s hdr path token extra after) :
    parseWatch s.sharedBuf hdr stack =
      if s.sharedBuf.rspCons.toNat + s.avail < 4294967296 ∨
          4294967296 ≤ s.sharedBuf.rspCons.toNat + 16 + path.length then
        some (.event ((((path ++ [0]).take 64) ++ stack.drop ((path ++ [0]).take 64).length).set 63 0)
          (token ++ [0]))
      else none := by
  obtain ⟨hlen, hsize, hwindow⟩ := h.sizes
  have hshort := h.short
  obtain ⟨cons, hcons⟩ : ∃ cons, cons = s.sharedBuf.rspCons := ⟨_, rfl⟩
  have hlt := cons.toNat_lt
  have hadd : ∀ i j : Nat, cons + UInt32.ofNat i + UInt32.ofNat j = cons + UInt32.ofNat (i + j) := by
    intro i j
    rw [UInt32.add_assoc, ← UInt32.ofNat_add]
  have hne : ∀ {i j : Nat}, i < j → j < 4294967296 →
      cons + UInt32.ofNat i ≠ cons + UInt32.ofNat j := by
    intro i j hij hj heq
    have hsub := sub_of_offsets cons (Nat.le_of_lt hij) hj
    rw [heq, UInt32.sub_self, UInt32.toNat_zero] at hsub
    omega
  -- where the strings end
  have hscanPath : scanNul s.sharedBuf.rsp (cons + UInt32.ofNat (16 + hdr.len.toNat)) (cons + 16) =
      cons + UInt32.ofNat (16 + path.length) := by
    rw [← hadd 16 path.length]
    refine scanNul_of_get _ (hcons ▸ h.get_path) h.pathEnd ?_
    rw [show cons + 16 = cons + UInt32.ofNat 16 from rfl, sub_of_offsets cons (by omega) (by omega)]
    omega
  have hscanIdent : scanNul s.sharedBuf.rsp (cons + UInt32.ofNat (16 + hdr.len.toNat))
      (cons + UInt32.ofNat (16 + path.length) + 1) =
        cons + UInt32.ofNat (16 + path.length + 1 + token.length) := by
    rw [show (1 : UInt32) = UInt32.ofNat 1 from rfl, hadd, ← hadd _ token.length]
    refine scanNul_of_get _ (hcons ▸ h.get_token) h.tokenEnd ?_
    rw [sub_of_offsets cons (by omega) (by omega)]
    omega
  -- what is copied
  have hgapPath : (cons + UInt32.ofNat (16 + path.length) - (cons + 16) + 1).toNat = path.length + 1 := by
    have hsub := sub_of_offsets cons (i := 16) (j := 16 + path.length) (by omega) (by omega)
    rw [show (1 : UInt32) = UInt32.ofNat 1 from rfl, toNat_add_mod]
    change ((cons + UInt32.ofNat (16 + path.length) - (cons + UInt32.ofNat 16)).toNat + 1) % _ = _
    rw [hsub]
    omega
  have hgapIdent : (cons + UInt32.ofNat (16 + path.length + 1 + token.length) -
      (cons + UInt32.ofNat (16 + path.length) + 1)).toNat = token.length := by
    rw [show (1 : UInt32) = UInt32.ofNat 1 from rfl, hadd, sub_of_offsets cons (by omega) (by omega)]
    omega
  have hcopyPath : memcpyFromRing s.sharedBuf.rsp (min (path.length + 1) 64) (maskXenstoreIdx (cons + 16))
      xenstoreRingSize = some ((path ++ [0]).take 64) := by
    have hget := h.get_path
    rw [← hcons] at hget
    rw [memcpyFromRing_eq _ _ _ (Nat.le_trans (Nat.min_le_right _ _) (by decide)),
      ← take_get (Nat.min_le_left _ _), hget, List.take_eq_take_min (i := 64), List.length_append,
      List.length_singleton, Nat.min_comm]
  have hcopyIdent : memcpyFromRing s.sharedBuf.rsp (token.length + 1)
      (maskXenstoreIdx (cons + UInt32.ofNat (16 + path.length) + 1)) xenstoreRingSize =
        some (token ++ [0]) := by
    have hget := h.get_token
    rw [← hcons] at hget
    rw [memcpyFromRing_eq _ _ _ (by change _ ≤ 1024; omega), show (1 : UInt32) = UInt32.ofNat 1 from rfl, hadd,
      hget]
  -- the comparisons
  have hprod : s.sharedBuf.rspProd = cons + UInt32.ofNat s.avail := hcons ▸ s.rspProd_eq
  have hcompare : cons + UInt32.ofNat (16 + hdr.len.toNat) ≤ s.sharedBuf.rspProd ∧
      cons + UInt32.ofNat (16 + path.length) ≤ cons + UInt32.ofNat (16 + hdr.len.toNat) ∧
      cons + UInt32.ofNat (16 + path.length + 1 + token.length) ≤
        cons + UInt32.ofNat (16 + hdr.len.toNat) ↔
      cons.toNat + s.avail < 4294967296 ∨ 4294967296 ≤ cons.toNat + 16 + path.length := by
    rw [hprod, le_of_offsets cons (by omega) (by omega), le_of_offsets cons (by omega) (by omega),
      le_of_offsets cons (by omega) (by omega)]
    omega
  have hwhole : ¬ (s.sharedBuf.rspProd - cons).toNat < sizeofSockmsg + hdr.len.toNat := by
    rw [hcons, ← avail, ← hsize]
    exact Nat.not_lt_of_le (Nat.le_add_right _ _)
  have hparse : parseWatch s.sharedBuf hdr stack = _ := parseWatch_of_scan hcons.symm hwhole
    (hcons ▸ messageEnd_eq s hdr.len) hscanPath (hne (by omega) (by omega)) (by rw [hgapPath]; exact hcopyPath) hscanIdent
    (hne (by omega) (by omega))
    (UInt32.lt_iff_toNat_lt.mpr (by rw [hgapIdent]; exact Nat.lt_succ_of_le hshort))
    (by rw [UInt32.toNat_add, hgapIdent, UInt32.toNat_one, Nat.mod_eq_of_lt (by omega)]; exact hcopyIdent)
  rw [hparse, ← hcons]
  exact if_congr hcompare rfl rfl

/-- All assertions hold, and `fire_watch_by_ident` gets the path, cut to 63 characters, and the token,
whatever was on the stack. -/
structure Delivers (s : Xenbus) (hdr : XsdSockmsg) (mem : Option (Nat → UInt8)) (path token : List UInt8) :
    Prop where
  asserts : s.receiveIn false mem ≠ none
  passed : ∀ stack : List UInt8, stack.length = 64 → ∃ p i,
    parseWatch s.sharedBuf hdr stack = some (.event p i) ∧ cString p = path.take 63 ∧ cString i = token

/-- **A watch event is delivered** if and only if the indices do not wrap between the end of its path
and the end of what is in the ring. -/
theorem watch_delivered_iff (h : WatchThere s hdr path token extra after)
    (hwatch : hdr.type = xsWatchEvent) (hdiscard : s.consResponseDiscardBytes = 0)
    (hcurrent : s.currentRxReq = none) :
    s.Delivers hdr mem path token ↔
      s.sharedBuf.rspCons.toNat + s.avail < 4294967296 ∨
        4294967296 ≤ s.sharedBuf.rspCons.toNat + 16 + path.length := by
  have hbytes : s.rspBytes = hdr.bytes ++ (path ++ 0 :: (token ++ 0 :: extra) ++ after) := by
    rw [h.bytes, List.append_assoc]
  have hcall : ∀ stack : List UInt8, s.receiveIn false mem =
      (parseWatch s.sharedBuf hdr stack).map (s.applyWatch hdr) := fun stack => by
    rw [receiveIn_false, receiveFromXenstored_header _ hdiscard hcurrent hbytes, if_pos hwatch,
      receiveWatch_eq_parse]
  refine ⟨fun hdelivers => ?_, fun hwrap => ⟨?_, fun stack hstack => ?_⟩⟩
  · by_contra hwrap
    refine hdelivers.asserts ?_
    rw [hcall [], h.parse, if_neg hwrap]
    rfl
  · rw [hcall [], h.parse, if_pos hwrap]
    exact Option.some_ne_none _
  · refine ⟨_, _, h.parse.trans (if_pos hwrap), cString_watchPath h.pathEnd hstack, ?_⟩
    exact cString_append h.tokenEnd

/-- A bus in front of a watch event of path `a` and token `b`, and of 16 bytes more. -/
def watching (cons : UInt32) : Xenbus :=
  let buf : XenstoreDomainInterface := { Client.idle.bus.sharedBuf with rspCons := cons }
  { Client.idle.bus with
    sharedBuf := buf.answer (XsdSockmsg.bytes ⟨15, 0, 0, 4⟩ ++ ([97, 0, 98, 0] ++ List.replicate 16 0)) }

theorem avail_watching (cons : UInt32) : (watching cons).avail = 36 := by
  have hlen : (XsdSockmsg.bytes ⟨15, 0, 0, 4⟩ ++ ([97, 0, 98, 0] ++ List.replicate 16 0)).length = 36 := rfl
  exact avail_answer (s := watching cons) rfl (by rw [hlen]; decide)

theorem watching_there (cons : UInt32) :
    (watching cons).WatchThere ⟨15, 0, 0, 4⟩ [97] [98] [] (List.replicate 16 0) := by
  refine ⟨?_, rfl, by decide, by decide, by decide, ?_⟩
  · exact rspBytes_answer rfl (by decide)
  · rw [avail_watching]
    decide

/-- Far from a wrap it is delivered. -/
theorem watch_delivered : (watching 0).Delivers ⟨15, 0, 0, 4⟩ none [97] [98] := by
  refine (watch_delivered_iff (watching_there 0) rfl rfl rfl).mpr (.inl ?_)
  rw [avail_watching]
  decide

/-- The event ends 10 bytes in front of the wrap. -/
theorem wrap_asserts : ¬ ∀ (s : Xenbus) (hdr : XsdSockmsg) (mem : Option (Nat → UInt8))
    (path token extra after : List UInt8), WatchThere s hdr path token extra after →
      hdr.type = xsWatchEvent → s.consResponseDiscardBytes = 0 → s.currentRxReq = none →
        s.Delivers hdr mem path token := by
  intro hall
  have hdelivers := hall (watching 4294967266) _ none _ _ _ _ (watching_there _) rfl rfl rfl
  refine hdelivers.asserts ?_
  have hbytes : (watching 4294967266).rspBytes =
      XsdSockmsg.bytes ⟨15, 0, 0, 4⟩ ++ ([97, 0, 98, 0] ++ List.replicate 16 0) :=
    rspBytes_answer rfl (by decide)
  rw [receiveIn_false, receiveFromXenstored_header _ rfl rfl hbytes,
    if_pos (show (15 : UInt32) = xsWatchEvent from rfl), receiveWatch]
  dsimp only
  rw [← avail, avail_watching, if_neg (by decide), if_pos (by decide)]

end Xenbus

end V4v.Xenutil
