import KtcpSplit.ZeroCopy.Receive

/-!
# What the zero-copy receive reports

The value that the actor returns has to be the number of bytes that its descriptors
describe.  It is, unless the actor starts inside a fragment: then the bytes of the fragment
before the offset are counted and not described.
-/

namespace KtcpSplit.ZeroCopy

open KtcpSplit.ByteRange

/-- The descriptors are no more than there is room for, and describe the bytes of the skb
that the returned value says. -/
structure Delivers (skb : SkBuff) (offset nrPages : BitVec 32) (outcome : Outcome) : Prop where
  atMost : outcome.pagesArray.length ≤ nrPages.toNat
  bytes : bytes (outcome.pagesArray.map Kvec.span) =
    ((bytes skb.pieces).drop offset.toNat).take outcome.rc.toInt.toNat
  sum : outcome.rc.toInt = total (outcome.pagesArray.map Kvec.span)

/-- The offset is in the linear part or at the first byte of a fragment. -/
def StartsPiece (skb : SkBuff) (offset : BitVec 32) : Prop :=
  offset < skb.headlen ∨
    ∃ k, offset.toNat = skb.headlen.toNat + total (fragSpans (skb.frags.take k))

/-! ## What is read from the fragments -/

theorem total_take_add_drop (frags : List SkbFrag) (k : ℕ) :
    total (fragSpans (frags.take k)) + total (fragSpans (frags.drop k)) =
      total (fragSpans frags) := by
  rw [← total_append, ← fragSpans_append, List.take_append_drop]

/-- From the first byte of a fragment on, whole fragments are described and counted. -/
theorem readFrags_of_start (skb : SkBuff) (hsize : ∀ frag ∈ skb.frags, frag.size ≠ 0)
    (count : BitVec 64) {s : Rx} {k : ℕ} (hskipped : s.skipped = 0) (hk : k ≤ skb.frags.length)
    (hoffset : s.offset.toNat = total (fragSpans (skb.frags.take k))) :
    let frags := (skb.frags.drop k).take s.nrPages.toNat
    ∃ outcome, readFrags skb count s = some outcome ∧
      outcome.pagesArray = s.pagesArray ++ frags.map SkbFrag.kvec ∧
      outcome.rc = s.copied + BitVec.ofNat 32 (total (fragSpans frags)) := by
  intro frags
  have hsum := total_take_add_drop skb.frags k
  have hdrop : ∀ frag ∈ skb.frags.drop k, frag.size ≠ 0 := fun frag h =>
    hsize frag (List.mem_of_mem_drop h)
  have htotal := skb.total_frags
  have hlen : ((skb.dataLen - s.offset).setWidth 64).toNat =
      total (fragSpans (skb.frags.drop k)) := by
    rw [toNat_setWidth_64]
    bv_omega
  rw [readFrags]
  dsimp only
  split
  · rename_i hzero
    have hnil : skb.frags.drop k = [] := List.eq_nil_of_length_eq_zero <| by
      have hle := length_le_total hdrop
      rw [← hlen, hzero] at hle
      exact Nat.le_zero.mp hle
    have hfrags : frags = [] := by
      simp only [frags, hnil, List.take_nil]
    rw [hfrags]
    exact ⟨_, rfl, (List.append_nil _).symm, (BitVec.add_zero _).symm⟩
  · have hskip := skipFrags_take (s := { s with len := (skb.dataLen - s.offset).setWidth 64 })
      skb.frags hsize hk hoffset
    let start : Rx :=
      { s with
        len := (skb.dataLen - s.offset).setWidth 64
        offset := 0
        skipped := s.skipped + k }
    have hleft : skb.frags.length = start.skipped + (skb.frags.drop k).length := by
      simp only [start, hskipped, List.length_drop]
      omega
    have hcollect := collect_whole (s := start) (skb.frags.drop k) hdrop hleft hlen
    obtain ⟨hpages, hcopied⟩ := foldl_fill frags (s := start) rfl
    rw [hskip, Option.bind_eq_bind, Option.bind_some]
    dsimp only
    rw [hcollect]
    exact ⟨_, rfl, hpages, hcopied⟩

/-- Inside a fragment, the bytes before the offset are counted but not described. -/
theorem readFrags_of_inside (skb : SkBuff) (count : BitVec 64) {s : Rx} (hskipped : s.skipped = 0)
    (hpages : s.nrPages ≠ 0) (hle : s.offset.toNat < skb.dataLen.toNat)
    (hstart : ∀ k, s.offset.toNat ≠ total (fragSpans (skb.frags.take k))) :
    ∃ outcome kvecs cut, readFrags skb count s = some outcome ∧
      outcome.pagesArray = s.pagesArray ++ kvecs ∧
      0 < cut ∧ cut < 2 ^ 32 ∧
      outcome.rc = s.copied + BitVec.ofNat 32 (total (kvecs.map Kvec.span) + cut) := by
  have htotal := skb.total_frags
  obtain ⟨front, rest, cut, hsplit, hcut, hin, hskip⟩ :=
    skipFrags_eq (s := { s with len := (skb.dataLen - s.offset).setWidth 64 }) skb.frags
      (by dsimp only; omega)
  have hpos : cut ≠ 0 := by
    rintro rfl
    refine hstart front.length ?_
    rw [hsplit, List.take_left]
    exact hcut.symm
  obtain ⟨frag, back, rfl, hlt⟩ := hin.resolve_left hpos
  let start : Rx :=
    { s with
      len := (skb.dataLen - s.offset).setWidth 64
      offset := cut
      skipped := s.skipped + front.length }
  have hleft : skb.frags.length = start.skipped + (frag :: back).length := by
    simp only [start, hskipped, hsplit, List.length_append]
    omega
  obtain ⟨n, -, hsome, hcollect⟩ := collect_eq (frag :: back) hleft
  obtain ⟨m, rfl⟩ := Nat.exists_eq_add_one.mpr (hsome hpages (List.cons_ne_nil _ _))
  rw [List.take_succ_cons, List.foldl_cons] at hcollect
  obtain ⟨hfilled, hcopied⟩ := foldl_fill (back.take m) (s := start.fill frag) rfl
  have hlen : ¬(skb.dataLen - s.offset).setWidth 64 = 0 := by
    intro hzero
    have hnone := toNat_setWidth_64 (skb.dataLen - s.offset)
    rw [hzero] at hnone
    bv_omega
  rw [readFrags]
  dsimp only
  rw [if_neg hlen, hskip, Option.bind_eq_bind, Option.bind_some]
  dsimp only
  rw [hcollect]
  refine ⟨_, ⟨frag.address + cut.toNat, (frag.size - cut).setWidth 64⟩ ::
    (back.take m).map SkbFrag.kvec, cut.toNat, rfl, ?_, ?_, cut.isLt, ?_⟩
  · rw [hfilled, Rx.fill, List.append_assoc]
    rfl
  · exact BitVec.toNat_pos_of_ne_zero hpos
  · have hsum : total ((⟨frag.address + cut.toNat, (frag.size - cut).setWidth 64⟩ ::
        (back.take m).map SkbFrag.kvec).map Kvec.span) + cut.toNat =
        frag.size.toNat + total (fragSpans (back.take m)) := by
      rw [List.map_cons, total_cons, map_span_kvec, Kvec.span, toNat_setWidth_64]
      bv_omega
    rw [hcopied, hsum, BitVec.ofNat_add, ← BitVec.add_assoc, BitVec.ofNat_toNat,
      BitVec.setWidth_eq]
    rfl

/-! ## Exactly when the actor reports what it delivers -/

/-- The pieces after the offset, as many as there are descriptors for. -/
def reachable (skb : SkBuff) (offset nrPages : BitVec 32) : List Span :=
  (after offset.toNat skb.pieces).take nrPages.toNat

theorem toNat_headlen (skb : SkBuff) :
    skb.headlen.toNat + skb.dataLen.toNat = skb.len.toNat := by
  have hle := skb.dataLen_le
  rw [SkBuff.headlen]
  bv_omega

theorem size_pos_of_ne_zero {frags : List SkbFrag} (hsize : ∀ frag ∈ frags, frag.size ≠ 0) :
    ∀ span ∈ fragSpans frags, 0 < span.size := by
  intro span hspan
  obtain ⟨frag, hfrag, rfl⟩ := List.mem_map.mp hspan
  exact BitVec.toNat_pos_of_ne_zero (hsize frag hfrag)

theorem after_fragSpans {frags : List SkbFrag} (hsize : ∀ frag ∈ frags, frag.size ≠ 0) (k : ℕ) :
    after (total (fragSpans (frags.take k))) (fragSpans frags) = fragSpans (frags.drop k) := by
  have hafter := after_total_take (fragSpans frags) (size_pos_of_ne_zero hsize) k
  rw [fragSpans, ← List.map_take, ← List.map_drop] at hafter
  exact hafter

/-- The pieces within reach are described, and their bytes counted. -/
def CountsReachable (skb : SkBuff) (offset nrPages : BitVec 32) : Prop :=
  ∃ outcome, skbZerocopyRx nrPages skb offset = some outcome ∧
    outcome.pagesArray.map Kvec.span = reachable skb offset nrPages ∧
    outcome.rc = BitVec.ofNat 32 (total (reachable skb offset nrPages))

/-- In the linear part, its rest is described first. -/
theorem skbZerocopyRx_of_linear {skb : SkBuff} {offset nrPages : BitVec 32}
    (hpage : skb.headFrag = true) (hsize : ∀ frag ∈ skb.frags, frag.size ≠ 0)
    (hpages : nrPages ≠ 0) (hlinear : offset < skb.headlen) :
    CountsReachable skb offset nrPages := by
  have hinside : offset.toNat < skb.headlen.toNat := hlinear
  have hsub : (skb.headlen - offset).toNat = skb.headlen.toNat - offset.toNat := by bv_omega
  obtain ⟨n, hn⟩ := Nat.exists_eq_add_one.mpr (BitVec.toNat_pos_of_ne_zero hpages)
  have hrest : (nrPages - 1).toNat = n := by
    rw [toNat_sub_one hpages, hn, Nat.add_sub_cancel]
  have hreach : reachable skb offset nrPages =
      ⟨skb.data + offset.toNat, (skb.headlen - offset).toNat⟩ ::
        fragSpans (skb.frags.take n) := by
    rw [reachable, SkBuff.pieces, after, if_pos hinside, hn, List.take_succ_cons, Span.drop, hsub,
      fragSpans, fragSpans, List.map_take]
  rw [CountsReachable, skbZerocopyRx]
  dsimp only
  rw [if_neg hpages, if_pos hlinear, if_neg (by rw [hpage]; decide)]
  obtain ⟨outcome, hread, hfilled, hcopied⟩ := readFrags_of_start skb hsize (nrPages.setWidth 64)
    (s := ⟨0, ((skb.headlen - offset).setWidth 64).setWidth 32, 0, 0,
      [⟨skb.data + offset.toNat, (skb.headlen - offset).setWidth 64⟩], nrPages - 1, [skb.head]⟩)
    (k := 0) rfl (Nat.zero_le _) rfl
  dsimp only at hfilled hcopied
  rw [hrest, List.drop_zero] at hfilled hcopied
  refine ⟨outcome, hread, ?_, ?_⟩
  · rw [hfilled, hreach, List.map_append, map_span_kvec, List.map_singleton, Kvec.span,
      toNat_setWidth_64]
    rfl
  · rw [hcopied, hreach, total_cons, BitVec.ofNat_add, BitVec.ofNat_toNat, BitVec.setWidth_eq,
      BitVec.setWidth_setWidth_of_le _ (by decide), BitVec.setWidth_eq]

/-- At the first byte of a fragment, whole fragments are described. -/
theorem skbZerocopyRx_of_boundary {skb : SkBuff} {offset nrPages : BitVec 32} {k : ℕ}
    (hsize : ∀ frag ∈ skb.frags, frag.size ≠ 0) (hpages : nrPages ≠ 0)
    (hk : k ≤ skb.frags.length)
    (hoffset : offset.toNat = skb.headlen.toNat + total (fragSpans (skb.frags.take k))) :
    CountsReachable skb offset nrPages := by
  have hnot : ¬offset.toNat < skb.headlen.toNat := by omega
  have hsub : (offset - skb.headlen).toNat = total (fragSpans (skb.frags.take k)) := by bv_omega
  have hreach : reachable skb offset nrPages =
      fragSpans ((skb.frags.drop k).take nrPages.toNat) := by
    have hafter := after_fragSpans hsize k
    rw [reachable, SkBuff.pieces, after, if_neg hnot, hoffset, Nat.add_sub_cancel_left, hafter,
      fragSpans, fragSpans, List.map_take]
  rw [CountsReachable, skbZerocopyRx]
  dsimp only
  rw [if_neg hpages, if_neg (show ¬offset < skb.headlen from hnot)]
  obtain ⟨outcome, hread, hfilled, hcopied⟩ := readFrags_of_start skb hsize (nrPages.setWidth 64)
    (s := ⟨0, 0, offset - skb.headlen, 0, [], nrPages, []⟩) (k := k) rfl hk hsub
  refine ⟨outcome, hread, ?_, ?_⟩
  · rw [hfilled, hreach, List.nil_append, map_span_kvec]
  · rw [hcopied, hreach]
    exact BitVec.zero_add _

/-- Inside a fragment, the returned value counts bytes that no descriptor has. -/
theorem skbZerocopyRx_of_inside {skb : SkBuff} {offset nrPages : BitVec 32}
    (hoffset : offset < skb.len) (hpages : nrPages ≠ 0) (hinside : ¬StartsPiece skb offset) :
    ∃ outcome cut, skbZerocopyRx nrPages skb offset = some outcome ∧ 0 < cut ∧ cut < 2 ^ 32 ∧
      outcome.rc = BitVec.ofNat 32 (total (outcome.pagesArray.map Kvec.span) + cut) := by
  obtain ⟨hlinear, hstart⟩ := not_or.mp hinside
  have hheadlen := toNat_headlen skb
  have hlt : (offset - skb.headlen).toNat < skb.dataLen.toNat := by bv_omega
  have hsub : ∀ k, (offset - skb.headlen).toNat ≠ total (fragSpans (skb.frags.take k)) := by
    intro k hk
    exact hstart ⟨k, by bv_omega⟩
  rw [skbZerocopyRx]
  dsimp only
  rw [if_neg hpages, if_neg hlinear]
  obtain ⟨outcome, kvecs, cut, hread, hfilled, hpos, hcut, hrc⟩ :=
    readFrags_of_inside skb (nrPages.setWidth 64)
      (s := ⟨0, 0, offset - skb.headlen, 0, [], nrPages, []⟩) rfl hpages hlt hsub
  refine ⟨outcome, cut, hread, hpos, hcut, ?_⟩
  rw [hrc, hfilled, List.nil_append]
  exact BitVec.zero_add _

theorem toInt_ofNat_eq_iff (n : ℕ) : (BitVec.ofNat 32 n).toInt = n ↔ n < 2 ^ 31 := by
  rw [BitVec.toInt_eq_toNat_cond, BitVec.toNat_ofNat]
  split <;> omega

/-- A sum that is off by less than 2^32 is off in thirty-two bits too. -/
theorem toInt_ofNat_add_ne {n cut : ℕ} (hpos : 0 < cut) (hcut : cut < 2 ^ 32) :
    (BitVec.ofNat 32 (n + cut)).toInt ≠ n := by
  rw [BitVec.toInt_eq_toNat_cond, BitVec.toNat_ofNat]
  split <;> omega

theorem StartsPiece.linear_or_boundary {skb : SkBuff} {offset : BitVec 32}
    (hstart : StartsPiece skb offset) :
    offset < skb.headlen ∨ ∃ k ≤ skb.frags.length,
      offset.toNat = skb.headlen.toNat + total (fragSpans (skb.frags.take k)) := by
  obtain hlinear | ⟨k, hk⟩ := hstart
  · exact .inl hlinear
  · refine .inr ⟨min k skb.frags.length, Nat.min_le_right _ _, ?_⟩
    rw [hk, ← List.take_eq_take_min]

/-- The actor reports what it delivers exactly when it starts in the linear part or at the
first byte of a fragment, and the bytes within reach are a positive `int`. -/
theorem delivers_iff (skb : SkBuff) (hpage : skb.headFrag = true)
    (hsize : ∀ frag ∈ skb.frags, frag.size ≠ 0) (offset nrPages : BitVec 32)
    (hoffset : offset < skb.len) (hpages : nrPages ≠ 0) :
    (∃ outcome, skbZerocopyRx nrPages skb offset = some outcome ∧
      Delivers skb offset nrPages outcome) ↔
      StartsPiece skb offset ∧ total (reachable skb offset nrPages) < 2 ^ 31 := by
  by_cases hstart : StartsPiece skb offset
  · obtain ⟨outcome, hrx, hfilled, hrc⟩ : CountsReachable skb offset nrPages := by
      obtain hlinear | ⟨k, hk, hboundary⟩ := hstart.linear_or_boundary
      · exact skbZerocopyRx_of_linear hpage hsize hpages hlinear
      · exact skbZerocopyRx_of_boundary hsize hpages hk hboundary
    have hint := toInt_ofNat_eq_iff (total (reachable skb offset nrPages))
    constructor
    · rintro ⟨_, hsome, hdelivers⟩
      obtain rfl := Option.some.inj (hrx.symm.trans hsome)
      have hsum := hdelivers.sum
      rw [hrc, hfilled] at hsum
      exact ⟨hstart, hint.mp hsum⟩
    · rintro ⟨-, hsmall⟩
      have hsum : outcome.rc.toInt = total (reachable skb offset nrPages) := by
        rw [hrc]
        exact hint.mpr hsmall
      refine ⟨outcome, hrx, ?_, ?_, ?_⟩
      · rw [← List.length_map (f := Kvec.span), hfilled, reachable]
        exact List.length_take_le _ _
      · rw [hsum, hfilled, Int.toNat_natCast, ← bytes_after]
        exact bytes_take _ _
      · rw [hsum, hfilled]
  · obtain ⟨outcome, cut, hrx, hpos, hcut, hrc⟩ := skbZerocopyRx_of_inside hoffset hpages hstart
    refine iff_of_false ?_ fun h => hstart h.1
    rintro ⟨_, hsome, hdelivers⟩
    obtain rfl := Option.some.inj (hrx.symm.trans hsome)
    have hsum := hdelivers.sum
    rw [hrc] at hsum
    exact toInt_ofNat_add_ne hpos hcut hsum

/-- Four bytes in the linear part and ten in a page. -/
def twoPieces : SkBuff where
  head := 64
  data := 100
  len := 14
  dataLen := 10
  headFrag := true
  frags := [⟨4096, 10⟩]
  dataLen_le := by decide
  total_frags := rfl

theorem delivers_twoPieces :
    ∃ outcome, skbZerocopyRx 2 twoPieces 3 = some outcome ∧ Delivers twoPieces 3 2 outcome :=
  (delivers_iff twoPieces rfl (by decide) 3 2 (by decide) (by decide)).mpr
    ⟨.inl (by decide), by decide⟩

/-- From offset 8 on there are six bytes, which the descriptor has, and ten are returned. -/
theorem inside_fragment_overcounts :
    skbZerocopyRx 1 twoPieces 8 = some ⟨10, [⟨4100, 6⟩], 0, 0, [4096]⟩ ∧
      ¬∃ outcome, skbZerocopyRx 1 twoPieces 8 = some outcome ∧ Delivers twoPieces 8 1 outcome := by
  have hrx : skbZerocopyRx 1 twoPieces 8 = some ⟨10, [⟨4100, 6⟩], 0, 0, [4096]⟩ := by decide
  refine ⟨hrx, ?_⟩
  rintro ⟨_, hsome, hdelivers⟩
  obtain rfl := Option.some.inj (hrx.symm.trans hsome)
  exact absurd hdelivers.sum (by decide)

end KtcpSplit.ZeroCopy
