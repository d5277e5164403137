import KtcpSplit.Lib.ByteRange
import Mathlib.Data.BitVec

/-!
# The actor of the zero-copy receive

`tcp_read_sock` hands an skb to `skb_zerocopy_rx`, which describes its bytes from an offset
on by `struct kvec`s instead of copying them.  The value that it returns moves the sequence
number of the socket.
-/

namespace KtcpSplit.ZeroCopy

open KtcpSplit.ByteRange

/-- `struct kvec`. -/
structure Kvec where
  iovBase : ℕ
  iovLen : BitVec 64
  deriving DecidableEq

def Kvec.span (kvec : Kvec) : Span := ⟨kvec.iovBase, kvec.iovLen.toNat⟩

/-- `skb_frag_t`; the address is `skb_frag_address`. -/
structure SkbFrag where
  address : ℕ
  size : BitVec 32

def SkbFrag.span (frag : SkbFrag) : Span := ⟨frag.address, frag.size.toNat⟩

def fragSpans (frags : List SkbFrag) : List Span := frags.map SkbFrag.span

/-- An skb without a fragment list; `headFrag` says that its linear part lies in a page. -/
structure SkBuff where
  head : ℕ
  data : ℕ
  len : BitVec 32
  dataLen : BitVec 32
  headFrag : Bool
  frags : List SkbFrag
  dataLen_le : dataLen.toNat ≤ len.toNat
  total_frags : total (fragSpans frags) = dataLen.toNat

def SkBuff.headlen (skb : SkBuff) : BitVec 32 := skb.len - skb.dataLen

/-- The linear part and the fragments. -/
def SkBuff.pieces (skb : SkBuff) : List Span :=
  ⟨skb.data, skb.headlen.toNat⟩ :: fragSpans skb.frags

def enomem : BitVec 32 := 12

def einval : BitVec 32 := 22

/-! ## The actor -/

/-- The variables of `skb_zerocopy_rx`, the descriptors that it filled, those that are left,
and the addresses whose pages it holds. -/
structure Rx where
  len : BitVec 64
  copied : BitVec 32
  offset : BitVec 32
  skipped : ℕ
  pagesArray : List Kvec
  nrPages : BitVec 32
  held : List ℕ

/-- `desc_t->count` when the function returns, next to what the caller sees of `Rx`. -/
structure Outcome where
  rc : BitVec 32
  pagesArray : List Kvec
  nrPages : BitVec 32
  count : BitVec 64
  held : List ℕ
  deriving DecidableEq

/-- `while (offset)`, which must not pass the end of the fragments. -/
def skipFrags : List SkbFrag → Rx → Option (List SkbFrag × Rx)
  | [], s => if s.offset = 0 then some ([], s) else none
  | frag :: frags, s =>
      if s.offset = 0 then some (frag :: frags, s)
      else if s.offset < frag.size then some (frag :: frags, s)
      else skipFrags frags { s with offset := s.offset - frag.size, skipped := s.skipped + 1 }

/-- One round of `while (desc->nr_pages)`. -/
def Rx.fill (s : Rx) (frag : SkbFrag) : Rx where
  len := s.len - frag.size.setWidth 64
  copied := s.copied + frag.size
  offset := 0
  skipped := s.skipped + 1
  pagesArray :=
    s.pagesArray ++ [⟨frag.address + s.offset.toNat, (frag.size - s.offset).setWidth 64⟩]
  nrPages := s.nrPages - 1
  held := s.held ++ [frag.address]

/-- `while (desc->nr_pages)`. -/
def collect (nrFrags : ℕ) : List SkbFrag → Rx → Option Rx
  | [], s => if s.nrPages = 0 then some s else if nrFrags = s.skipped then some s else none
  | frag :: frags, s =>
      if s.nrPages = 0 then some s
      else if nrFrags = s.skipped then some s
      else
        let s := s.fill frag
        -- `len` is a `size_t`, so that it is never negative
        if s.len = 0 then some s else collect nrFrags frags s

/-- The rest of the function, from `len = skb->data_len - offset` on. -/
def readFrags (skb : SkBuff) (count : BitVec 64) (s : Rx) : Option Outcome :=
  let s := { s with len := (skb.dataLen - s.offset).setWidth 64 }
  if s.len = 0 then some ⟨s.copied, s.pagesArray, s.nrPages, count, s.held⟩
  else do
    let (frags, s) ← skipFrags skb.frags s
    let s ← collect skb.frags.length frags s
    return ⟨s.copied, s.pagesArray, s.nrPages, s.nrPages.setWidth 64, s.held⟩

/-- `skb_zerocopy_rx` with room for `nr_pages` descriptors; its last argument is overwritten
before it is read. -/
def skbZerocopyRx (nrPages : BitVec 32) (skb : SkBuff) (offset : BitVec 32) : Option Outcome :=
  let count := nrPages.setWidth 64
  if nrPages = 0 then some ⟨-enomem, [], nrPages, count, []⟩
  else if offset < skb.headlen then
    if skb.headFrag = false then some ⟨-einval, [], nrPages, count, []⟩
    else
      let kvec : Kvec := ⟨skb.data + offset.toNat, (skb.headlen - offset).setWidth 64⟩
      readFrags skb count
        { len := 0
          copied := kvec.iovLen.setWidth 32
          offset := 0
          skipped := 0
          pagesArray := [kvec]
          nrPages := nrPages - 1
          held := [skb.head] }
  else
    readFrags skb count
      { len := 0
        copied := 0
        offset := offset - skb.headlen
        skipped := 0
        pagesArray := []
        nrPages := nrPages
        held := [] }

/-! ## Rounds of the loop -/

theorem fragSpans_append (front back : List SkbFrag) :
    fragSpans (front ++ back) = fragSpans front ++ fragSpans back := List.map_append

@[simp]
theorem fragSpans_cons (frag : SkbFrag) (frags : List SkbFrag) :
    fragSpans (frag :: frags) = frag.span :: fragSpans frags := rfl

theorem total_fragSpans_cons (frag : SkbFrag) (frags : List SkbFrag) :
    total (fragSpans (frag :: frags)) = frag.size.toNat + total (fragSpans frags) :=
  total_cons frag.span (fragSpans frags)

/-- The descriptor of a whole fragment. -/
def SkbFrag.kvec (frag : SkbFrag) : Kvec := ⟨frag.address, frag.size.setWidth 64⟩

theorem toNat_setWidth_64 (size : BitVec 32) : (size.setWidth 64).toNat = size.toNat :=
  BitVec.toNat_setWidth_of_le (by decide)

theorem map_span_kvec (frags : List SkbFrag) :
    (frags.map SkbFrag.kvec).map Kvec.span = fragSpans frags := by
  rw [fragSpans, List.map_map]
  refine List.map_congr_left fun frag _ => ?_
  rw [Function.comp, Kvec.span, SkbFrag.kvec, SkbFrag.span, toNat_setWidth_64]

theorem toNat_sub_one {nrPages : BitVec 32} (hpages : nrPages ≠ 0) :
    (nrPages - 1).toNat = nrPages.toNat - 1 := by
  bv_omega

/-- Rounds that start at the first byte of a fragment describe whole fragments. -/
theorem foldl_fill (frags : List SkbFrag) {s : Rx} (hoffset : s.offset = 0) :
    (frags.foldl Rx.fill s).pagesArray = s.pagesArray ++ frags.map SkbFrag.kvec ∧
      (frags.foldl Rx.fill s).copied =
        s.copied + BitVec.ofNat 32 (total (fragSpans frags)) := by
  induction frags generalizing s with
  | nil => exact ⟨(List.append_nil _).symm, (BitVec.add_zero _).symm⟩
  | cons frag frags ih =>
      obtain ⟨hpages, hcopied⟩ := ih (s := s.fill frag) rfl
      rw [List.foldl_cons, hpages, hcopied, total_fragSpans_cons]
      constructor
      · simp [Rx.fill, hoffset, SkbFrag.kvec]
      · rw [BitVec.ofNat_add, ← BitVec.add_assoc]
        congr 1
        rw [Rx.fill, BitVec.ofNat_toNat, BitVec.setWidth_eq]

/-- The loop fills descriptors for the next fragments, one at least. -/
theorem collect_eq (frags : List SkbFrag) {nrFrags : ℕ} {s : Rx}
    (hfrags : nrFrags = s.skipped + frags.length) :
    ∃ n ≤ s.nrPages.toNat, (s.nrPages ≠ 0 → frags ≠ [] → 0 < n) ∧
      collect nrFrags frags s = some ((frags.take n).foldl Rx.fill s) := by
  induction frags generalizing s with
  | nil =>
      refine ⟨0, Nat.zero_le _, fun _ hnil => absurd rfl hnil, ?_⟩
      rw [collect, if_pos (show nrFrags = s.skipped from hfrags)]
      split <;> rfl
  | cons frag frags ih =>
      have hleft : nrFrags ≠ s.skipped := by
        rw [hfrags, List.length_cons]
        omega
      rw [collect]
      by_cases hpages : s.nrPages = 0
      · exact ⟨0, Nat.zero_le _, fun hne => absurd hpages hne, by rw [if_pos hpages]; rfl⟩
      rw [if_neg hpages, if_neg hleft]
      have hsub := toNat_sub_one hpages
      have hpos := BitVec.toNat_pos_of_ne_zero hpages
      dsimp only
      split
      · exact ⟨1, by omega, fun _ _ => Nat.one_pos, rfl⟩
      · have hnext : nrFrags = (s.fill frag).skipped + frags.length := by
          rw [hfrags, List.length_cons, Rx.fill]
          dsimp only
          omega
        obtain ⟨n, hle, -, hcollect⟩ := ih hnext
        refine ⟨n + 1, ?_, fun _ _ => Nat.succ_pos n, hcollect⟩
        rw [Rx.fill, hsub] at hle
        omega

/-- Fragments without an empty one hold a byte each. -/
theorem length_le_total {frags : List SkbFrag} (hsize : ∀ frag ∈ frags, frag.size ≠ 0) :
    frags.length ≤ total (fragSpans frags) := by
  induction frags with
  | nil => exact Nat.zero_le _
  | cons frag frags ih =>
      rw [List.forall_mem_cons] at hsize
      have hpos := BitVec.toNat_pos_of_ne_zero hsize.1
      have hrest := ih hsize.2
      rw [List.length_cons, total_fragSpans_cons]
      omega

/-- A loop that starts at the first byte of a fragment fills what there is room for. -/
theorem collect_whole (frags : List SkbFrag) {nrFrags : ℕ} {s : Rx}
    (hsize : ∀ frag ∈ frags, frag.size ≠ 0) (hfrags : nrFrags = s.skipped + frags.length)
    (hlen : s.len.toNat = total (fragSpans frags)) :
    collect nrFrags frags s = some ((frags.take s.nrPages.toNat).foldl Rx.fill s) := by
  induction frags generalizing s with
  | nil =>
      rw [collect, if_pos (show nrFrags = s.skipped from hfrags), List.take_nil]
      split <;> rfl
  | cons frag frags ih =>
      have hleft : nrFrags ≠ s.skipped := by
        rw [hfrags, List.length_cons]
        omega
      rw [collect]
      by_cases hpages : s.nrPages = 0
      · rw [if_pos hpages, hpages]
        rfl
      rw [if_neg hpages, if_neg hleft]
      obtain ⟨n, hn⟩ := Nat.exists_eq_add_one.mpr (BitVec.toNat_pos_of_ne_zero hpages)
      have hnext : (s.fill frag).nrPages.toNat = n := by
        rw [Rx.fill, toNat_sub_one hpages, hn, Nat.add_sub_cancel]
      have hrest : (s.fill frag).len.toNat = total (fragSpans frags) := by
        rw [total_fragSpans_cons, ← toNat_setWidth_64] at hlen
        rw [Rx.fill]
        bv_omega
      rw [hn, List.take_succ_cons, List.foldl_cons]
      dsimp only
      split
      · rename_i hzero
        have hnil : frags = [] := List.eq_nil_of_length_eq_zero <| by
          have hle := length_le_total fun frag h => hsize frag (List.mem_cons_of_mem _ h)
          rw [← hrest, hzero] at hle
          exact Nat.le_zero.mp hle
        rw [hnil, List.take_nil]
        rfl
      · have hskipped : nrFrags = (s.fill frag).skipped + frags.length := by
          rw [hfrags, List.length_cons, Rx.fill]
          dsimp only
          omega
        rw [← hnext]
        exact ih (fun frag h => hsize frag (List.mem_cons_of_mem _ h)) hskipped hrest

/-- The fragments before the offset are skipped, and none past the last one is read. -/
theorem skipFrags_eq (frags : List SkbFrag) {s : Rx}
    (hoffset : s.offset.toNat ≤ total (fragSpans frags)) :
    ∃ front rest cut,
      frags = front ++ rest ∧
      total (fragSpans front) + cut.toNat = s.offset.toNat ∧
      (cut = 0 ∨ ∃ frag back, rest = frag :: back ∧ cut < frag.size) ∧
      skipFrags frags s =
        some (rest, { s with offset := cut, skipped := s.skipped + front.length }) := by
  induction frags generalizing s with
  | nil =>
      have hzero : s.offset = 0 := BitVec.eq_of_toNat_eq (Nat.le_zero.mp hoffset)
      refine ⟨[], [], 0, rfl, ?_, .inl rfl, ?_⟩
      · rw [hzero]
        rfl
      · rw [skipFrags, if_pos hzero, ← hzero]
        rfl
  | cons frag frags ih =>
      rw [skipFrags]
      by_cases hzero : s.offset = 0
      · exact ⟨[], frag :: frags, s.offset, rfl, Nat.zero_add _, .inl hzero, if_pos hzero⟩
      rw [if_neg hzero]
      by_cases hinside : s.offset < frag.size
      · exact ⟨[], frag :: frags, s.offset, rfl, Nat.zero_add _,
          .inr ⟨frag, frags, rfl, hinside⟩, if_pos hinside⟩
      rw [if_neg hinside]
      have hsub : (s.offset - frag.size).toNat = s.offset.toNat - frag.size.toNat := by bv_omega
      have hle : frag.size.toNat ≤ s.offset.toNat := by bv_omega
      obtain ⟨front, rest, cut, hsplit, hcut, hin, hskip⟩ :=
        ih (s := { s with offset := s.offset - frag.size, skipped := s.skipped + 1 }) (by
          rw [total_fragSpans_cons] at hoffset
          dsimp only
          omega)
      refine ⟨frag :: front, rest, cut, ?_, ?_, hin, ?_⟩
      · rw [hsplit, List.cons_append]
      · dsimp only at hcut
        rw [total_fragSpans_cons]
        omega
      · rw [hskip, List.length_cons, Nat.add_assoc, Nat.add_comm 1]

/-- An offset at the first byte of a fragment is found. -/
theorem skipFrags_take (frags : List SkbFrag) {k : ℕ} {s : Rx}
    (hsize : ∀ frag ∈ frags, frag.size ≠ 0) (hk : k ≤ frags.length)
    (hoffset : s.offset.toNat = total (fragSpans (frags.take k))) :
    skipFrags frags s =
      some (frags.drop k, { s with offset := 0, skipped := s.skipped + k }) := by
  induction frags generalizing k s with
  | nil =>
      obtain rfl : k = 0 := Nat.le_zero.mp hk
      have hzero : s.offset = 0 := BitVec.eq_of_toNat_eq hoffset
      rw [skipFrags, if_pos hzero, ← hzero]
      rfl
  | cons frag frags ih =>
      rw [skipFrags]
      cases k with
      | zero =>
          have hzero : s.offset = 0 := BitVec.eq_of_toNat_eq hoffset
          rw [if_pos hzero, ← hzero]
          rfl
      | succ k =>
          rw [List.forall_mem_cons] at hsize
          rw [List.take_succ_cons, total_fragSpans_cons] at hoffset
          have hpos := BitVec.toNat_pos_of_ne_zero hsize.1
          have hzero : s.offset ≠ 0 := by bv_omega
          have hinside : ¬s.offset < frag.size := by bv_omega
          have hsub : (s.offset - frag.size).toNat = total (fragSpans (frags.take k)) := by
            bv_omega
          rw [if_neg hzero, if_neg hinside, ih hsize.2 (Nat.le_of_succ_le_succ hk) hsub,
            List.drop_succ_cons, Nat.add_assoc, Nat.add_comm 1]

/-! ## One reference for every descriptor -/

def Rx.Balanced (s : Rx) : Prop := s.held.length = s.pagesArray.length

theorem Rx.Balanced.fill {s : Rx} (hbalanced : s.Balanced) (frag : SkbFrag) :
    (s.fill frag).Balanced := by
  rw [Rx.Balanced, Rx.fill, List.length_append, List.length_append, hbalanced]
  rfl

theorem Rx.Balanced.collect {frags : List SkbFrag} {nrFrags : ℕ} {s s' : Rx}
    (hbalanced : s.Balanced) (hcollect : collect nrFrags frags s = some s') : s'.Balanced := by
  induction frags generalizing s with
  | nil =>
      rw [ZeroCopy.collect] at hcollect
      split_ifs at hcollect <;> cases hcollect <;> exact hbalanced
  | cons frag frags ih =>
      rw [ZeroCopy.collect] at hcollect
      dsimp only at hcollect
      split_ifs at hcollect
      · cases hcollect
        exact hbalanced
      · cases hcollect
        exact hbalanced
      · cases hcollect
        exact hbalanced.fill frag
      · exact ih (hbalanced.fill frag) hcollect

theorem Rx.Balanced.skipFrags {frags rest : List SkbFrag} {s s' : Rx} (hbalanced : s.Balanced)
    (hskip : skipFrags frags s = some (rest, s')) : s'.Balanced := by
  induction frags generalizing s with
  | nil =>
      rw [ZeroCopy.skipFrags] at hskip
      split_ifs at hskip
      cases hskip
      exact hbalanced
  | cons frag frags ih =>
      rw [ZeroCopy.skipFrags] at hskip
      split_ifs at hskip
      · cases hskip
        exact hbalanced
      · cases hskip
        exact hbalanced
      · exact ih (s := { s with offset := s.offset - frag.size, skipped := s.skipped + 1 })
          hbalanced hskip

theorem Rx.Balanced.readFrags {skb : SkBuff} {count : BitVec 64} {s : Rx} {outcome : Outcome}
    (hbalanced : s.Balanced) (hread : readFrags skb count s = some outcome) :
    outcome.held.length = outcome.pagesArray.length := by
  rw [ZeroCopy.readFrags] at hread
  dsimp only at hread
  split_ifs at hread
  · cases hread
    exact hbalanced
  · obtain ⟨⟨rest, s₁⟩, hskip, hread⟩ := Option.bind_eq_some_iff.mp hread
    obtain ⟨s₂, hcollect, hread⟩ := Option.bind_eq_some_iff.mp hread
    cases hread
    have hstart : Rx.Balanced { s with len := (skb.dataLen - s.offset).setWidth 64 } := hbalanced
    exact (hstart.skipFrags hskip).collect hcollect

/-- The actor holds the page of every descriptor that it filled, whatever it returns. -/
theorem held_for_every_descriptor {skb : SkBuff} {offset nrPages : BitVec 32} {outcome : Outcome}
    (hrx : skbZerocopyRx nrPages skb offset = some outcome) :
    outcome.held.length = outcome.pagesArray.length := by
  rw [skbZerocopyRx] at hrx
  dsimp only at hrx
  split_ifs at hrx
  · cases hrx
    rfl
  · cases hrx
    rfl
  · exact Rx.Balanced.readFrags (by rw [Rx.Balanced]; rfl) hrx
  · exact Rx.Balanced.readFrags (by rw [Rx.Balanced]; rfl) hrx

end KtcpSplit.ZeroCopy
