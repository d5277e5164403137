import KtcpSplit.ZeroCopy.Receive

/-!
# The zero-copy send

`skb_zerocopy_sg_from_iter` hangs the vectors of an iterator into the fragments of an skb.
The vectors are consumed in place, and the byte offset of the iterator is used as the index
of the vector that is next.  The page of a vector is taken before its length is looked at,
so an empty vector needs a page as well.
-/

namespace KtcpSplit.ZeroCopy

open KtcpSplit.ByteRange

def pageSize : ℕ := 4096

def maxSkbFrags : ℕ := 17

def emsgsize : ℤ := 90

/-- `struct iov_iter` over vectors of the kernel. -/
structure IovIter where
  kvec : List Kvec
  iovOffset : ℕ
  count : BitVec 64
  deriving DecidableEq

/-- The vectors from the index on. -/
def IovIter.rest (iter : IovIter) : List Span := (iter.kvec.drop iter.iovOffset).map Kvec.span

/-- What is left to be sent. -/
def IovIter.bytes (iter : IovIter) : List ℕ := (ByteRange.bytes iter.rest).take iter.count.toNat

/-- What `kvec_get_frag_advance` hands back: the page of the vector, where in the page it
begins, and how much of it is taken. -/
structure Piece where
  page : ℕ
  off : ℕ
  copied : BitVec 64
  deriving DecidableEq

def Piece.span (piece : Piece) : Span :=
  ⟨piece.page * pageSize + piece.off, piece.copied.toNat⟩

/-- The vector at the index is taken whole and left empty, or its front is taken; there must
be one.  `mapped` are the addresses that `virt_to_page` has a page for; with any other the
call of `get_page` faults. -/
def kvecGetFragAdvance (mapped : ℕ → Bool) (iter : IovIter) (len : BitVec 64) :
    Option (IovIter × Piece) :=
  iter.kvec[iter.iovOffset]?.bind fun kvec =>
    let page := kvec.iovBase / pageSize
    let off := kvec.iovBase % pageSize
    -- `get_page(*page)`
    if mapped kvec.iovBase = false then none
    else if kvec.iovLen ≤ len then
      some ({ kvec := iter.kvec.set iter.iovOffset ⟨0, 0⟩
              iovOffset := iter.iovOffset + 1
              count := iter.count - kvec.iovLen }, ⟨page, off, kvec.iovLen⟩)
    else
      some ({ kvec := iter.kvec.set iter.iovOffset ⟨kvec.iovBase + len.toNat, kvec.iovLen - len⟩
              iovOffset := iter.iovOffset
              count := iter.count - len }, ⟨page, off, len⟩)

/-- A fragment as `skb_fill_page_desc` fills it. -/
structure PageFrag where
  page : ℕ
  pageOffset : ℕ
  size : BitVec 32
  deriving DecidableEq

def PageFrag.span (frag : PageFrag) : Span :=
  ⟨frag.page * pageSize + frag.pageOffset, frag.size.toNat⟩

/-- The size of a fragment is an `int`. -/
def Piece.frag (piece : Piece) : PageFrag := ⟨piece.page, piece.off, piece.copied.setWidth 32⟩

/-- The fields of the skb that grow. -/
structure TxSkb where
  len : BitVec 32
  dataLen : BitVec 32
  truesize : BitVec 32
  frags : List PageFrag
  deriving DecidableEq

/-- The socket that is charged: the argument when it is a stream, or the one of the skb. -/
inductive Payer
  | sk
  | skbSk
  deriving DecidableEq

/-- The variables of `skb_zerocopy_sg_from_iter`, the pages that it holds and what it
charged. -/
structure Sg where
  iter : IovIter
  len : BitVec 64
  skb : TxSkb
  held : List ℕ
  charges : List (Payer × BitVec 64)
  deriving DecidableEq

/-- The rest of a round, once the vector was advanced. -/
def Sg.add (payer : Payer) (s : Sg) (iter : IovIter) (piece : Piece) : Sg where
  iter := iter
  len := s.len - piece.copied
  skb :=
    { len := s.skb.len + piece.copied.setWidth 32
      dataLen := s.skb.dataLen + piece.copied.setWidth 32
      truesize := s.skb.truesize + piece.copied.setWidth 32
      frags := s.skb.frags ++ [piece.frag] }
  held := s.held ++ [piece.page]
  charges := s.charges ++ [(payer, piece.copied)]

/-- `while (len && iov_iter_count(from))`, where `room` is `MAX_SKB_FRAGS - frag`. -/
def gather (mapped : ℕ → Bool) (payer : Payer) : ℕ → Sg → Option (Sg × ℤ)
  | 0, s => if s.len ≠ 0 ∧ s.iter.count ≠ 0 then some (s, -emsgsize) else some (s, 0)
  | room + 1, s =>
      if s.len ≠ 0 ∧ s.iter.count ≠ 0 then do
        let (iter, piece) ← kvecGetFragAdvance mapped s.iter s.len
        gather mapped payer room (s.add payer iter piece)
      else some (s, 0)

def skbZerocopySgFromIter (mapped : ℕ → Bool) (payer : Payer) (skb : TxSkb) (iter : IovIter)
    (len : BitVec 64) : Option (Sg × ℤ) :=
  gather mapped payer (maxSkbFrags - skb.frags.length) ⟨iter, len, skb, [], []⟩

/-! ## One vector -/

/-- The vectors hold what the iterator counts, and that is enough. -/
structure Stocked (iter : IovIter) (len : BitVec 64) : Prop where
  len_le : len.toNat ≤ iter.count.toNat
  count_le : iter.count.toNat ≤ total iter.rest

/-- Of `room` vectors, those from which something of `len` bytes is missing when the loop
comes to them have a page. -/
def Paged (mapped : ℕ → Bool) (room len : ℕ) (spans : List Span) : Prop :=
  ∀ i < room, ∀ span ∈ spans[i]?, total (spans.take i) < len → mapped span.base = true

instance decidablePaged (mapped : ℕ → Bool) (room len : ℕ) (spans : List Span) :
    Decidable (Paged mapped room len spans) :=
  inferInstanceAs (Decidable (∀ i < room, _))

/-- The bytes that `room` vectors give, at most `len`. -/
def offered (room len : ℕ) (spans : List Span) : ℕ := min len (total (spans.take room))

/-- What one call takes from the front of the vectors. -/
structure Advanced (mapped : ℕ → Bool) (iter iter' : IovIter) (len : BitVec 64)
    (piece : Piece) : Prop where
  copied_le : piece.copied.toNat ≤ len.toNat
  count : iter'.count.toNat + piece.copied.toNat = iter.count.toNat
  bytes : piece.span.bytes ++ ByteRange.bytes iter'.rest = ByteRange.bytes iter.rest
  paged : ∀ room, Paged mapped (room + 1) len.toNat iter.rest ↔
    Paged mapped room (len - piece.copied).toNat iter'.rest
  offered : ∀ room, offered (room + 1) len.toNat iter.rest =
    piece.copied.toNat + offered room (len - piece.copied).toNat iter'.rest

theorem page_add_off (base : ℕ) : base / pageSize * pageSize + base % pageSize = base :=
  Nat.div_add_mod' base pageSize

theorem Piece.span_eq (kvec : Kvec) (copied : BitVec 64) :
    (⟨kvec.iovBase / pageSize, kvec.iovBase % pageSize, copied⟩ : Piece).span =
      ⟨kvec.iovBase, copied.toNat⟩ := by
  rw [Piece.span, page_add_off]

theorem IovIter.rest_eq {iter : IovIter} (hindex : iter.iovOffset < iter.kvec.length) :
    iter.rest = iter.kvec[iter.iovOffset].span ::
      (iter.kvec.drop (iter.iovOffset + 1)).map Kvec.span := by
  rw [IovIter.rest, List.drop_eq_getElem_cons hindex, List.map_cons]

/-- With bytes missing, the first vector needs a page, and then those behind it. -/
theorem paged_cons {mapped : ℕ → Bool} {room len : ℕ} {span : Span} {spans : List Span}
    (hlen : 0 < len) :
    Paged mapped (room + 1) len (span :: spans) ↔
      mapped span.base = true ∧ Paged mapped room (len - span.size) spans := by
  constructor
  · intro hpaged
    refine ⟨hpaged 0 (Nat.succ_pos room) span rfl hlen, fun i hi next hnext hmissing => ?_⟩
    refine hpaged (i + 1) (Nat.succ_lt_succ hi) next hnext ?_
    rw [List.take_succ_cons, total_cons]
    omega
  · rintro ⟨hfirst, hback⟩ i hi next hnext hmissing
    cases i with
    | zero =>
        cases hnext
        exact hfirst
    | succ i =>
        refine hback i (Nat.lt_of_succ_lt_succ hi) next hnext ?_
        rw [List.take_succ_cons, total_cons] at hmissing
        omega

/-- With nothing missing, no page is needed. -/
theorem paged_of_done (mapped : ℕ → Bool) (room : ℕ) (spans : List Span) :
    Paged mapped room 0 spans := fun _ _ _ _ h => absurd h (Nat.not_lt_zero _)

/-- A vector that is taken whole is behind the index. -/
theorem advanced_whole {mapped : ℕ → Bool} {iter : IovIter} {len : BitVec 64}
    (hindex : iter.iovOffset < iter.kvec.length) (hle : len.toNat ≤ iter.count.toNat)
    (hpos : 0 < len.toNat) (hmapped : mapped iter.kvec[iter.iovOffset].iovBase = true)
    (hwhole : iter.kvec[iter.iovOffset].iovLen ≤ len) :
    Advanced mapped iter
      ⟨iter.kvec.set iter.iovOffset ⟨0, 0⟩, iter.iovOffset + 1,
        iter.count - iter.kvec[iter.iovOffset].iovLen⟩ len
      ⟨iter.kvec[iter.iovOffset].iovBase / pageSize, iter.kvec[iter.iovOffset].iovBase % pageSize,
        iter.kvec[iter.iovOffset].iovLen⟩ := by
  have hcopied : iter.kvec[iter.iovOffset].iovLen.toNat ≤ len.toNat := hwhole
  have hsub : (len - iter.kvec[iter.iovOffset].iovLen).toNat =
      len.toNat - iter.kvec[iter.iovOffset].iovLen.toNat := by bv_omega
  have hrest : IovIter.rest ⟨iter.kvec.set iter.iovOffset ⟨0, 0⟩, iter.iovOffset + 1,
        iter.count - iter.kvec[iter.iovOffset].iovLen⟩ =
      (iter.kvec.drop (iter.iovOffset + 1)).map Kvec.span := by
    rw [IovIter.rest]
    dsimp only
    rw [List.drop_set_of_lt (Nat.lt_succ_self _)]
  constructor
  · exact hcopied
  · dsimp only
    bv_omega
  · rw [IovIter.rest_eq hindex, bytes_cons]
    rw [hrest, Piece.span_eq, Kvec.span]
  · intro room
    rw [IovIter.rest_eq hindex, paged_cons hpos, hrest, hsub]
    exact and_iff_right hmapped
  · intro room
    rw [offered, offered, IovIter.rest_eq hindex, List.take_succ_cons, total_cons, hrest, hsub]
    change min len.toNat (iter.kvec[iter.iovOffset].iovLen.toNat + _) =
      iter.kvec[iter.iovOffset].iovLen.toNat + _
    omega

/-- Of a longer vector the front is taken, and the rest stays at the index. -/
theorem advanced_front {mapped : ℕ → Bool} {iter : IovIter} {len : BitVec 64}
    (hindex : iter.iovOffset < iter.kvec.length) (hle : len.toNat ≤ iter.count.toNat)
    (hpos : 0 < len.toNat) (hmapped : mapped iter.kvec[iter.iovOffset].iovBase = true)
    (hpart : ¬iter.kvec[iter.iovOffset].iovLen ≤ len) :
    Advanced mapped iter
      ⟨iter.kvec.set iter.iovOffset ⟨iter.kvec[iter.iovOffset].iovBase + len.toNat,
        iter.kvec[iter.iovOffset].iovLen - len⟩, iter.iovOffset, iter.count - len⟩ len
      ⟨iter.kvec[iter.iovOffset].iovBase / pageSize, iter.kvec[iter.iovOffset].iovBase % pageSize,
        len⟩ := by
  have hcut : len.toNat < iter.kvec[iter.iovOffset].iovLen.toNat := Nat.not_le.mp hpart
  have hsub : (iter.kvec[iter.iovOffset].iovLen - len).toNat =
      iter.kvec[iter.iovOffset].iovLen.toNat - len.toNat := by bv_omega
  have hrest : IovIter.rest ⟨iter.kvec.set iter.iovOffset
        ⟨iter.kvec[iter.iovOffset].iovBase + len.toNat, iter.kvec[iter.iovOffset].iovLen - len⟩,
        iter.iovOffset, iter.count - len⟩ =
      iter.kvec[iter.iovOffset].span.drop len.toNat ::
        (iter.kvec.drop (iter.iovOffset + 1)).map Kvec.span := by
    rw [IovIter.rest, List.drop_set, if_neg (Nat.lt_irrefl _), Nat.sub_self,
      List.drop_eq_getElem_cons hindex, List.set_cons_zero, List.map_cons, Kvec.span, hsub]
    rfl
  constructor
  · exact le_rfl
  · dsimp only
    bv_omega
  · have hfront : (⟨iter.kvec[iter.iovOffset].iovBase, len.toNat⟩ : Span) =
        iter.kvec[iter.iovOffset].span.take len.toNat := by
      rw [Span.take, Kvec.span, Nat.min_eq_left hcut.le]
    rw [hrest, IovIter.rest_eq hindex, bytes_cons, bytes_cons, Piece.span_eq, hfront,
      ← List.append_assoc, Span.bytes_take_append_drop]
  · intro room
    have hmissing : len.toNat - iter.kvec[iter.iovOffset].span.size = 0 :=
      Nat.sub_eq_zero_of_le hcut.le
    rw [IovIter.rest_eq hindex, paged_cons hpos, hmissing, BitVec.sub_self, BitVec.toNat_zero]
    have hdone := fun spans => paged_of_done mapped room spans
    exact iff_of_true ⟨hmapped, hdone _⟩ (hdone _)
  · intro room
    rw [offered, offered, IovIter.rest_eq hindex, List.take_succ_cons, total_cons,
      BitVec.sub_self, BitVec.toNat_zero, Nat.zero_min]
    exact Nat.min_eq_left (hcut.le.trans (Nat.le_add_right _ _))

/-- The vector at the index is there; it can be taken when it has a page. -/
theorem Stocked.advance {mapped : ℕ → Bool} {iter : IovIter} {len : BitVec 64}
    (hstocked : Stocked iter len) (hlen : len ≠ 0) :
    (kvecGetFragAdvance mapped iter len = none ∧
        ∀ room, ¬Paged mapped (room + 1) len.toNat iter.rest) ∨
      ∃ iter' piece, kvecGetFragAdvance mapped iter len = some (iter', piece) ∧
        Advanced mapped iter iter' len piece := by
  obtain ⟨hle, hcount⟩ := hstocked
  have hpos := BitVec.toNat_pos_of_ne_zero hlen
  have hindex : iter.iovOffset < iter.kvec.length := by
    by_contra hout
    rw [IovIter.rest, List.drop_of_length_le (Nat.not_lt.mp hout), List.map_nil, total_nil]
      at hcount
    omega
  rw [kvecGetFragAdvance, List.getElem?_eq_getElem hindex, Option.bind_some]
  dsimp only
  split
  · rename_i hunmapped
    refine .inl ⟨rfl, fun room hpaged => ?_⟩
    rw [IovIter.rest_eq hindex, paged_cons hpos] at hpaged
    cases hunmapped.symm.trans hpaged.1
  · rename_i hnot
    have hmapped : mapped iter.kvec[iter.iovOffset].iovBase = true :=
      Bool.eq_true_of_not_eq_false hnot
    split
    · rename_i hwhole
      exact .inr ⟨_, _, rfl, advanced_whole hindex hle hpos hmapped hwhole⟩
    · rename_i hpart
      exact .inr ⟨_, _, rfl, advanced_front hindex hle hpos hmapped hpart⟩

namespace Advanced

variable {mapped : ℕ → Bool} {iter iter' : IovIter} {len : BitVec 64} {piece : Piece}

theorem total_rest (hadvanced : Advanced mapped iter iter' len piece) :
    piece.copied.toNat + total iter'.rest = total iter.rest := by
  have hlength := congrArg List.length hadvanced.bytes
  rw [List.length_append, Span.length_bytes, length_bytes, length_bytes] at hlength
  exact hlength

theorem toNat_sub (hadvanced : Advanced mapped iter iter' len piece) :
    (len - piece.copied).toNat + piece.copied.toNat = len.toNat := by
  have hle := hadvanced.copied_le
  bv_omega

theorem stocked (hadvanced : Advanced mapped iter iter' len piece)
    (hstocked : Stocked iter len) : Stocked iter' (len - piece.copied) := by
  have hcount := hadvanced.count
  have htotal := hadvanced.total_rest
  have hsub := hadvanced.toNat_sub
  obtain ⟨hle, hhold⟩ := hstocked
  constructor <;> omega

/-- The front is taken from what the iterator counts. -/
theorem iter_bytes (hadvanced : Advanced mapped iter iter' len piece) :
    piece.span.bytes ++ iter'.bytes = iter.bytes := by
  have hlength : piece.span.bytes.length = piece.copied.toNat := piece.span.length_bytes
  have hcount := hadvanced.count
  calc
    piece.span.bytes ++ iter'.bytes =
        (piece.span.bytes ++ ByteRange.bytes iter'.rest).take
          (piece.span.bytes.length + iter'.count.toNat) := (List.take_length_add_append _).symm
    _ = iter.bytes := by rw [hadvanced.bytes, hlength, Nat.add_comm, hcount, IovIter.bytes]

end Advanced

/-! ## The loop -/

/-- What the loop did with the vectors that it took. -/
structure Gathered (payer : Payer) (s s' : Sg) (new : List Piece) : Prop where
  frags : s'.skb.frags = s.skb.frags ++ new.map Piece.frag
  held : s'.held = s.held ++ new.map Piece.page
  charges : s'.charges = s.charges ++ new.map fun piece => (payer, piece.copied)
  len : s'.len.toNat + total (new.map Piece.span) = s.len.toNat
  count : s'.iter.count.toNat + total (new.map Piece.span) = s.iter.count.toNat
  skbLen : s'.skb.len = s.skb.len + BitVec.ofNat 32 (total (new.map Piece.span))
  dataLen : s'.skb.dataLen = s.skb.dataLen + BitVec.ofNat 32 (total (new.map Piece.span))
  truesize : s'.skb.truesize = s.skb.truesize + BitVec.ofNat 32 (total (new.map Piece.span))
  bytes : bytes (new.map Piece.span) ++ s'.iter.bytes = s.iter.bytes

theorem gathered_nil (payer : Payer) (s : Sg) : Gathered payer s s [] where
  frags := (List.append_nil _).symm
  held := (List.append_nil _).symm
  charges := (List.append_nil _).symm
  len := Nat.add_zero _
  count := Nat.add_zero _
  skbLen := (BitVec.add_zero _).symm
  dataLen := (BitVec.add_zero _).symm
  truesize := (BitVec.add_zero _).symm
  bytes := rfl

/-- A counter of thirty-two bits that grows twice. -/
theorem add_setWidth_add (counter : BitVec 32) (copied : BitVec 64) (n : ℕ) :
    counter + copied.setWidth 32 + BitVec.ofNat 32 n =
      counter + BitVec.ofNat 32 (copied.toNat + n) := by
  rw [BitVec.ofNat_add, BitVec.ofNat_toNat, BitVec.add_assoc]

/-- A round, and then the rounds after it. -/
theorem Gathered.cons {mapped : ℕ → Bool} {payer : Payer} {s s' : Sg} {iter : IovIter}
    {piece : Piece} {new : List Piece} (hadvanced : Advanced mapped s.iter iter s.len piece)
    (hrest : Gathered payer (s.add payer iter piece) s' new) :
    Gathered payer s s' (piece :: new) := by
  have hsub := hadvanced.toNat_sub
  have hlen := hrest.len
  have hcount := hrest.count
  have hiter := hadvanced.count
  dsimp only [Sg.add] at hlen hcount
  have htotal : total ((piece :: new).map Piece.span) =
      piece.copied.toNat + total (new.map Piece.span) := total_cons _ _
  constructor
  · rw [hrest.frags, Sg.add, List.append_assoc]
    rfl
  · rw [hrest.held, Sg.add, List.append_assoc]
    rfl
  · rw [hrest.charges, Sg.add, List.append_assoc]
    rfl
  · omega
  · omega
  · rw [hrest.skbLen, htotal]
    exact add_setWidth_add _ _ _
  · rw [hrest.dataLen, htotal]
    exact add_setWidth_add _ _ _
  · rw [hrest.truesize, htotal]
    exact add_setWidth_add _ _ _
  · rw [List.map_cons, bytes_cons, List.append_assoc, hrest.bytes]
    exact hadvanced.iter_bytes

/-- The iterator is never empty before `len` bytes are taken. -/
theorem Stocked.len_eq_zero {iter : IovIter} {len : BitVec 64} (hstocked : Stocked iter len)
    (hdone : ¬(len ≠ 0 ∧ iter.count ≠ 0)) : len = 0 := by
  by_contra hlen
  have hpos := BitVec.toNat_pos_of_ne_zero hlen
  have hle := hstocked.len_le
  refine hdone ⟨hlen, fun hcount => ?_⟩
  rw [hcount] at hle
  exact absurd hle (Nat.not_le.mpr hpos)

/-- The loop faults at a vector that has no page. -/
theorem gather_eq_none {mapped : ℕ → Bool} (payer : Payer) (room : ℕ) {s : Sg}
    (hstocked : Stocked s.iter s.len) (hpaged : ¬Paged mapped room s.len.toNat s.iter.rest) :
    gather mapped payer room s = none := by
  induction room generalizing s with
  | zero => exact absurd (fun _ h => absurd h (Nat.not_lt_zero _)) hpaged
  | succ room ih =>
      rw [gather]
      split
      · rename_i hmore
        obtain ⟨hnone, -⟩ | ⟨iter, piece, hadvance, hadvanced⟩ := hstocked.advance hmore.1
        · rw [hnone, Option.bind_eq_bind, Option.bind_none]
        · rw [hadvance, Option.bind_eq_bind, Option.bind_some]
          exact ih (s := s.add payer iter piece) (hadvanced.stocked hstocked)
            ((hadvanced.paged room).not.mp hpaged)
      · rename_i hdone
        rw [hstocked.len_eq_zero hdone] at hpaged
        exact absurd (paged_of_done mapped (room + 1) s.iter.rest) hpaged

/-- The loop takes at most one vector for every fragment that the skb has room for, and stops
before the end of the bytes only when there is no room left. -/
theorem gather_spec {mapped : ℕ → Bool} (payer : Payer) (room : ℕ) {s : Sg}
    (hstocked : Stocked s.iter s.len) (hpaged : Paged mapped room s.len.toNat s.iter.rest) :
    ∃ s' rc new, gather mapped payer room s = some (s', rc) ∧ Gathered payer s s' new ∧
      new.length ≤ room ∧
      total (new.map Piece.span) = offered room s.len.toNat s.iter.rest ∧
      (rc = 0 ∧ s'.len = 0 ∨ rc = -emsgsize ∧ s'.len ≠ 0) := by
  induction room generalizing s with
  | zero =>
      have hoffered : offered 0 s.len.toNat s.iter.rest = 0 := Nat.min_zero _
      rw [gather, hoffered]
      split
      · rename_i hmore
        exact ⟨s, _, [], rfl, gathered_nil payer s, le_rfl, rfl, .inr ⟨rfl, hmore.1⟩⟩
      · rename_i hdone
        exact ⟨s, _, [], rfl, gathered_nil payer s, le_rfl, rfl,
          .inl ⟨rfl, hstocked.len_eq_zero hdone⟩⟩
  | succ room ih =>
      rw [gather]
      split
      · rename_i hmore
        obtain ⟨-, hfault⟩ | ⟨iter, piece, hadvance, hadvanced⟩ := hstocked.advance hmore.1
        · exact absurd hpaged (hfault room)
        obtain ⟨s', rc, new, hgather, hgathered, hroom, htotal, hresult⟩ :=
          ih (s := s.add payer iter piece) (hadvanced.stocked hstocked)
            ((hadvanced.paged room).mp hpaged)
        rw [hadvance, Option.bind_eq_bind, Option.bind_some]
        refine ⟨s', rc, piece :: new, hgather, hgathered.cons hadvanced,
          Nat.succ_le_succ hroom, ?_, hresult⟩
        rw [List.map_cons, total_cons, htotal, hadvanced.offered room]
        rfl
      · rename_i hdone
        have hlen := hstocked.len_eq_zero hdone
        refine ⟨s, _, [], rfl, gathered_nil payer s, Nat.zero_le _, ?_, .inl ⟨rfl, hlen⟩⟩
        rw [hlen]
        exact (Nat.zero_min _).symm

/-! ## The bytes are conserved -/

/-- `new` are the fragments that were added and `added` the bytes that left the iterator. -/
structure Conserves (skb : TxSkb) (iter : IovIter) (len : BitVec 64) (after : Sg) (rc : ℤ)
    (new : List PageFrag) (added : ℕ) : Prop where
  frags : after.skb.frags = skb.frags ++ new
  atMost : after.skb.frags.length ≤ maxSkbFrags
  count : after.iter.count.toNat + added = iter.count.toNat
  bytes : bytes (new.map PageFrag.span) ++ after.iter.bytes = iter.bytes
  total : total (new.map PageFrag.span) = added
  skbLen : after.skb.len.toNat = skb.len.toNat + added
  dataLen : after.skb.dataLen.toNat = skb.dataLen.toNat + added
  truesize : after.skb.truesize.toNat = skb.truesize.toNat + added
  zero_iff : rc = 0 ↔ added = len.toNat
  otherwise : added ≠ len.toNat → rc = -emsgsize

/-- The counters of the skb, which have 32 bits, have room for `added` bytes more. -/
structure HasRoom (skb : TxSkb) (added : ℕ) : Prop where
  len : skb.len.toNat + added < 2 ^ 32
  dataLen : skb.dataLen.toNat + added < 2 ^ 32
  truesize : skb.truesize.toNat + added < 2 ^ 32

theorem toNat_add_ofNat {counter : BitVec 32} {n : ℕ} (hroom : counter.toNat + n < 2 ^ 32) :
    (counter + BitVec.ofNat 32 n).toNat = counter.toNat + n := by
  rw [BitVec.toNat_add, BitVec.toNat_ofNat, Nat.add_mod_mod, Nat.mod_eq_of_lt hroom]

theorem copied_le_total {new : List Piece} {piece : Piece} (hpiece : piece ∈ new) :
    piece.copied.toNat ≤ total (new.map Piece.span) := by
  obtain ⟨front, back, rfl⟩ := List.append_of_mem hpiece
  have hsize : piece.span.size = piece.copied.toNat := rfl
  rw [List.map_append, List.map_cons, total_append, total_cons, hsize]
  omega

theorem map_span_frag {new : List Piece} (hsmall : ∀ piece ∈ new, piece.copied.toNat < 2 ^ 32) :
    (new.map Piece.frag).map PageFrag.span = new.map Piece.span := by
  rw [List.map_map]
  refine List.map_congr_left fun piece hpiece => ?_
  rw [Function.comp, PageFrag.span, Piece.frag, Piece.span, BitVec.toNat_setWidth,
    Nat.mod_eq_of_lt (hsmall piece hpiece)]

/-- Where every vector it comes to has a page and the counters have room, the call ends, no
byte is lost or sent twice, and the result says whether all of them were added. -/
theorem conserves_of_paged {mapped : ℕ → Bool} (payer : Payer) {skb : TxSkb} {iter : IovIter}
    {len : BitVec 64} (hfrags : skb.frags.length ≤ maxSkbFrags) (hstocked : Stocked iter len)
    (hpaged : Paged mapped (maxSkbFrags - skb.frags.length) len.toNat iter.rest)
    (hroom : HasRoom skb (offered (maxSkbFrags - skb.frags.length) len.toNat iter.rest)) :
    ∃ after rc new added, skbZerocopySgFromIter mapped payer skb iter len = some (after, rc) ∧
      Conserves skb iter len after rc new added := by
  obtain ⟨s', rc, new, hgather, hgathered, hlength, htotal, hresult⟩ :=
    gather_spec payer (maxSkbFrags - skb.frags.length) (s := ⟨iter, len, skb, [], []⟩)
      hstocked hpaged
  have houtcome : rc = 0 ∧ total (new.map Piece.span) = len.toNat ∨
      rc = -emsgsize ∧ total (new.map Piece.span) ≠ len.toNat := by
    have hleft : s'.len.toNat + total (new.map Piece.span) = len.toNat := hgathered.len
    obtain ⟨hzero, hall⟩ | ⟨hfull, hsome⟩ := hresult
    · have hnone : s'.len.toNat = 0 := by
        rw [hall]
        rfl
      exact .inl ⟨hzero, by omega⟩
    · have hmore := BitVec.toNat_pos_of_ne_zero hsome
      exact .inr ⟨hfull, by omega⟩
  have hfits : HasRoom skb (total (new.map Piece.span)) := htotal ▸ hroom
  have hspans : (new.map Piece.frag).map PageFrag.span = new.map Piece.span := by
    refine map_span_frag fun piece hpiece => ?_
    have hle := copied_le_total hpiece
    have hlen := hfits.len
    omega
  refine ⟨s', rc, new.map Piece.frag, total (new.map Piece.span), hgather, ?_⟩
  constructor
  · exact hgathered.frags
  · rw [hgathered.frags, List.length_append, List.length_map]
    dsimp only
    omega
  · exact hgathered.count
  · rw [hspans]
    exact hgathered.bytes
  · rw [hspans]
  · rw [hgathered.skbLen, toNat_add_ofNat hfits.len]
  · rw [hgathered.dataLen, toNat_add_ofNat hfits.dataLen]
  · rw [hgathered.truesize, toNat_add_ofNat hfits.truesize]
  · obtain ⟨hzero, hall⟩ | ⟨hfull, hsome⟩ := houtcome
    · exact iff_of_true hzero hall
    · exact iff_of_false (by rw [hfull]; decide) hsome
  · intro hsome
    exact (houtcome.resolve_left fun h => hsome h.2).1

/-- The call conserves the bytes exactly when every vector it comes to has a page and the
counters have room for what they give. -/
theorem gather_conserves_iff (mapped : ℕ → Bool) (payer : Payer) (skb : TxSkb)
    (iter : IovIter) (len : BitVec 64) (hfrags : skb.frags.length ≤ maxSkbFrags)
    (hlen : len.toNat ≤ iter.count.toNat) (hcount : iter.count.toNat ≤ total iter.rest) :
    (∃ after rc new added, skbZerocopySgFromIter mapped payer skb iter len = some (after, rc) ∧
        Conserves skb iter len after rc new added) ↔
      Paged mapped (maxSkbFrags - skb.frags.length) len.toNat iter.rest ∧
        HasRoom skb (offered (maxSkbFrags - skb.frags.length) len.toNat iter.rest) := by
  have hstocked : Stocked iter len := ⟨hlen, hcount⟩
  constructor
  · rintro ⟨after, rc, new, added, hcall, hconserves⟩
    have hpaged : Paged mapped (maxSkbFrags - skb.frags.length) len.toNat iter.rest := by
      by_contra hnot
      have hfault := gather_eq_none payer _ (s := ⟨iter, len, skb, [], []⟩) hstocked hnot
      rw [skbZerocopySgFromIter, hfault] at hcall
      cases hcall
    refine ⟨hpaged, ?_⟩
    -- what the loop took is what left the iterator
    obtain ⟨s', rc', pieces, hgather, hgathered, -, htotal, -⟩ :=
      gather_spec payer (maxSkbFrags - skb.frags.length) (s := ⟨iter, len, skb, [], []⟩)
        hstocked hpaged
    rw [skbZerocopySgFromIter, hgather] at hcall
    cases hcall
    have hadded : added = offered (maxSkbFrags - skb.frags.length) len.toNat iter.rest := by
      have hleft := hconserves.count
      have htaken := hgathered.count
      dsimp only at htaken htotal
      omega
    rw [← hadded]
    constructor
    · rw [← hconserves.skbLen]
      exact BitVec.isLt _
    · rw [← hconserves.dataLen]
      exact BitVec.isLt _
    · rw [← hconserves.truesize]
      exact BitVec.isLt _
  · rintro ⟨hpaged, hroom⟩
    exact conserves_of_paged payer hfrags hstocked hpaged hroom

/-- Addresses from the direct mapping of the memory on. -/
def directMap (address : ℕ) : Bool := decide (0xffff888000000000 ≤ address)

/-- An empty vector that points somewhere and a longer one than there is to send. -/
def twoVectors : IovIter :=
  ⟨[⟨0xffff888000001000, 0⟩, ⟨0xffff888000002388, 10⟩], 0, 8⟩

def emptySkb : TxSkb := ⟨0, 0, 0, []⟩

theorem gather_conserves_iff_twoVectors :
    ∃ after rc new added,
      skbZerocopySgFromIter directMap .sk emptySkb twoVectors 8 = some (after, rc) ∧
        Conserves emptySkb twoVectors 8 after rc new added :=
  (gather_conserves_iff directMap .sk emptySkb twoVectors 8 (by decide) (by decide)
    (by decide)).mpr ⟨by decide, by decide, by decide, by decide⟩

/-- As `twoVectors`, but the empty vector is a null pointer. -/
def nullVector : IovIter := ⟨[⟨0, 0⟩, ⟨0xffff888000002388, 10⟩], 0, 8⟩

/-- `get_page` is called on the page of the null pointer. -/
theorem null_vector_faults :
    (8 : BitVec 64).toNat ≤ nullVector.count.toNat ∧
      nullVector.count.toNat ≤ total nullVector.rest ∧
      skbZerocopySgFromIter directMap .sk emptySkb nullVector 8 = none := by
  decide

end KtcpSplit.ZeroCopy
