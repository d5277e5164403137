import KtcpSplit.Rendezvous.Steps

/-!
# Who owns a direction of a QP

`qp_exists` lets one worker proceed on each direction of a QP, and that worker
takes and drops at most one reference.  The invariant `Owned` says so for every
state of every run that calls `rb_erase` on linked nodes only, because a direction
is never set back to null.
-/

namespace KtcpSplit.Rendezvous

open KtcpSplit.ConnKey
open KtcpSplit.Listner
open KtcpSplit.RbData
open KtcpSplit.SearchTree
open KtcpSplit.Transition

variable {W : Type*}

structure Owned (cfg : Config W) (s : State W) : Prop where
  root_lt : ∀ i q, q ∈ inorder (s.root i) → q < s.next
  fn_dir : ∀ w, (s.thread w).fn.dir = cfg.dir w
  tx_side : ∀ w q, (s.thread w).pc = .connect q ∨ (s.thread w).pc = .forward q →
    cfg.dir w = .tx
  owners_lt : ∀ w q dir, w ∈ s.owners q dir → q < s.next
  owners_dir : ∀ w q dir, w ∈ s.owners q dir → cfg.dir w = dir
  owners_le : ∀ q dir, (s.owners q dir).length ≤ 1
  null_iff : ∀ q dir, q < s.next →
    ((s.heap q).qpDir dir = .null ↔ s.owners q dir = [])
  owner : ∀ w q, (s.thread w).pc.obtained = some q → w ∈ s.owners q (cfg.dir w)
  refCnt : ∀ q, (s.heap q).refCnt = (s.held q .tx).toNat + (s.held q .rx).toNat
  owner_of_held : ∀ q dir, s.held q dir = true → s.owners q dir ≠ []
  held_of_holding : ∀ w q, (s.thread w).pc.holding = some q →
    s.held q (cfg.dir w) = true
  not_held_of_pending : ∀ w q, (s.thread w).pc.pending = some q →
    s.held q (cfg.dir w) = false
  valid : ∀ w q, (s.thread w).pc.qp = some q → (s.thread w).pc ≠ .connect q →
    ((s.heap q).qpDir (cfg.dir w)).isErrOrNull = false
  held_valid : ∀ q dir, s.held q dir = true →
    ((s.heap q).qpDir dir).isErrOrNull = false

variable {cfg : Config W} {s s' : State W} {w w' : W} {act : Act} {q : ℕ}

theorem Owned.init [DecidableEq W] : Owned cfg (rendezvous cfg).init := by
  constructor <;>
    simp [rendezvous, Config.dir, Pc.obtained, Pc.qp, Pc.pending, Pc.holding]

/-! ## The record of a worker -/

theorem Config.pqp_eq_null_iff (fn : Fn) (dir : Dir) :
    (cfg.pqp w fn).qpDir dir = .null ↔ dir ≠ fn.dir := by
  cases fn <;> cases dir <;> simp [Config.pqp, Fn.dir]

theorem Config.pqp_valid {fn : Fn} (hfn : fn.proceed q ≠ .connect q) :
    ((cfg.pqp w fn).qpDir fn.dir).isErrOrNull = false := by
  cases fn <;> simp_all [Config.pqp, Fn.dir, Fn.proceed, SockPtr.isErrOrNull]

theorem Fn.proceed_tx {fn : Fn} {q' : ℕ}
    (hpc : fn.proceed q = .connect q' ∨ fn.proceed q = .forward q') :
    fn.dir = .tx := by
  cases fn <;> simp_all [Fn.proceed, Fn.dir]

theorem Fn.qp_proceed {fn : Fn} {q' : ℕ} :
    (fn.proceed q).qp = some q' ↔ q = q' := by
  simp [Pc.qp]

theorem mem_of_addPqp_duplicate {fn : Fn} {cpu : BitVec 32}
    (hadd : addPqp cfg s w fn cpu = .duplicate q) :
    q ∈ inorder (s.root (connectionsRoot cpu (cfg.pqp w fn))) :=
  (addRbData_duplicate_sound hadd).1

@[simp]
theorem Dir.peer_ne (dir : Dir) : dir.peer ≠ dir := by
  cases dir <;> exact Dir.noConfusion

@[simp]
theorem Dir.peer_peer (dir : Dir) : dir.peer.peer = dir := by
  cases dir <;> rfl

theorem Dir.eq_peer_of_ne {dir dir' : Dir} (hne : dir' ≠ dir) : dir' = dir.peer := by
  cases dir <;> cases dir' <;> first | rfl | exact absurd rfl hne

theorem Owned.owner_of_qp (howned : Owned cfg s)
    (hpc : (s.thread w).pc.qp = some q) : w ∈ s.owners q (cfg.dir w) :=
  howned.owner w q (Pc.obtained_of_qp hpc)

/-- A direction has one owner at most. -/
theorem Owned.eq_of_owner (howned : Owned cfg s) {dir : Dir} (hw : w ∈ s.owners q dir)
    (hw' : w' ∈ s.owners q dir) : w' = w := by
  have hle := howned.owners_le q dir
  match hlist : s.owners q dir, hle with
  | [], _ => simp [hlist] at hw
  | [owner], _ => simp_all

/-- Two workers on one QP stand on different sides of it. -/
theorem Owned.eq_of_qp (howned : Owned cfg s) (hpc : (s.thread w).pc.qp = some q)
    (hpc' : (s.thread w').pc.qp = some q) (hdir : cfg.dir w' = cfg.dir w) :
    w' = w :=
  howned.eq_of_owner (howned.owner_of_qp hpc) (hdir ▸ howned.owner_of_qp hpc')

theorem Owned.dir_eq_peer (howned : Owned cfg s) (hpc : (s.thread w).pc.qp = some q)
    (hpc' : (s.thread w').pc.qp = some q) (hne : w' ≠ w) :
    cfg.dir w' = (cfg.dir w).peer :=
  Dir.eq_peer_of_ne fun hdir => hne (howned.eq_of_qp hpc hpc' hdir)

/-- A third worker on a QP would share its side with one of two others. -/
theorem Owned.no_third (howned : Owned cfg s) {w₁ w₂ : W}
    (hpc : (s.thread w).pc.qp = some q) (h₁ : (s.thread w₁).pc.qp = some q)
    (h₂ : (s.thread w₂).pc.qp = some q) (hne : w₂ ≠ w₁) : w = w₁ ∨ w = w₂ := by
  by_cases hw : w = w₁
  · exact .inl hw
  · refine .inr (howned.eq_of_qp h₂ hpc ?_)
    rw [howned.dir_eq_peer h₁ hpc hw, howned.dir_eq_peer h₁ h₂ hne]

/-- A worker that is about to take its reference finds at most one. -/
theorem Owned.refCnt_of_pending (howned : Owned cfg s)
    (hpc : (s.thread w).pc.pending = some q) :
    (s.heap q).refCnt = (s.held q (cfg.dir w).peer).toNat := by
  have hheld := howned.not_held_of_pending w q hpc
  rw [howned.refCnt q]
  cases hdir : cfg.dir w <;> simp_all [Dir.peer]

/-- A worker that holds the only reference is the only holder. -/
theorem Owned.not_holding_of_refCnt (howned : Owned cfg s)
    (hpc : (s.thread w).pc.holding = some q) (hone : (s.heap q).refCnt = 1)
    (hne : w' ≠ w) : (s.thread w').pc.holding ≠ some q := by
  intro hpc'
  have hheld := howned.held_of_holding w q hpc
  have hheld' := howned.held_of_holding w' q hpc'
  rw [howned.dir_eq_peer (Pc.qp_eq_some_iff.mpr (.inr hpc))
    (Pc.qp_eq_some_iff.mpr (.inr hpc')) hne] at hheld'
  have hcount := howned.refCnt q
  cases hdir : cfg.dir w <;> simp_all [Dir.peer]

/-- The second reference is taken while the peer holds the first. -/
theorem Owned.peer_held (howned : Owned cfg s)
    (hpc : (s.thread w).pc.pending = some q) (hone : (s.heap q).refCnt = 1) :
    s.held q (cfg.dir w).peer = true := by
  rw [howned.refCnt_of_pending hpc] at hone
  cases hheld : s.held q (cfg.dir w).peer <;> simp_all

theorem Owned.lt_of_qp (howned : Owned cfg s) (hpc : (s.thread w).pc.qp = some q) :
    q < s.next :=
  howned.owners_lt _ _ _ (howned.owner_of_qp hpc)

/-! ## Steps -/

variable [DecidableEq W]

theorem Owned.join (howned : Owned cfg s) {fn : Fn} {pc : Pc} {cpu : BitVec 32}
    (hthread : s.thread w = ⟨fn, pc⟩) (hadd : addPqp cfg s w fn cpu = .duplicate q)
    (hdir : (s.heap q).qpDir fn.dir = .null) :
    Owned cfg ((s.join w q fn.dir (cfg.pqp w fn)).setThread w
      ⟨fn, fn.proceed q⟩) := by
  have hlt := howned.root_lt _ _ (mem_of_addPqp_duplicate hadd)
  have hfree := (howned.null_iff q fn.dir hlt).mp hdir
  have hfn : fn.dir = cfg.dir w := by simpa [hthread] using howned.fn_dir w
  have hpqp := (cfg.pqp_eq_null_iff (w := w) fn fn.dir).not.mpr (by simp)
  have hheld : s.held q fn.dir = false := by
    by_contra hheld
    exact howned.owner_of_held _ _ (by simpa using hheld) hfree
  refine { howned with
    fn_dir := ?fn_dir, tx_side := ?tx_side, owners_lt := ?lt, owners_dir := ?dir
    owners_le := ?le, null_iff := ?null, owner := ?owner, refCnt := ?refCnt
    owner_of_held := ?ownerHeld, held_of_holding := ?held
    not_held_of_pending := ?notHeld, valid := ?valid, held_valid := ?heldValid }
  all_goals simp only [State.setThread, State.join, State.store, State.setQp,
    Function.update_apply, setAt_apply]
  case fn_dir => grind [howned.fn_dir]
  case tx_side => grind [howned.tx_side, Fn.proceed_tx]
  case lt =>
    intro w' q' dir hmem
    split at hmem
    · grind
    · exact howned.owners_lt _ _ _ hmem
  case dir =>
    intro w' q' dir hmem
    split at hmem
    · grind
    · exact howned.owners_dir _ _ _ hmem
  case le =>
    intro q' dir
    split
    · simp [hfree]
    · exact howned.owners_le q' dir
  case null =>
    intro q' dir hq'
    have hold := howned.null_iff q' dir hq'
    by_cases hq : q' = q <;> by_cases hdir' : dir = fn.dir <;>
      simp_all
  case owner =>
    intro w' q' hpc
    have hold := howned.owner w' q'
    grind [obtained_proceed]
  case refCnt =>
    intro q'
    have hold := howned.refCnt q'
    grind
  case ownerHeld =>
    intro q' dir hheld'
    have hold := howned.owner_of_held q' dir hheld'
    grind
  case held => grind [howned.held_of_holding, holding_proceed]
  case notHeld => grind [howned.not_held_of_pending, pending_proceed]
  case valid =>
    intro w' q' hpc hconnect
    by_cases hw : w' = w
    · subst hw
      rw [if_pos rfl] at hpc hconnect
      obtain rfl := Fn.qp_proceed.mp hpc
      simpa [← hfn] using Config.pqp_valid hconnect
    · rw [if_neg hw] at hpc hconnect
      have hold := howned.valid w' q' hpc hconnect
      by_cases hq : q' = q
      · subst hq
        have hne : cfg.dir w' ≠ fn.dir := by
          intro heq
          simpa [heq, hfree] using howned.owner_of_qp hpc
        simpa [hne] using hold
      · simpa [hq] using hold
  case heldValid =>
    intro q' dir hheld'
    have hold := howned.held_valid q' dir hheld'
    by_cases hq : q' = q <;> by_cases hdir' : dir = fn.dir <;> simp_all

omit [DecidableEq W] in
/-- An address that was not given out has no owners. -/
theorem Owned.owners_next (howned : Owned cfg s) (dir : Dir) : s.owners s.next dir = [] := by
  rw [List.eq_nil_iff_forall_not_mem]
  intro w' hw'
  exact absurd (howned.owners_lt _ _ _ hw') (lt_irrefl _)

omit [DecidableEq W] in
/-- The worker that links a QP is its only owner. -/
theorem Owned.owner_of_link (howned : Owned cfg s) {w' : W} {q' : ℕ} {dir dir' : Dir}
    (howner : w' ∈ setAt s.owners s.next dir (w :: s.owners s.next dir) q' dir') :
    q' = s.next ∧ w' = w ∨ q' ≠ s.next ∧ w' ∈ s.owners q' dir' := by
  simp only [setAt_apply, howned.owners_next] at howner
  by_cases hnext : q' = s.next
  · subst hnext
    simp only [howned.owners_next, true_and] at howner
    split at howner
    · exact .inl ⟨rfl, List.mem_singleton.mp howner⟩
    · exact absurd howner List.not_mem_nil
  · rw [if_neg fun h => hnext h.1] at howner
    exact .inr ⟨hnext, howner⟩

theorem Owned.link (howned : Owned cfg s) {fn : Fn} {pc : Pc} {cpu : BitVec 32}
    {root linked : BinaryTree ℕ} (hthread : s.thread w = ⟨fn, pc⟩)
    (hadd : addPqp cfg s w fn cpu = .linked linked)
    (hcolor : InsertColor linked root) :
    Owned cfg ((s.link w fn.dir (cfg.pqp w fn) cpu root).setThread w
      ⟨fn, fn.proceed s.next⟩) := by
  have hmem := mem_of_addRbData_linked hadd hcolor
  have hfn : fn.dir = cfg.dir w := by simpa [hthread] using howned.fn_dir w
  have hfresh : ∀ dir, s.owners s.next dir = [] := howned.owners_next
  have hheld : ∀ dir, s.held s.next dir = false := by
    intro dir
    by_contra hheld
    exact howned.owner_of_held _ _ (by simpa using hheld) (hfresh dir)
  have hqp : ∀ w' q', (s.thread w').pc.qp = some q' → q' < s.next := by
    intro w' q' hpc
    exact howned.owners_lt _ _ _ (howned.owner_of_qp hpc)
  refine { howned with
    root_lt := ?root, fn_dir := ?fn_dir, tx_side := ?tx_side, owners_lt := ?lt
    owners_dir := ?dir, owners_le := ?le, null_iff := ?null, owner := ?owner
    refCnt := ?refCnt, owner_of_held := ?ownerHeld, held_of_holding := ?held
    not_held_of_pending := ?notHeld, valid := ?valid, held_valid := ?heldValid }
  all_goals simp only [State.setThread, State.link, State.setQp,
    Function.update_apply, setAt_apply]
  case root =>
    intro i q' hq'
    split at hq'
    · rcases (hmem q').mp hq' with rfl | hold
      · exact Nat.lt_succ_self _
      · exact Nat.lt_succ_of_lt (howned.root_lt _ _ hold)
    · exact Nat.lt_succ_of_lt (howned.root_lt _ _ hq')
  case fn_dir => grind [howned.fn_dir]
  case tx_side => grind [howned.tx_side, Fn.proceed_tx]
  case lt =>
    intro w' q' dir hw'
    split at hw'
    · grind
    · exact Nat.lt_succ_of_lt (howned.owners_lt _ _ _ hw')
  case dir =>
    intro w' q' dir hw'
    split at hw'
    · grind
    · exact howned.owners_dir _ _ _ hw'
  case le =>
    intro q' dir
    split
    · simp [hfresh]
    · exact howned.owners_le q' dir
  case null =>
    intro q' dir hq'
    by_cases hnext : q' = s.next
    · subst hnext
      have hnull := cfg.pqp_eq_null_iff (w := w) fn dir
      by_cases hdir : dir = fn.dir <;> simp_all
    · simpa [hnext] using howned.null_iff q' dir (by omega)
  case owner =>
    intro w' q' hpc
    have hold := howned.owner w' q'
    grind [obtained_proceed]
  case refCnt =>
    intro q'
    have hold := howned.refCnt q'
    have hzero : (cfg.pqp w fn).refCnt = 0 := rfl
    grind
  case ownerHeld =>
    intro q' dir hheld'
    have hold := howned.owner_of_held q' dir hheld'
    grind
  case held => grind [howned.held_of_holding, holding_proceed]
  case notHeld => grind [howned.not_held_of_pending, pending_proceed]
  case valid =>
    intro w' q' hpc hconnect
    by_cases hw : w' = w
    · subst hw
      rw [if_pos rfl] at hpc hconnect
      obtain rfl := Fn.qp_proceed.mp hpc
      simpa [← hfn] using Config.pqp_valid hconnect
    · rw [if_neg hw] at hpc hconnect
      have hne : q' ≠ s.next := (hqp w' q' hpc).ne
      simpa [hne] using howned.valid w' q' hpc hconnect
  case heldValid =>
    intro q' dir hheld'
    have hne : q' ≠ s.next := by
      rintro rfl
      simp [hheld dir] at hheld'
    simpa [hne] using howned.held_valid q' dir hheld'

theorem Owned.store (howned : Owned cfg s) {fn : Fn}
    (hthread : s.thread w = ⟨fn, .connect q⟩) :
    Owned cfg ((s.store q .tx (.sock w fn)).setThread w ⟨fn, .check q⟩) := by
  have hpc : (s.thread w).pc = .connect q := by rw [hthread]
  have hfn : fn.dir = cfg.dir w := by simpa [hthread] using howned.fn_dir w
  have htx := howned.tx_side w q (.inl hpc)
  have hpending : (s.thread w).pc.pending = some q := by rw [hpc]; rfl
  have howner := howned.owner_of_qp (Pc.qp_eq_some_iff.mpr (.inl hpending))
  refine { howned with
    fn_dir := ?fn_dir, tx_side := ?tx_side, null_iff := ?null, owner := ?owner
    refCnt := ?refCnt, held_of_holding := ?held, not_held_of_pending := ?notHeld
    valid := ?valid, held_valid := ?heldValid }
  all_goals simp only [State.setThread, State.store, State.setQp,
    Function.update_apply]
  case fn_dir => grind [howned.fn_dir]
  case tx_side => grind [howned.tx_side]
  case null =>
    intro q' dir hq'
    have hold := howned.null_iff q' dir hq'
    by_cases hq : q' = q <;> by_cases hdir : dir = .tx <;> simp_all
    exact List.ne_nil_of_mem howner
  case owner =>
    intro w' q' hpc'
    have hold := howned.owner w' q'
    by_cases hw : w' = w
    · subst hw
      rw [if_pos rfl] at hpc'
      cases hpc'
      exact howner
    · exact hold (by simpa [hw] using hpc')
  case refCnt =>
    intro q'
    have hold := howned.refCnt q'
    grind
  case held =>
    intro w' q' hpc'
    have hold := howned.held_of_holding w' q'
    grind [Pc.holding]
  case notHeld =>
    intro w' q' hpc'
    have hold := howned.not_held_of_pending w' q'
    grind [Pc.pending]
  case valid =>
    intro w' q' hpc' hconnect
    by_cases hw : w' = w
    · subst hw
      rw [if_pos rfl] at hpc'
      cases hpc'
      simp [htx, SockPtr.isErrOrNull]
    · rw [if_neg hw] at hpc' hconnect
      have hold := howned.valid w' q' hpc' hconnect
      by_cases hq : q' = q <;> by_cases hdir : cfg.dir w' = .tx <;>
        simp_all [SockPtr.isErrOrNull]
  case heldValid =>
    intro q' dir hheld'
    have hold := howned.held_valid q' dir hheld'
    by_cases hq : q' = q <;> by_cases hdir : dir = .tx <;>
      simp_all [SockPtr.isErrOrNull]

theorem Owned.get (howned : Owned cfg s) {fn : Fn} {waits : Bool} {pc : Pc}
    (hthread : s.thread w = ⟨fn, .get q waits⟩)
    (hpc : pc.holding = some q) (hpending : pc.pending = none) :
    Owned cfg ((s.getQp q fn.dir).setThread w ⟨fn, pc⟩) := by
  have hget : (s.thread w).pc.pending = some q := by rw [hthread]; rfl
  have hqp := Pc.qp_eq_some_iff.mpr (.inl hget)
  have hfn : fn.dir = cfg.dir w := by simpa [hthread] using howned.fn_dir w
  have hheld := howned.not_held_of_pending w q hget
  have howner := howned.owner_of_qp hqp
  have hvalid := howned.valid w q hqp (by rw [hthread]; exact Pc.noConfusion)
  refine { howned with
    fn_dir := ?fn_dir, tx_side := ?tx_side, null_iff := ?null, owner := ?owner
    refCnt := ?refCnt, owner_of_held := ?ownerHeld, held_of_holding := ?held
    not_held_of_pending := ?notHeld, valid := ?valid, held_valid := ?heldValid }
  all_goals simp only [State.setThread, State.getQp, State.setHeld, State.setQp,
    Function.update_apply, setAt_apply]
  case fn_dir => grind [howned.fn_dir]
  case tx_side => grind [howned.tx_side, Pc.pending]
  case null =>
    intro q' dir hq'
    have hold := howned.null_iff q' dir hq'
    grind
  case owner =>
    intro w' q' hpc'
    have hold := howned.owner w' q'
    grind [Pc.obtained_eq_some_iff, Pc.qp_eq_some_iff, Pc.holding]
  case refCnt =>
    intro q'
    have hold := howned.refCnt q'
    cases hdir : fn.dir <;> grind
  case ownerHeld =>
    intro q' dir hheld'
    have hold := howned.owner_of_held q' dir
    grind
  case held =>
    intro w' q' hpc'
    have hold := howned.held_of_holding w' q'
    grind
  case notHeld =>
    intro w' q' hpc'
    have hold := howned.not_held_of_pending w' q'
    have hother : (s.thread w').pc.qp = some q → cfg.dir w' = cfg.dir w → w' = w :=
      howned.eq_of_qp hqp
    grind [Pc.qp_eq_some_iff]
  case valid =>
    intro w' q' hpc' hconnect
    have hold := howned.valid w' q'
    grind [Pc.qp_eq_some_iff]
  case heldValid =>
    intro q' dir hheld'
    have hold := howned.held_valid q' dir
    grind

theorem Owned.put (howned : Owned cfg s) {fn : Fn} {pc : Pc}
    (hthread : s.thread w = ⟨fn, pc⟩) (hpc : putAt pc act = some q) :
    Owned cfg ((s.putQp q fn.dir).setThread w ⟨fn, .done⟩) := by
  have hholding : (s.thread w).pc.holding = some q := by
    rw [hthread]
    exact holding_of_putAt hpc
  have hqp := Pc.qp_eq_some_iff.mpr (.inr hholding)
  have hfn : fn.dir = cfg.dir w := by simpa [hthread] using howned.fn_dir w
  have hheld := howned.held_of_holding w q hholding
  refine { howned with
    fn_dir := ?fn_dir, tx_side := ?tx_side, null_iff := ?null, owner := ?owner
    refCnt := ?refCnt, owner_of_held := ?ownerHeld, held_of_holding := ?held
    not_held_of_pending := ?notHeld, valid := ?valid, held_valid := ?heldValid }
  all_goals simp only [State.setThread, State.putQp, State.setHeld, State.setQp,
    Function.update_apply, setAt_apply]
  case fn_dir => grind [howned.fn_dir]
  case tx_side => grind [howned.tx_side]
  case null =>
    intro q' dir hq'
    have hold := howned.null_iff q' dir hq'
    grind
  case owner =>
    intro w' q' hpc'
    have hold := howned.owner w' q'
    grind [Pc.obtained, Pc.qp, Pc.pending, Pc.holding]
  case refCnt =>
    intro q'
    have hold := howned.refCnt q'
    cases hdir : fn.dir <;> grind
  case ownerHeld =>
    intro q' dir hheld'
    have hold := howned.owner_of_held q' dir
    grind
  case held =>
    intro w' q' hpc'
    have hold := howned.held_of_holding w' q'
    have hother : (s.thread w').pc.qp = some q → cfg.dir w' = cfg.dir w → w' = w :=
      howned.eq_of_qp hqp
    grind [Pc.qp_eq_some_iff, Pc.holding]
  case notHeld =>
    intro w' q' hpc'
    have hold := howned.not_held_of_pending w' q'
    grind [Pc.pending]
  case valid =>
    intro w' q' hpc' hconnect
    have hold := howned.valid w' q'
    grind [Pc.qp, Pc.pending, Pc.holding]
  case heldValid =>
    intro q' dir hheld'
    have hold := howned.held_valid q' dir
    grind

theorem Owned.erase (howned : Owned cfg s) {fn : Fn} {pc after : Pc}
    {i : CbnListner × BitVec 32} {root : BinaryTree ℕ}
    (hthread : s.thread w = ⟨fn, pc⟩) (hpc : EraseAt pc q after)
    (herase : DeTree q (s.root i) root) :
    Owned cfg ((s.unlink q i root).setThread w ⟨fn, after⟩) := by
  have hfn : fn.dir = cfg.dir w := by simpa [hthread] using howned.fn_dir w
  obtain ⟨hbefore, hafter, hpending⟩ := hpc.holding
  have hholding : (s.thread w).pc.holding = some q := by rw [hthread]; exact hbefore
  have hconnect : (s.thread w).pc ≠ .connect q := by
    rintro heq
    rw [heq] at hholding
    cases hholding
  refine { howned with
    root_lt := ?root, fn_dir := ?fn_dir, tx_side := ?tx_side, owner := ?owner
    held_of_holding := ?held, not_held_of_pending := ?notHeld, valid := ?valid }
  all_goals simp only [State.setThread, State.unlink, Function.update_apply]
  case root =>
    intro i' q' hq'
    split at hq'
    · rw [herase.2] at hq'
      exact howned.root_lt _ _ (List.mem_of_mem_erase hq')
    · exact howned.root_lt _ _ hq'
  case fn_dir => grind [howned.fn_dir]
  case tx_side => grind [howned.tx_side, Pc.pending]
  case owner =>
    intro w' q' hpc'
    have hold := howned.owner w' q'
    grind [Pc.obtained_eq_some_iff, Pc.qp_eq_some_iff, Pc.holding]
  case held =>
    intro w' q' hpc'
    have hold := howned.held_of_holding w' q'
    grind
  case notHeld =>
    intro w' q' hpc'
    have hold := howned.not_held_of_pending w' q'
    grind
  case valid =>
    intro w' q' hpc' hconnect'
    have hold := howned.valid w' q'
    grind [Pc.qp_eq_some_iff]

theorem Owned.move {thread : Thread} (howned : Owned cfg s)
    (hmove : Move cfg s w (s.thread w) act thread) :
    Owned cfg (s.setThread w thread) := by
  have hdir : thread.fn.dir = (s.thread w).fn.dir := by
    have htx := howned.tx_side w
    have hfn := howned.fn_dir w
    generalize hbefore : s.thread w = before at *
    cases hmove <;> first | rfl | skip
    rename_i fn q
    exact ((htx q (.inr rfl)) ▸ hfn).symm
  have hobtained := fun q => hmove.obtained (q := q)
  have hqp := fun q => hmove.qp (q := q)
  have hpending := fun q => hmove.pending (q := q)
  have hholding := fun q => hmove.holding (q := q)
  have hclaiming := fun q => hmove.not_claiming (q := q)
  have hconnect := fun q => hmove.before_ne_connect (q := q)
  refine { howned with
    fn_dir := ?fn_dir, tx_side := ?tx_side, owner := ?owner
    held_of_holding := ?held, not_held_of_pending := ?notHeld, valid := ?valid }
  all_goals simp only [State.setThread, Function.update_apply]
  case fn_dir => grind [howned.fn_dir]
  case tx_side => grind [howned.tx_side]
  case owner => grind [howned.owner]
  case held => grind [howned.held_of_holding]
  case notHeld => grind [howned.not_held_of_pending]
  case valid => grind [howned.valid]

theorem Owned.step (howned : Owned cfg s) (hstep : Step cfg s w act s') :
    Owned cfg s' := by
  cases hstep with
  | move hmove => exact howned.move hmove
  | join hthread _ hadd hdir => exact howned.join hthread hadd hdir
  | link hthread _ hadd hcolor => exact howned.link hthread hadd hcolor
  | store hthread => exact howned.store hthread
  | get hthread =>
      apply howned.get hthread <;> split
      · rfl
      · exact holding_afterGet _ _
      · rfl
      · exact pending_afterGet _ _
  | erase hthread hpc herase => exact howned.erase hthread hpc herase
  | put hthread hpc => exact howned.put hthread hpc

/-- The invariant holds along every run that keeps the trees. -/
theorem owned_of_reachable (hreach : (rendezvous cfg).ReachableUnder EraseLinked s) :
    Owned cfg s :=
  hreach.invariant (P := Owned cfg) Owned.init
    fun _ _ _ _ howned hguard hnext => howned.step (step_of_next hguard hnext)

end KtcpSplit.Rendezvous
