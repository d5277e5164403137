import KtcpSplit.Duplex.Forwarding
import KtcpSplit.Duplex.Handshake

/-!
# The record is decoded as it was encoded

As long as the record is sent and received in one piece, what follows it in the
stream is the payload.  A split that is not in one piece shifts the payload or
leaves a part of the stack frame in the record.
-/

namespace KtcpSplit.Handshake

open KtcpSplit.ConnKey
open KtcpSplit.HalfDuplex (Frame Outcome halfDuplex Unbroken)
open KtcpSplit.Transition

/-! ## Encoding and decoding -/

@[simp]
theorem length_bytes (addresses : Addresses) : addresses.bytes.length = addressesSize := rfl

@[simp]
theorem ofBytes_bytes (addresses : Addresses) : .ofBytes addresses.bytes = addresses := by
  simp [Addresses.ofBytes, Addresses.bytes, sockaddrAt, be16At, be32At, SockaddrIn.bytes,
    Be16.bytes, Be32.bytes]

/-- A record that is received whole replaces the memory. -/
theorem receive_bytes (memory record : Addresses) : memory.receive record.bytes = record := by
  have hnone : memory.bytes.drop record.bytes.length = [] :=
    List.drop_eq_nil_of_le (Nat.le_refl addressesSize)
  rw [Addresses.receive, hnone, List.append_nil, ofBytes_bytes]

/-- What the destination, the source and the mark are read from. -/
def Addresses.Names (record addresses : Addresses) : Prop :=
  addresses.dest.sinPort = record.dest.sinPort ∧
    addresses.dest.sinAddr = record.dest.sinAddr ∧
    addresses.src.sinAddr = record.src.sinAddr ∧ addresses.mark = record.mark

/-- The record is read from a stream into which `sent` bytes of it went before the
payload. -/
def SplitExact (sent received : ℕ) : Prop :=
  ∀ (memory record : Addresses) (payload : List Byte), received ≤ sent + payload.length →
    record.Names (memory.receive ((record.bytes.take sent ++ payload).take received)) ∧
      (record.bytes.take sent ++ payload).drop received = payload

theorem splitExact_whole : SplitExact addressesSize addressesSize := by
  intro memory record payload _
  have hwhole : record.bytes.take addressesSize = record.bytes :=
    List.take_of_length_le (Nat.le_refl addressesSize)
  have htake : (record.bytes ++ payload).take addressesSize = record.bytes :=
    List.take_left' rfl
  rw [hwhole, htake, receive_bytes]
  exact ⟨⟨rfl, rfl, rfl, rfl⟩, List.drop_left' rfl⟩

/-- The last byte of the mark is received last. -/
theorem mark_receive (memory : Addresses) {bytes : List Byte}
    (hlength : bytes.length < addressesSize) :
    (memory.receive bytes).mark.b3 = memory.mark.b3 := by
  have hle : bytes.length ≤ 39 := Nat.le_of_lt_succ hlength
  calc
    (memory.receive bytes).mark.b3 = (bytes ++ memory.bytes.drop bytes.length).getD 39 0 :=
      rfl
    _ = memory.bytes.getD 39 0 := by
      rw [List.getD_eq_getElem?_getD, List.getD_eq_getElem?_getD,
        List.getElem?_append_right hle, List.getElem?_drop, Nat.add_sub_cancel' hle]
    _ = memory.mark.b3 := rfl

def zeroAddr : SockaddrIn :=
  ⟨⟨0, 0⟩, ⟨0, 0⟩, ⟨0, 0, 0, 0⟩, ⟨⟨0, 0, 0, 0⟩, ⟨0, 0, 0, 0⟩⟩⟩

def markedBy (last : Byte) : Addresses :=
  ⟨zeroAddr, zeroAddr, ⟨0, 0, 0, 0⟩, ⟨0, 0, 0, last⟩⟩

/-- A stream decodes every record before every payload only if the record was sent
and received in one piece. -/
theorem splitExact_iff {sent received : ℕ} (hsent : sent ≤ addressesSize)
    (hreceived : received ≤ addressesSize) :
    SplitExact sent received ↔ sent = addressesSize ∧ received = addressesSize := by
  constructor
  · intro hexact
    obtain ⟨hnames, hrest⟩ := hexact (markedBy 1) (markedBy 0)
      (List.replicate addressesSize 0) (by rw [List.length_replicate]; omega)
    have hlength : ((markedBy 0).bytes.take sent).length = sent := by
      rw [List.length_take, length_bytes, Nat.min_eq_left hsent]
    have hsame : sent = received := by
      have hlengths := congrArg List.length hrest
      rw [List.length_drop, List.length_append, hlength, List.length_replicate] at hlengths
      omega
    subst hsame
    have hwhole : sent = addressesSize := by
      by_contra hne
      have hlt : sent < addressesSize := Nat.lt_of_le_of_ne hsent hne
      have hmark := congrArg Be32.b3 hnames.2.2.2
      rw [List.take_left' hlength, mark_receive _ (by rw [hlength]; exact hlt)] at hmark
      exact absurd hmark (by decide)
    exact ⟨hwhole, hwhole⟩
  · rintro ⟨rfl, rfl⟩
    exact splitExact_whole

/-! ## Runs -/

/-- The record goes in one piece, and neither end goes on after a short write. -/
def Whole (s : State) : Act → Prop
  | .forward accepted => accepted = addressesSize
  | .nextHop count => count = addressesSize
  | .client outcome => Unbroken s.client outcome
  | .server outcome => Unbroken s.server outcome
  | _ => True

/-- What the socket of the connection is told when it follows the record. -/
def Config.tx (cfg : Config) : Tx where
  mark := some cfg.record.mark
  bound := if cfg.ipTransparent then some cfg.record.src.forBind else none
  connected := some cfg.record.dest.forConnect

/-- The part of the stream that was written. -/
def written (cfg : Config) (s : State) : List Byte :=
  if s.sender = .halfDuplex then cfg.record.bytes ++ s.client.accepted.map Prod.fst else []

/-- The record, the stack frame and the socket at every call. -/
def SetUp (cfg : Config) (s : State) : PendingPc → Prop
  | .sockCreate => s.stream = written cfg s ∧ s.tx = ⟨none, none, none⟩
  | .waitForNextHop => s.stream = written cfg s ∧ s.tx = ⟨none, none, none⟩
  | .setNodelay => s.addresses = cfg.record ∧ s.tx = ⟨none, none, none⟩
  | .setMark => s.addresses = cfg.record ∧ s.tx = ⟨none, none, none⟩
  | .setTransparent => s.addresses = cfg.record ∧ cfg.ipTransparent = true ∧
      s.tx = ⟨some cfg.record.mark, none, none⟩
  | .bind => s.addresses = cfg.record ∧ cfg.ipTransparent = true ∧
      s.tx = ⟨some cfg.record.mark, none, none⟩
  | .connect => s.addresses.dest = cfg.record.dest ∧
      s.tx = { cfg.tx with connected := none }
  | .halfDuplex => s.tx = cfg.tx
  | .createFail => s.tx.connected = none

/-- The record has been received. -/
def PendingPc.decoded : PendingPc → Bool
  | .sockCreate => false
  | .waitForNextHop => false
  | .createFail => false
  | _ => true

structure Inv (cfg : Config) (s : State) : Prop where
  client : HalfDuplex.Inv s.client
  server : HalfDuplex.Inv s.server
  clientIdle : s.sender ≠ .halfDuplex → s.client.accepted = []
  serverIdle : s.pending ≠ .halfDuplex → s.server.received = []
  sent : s.pending.decoded = true → s.sender = .halfDuplex
  rest : s.pending.decoded = true →
    s.client.accepted.map Prod.fst = s.server.received ++ s.stream
  setUp : SetUp cfg s s.pending

variable {cfg : Config} {s s' : State}

/-- Steps of the sender change only what was written. -/
theorem SetUp.sender {pc : PendingPc} (hsetUp : SetUp cfg s pc)
    (haddresses : s'.addresses = s.addresses) (htx : s'.tx = s.tx)
    (hstream : s.stream = written cfg s → s'.stream = written cfg s') :
    SetUp cfg s' pc := by
  cases pc <;> simp only [SetUp, haddresses, htx] at hsetUp ⊢
  case sockCreate => exact ⟨hstream hsetUp.1, hsetUp.2⟩
  case waitForNextHop => exact ⟨hstream hsetUp.1, hsetUp.2⟩
  all_goals exact hsetUp

theorem Inv.forward (hinv : Inv cfg s) (hsender : s.sender = .forwardConnInfo) :
    Inv cfg { s with
      sender := .halfDuplex
      stream := s.stream ++ cfg.record.bytes.take addressesSize } where
  client := hinv.client
  server := hinv.server
  clientIdle := fun hne => absurd rfl hne
  serverIdle := hinv.serverIdle
  sent := fun _ => rfl
  rest := by
    intro hdecoded
    have hsent := hinv.sent hdecoded
    rw [hsender] at hsent
    cases hsent
  setUp := by
    refine hinv.setUp.sender rfl rfl fun hstream => ?_
    have hidle : s.client.accepted = [] := hinv.clientIdle (by rw [hsender]; decide)
    rw [written, if_neg (by rw [hsender]; decide)] at hstream
    simp only [written, if_true, hstream, hidle, List.map_nil, List.append_nil,
      List.nil_append]
    exact List.take_of_length_le (Nat.le_refl addressesSize)

theorem Inv.fallBack (hinv : Inv cfg s) (hsender : s.sender = .forwardConnInfo) :
    Inv cfg { s with sender := .fallBack } where
  client := hinv.client
  server := hinv.server
  clientIdle := fun _ => hinv.clientIdle (by rw [hsender]; decide)
  serverIdle := hinv.serverIdle
  sent := by
    intro hdecoded
    have hsent := hinv.sent hdecoded
    rw [hsender] at hsent
    cases hsent
  rest := hinv.rest
  setUp := by
    refine hinv.setUp.sender rfl rfl fun hstream => ?_
    rw [written, if_neg (by rw [hsender]; decide)] at hstream
    rw [hstream]
    rfl

/-- What the client's bytes add to the stream. -/
theorem Inv.clientStep (hinv : Inv cfg s) (hsender : s.sender = .halfDuplex)
    {outcome : Outcome Byte} {client : Frame Byte} (hunbroken : Unbroken s.client outcome)
    (hnext : (halfDuplex cfg.clientMemory).next s.client outcome = some client) :
    Inv cfg { s with
      client := client
      stream := s.stream ++
        (client.accepted.drop s.client.accepted.length).map Prod.fst } := by
  obtain ⟨new, hnew⟩ : s.client.accepted <+: client.accepted := by
    obtain ⟨pc, -, rfl⟩ := Option.map_eq_some_iff.mp hnext
    exact HalfDuplex.accepted_record s.client outcome
  have hdrop : client.accepted.drop s.client.accepted.length = new := by
    rw [← hnew, List.drop_left]
  rw [hdrop]
  constructor
  case client => exact hinv.client.step hunbroken hnext
  case server => exact hinv.server
  case clientIdle => exact fun hne => absurd hsender hne
  case serverIdle => exact hinv.serverIdle
  case sent => exact hinv.sent
  case rest =>
    intro hdecoded
    dsimp only
    rw [← hnew, List.map_append, hinv.rest hdecoded, List.append_assoc]
  case setUp =>
    refine hinv.setUp.sender rfl rfl fun hstream => ?_
    simp only [written, if_pos hsender] at hstream ⊢
    rw [hstream, ← hnew, List.map_append, List.append_assoc]

theorem Inv.serverStep (hinv : Inv cfg s) (hpending : s.pending = .halfDuplex)
    {outcome : Outcome Byte} {server : Frame Byte} (hunbroken : Unbroken s.server outcome)
    (havailable : outcome.bytes.isPrefixOf s.stream = true)
    (hnext : (halfDuplex cfg.serverMemory).next s.server outcome = some server) :
    Inv cfg { s with
      server := server
      stream := s.stream.drop outcome.bytes.length } := by
  have hreceived : server.received = s.server.received ++ outcome.bytes := by
    obtain ⟨pc, -, rfl⟩ := Option.map_eq_some_iff.mp hnext
    exact HalfDuplex.received_record s.server outcome
  obtain ⟨tail, htail⟩ := List.isPrefixOf_iff_prefix.mp havailable
  constructor
  case client => exact hinv.client
  case server => exact hinv.server.step hunbroken hnext
  case clientIdle => exact hinv.clientIdle
  case serverIdle => exact fun hne => absurd hpending hne
  case sent => exact hinv.sent
  case rest =>
    intro hdecoded
    dsimp only
    rw [hinv.rest hdecoded, hreceived, ← htail, List.drop_left, List.append_assoc]
  case setUp =>
    have hsetUp := hinv.setUp
    rw [hpending] at hsetUp
    dsimp only
    rw [hpending]
    exact hsetUp

theorem Inv.nextHop (hinv : Inv cfg s) (hpending : s.pending = .waitForNextHop)
    (hlength : addressesSize ≤ s.stream.length) :
    Inv cfg { s with
      pending := .setNodelay
      addresses := s.addresses.receive (s.stream.take addressesSize)
      stream := s.stream.drop addressesSize } := by
  have hsetUp := hinv.setUp
  rw [hpending] at hsetUp
  obtain ⟨hstream, htx⟩ := hsetUp
  have hsender : s.sender = .halfDuplex := by
    by_contra hne
    rw [written, if_neg hne] at hstream
    rw [hstream] at hlength
    exact absurd hlength (by decide)
  rw [written, if_pos hsender] at hstream
  have hrecord : s.stream.take addressesSize = cfg.record.bytes := by
    rw [hstream]
    exact List.take_left' rfl
  have hrest : s.stream.drop addressesSize = s.client.accepted.map Prod.fst := by
    rw [hstream]
    exact List.drop_left' rfl
  have hidle : s.server.received = [] := hinv.serverIdle (by rw [hpending]; decide)
  rw [hrecord, hrest, receive_bytes]
  constructor
  case client => exact hinv.client
  case server => exact hinv.server
  case clientIdle => exact hinv.clientIdle
  case serverIdle => exact fun _ => hidle
  case sent => exact fun _ => hsender
  case rest =>
    intro _
    rw [hidle, List.nil_append]
  case setUp => exact ⟨rfl, htx⟩

/-- A call of the receiver that moves no bytes. -/
theorem Inv.receiver (hinv : Inv cfg s) {pc : PendingPc} {addresses : Addresses} {tx : Tx}
    (hpc : s.pending ≠ .halfDuplex) (hdecoded : pc.decoded = true → s.pending.decoded = true)
    (hsetUp : SetUp cfg { s with pending := pc, addresses := addresses, tx := tx } pc) :
    Inv cfg { s with pending := pc, addresses := addresses, tx := tx } where
  client := hinv.client
  server := hinv.server
  clientIdle := hinv.clientIdle
  serverIdle := fun _ => hinv.serverIdle hpc
  sent := fun h => hinv.sent (hdecoded h)
  rest := fun h => hinv.rest (hdecoded h)
  setUp := hsetUp

theorem SetUp.not_connected {pc : PendingPc} (hsetUp : SetUp cfg s pc)
    (hpc : pc ≠ .halfDuplex) : s.tx.connected = none := by
  cases pc with
  | sockCreate => rw [hsetUp.2]
  | waitForNextHop => rw [hsetUp.2]
  | setNodelay => rw [hsetUp.2]
  | setMark => rw [hsetUp.2]
  | setTransparent => rw [hsetUp.2.2]
  | bind => rw [hsetUp.2.2]
  | connect => rw [hsetUp.2]
  | halfDuplex => exact absurd rfl hpc
  | createFail => exact hsetUp

theorem Inv.fail (hinv : Inv cfg s) (hpc : s.pending ≠ .halfDuplex) :
    Inv cfg { s with pending := .createFail } := by
  refine hinv.receiver hpc Bool.noConfusion ?_
  exact hinv.setUp.not_connected hpc

theorem Inv.setUpStep (hinv : Inv cfg s) {succeeds : Bool}
    (hnext : stepSetUp cfg s s.pending succeeds = some s') : Inv cfg s' := by
  have hsetUp := hinv.setUp
  cases hpending : s.pending <;> rw [hpending] at hsetUp hnext
  case waitForNextHop => cases hnext
  case halfDuplex => cases hnext
  case createFail => cases hnext
  all_goals cases succeeds
  -- a call that fails
  case' sockCreate.false | setNodelay.false | setMark.false | setTransparent.false |
      bind.false | connect.false =>
    cases hnext
    exact hinv.fail (by rw [hpending]; decide)
  -- a call that succeeds
  all_goals cases hnext
  case sockCreate.true =>
    exact hinv.receiver (by rw [hpending]; decide) Bool.noConfusion hsetUp
  case setNodelay.true =>
    exact hinv.receiver (by rw [hpending]; decide) (fun _ => by rw [hpending]; rfl) hsetUp
  case setMark.true =>
    obtain ⟨haddresses, htx⟩ := hsetUp
    refine hinv.receiver (by rw [hpending]; decide) (fun _ => by rw [hpending]; rfl) ?_
    split
    · rename_i htransparent
      refine ⟨haddresses, htransparent, ?_⟩
      simp only [htx, haddresses]
    · rename_i htransparent
      refine ⟨congrArg Addresses.dest haddresses, ?_⟩
      simp only [htx, haddresses, Config.tx, if_neg htransparent]
  case setTransparent.true =>
    exact hinv.receiver (by rw [hpending]; decide) (fun _ => by rw [hpending]; rfl) hsetUp
  case bind.true =>
    obtain ⟨haddresses, htransparent, htx⟩ := hsetUp
    refine hinv.receiver (by rw [hpending]; decide) (fun _ => by rw [hpending]; rfl) ?_
    have hdest : s.addresses.dest = cfg.record.dest := by rw [haddresses]
    refine ⟨hdest, ?_⟩
    simp only [htx, haddresses, Config.tx, if_pos htransparent]
  case connect.true =>
    obtain ⟨hdest, htx⟩ := hsetUp
    refine hinv.receiver (by rw [hpending]; decide) (fun _ => by rw [hpending]; rfl) ?_
    change Tx.mk s.tx.mark s.tx.bound (some s.addresses.dest.forConnect) = cfg.tx
    rw [htx, hdest]
    rfl

theorem Inv.next (hinv : Inv cfg s) {act : Act} (hwhole : Whole s act)
    (hnext : (handshake cfg).next s act = some s') : Inv cfg s' := by
  cases act with
  | forward accepted =>
      obtain ⟨⟨hsender, -⟩, heq⟩ := Option.ite_none_right_eq_some.mp hnext
      cases heq
      cases hwhole
      exact hinv.forward hsender
  | forwardFailed rc =>
      obtain ⟨⟨hsender, -⟩, heq⟩ := Option.ite_none_right_eq_some.mp hnext
      cases heq
      exact hinv.fallBack hsender
  | client outcome =>
      obtain ⟨hsender, heq⟩ := Option.ite_none_right_eq_some.mp hnext
      obtain ⟨client, hclient, rfl⟩ := Option.map_eq_some_iff.mp heq
      exact hinv.clientStep hsender hwhole hclient
  | setUp succeeds => exact hinv.setUpStep hnext
  | nextHop count =>
      obtain ⟨⟨hpending, -, -, hlength⟩, heq⟩ := Option.ite_none_right_eq_some.mp hnext
      cases heq
      cases hwhole
      exact hinv.nextHop hpending hlength
  | nextHopFailed rc =>
      obtain ⟨⟨hpending, -⟩, heq⟩ := Option.ite_none_right_eq_some.mp hnext
      cases heq
      exact hinv.fail (by rw [hpending]; decide)
  | server outcome =>
      obtain ⟨⟨hpending, havailable⟩, heq⟩ := Option.ite_none_right_eq_some.mp hnext
      obtain ⟨server, hserver, rfl⟩ := Option.map_eq_some_iff.mp heq
      exact hinv.serverStep hpending hwhole havailable hserver

theorem inv_of_reachable (hreach : (handshake cfg).ReachableUnder Whole s) : Inv cfg s := by
  refine hreach.invariant (P := Inv cfg) ?_ ?_
  · have hframe : ∀ memory : PageVec.Pages Byte, HalfDuplex.Inv (halfDuplex memory).init :=
      fun memory => HalfDuplex.inv_of_reachable (.init (M := halfDuplex memory))
    exact {
      client := hframe _
      server := hframe _
      clientIdle := fun _ => rfl
      serverIdle := fun _ => rfl
      sent := Bool.noConfusion
      rest := Bool.noConfusion
      setUp := ⟨rfl, rfl⟩ }
  · intro before act after _ hinv hwhole hnext
    exact hinv.next hwhole hnext

/-! ## The connection -/

/-- The connection is the one that the record names, and what the server has got is
the beginning of what the client sent. -/
structure Decoded (cfg : Config) (s : State) : Prop where
  tx : s.tx.connected ≠ none → s.tx = cfg.tx
  payload : s.server.accepted.map Prod.fst <+: s.client.received

/-- No byte is on its way, and no write was short. -/
def Drained (s : State) : Prop :=
  s.stream = [] ∧ s.client.pc.settled = true ∧ s.client.short = false ∧
    s.server.pc.settled = true ∧ s.server.short = false

theorem Inv.tx (hinv : Inv cfg s) (hconnected : s.tx.connected ≠ none) :
    s.pending = .halfDuplex ∧ s.tx = cfg.tx := by
  have hpending : s.pending = .halfDuplex := by
    by_contra hne
    exact hconnected (hinv.setUp.not_connected hne)
  have hsetUp := hinv.setUp
  rw [hpending] at hsetUp
  exact ⟨hpending, hsetUp⟩

theorem accepted_isPrefix {f : Frame Byte} (hinv : HalfDuplex.Inv f) :
    f.accepted.map Prod.fst <+: f.received := by
  have hmap := hinv.faithful.map Prod.fst
  rw [List.zipIdx_map_fst] at hmap
  exact hmap

theorem accepted_settled {f : Frame Byte} (hinv : HalfDuplex.Inv f)
    (hsettled : f.pc.settled = true) (hshort : f.short = false) :
    f.accepted.map Prod.fst = f.received := by
  rw [hinv.settled hsettled hshort, List.zipIdx_map_fst]

theorem Inv.decoded (hinv : Inv cfg s) : Decoded cfg s where
  tx := fun hconnected => (hinv.tx hconnected).2
  payload := by
    by_cases hpending : s.pending = .halfDuplex
    · have hrest := hinv.rest (by rw [hpending]; rfl)
      have hserver : s.server.received <+: s.client.accepted.map Prod.fst := by
        rw [hrest]
        exact List.prefix_append _ _
      exact (accepted_isPrefix hinv.server).trans
        (hserver.trans (accepted_isPrefix hinv.client))
    · have hnone := accepted_isPrefix hinv.server
      rw [hinv.serverIdle hpending, List.prefix_nil] at hnone
      rw [hnone]
      exact List.nil_prefix

theorem Inv.drained (hinv : Inv cfg s) (hconnected : s.tx.connected ≠ none)
    (hdrained : Drained s) : s.server.accepted.map Prod.fst = s.client.received := by
  obtain ⟨hstream, hclient, hclientShort, hserver, hserverShort⟩ := hdrained
  have hrest := hinv.rest (by rw [(hinv.tx hconnected).1]; rfl)
  calc
    s.server.accepted.map Prod.fst = s.server.received :=
      accepted_settled hinv.server hserver hserverShort
    _ = s.client.accepted.map Prod.fst := by
      rw [hrest, hstream, List.append_nil]
    _ = s.client.received := accepted_settled hinv.client hclient hclientShort

/-- As long as the record is sent and received in one piece and no bytes follow a
short write, the connection is the one that the record names and carries the payload.
No other split of the stream decodes every record. -/
theorem handshake_decoded (cfg : Config) {s : State}
    (hreach : (handshake cfg).ReachableUnder Whole s) :
    Decoded cfg s ∧
    (s.tx.connected ≠ none → Drained s →
      s.server.accepted.map Prod.fst = s.client.received) ∧
    ∀ sent received, sent ≤ addressesSize → received ≤ addressesSize →
      (SplitExact sent received ↔ sent = addressesSize ∧ received = addressesSize) := by
  have hinv := inv_of_reachable hreach
  exact ⟨hinv.decoded, hinv.drained, fun _ _ => splitExact_iff⟩

instance decidableWhole (s : State) (act : Act) : Decidable (Whole s act) :=
  match act with
  | .forward accepted => inferInstanceAs (Decidable (accepted = addressesSize))
  | .nextHop count => inferInstanceAs (Decidable (count = addressesSize))
  | .client outcome => inferInstanceAs (Decidable (Unbroken s.client outcome))
  | .server outcome => inferInstanceAs (Decidable (Unbroken s.server outcome))
  | .forwardFailed _ => inferInstanceAs (Decidable True)
  | .setUp _ => inferInstanceAs (Decidable True)
  | .nextHopFailed _ => inferInstanceAs (Decidable True)

/-- A record without a mark, and a stack frame that held another one. -/
def plainConfig : Config where
  record := markedBy 0
  ipTransparent := true
  memory := markedBy 1
  clientMemory := fun _ _ => 0
  serverMemory := fun _ _ => 0

/-- The record, the payload and the calls at the other end. -/
def handOverRun (accepted : ℕ) (payload rest : List Byte) : List Act :=
  [.setUp true, .forward accepted] ++
    List.replicate HalfDuplex.vecSz (.client (.page true)) ++
    [.client (.received payload), .client (.sent payload.length), .nextHop addressesSize] ++
    List.replicate 5 (.setUp true) ++
    List.replicate HalfDuplex.vecSz (.server (.page true)) ++
    [.server (.received rest), .server (.sent rest.length)]

theorem handshake_decoded_whole :
    ∃ s, (handshake plainConfig).ReachableUnder Whole s ∧ s.tx = plainConfig.tx ∧
      s.client.received = [7, 8] ∧ s.server.accepted.map Prod.fst = s.client.received := by
  obtain ⟨s, hreach, hs⟩ := Machine.exists_reachable_of_run (handshake plainConfig) Whole
    (handOverRun addressesSize [7, 8] [7, 8])
    (fun s => (s.client.received, s.stream, s.tx.connected.isSome,
      [s.client.pc.settled, s.client.short, s.server.pc.settled, s.server.short]))
    ([7, 8], [], true, [true, false, true, false]) (by decide +kernel)
  simp only [Prod.mk.injEq, List.cons.injEq, and_true] at hs
  obtain ⟨hreceived, hstream, hconnected, hframes⟩ := hs
  have hsome : s.tx.connected ≠ none := Option.isSome_iff_ne_none.mp hconnected
  obtain ⟨hdecoded, hpayload, -⟩ := handshake_decoded plainConfig hreach
  exact ⟨s, hreach, hdecoded.tx hsome, hreceived, hpayload hsome ⟨hstream, hframes⟩⟩

/-- The last byte of the record is not accepted, and the first byte of the payload
becomes a part of the mark. -/
theorem payload_taken_for_mark :
    ¬∀ (cfg : Config) (s : State), (handshake cfg).Reachable s → Decoded cfg s := by
  intro hdecoded
  obtain ⟨s, hreach, hs⟩ := Machine.exists_reachable_of_run (handshake plainConfig)
    (fun _ _ => True) (handOverRun 39 [7, 8] [8])
    (fun s => (s.tx.connected.isSome, s.tx.mark)) (true, some ⟨0, 0, 0, 7⟩)
    (by decide +kernel)
  obtain ⟨hconnected, hmark⟩ := Prod.mk.inj hs
  have htx := (hdecoded _ s hreach).tx (Option.isSome_iff_ne_none.mp hconnected)
  rw [htx] at hmark
  exact absurd hmark (by decide)

end KtcpSplit.Handshake
