import KtcpSplit.Server.Command
import KtcpSplit.Server.Page
import KtcpSplit.Server.Stop
import KtcpSplit.Unload.StopSockets

/-!
# The table of tenants

The operator adds and removes the servers of tenants by writing to files, and reads from
them which servers there are.  As long as one command is over before the next one is
given, the tree of listeners is a table from marks to ports.
-/

namespace KtcpSplit.Tenants

open KtcpSplit.AddServer
open KtcpSplit.Listing (cbnProcShow readListing width)
open KtcpSplit.Listner hiding addRbListner
open KtcpSplit.RedBlack
open KtcpSplit.Stop (ProbeOutcome craetePrecConnProbe)
open KtcpSplit.StopSockets (addRbListner)
open KtcpSplit.Transition
open KtcpSplit.WrappingTree

/-! ## The commands -/

/-- The handler of a write; `request` tests the numbers that `get_options` found. -/
def command {V Request : Type*} (request : V → Option Request) (size : ℕ) (kbuf : Except ℕ V) :
    Except ℕ (ℕ × Request) :=
  if size ≤ 1 ∨ AddServer.pageSize ≤ size then .error einval
  else
    match kbuf with
    | .error errno => .error errno
    | .ok values =>
        match request values with
        | some what => .ok (size, what)
        | none => .error einval

theorem cbnAddServer_eq : cbnAddServer = command fun values =>
    if values.count = 2 then some (uint2void values.tid values.port) else none := by
  funext size kbuf
  unfold cbnAddServer command
  split
  · rfl
  · cases kbuf with
    | error errno => rfl
    | ok values =>
        dsimp only
        split <;> rfl

def cbnDelServer : ℕ → Except ℕ Values → Except ℕ (ℕ × Mark) :=
  command fun values => if values.count = 1 then some values.tid else none

/-- `int values[2]` after `get_options`. -/
structure Flag where
  count : BitVec 32
  value : BitVec 32

def cbnTransparentCommand : ℕ → Except ℕ Flag → Except ℕ (ℕ × BitVec 32) :=
  command fun values =>
    if values.count = 1 ∧ (values.value = 0 ∨ values.value = 1) then some values.value else none

/-- What happens to a thread of `split_server` until it accepts. -/
structure Outcome where
  kernel : Kernel
  kernelListen : ℤ
  probe : ProbeOutcome

structure Fields where
  port : BitVec 16
  status : BitVec 16
  deriving DecidableEq

/-- The tree, the memory of the listeners, and `ip_transparent`. -/
structure State where
  root : RbTree CbnListner
  fields : ℕ → Fields
  ipTransparent : BitVec 32

/-- A write, and the address of the listener that it allocates. -/
inductive Label
  | addServer (size : ℕ) (kbuf : Except ℕ Values) (address : ℕ) (o : Outcome)
  | delServer (size : ℕ) (kbuf : Except ℕ Values)
  | transparent (size : ℕ) (kbuf : Except ℕ Flag)

def State.removeListnerServer (s : State) (pos : CbnListner) : State :=
  { s with root := rbErase pos s.root }

/-- `split_server` until it accepts or is over; `server` is how it gets to `kernel_bind`. -/
def State.splitServer (s : State) (o : Outcome) (address : ℕ) (server : AddServer.Server) :
    State :=
  match server.key with
  | none => s
  | some key =>
      let pos : CbnListner := ⟨address, key⟩
      let registered := { s with root := (addRbListner s.root pos).2 }
      match server.port, server.bound with
      | some port, some _ =>
          if o.kernelListen ≠ 0 then registered.removeListnerServer pos
          else if (craetePrecConnProbe o.probe).1 = false then registered.removeListnerServer pos
          else { registered with fields := Function.update s.fields address ⟨port, 6⟩ }
      | _, _ => registered.removeListnerServer pos

def State.delServerCb (s : State) (tid : Mark) : State :=
  match searchRbListner s.root.uncolored tid with
  | some listner => s.removeListnerServer listner
  | none => s

/-- The commands, one after the other. -/
def proc (memory : ℕ → Fields) : Machine State Label where
  init := ⟨.nil, memory, 1⟩
  next := fun s label =>
    match label with
    | .addServer size kbuf address o =>
        match started o.kernel s.root.uncolored (cbnAddServer size kbuf) with
        | some server => some (s.splitServer o address server)
        | none => some s
    | .delServer size kbuf =>
        match cbnDelServer size kbuf with
        | .ok (_, tid) => some (s.delServerCb tid)
        | .error _ => some s
    | .transparent size kbuf =>
        match cbnTransparentCommand size kbuf with
        | .ok (_, value) => some { s with ipTransparent := value }
        | .error _ => some s

/-- What the listing prints. -/
def State.listing (s : State) : RbTree Listing.CbnListner :=
  s.root.map fun pos => ⟨pos.key, (s.fields pos.id).port, (s.fields pos.id).status⟩

/-! ## What the commands are for -/

/-- Nothing stops the thread. -/
def Outcome.Succeeds (o : Outcome) : Prop :=
  o.kernel.pool = true ∧ o.kernel.memory = true ∧ o.kernel.sockCreateKern = 0 ∧
    0 ≤ o.kernel.soMark ∧ o.kernel.kernelBind = 0 ∧ o.kernelListen = 0 ∧
    (craetePrecConnProbe o.probe).1 = true

instance decidableSucceeds : DecidablePred Outcome.Succeeds :=
  fun _ => inferInstanceAs (Decidable (_ ∧ _))

/-- The port of every tenant that is served. -/
structure Settings where
  port : Mark → Option (BitVec 16)
  transparent : Bool

/-- What a write says, if its size is right and the kernel could copy it. -/
def written {V : Type*} (size : ℕ) (kbuf : Except ℕ V) : Option V :=
  if 1 < size ∧ size < AddServer.pageSize then kbuf.toOption else none

def Settings.after (settings : Settings) : Label → Settings
  | .addServer size kbuf _ o =>
      match written size kbuf with
      | some values =>
          if values.count = 2 ∧ settings.port values.tid = none ∧ o.Succeeds then
            { settings with
              port :=
                Function.update settings.port values.tid (some (values.port.setWidth 16)) }
          else settings
      | none => settings
  | .delServer size kbuf =>
      match written size kbuf with
      | some values =>
          if values.count = 1 then
            { settings with port := Function.update settings.port values.tid none }
          else settings
      | none => settings
  | .transparent size kbuf =>
      match written size kbuf with
      | some values =>
          if values.count = 1 ∧ (values.value = 0 ∨ values.value = 1) then
            { settings with transparent := decide (values.value = 1) }
          else settings
      | none => settings

def settingsAfter (labels : List Label) : Settings :=
  labels.foldl Settings.after ⟨fun _ => none, true⟩

/-! ## The tree as a table -/

/-- A tree in which the lookups with marks of the set find what there is. -/
structure Table (marks : Set Mark) (root : RbTree CbnListner) : Prop where
  built : StopSockets.Built root
  sorted : Sorted CbnListner.key marks ⟨root.uncolored, root.inorder⟩

section Table

variable {marks : Set Mark} {root : RbTree CbnListner} {pos : CbnListner}

theorem Table.nodup_key (htable : Table marks root) :
    (root.inorder.map CbnListner.key).Nodup := by
  have hpairwise := htable.sorted.sorted
  rw [inorder_uncolored] at hpairwise
  refine List.pairwise_map.mpr (hpairwise.imp ?_)
  intro a b hbelow heq
  rw [heq] at hbelow
  exact not_below_self _ hbelow

theorem Table.found_iff (htable : Table marks root) (hchained : Chained marks)
    (tid : Mark) :
    (∃ this, searchRbListner root.uncolored tid = some this) ↔
      ∃ pos ∈ root.inorder, pos.key = tid :=
  (htable.sorted.lookupsCorrect hchained).found tid

theorem Table.add (htable : Table marks root) (hchained : Chained marks)
    (hmark : pos.key ∈ marks) (hnew : pos.id ∉ root.inorder.map CbnListner.id)
    (hunused : searchRbListner root.uncolored pos.key = none) :
    Table marks (addRbListner root pos).2 ∧
      ∀ x, x ∈ (addRbListner root pos).2.inorder ↔ x = pos ∨ x ∈ root.inorder := by
  have hbuilt := htable.built.add hnew
  rcases StopSockets.addRbListner_cases root pos with ⟨this, hduplicate, -⟩ |
    ⟨path, linked, -, hlinked, hinorder, hadd⟩
  · have hfound := SearchTree.insert_eq_duplicate_iff.mp hduplicate
    cases hunused.symm.trans hfound
  · rw [hadd] at hbuilt ⊢
    have hnext : (inserting (addKey CbnListner.key)).next ⟨root.uncolored, root.inorder⟩
        (pos, (link pos path).uncolored) =
        some ⟨(link pos path).uncolored, pos :: root.inorder⟩ := by
      have hkey : addKey CbnListner.key root.uncolored pos = .linked linked := hlinked
      simp only [inserting, hkey]
      exact if_pos (by rw [inorder_uncolored, hinorder])
    have hstep := htable.sorted.step hchained hmark hnext
    have hmem : ∀ x, x ∈ (link pos path).inorder ↔ x = pos ∨ x ∈ root.inorder := by
      intro x
      rw [← inorder_uncolored, hstep.mem x]
      exact List.mem_cons
    refine ⟨⟨hbuilt, ?_, ?_, hstep.sorted⟩, hmem⟩
    · exact fun data => by rw [inorder_uncolored]
    · exact fun data hdata => hstep.words data (List.mem_cons.mpr ((hmem data).mp hdata))

theorem Table.erase (htable : Table marks root) (hpos : pos ∈ root.inorder) :
    Table marks (rbErase pos root) ∧
      ∀ x, x ∈ (rbErase pos root).inorder ↔ x ≠ pos ∧ x ∈ root.inorder := by
  have hnodup : root.inorder.Nodup := List.Nodup.of_map _ htable.built.nodup
  have herase := inorder_rbErase hnodup pos
  obtain ⟨n, hbalanced⟩ := htable.built.balanced
  refine ⟨⟨⟨hbalanced.rbErase pos, ?_⟩, ?_, ?_, ?_⟩, fun x => ?_⟩
  · exact ((StopSockets.ids_rbErase htable.built.nodup hpos).nodup_iff.mp
      htable.built.nodup).of_cons
  · exact fun data => by rw [inorder_uncolored]
  · intro data hdata
    rw [herase] at hdata
    exact htable.sorted.words data (List.mem_of_mem_erase hdata)
  · have hpairwise := htable.sorted.sorted
    rw [inorder_uncolored] at hpairwise ⊢
    rw [herase]
    exact hpairwise.sublist List.erase_sublist
  · rw [herase, hnodup.mem_erase_iff]

end Table

/-! ## A thread of `split_server` -/

/-- Until the memory is allocated a thread has no listener, and then it has one. -/
theorem key_splitServer (kernel : Kernel) (listnerRoot : BinaryTree CbnListner)
    (tid port : BitVec 32) :
    (AddServer.splitServer kernel listnerRoot (uint2void tid port)).key =
      if searchRbListner listnerRoot tid = none ∧ kernel.memory = true then some tid
      else none := by
  rw [AddServer.splitServer, void2uint_uint2void]
  dsimp only
  split_ifs <;> simp_all

/-- A thread that gets a listener serves its tenant, or removes the listener again. -/
theorem splitServer_eq {s : State} {o : Outcome} {tid : Mark} (hpool : o.kernel.pool = true)
    (hunused : searchRbListner s.root.uncolored tid = none) (hmemory : o.kernel.memory = true)
    (address : ℕ) (port : BitVec 32) :
    s.splitServer o address
        (AddServer.splitServer o.kernel s.root.uncolored (uint2void tid port)) =
      if o.Succeeds then
        { s with
          root := (addRbListner s.root ⟨address, tid⟩).2
          fields := Function.update s.fields address ⟨port.setWidth 16, 6⟩ }
      else
        { s with root := rbErase ⟨address, tid⟩ (addRbListner s.root ⟨address, tid⟩).2 } := by
  have hkey : (AddServer.splitServer o.kernel s.root.uncolored (uint2void tid port)).key =
      some tid := by
    rw [key_splitServer, if_pos ⟨hunused, hmemory⟩]
  by_cases hreaches : Reaches o.kernel s.root.uncolored tid
  · rw [hreaches.splitServer port, State.splitServer]
    dsimp only
    by_cases hlisten : o.kernelListen = 0
    · by_cases hprobe : (craetePrecConnProbe o.probe).1 = true
      · rw [if_neg (not_not.mpr hlisten), if_neg (by rw [hprobe]; decide), if_pos]
        exact ⟨hpool, hmemory, hreaches.sockCreateKern, hreaches.soMark, hreaches.kernelBind,
          hlisten, hprobe⟩
      · rw [if_neg (not_not.mpr hlisten), if_pos (Bool.eq_false_of_not_eq_true hprobe), if_neg]
        · rfl
        · exact fun hsucceeds => hprobe hsucceeds.2.2.2.2.2.2
    · rw [if_pos hlisten, if_neg]
      · rfl
      · exact fun hsucceeds => hlisten hsucceeds.2.2.2.2.2.1
  · have hbound : (AddServer.splitServer o.kernel s.root.uncolored
        (uint2void tid port)).bound = none := by
      by_contra hbound
      exact hreaches (reaches_of_bound hpool hbound)
    rw [if_neg]
    · generalize AddServer.splitServer o.kernel s.root.uncolored (uint2void tid port) = server
        at hkey hbound
      obtain ⟨mark, key, stored, bound⟩ := server
      subst hkey hbound
      cases stored <;> rfl
    · intro hsucceeds
      obtain ⟨-, -, hsock, hmark, hbind, -⟩ := hsucceeds
      exact hreaches ⟨hpool, hunused, hmemory, hsock, hmark, hbind⟩

/-! ## What a command does to the table -/

section Write

variable {V Request : Type*} (request : V → Option Request) {size : ℕ} {kbuf : Except ℕ V}

theorem command_of_none (hwritten : written size kbuf = none) :
    ∃ errno, command request size kbuf = .error errno := by
  rw [written, ite_eq_right_iff] at hwritten
  unfold command
  split
  · exact ⟨_, rfl⟩
  · rename_i hsize
    have hnone := hwritten (by omega)
    cases kbuf with
    | error errno => exact ⟨errno, rfl⟩
    | ok values => cases hnone

theorem command_of_some {values : V} (hwritten : written size kbuf = some values) :
    command request size kbuf =
      match request values with
      | some what => .ok (size, what)
      | none => .error einval := by
  obtain ⟨hsize, hvalues⟩ := Option.ite_none_right_eq_some.mp hwritten
  cases kbuf with
  | error errno => cases hvalues
  | ok values' =>
      obtain rfl : values' = values := Option.some.inj hvalues
      unfold command
      rw [if_neg (by omega)]

end Write

/-- The listeners of the tree are the tenants that are served. -/
structure Represents (marks : Set Mark) (s : State) (settings : Settings) : Prop where
  table : Table marks s.root
  served : ∀ tid port, settings.port tid = some port ↔
    ∃ pos ∈ s.root.inorder, pos.key = tid ∧ (s.fields pos.id).port = port
  status : ∀ pos ∈ s.root.inorder, (s.fields pos.id).status = 6
  transparent : s.ipTransparent = if settings.transparent then 1 else 0

section Command

variable {marks : Set Mark} {s : State} {settings : Settings}

theorem Represents.unused_iff (hrep : Represents marks s settings) (hchained : Chained marks)
    {tid : Mark} :
    searchRbListner s.root.uncolored tid = none ↔ settings.port tid = none := by
  have hfound := hrep.table.found_iff hchained tid
  rw [← not_iff_not, ← Ne, ← Ne, Option.ne_none_iff_exists', Option.ne_none_iff_exists', hfound]
  constructor
  · rintro ⟨pos, hpos, hkey⟩
    exact ⟨_, (hrep.served tid _).mpr ⟨pos, hpos, hkey, rfl⟩⟩
  · rintro ⟨port, hport⟩
    obtain ⟨pos, hpos, hkey, -⟩ := (hrep.served tid port).mp hport
    exact ⟨pos, hpos, hkey⟩

/-- A listener that is added and removed again leaves nothing. -/
theorem Represents.fails (hrep : Represents marks s settings) (hchained : Chained marks)
    {pos : CbnListner} (hmark : pos.key ∈ marks)
    (hnew : pos.id ∉ s.root.inorder.map CbnListner.id)
    (hunused : searchRbListner s.root.uncolored pos.key = none) :
    Represents marks { s with root := rbErase pos (addRbListner s.root pos).2 } settings := by
  obtain ⟨hadded, hmem⟩ := hrep.table.add hchained hmark hnew hunused
  obtain ⟨herased, hmem'⟩ := hadded.erase ((hmem pos).mpr (.inl rfl))
  have hsame : ∀ x, x ∈ (rbErase pos (addRbListner s.root pos).2).inorder ↔
      x ∈ s.root.inorder := by
    intro x
    rw [hmem', hmem]
    constructor
    · rintro ⟨hne, heq | hx⟩
      · exact absurd heq hne
      · exact hx
    · intro hx
      refine ⟨?_, .inr hx⟩
      rintro rfl
      exact hnew (List.mem_map_of_mem hx)
  refine ⟨herased, fun tid port => ?_, fun x hx => ?_, hrep.transparent⟩
  · rw [hrep.served tid port]
    exact exists_congr fun x => and_congr_left' (hsame x).symm
  · exact hrep.status x ((hsame x).mp hx)

/-- A listener that is added and stays. -/
theorem Represents.serves (hrep : Represents marks s settings) (hchained : Chained marks)
    {address : ℕ} {tid : Mark} {port : BitVec 16} (hmark : tid ∈ marks)
    (hnew : address ∉ s.root.inorder.map CbnListner.id)
    (hunused : searchRbListner s.root.uncolored tid = none) :
    Represents marks
      { s with
        root := (addRbListner s.root ⟨address, tid⟩).2
        fields := Function.update s.fields address ⟨port, 6⟩ }
      { settings with port := Function.update settings.port tid (some port) } := by
  have hpos : (⟨address, tid⟩ : CbnListner).key ∈ marks := hmark
  obtain ⟨hadded, hmem⟩ := hrep.table.add hchained hpos hnew hunused
  have hother : ∀ x ∈ s.root.inorder,
      Function.update s.fields address ⟨port, 6⟩ x.id = s.fields x.id := fun x hx =>
    Function.update_of_ne (by rintro rfl; exact hnew (List.mem_map_of_mem hx)) _ _
  have hkey : ∀ x ∈ s.root.inorder, x.key ≠ tid := by
    rintro x hx rfl
    have hnone := (hrep.unused_iff hchained).mp hunused
    rw [(hrep.served x.key _).mpr ⟨x, hx, rfl, rfl⟩] at hnone
    cases hnone
  refine ⟨hadded, fun tid' port' => ?_, fun x hx => ?_, hrep.transparent⟩
  · dsimp only
    by_cases htid : tid' = tid
    · subst htid
      rw [Function.update_self, Option.some.injEq]
      constructor
      · rintro rfl
        refine ⟨⟨address, tid'⟩, (hmem _).mpr (.inl rfl), rfl, ?_⟩
        rw [Function.update_self]
      · rintro ⟨x, hx, hxkey, hport⟩
        rcases (hmem x).mp hx with rfl | hx
        · rwa [Function.update_self] at hport
        · exact absurd hxkey (hkey x hx)
    · rw [Function.update_of_ne htid, hrep.served]
      constructor
      · rintro ⟨x, hx, hxkey, hport⟩
        exact ⟨x, (hmem x).mpr (.inr hx), hxkey, by rw [hother x hx, hport]⟩
      · rintro ⟨x, hx, hxkey, hport⟩
        rcases (hmem x).mp hx with rfl | hx
        · exact absurd hxkey.symm htid
        · exact ⟨x, hx, hxkey, by rw [← hport, hother x hx]⟩
  · dsimp only at hx ⊢
    rcases (hmem x).mp hx with rfl | hx
    · rw [Function.update_self]
    · rw [hother x hx]
      exact hrep.status x hx

theorem Represents.splitServer (hrep : Represents marks s settings) (hchained : Chained marks)
    {address : ℕ} {tid : Mark} {o : Outcome} (hmark : tid ∈ marks)
    (hnew : address ∉ s.root.inorder.map CbnListner.id) (hpool : o.kernel.pool = true)
    (port : BitVec 32) :
    Represents marks
      (s.splitServer o address
        (AddServer.splitServer o.kernel s.root.uncolored (uint2void tid port)))
      (if settings.port tid = none ∧ o.Succeeds then
        { settings with
          port := Function.update settings.port tid (some (port.setWidth 16)) }
      else settings) := by
  by_cases hlistner : searchRbListner s.root.uncolored tid = none ∧ o.kernel.memory = true
  · obtain ⟨hunused, hmemory⟩ := hlistner
    rw [splitServer_eq hpool hunused hmemory]
    by_cases hsucceeds : o.Succeeds
    · rw [if_pos hsucceeds, if_pos ⟨(hrep.unused_iff hchained).mp hunused, hsucceeds⟩]
      exact hrep.serves hchained hmark hnew hunused
    · rw [if_neg hsucceeds, if_neg fun h => hsucceeds h.2]
      exact hrep.fails hchained hmark hnew hunused
  · have hkey := key_splitServer o.kernel s.root.uncolored tid port
    rw [if_neg hlistner] at hkey
    rw [State.splitServer, hkey, if_neg]
    · exact hrep
    · rintro ⟨hnone, hsucceeds⟩
      exact hlistner ⟨(hrep.unused_iff hchained).mpr hnone, hsucceeds.2.1⟩

/-- Removing a tenant that is served, or that is not. -/
theorem Represents.delServerCb (hrep : Represents marks s settings) (hchained : Chained marks)
    (tid : Mark) :
    Represents marks (s.delServerCb tid)
      { settings with port := Function.update settings.port tid none } := by
  rw [State.delServerCb]
  split
  · rename_i pos hsearch
    obtain ⟨hpos, hkey⟩ := searchRbListner_sound hsearch
    rw [inorder_uncolored] at hpos
    obtain ⟨herased, hmem⟩ := hrep.table.erase hpos
    refine ⟨herased, fun tid' port => ?_, fun x hx => ?_, hrep.transparent⟩
    · dsimp only
      by_cases htid : tid' = tid
      · subst htid
        rw [Function.update_self]
        refine iff_of_false (by simp) ?_
        rintro ⟨x, hx, hxkey, -⟩
        obtain ⟨hne, hx⟩ := (hmem x).mp hx
        exact hne (List.inj_on_of_nodup_map hrep.table.nodup_key hx hpos (hxkey.trans hkey.symm))
      · rw [Function.update_of_ne htid, hrep.served]
        refine exists_congr fun x => ⟨?_, ?_⟩
        · rintro ⟨hx, hxkey, hport⟩
          refine ⟨(hmem x).mpr ⟨?_, hx⟩, hxkey, hport⟩
          rintro rfl
          exact htid (hxkey.symm.trans hkey)
        · rintro ⟨hx, hxkey, hport⟩
          exact ⟨((hmem x).mp hx).2, hxkey, hport⟩
    · exact hrep.status x ((hmem x).mp hx).2
  · rename_i hnone
    have hport := (hrep.unused_iff hchained).mp hnone
    have hsame : Function.update settings.port tid none = settings.port := by
      rw [← hport, Function.update_eq_self]
    rw [hsame]
    exact hrep

/-- A write of `cbn_add_server` has a new address, and a mark from the set. -/
def Admitted (marks : Set Mark) (s : State) : Label → Prop
  | .addServer _ (.ok values) address _ =>
      address ∉ s.root.inorder.map CbnListner.id ∧ values.tid ∈ marks
  | _ => True

instance decidableAdmitted (marks : Set Mark) [DecidablePred (· ∈ marks)] (s : State) :
    DecidablePred (Admitted marks s)
  | .addServer _ (.ok _) _ _ => inferInstanceAs (Decidable (_ ∧ _))
  | .addServer _ (.error _) _ _ => .isTrue trivial
  | .delServer _ _ => .isTrue trivial
  | .transparent _ _ => .isTrue trivial

theorem Represents.addServer (hrep : Represents marks s settings) (hchained : Chained marks)
    {memory : ℕ → Fields} {size address : ℕ} {kbuf : Except ℕ Values} {o : Outcome}
    {after : State} (hadmitted : Admitted marks s (.addServer size kbuf address o))
    (hnext : (proc memory).next s (.addServer size kbuf address o) = some after) :
    Represents marks after (settings.after (.addServer size kbuf address o)) := by
  simp only [proc, cbnAddServer_eq] at hnext
  rw [Settings.after]
  cases hwritten : written size kbuf with
  | none =>
      obtain ⟨errno, herror⟩ := command_of_none (fun values : Values =>
        if values.count = 2 then some (uint2void values.tid values.port) else none) hwritten
      rw [herror] at hnext
      cases hnext
      exact hrep
  | some values =>
      obtain ⟨-, hvalues⟩ := Option.ite_none_right_eq_some.mp hwritten
      rw [command_of_some _ hwritten] at hnext
      dsimp only at hnext ⊢
      by_cases hcount : values.count = 2
      · cases kbuf with
        | error errno => cases hvalues
        | ok values' =>
            obtain rfl : values' = values := Option.some.inj hvalues
            obtain ⟨hnew, hmark⟩ := hadmitted
            rw [if_pos hcount] at hnext
            simp only [started] at hnext
            by_cases hpool : o.kernel.pool = true
            · rw [if_pos hpool] at hnext
              cases hnext
              simp only [hcount, true_and]
              exact hrep.splitServer hchained hmark hnew hpool values'.port
            · rw [if_neg hpool] at hnext
              cases hnext
              rw [if_neg fun h => hpool h.2.2.1]
              exact hrep
      · rw [if_neg hcount] at hnext
        cases hnext
        rw [if_neg fun h => hcount h.1]
        exact hrep

theorem Represents.delServer (hrep : Represents marks s settings) (hchained : Chained marks)
    {memory : ℕ → Fields} {size : ℕ} {kbuf : Except ℕ Values} {after : State}
    (hnext : (proc memory).next s (.delServer size kbuf) = some after) :
    Represents marks after (settings.after (.delServer size kbuf)) := by
  simp only [proc, cbnDelServer] at hnext
  rw [Settings.after]
  cases hwritten : written size kbuf with
  | none =>
      obtain ⟨errno, herror⟩ := command_of_none (fun values : Values =>
        if values.count = 1 then some values.tid else none) hwritten
      rw [herror] at hnext
      cases hnext
      exact hrep
  | some values =>
      rw [command_of_some _ hwritten] at hnext
      dsimp only at hnext ⊢
      by_cases hcount : values.count = 1
      · rw [if_pos hcount] at hnext ⊢
        cases hnext
        exact hrep.delServerCb hchained values.tid
      · rw [if_neg hcount] at hnext ⊢
        cases hnext
        exact hrep

theorem Represents.transparentCommand (hrep : Represents marks s settings)
    {memory : ℕ → Fields} {size : ℕ} {kbuf : Except ℕ Flag} {after : State}
    (hnext : (proc memory).next s (.transparent size kbuf) = some after) :
    Represents marks after (settings.after (.transparent size kbuf)) := by
  simp only [proc, cbnTransparentCommand] at hnext
  rw [Settings.after]
  cases hwritten : written size kbuf with
  | none =>
      obtain ⟨errno, herror⟩ := command_of_none (fun values : Flag =>
        if values.count = 1 ∧ (values.value = 0 ∨ values.value = 1) then some values.value
        else none) hwritten
      rw [herror] at hnext
      cases hnext
      exact hrep
  | some values =>
      rw [command_of_some _ hwritten] at hnext
      dsimp only at hnext ⊢
      by_cases hflag : values.count = 1 ∧ (values.value = 0 ∨ values.value = 1)
      · rw [if_pos hflag] at hnext ⊢
        cases hnext
        refine ⟨hrep.table, hrep.served, hrep.status, ?_⟩
        obtain ⟨-, hvalue | hvalue⟩ := hflag
        · rw [hvalue]
          rfl
        · rw [hvalue]
          rfl
      · rw [if_neg hflag] at hnext ⊢
        cases hnext
        exact hrep

/-- A write does to the table what it says, or nothing. -/
theorem Represents.next (hrep : Represents marks s settings) (hchained : Chained marks)
    {memory : ℕ → Fields} {label : Label} {after : State} (hadmitted : Admitted marks s label)
    (hnext : (proc memory).next s label = some after) :
    Represents marks after (settings.after label) := by
  cases label with
  | addServer size kbuf address o => exact hrep.addServer hchained hadmitted hnext
  | delServer size kbuf => exact hrep.delServer hchained hnext
  | transparent size kbuf => exact hrep.transparentCommand hnext

/-- The listeners that are printed. -/
theorem Represents.mem_listing_iff (hrep : Represents marks s settings)
    (pos : Listing.CbnListner) :
    pos ∈ s.listing.inorder ↔ settings.port pos.key = some pos.port ∧ pos.status = 6 := by
  rw [State.listing, inorder_map, List.mem_map, hrep.served]
  constructor
  · rintro ⟨x, hx, rfl⟩
    exact ⟨⟨x, hx, rfl, rfl⟩, hrep.status x hx⟩
  · rintro ⟨⟨x, hx, hkey, hport⟩, hstatus⟩
    refine ⟨x, hx, ?_⟩
    rw [hrep.status x hx, hport, hkey, ← hstatus]

theorem Represents.nodup_listing (hrep : Represents marks s settings) :
    (s.listing.inorder.map Listing.CbnListner.key).Nodup := by
  rw [State.listing, inorder_map, List.map_map]
  exact hrep.table.nodup_key

variable [DecidablePred (· ∈ marks)] {memory : ℕ → Fields} {labels : List Label}

theorem Represents.run {final : State} (hrep : Represents marks s settings)
    (hchained : Chained marks)
    (hrun : (proc memory).runUnder (Admitted marks) s labels = some final) :
    Represents marks final (labels.foldl Settings.after settings) := by
  induction labels generalizing s settings with
  | nil =>
      simp only [Machine.runUnder, Option.some.injEq] at hrun
      exact hrun ▸ hrep
  | cons label labels ih =>
      simp only [Machine.runUnder, Option.ite_none_right_eq_some] at hrun
      obtain ⟨hadmitted, hrest⟩ := hrun
      obtain ⟨after, hnext, hrest⟩ := Option.bind_eq_some_iff.mp hrest
      exact ih (hrep.next hchained hadmitted hnext) hrest

omit [DecidablePred (· ∈ marks)] in
theorem represents_init : Represents marks (proc memory).init ⟨fun _ => none, true⟩ where
  table := ⟨⟨⟨0, .nil⟩, List.nodup_nil⟩, fun _ => Iff.rfl,
    fun _ hdata => absurd hdata List.not_mem_nil, List.Pairwise.nil⟩
  served tid port := iff_of_false (by simp) (by rintro ⟨pos, ⟨⟩, -⟩)
  status pos hpos := by cases hpos
  transparent := rfl

/-- Whatever the operator writes, one command after the other, the lookups find the tenants
that were added and not removed since, as long as their marks stand in a chain; and if the
listing fits into its page, what is read there says which they are, each once and with
its port. -/
theorem tenants_listed (hchained : Chained marks)
    (hrun : (proc memory).runUnder (Admitted marks) (proc memory).init labels = some s) :
    (∀ tid, (∃ this, searchRbListner s.root.uncolored tid = some this) ↔
      (settingsAfter labels).port tid ≠ none) ∧
    s.ipTransparent = (if (settingsAfter labels).transparent then 1 else 0) ∧
    ((s.listing.inorder.map width).sum < Listing.pageSize →
      ∃ text rc listed, cbnProcShow true s.listing = some (text, rc) ∧
        readListing text = some (listed, rc) ∧
        (listed.map Listing.CbnListner.key).Nodup ∧
        ∀ pos, pos ∈ listed ↔
          (settingsAfter labels).port pos.key = some pos.port ∧ pos.status = 6) := by
  have hrep : Represents marks s (settingsAfter labels) := represents_init.run hchained hrun
  refine ⟨fun tid => ?_, hrep.transparent, fun hfits => ?_⟩
  · rw [← Option.ne_none_iff_exists', ne_eq, ne_eq, hrep.unused_iff hchained]
  · obtain ⟨text, rc, hshow, hread⟩ := Listing.readListing_of_fits hfits
    have hperm := perm_postorder s.listing
    refine ⟨text, rc, postorder s.listing, hshow, hread, ?_, fun pos => ?_⟩
    · exact (hperm.map Listing.CbnListner.key).nodup_iff.mpr hrep.nodup_listing
    · rw [hperm.mem_iff, hrep.mem_listing_iff]

end Command

/-- A kernel in which nothing fails. -/
def granted : Outcome := ⟨willing, 0, ⟨0, 0, 0⟩⟩

/-- The writes `7,80`, `9,81`, `7,82` and `9` to the files of the tenants; the socket of
tenant 11 cannot be bound. -/
def fewWrites : List Label :=
  [.addServer 5 (.ok ⟨2, 7, 80⟩) 100 granted, .addServer 5 (.ok ⟨2, 9, 81⟩) 200 granted,
    .addServer 5 (.ok ⟨2, 7, 82⟩) 300 granted,
    .addServer 6 (.ok ⟨2, 11, 83⟩) 300
      { granted with kernel := { willing with kernelBind := -98 } },
    .delServer 2 (.ok ⟨1, 9, 0⟩), .transparent 2 (.ok ⟨1, 0⟩)]

instance decidableNonneg : DecidablePred (· ∈ {mark : Mark | 0 ≤ mark.toInt}) :=
  fun mark => inferInstanceAs (Decidable (0 ≤ mark.toInt))

theorem tenants_listed_few : ∃ s text rc listed,
    cbnProcShow true (State.listing s) = some (text, rc) ∧
      readListing text = some (listed, rc) ∧
      ∀ pos, pos ∈ listed ↔
        (settingsAfter fewWrites).port pos.key = some pos.port ∧ pos.status = 6 := by
  have hobserved : ((proc fun _ => ⟨0, 0⟩).runUnder (Admitted {mark : Mark | 0 ≤ mark.toInt})
      (proc fun _ => ⟨0, 0⟩).init fewWrites).map
      (fun s => decide ((s.listing.inorder.map width).sum < Listing.pageSize)) = some true := by
    decide +kernel
  obtain ⟨s, hrun, hfits⟩ := Option.map_eq_some_iff.mp hobserved
  obtain ⟨-, -, hlisted⟩ := tenants_listed chained_nonneg hrun
  obtain ⟨text, rc, listed, hshow, hread, -, hmem⟩ := hlisted (of_decide_eq_true hfits)
  exact ⟨s, text, rc, listed, hshow, hread, hmem⟩

end KtcpSplit.Tenants
