import SimpleOs.Foundation.Traced
import SimpleOs.Kernel.Unmapped
import SimpleOs.Memory.SequentialDevice
import SimpleOs.Memory.SwapCopy

/-! # Physical addresses of system calls

The operations of the `memmap` system call on the devices, with the storage accesses that
they make. A random access device accesses its storage at whatever address it is given and
`__swap_cp_page` at whatever frame, and `__sys_memmap` returns 0 for every caller that it
finds. Nothing on the way compares an address with the size of the device. The operations that
read and write one byte of RAM never get to it.
-/

namespace SimpleOs

variable {Proc : Type}

/-- An access to the storage of a device of the given size. -/
structure DeviceAccess where
  maxsz : Int
  addr : Addr
  deriving DecidableEq

/-- The address is below the size of the device. -/
def DeviceAccess.Inside (access : DeviceAccess) : Prop := (access.addr.toNat : Int) < access.maxsz

instance DeviceAccess.decidableInside (access : DeviceAccess) : Decidable access.Inside :=
  inferInstanceAs (Decidable (_ < _))

/-! ## The devices with their accesses -/

namespace MemphyStruct

/-- `mp->storage[addr]` -/
def touchLoad (mp : MemphyStruct) (addr : Addr) : Traced DeviceAccess Fault Byte :=
  .touch { maxsz := mp.maxsz, addr := addr } (mp.load addr)

/-- `mp->storage[addr] = value` -/
def touchStore (mp : MemphyStruct) (addr : Addr) (value : Byte) :
    Traced DeviceAccess Fault MemphyStruct :=
  .touch { maxsz := mp.maxsz, addr := addr } (mp.store addr value)

/-- `MEMPHY_seq_read` with its accesses. -/
def tracedSeqRead (mp : MemphyStruct) (addr : Addr) :
    Traced DeviceAccess Fault (Option Byte × MemphyStruct) :=
  if !mp.rdmflg then pure (none, mp)
  else do
    let value ← mp.touchLoad addr
    return (some value, mp.mvCsr addr)

/-- `MEMPHY_read` with its accesses. -/
def tracedRead (mp : MemphyStruct) (addr : Addr) :
    Traced DeviceAccess Fault (Option Byte × MemphyStruct) :=
  if mp.rdmflg then do
    let value ← mp.touchLoad addr
    return (some value, mp)
  else mp.tracedSeqRead addr

/-- `MEMPHY_seq_write` with its accesses. -/
def tracedSeqWrite (mp : MemphyStruct) (addr : Addr) (value : Byte) :
    Traced DeviceAccess Fault (Int × MemphyStruct) :=
  if !mp.rdmflg then pure (-1, mp)
  else do
    let mp ← (mp.mvCsr addr).touchStore addr value
    return (0, mp)

/-- `MEMPHY_write` with its accesses. -/
def tracedWrite (mp : MemphyStruct) (addr : Addr) (data : Byte) :
    Traced DeviceAccess Fault (Int × MemphyStruct) :=
  if mp.rdmflg then do
    let mp ← mp.touchStore addr data
    return (0, mp)
  else mp.tracedSeqWrite addr data

end MemphyStruct

/-- One cell of `__swap_cp_page` with its accesses. -/
def tracedSwapCpCell (junk : Byte) (srcfpn dstfpn : Addr)
    (devices : MemphyStruct × MemphyStruct) (cellidx : Nat) :
    Traced DeviceAccess Fault (MemphyStruct × MemphyStruct) := do
  let addrsrc := srcfpn * BitVec.ofNat 64 pagingPagesz + BitVec.ofNat 64 cellidx
  let addrdst := dstfpn * BitVec.ofNat 64 pagingPagesz + BitVec.ofNat 64 cellidx
  let (data, mpsrc) ← devices.1.tracedRead addrsrc
  let (_, mpdst) ← devices.2.tracedWrite addrdst (data.getD junk)
  return (mpsrc, mpdst)

/-- `__swap_cp_page` with its accesses. -/
def tracedSwapCpPage (junk : Byte) (mpsrc : MemphyStruct) (srcfpn : Addr) (mpdst : MemphyStruct)
    (dstfpn : Addr) : Traced DeviceAccess Fault (MemphyStruct × MemphyStruct) :=
  (List.range pagingPagesz).foldlM (tracedSwapCpCell junk srcfpn dstfpn) (mpsrc, mpdst)

/-- The operations of `__sys_memmap` with their accesses. Those that are left as they are
access no storage. -/
def tracedMemop (junk : Byte) (krnl : Krnl Proc) (regs : ScRegs) :
    Traced DeviceAccess Fault (Krnl Proc × ScRegs) :=
  match toCInt regs.a1 with
  | 3 => do
      let (mram, activeMswp) ←
        tracedSwapCpPage junk krnl.mram (toAddr32 regs.a2) krnl.activeMswp (toAddr32 regs.a3)
      return ({ krnl with mram := mram, activeMswp := activeMswp }, regs)
  | _ => .lift (memop junk krnl regs)

/-- `__sys_memmap` with its accesses. -/
def tracedSysMemmap (pidOf : Proc → Except Fault Word32) (junk : Byte) (krnl : Krnl Proc)
    (pid : Word32) (regs : ScRegs) : Traced DeviceAccess Fault (Int × Krnl Proc × ScRegs) := do
  let (caller, krnl) ← .lift (findCaller pidOf krnl pid)
  match caller with
  | none => return (-1, krnl, regs)
  | some _ =>
      let (krnl, regs) ← tracedMemop junk krnl regs
      return (0, krnl, regs)

/-! ## Without the accesses -/

section Outcomes

variable (mp : MemphyStruct) (addr : Addr) (data : Byte)

theorem MemphyStruct.outcome_tracedRead : (mp.tracedRead addr).outcome = mp.read addr := by
  unfold tracedRead read tracedSeqRead seqRead touchLoad
  cases mp.rdmflg with
  | false => rfl
  | true =>
      simp only [if_true, Traced.outcome_bind, Traced.outcome_touch, Traced.outcome_pure]
      cases mp.load addr <;> rfl

theorem MemphyStruct.outcome_tracedWrite :
    (mp.tracedWrite addr data).outcome = mp.write addr data := by
  unfold tracedWrite write tracedSeqWrite seqWrite touchStore
  cases mp.rdmflg with
  | false => rfl
  | true =>
      simp only [if_true, Traced.outcome_bind, Traced.outcome_touch, Traced.outcome_pure]
      cases mp.store addr data <;> rfl

theorem outcome_tracedSwapCpCell (junk : Byte) (srcfpn dstfpn : Addr)
    (devices : MemphyStruct × MemphyStruct) (cellidx : Nat) :
    (tracedSwapCpCell junk srcfpn dstfpn devices cellidx).outcome =
      swapCpCell junk srcfpn dstfpn devices cellidx := by
  unfold tracedSwapCpCell swapCpCell
  simp only [Traced.outcome_bind, Traced.outcome_pure, MemphyStruct.outcome_tracedRead,
    MemphyStruct.outcome_tracedWrite]
  rfl

theorem outcome_tracedSwapCpPage (junk : Byte) (mpsrc : MemphyStruct) (srcfpn : Addr)
    (mpdst : MemphyStruct) (dstfpn : Addr) :
    (tracedSwapCpPage junk mpsrc srcfpn mpdst dstfpn).outcome =
      swapCpPage junk mpsrc srcfpn mpdst dstfpn := by
  unfold tracedSwapCpPage swapCpPage
  rw [Traced.outcome_foldlM]
  congr 1
  funext devices cellidx
  exact outcome_tracedSwapCpCell junk srcfpn dstfpn devices cellidx

theorem outcome_tracedMemop (junk : Byte) (krnl : Krnl Proc) (regs : ScRegs) :
    (tracedMemop junk krnl regs).outcome = memop junk krnl regs := by
  unfold tracedMemop
  split
  next hop =>
    unfold memop
    simp only [hop, Traced.outcome_bind, outcome_tracedSwapCpPage, Traced.outcome_pure]
    rfl
  next => rfl

theorem outcome_tracedSysMemmap (pidOf : Proc → Except Fault Word32) (junk : Byte)
    (krnl : Krnl Proc) (pid : Word32) (regs : ScRegs) :
    (tracedSysMemmap pidOf junk krnl pid regs).outcome =
      sysMemmap pidOf junk krnl pid regs := by
  unfold tracedSysMemmap sysMemmap
  rw [Traced.outcome_bind, Traced.outcome_lift]
  congr 1
  funext ⟨caller, found⟩
  cases caller with
  | none => rfl
  | some proc =>
      simp only [Traced.outcome_bind, outcome_tracedMemop, Traced.outcome_pure]
      rfl

end Outcomes

/-! ## Addresses inside a device -/

/-- The address is below the size of the device. -/
def MemphyStruct.HasAddr (mp : MemphyStruct) (addr : Addr) : Prop :=
  (addr.toNat : Int) < mp.maxsz

/-- All addresses of the frame are below the size of the device. -/
def MemphyStruct.HasWholeFrame (mp : MemphyStruct) (fpn : Addr) : Prop :=
  ((fpn.toNat : Int) + 1) * pagingPagesz ≤ mp.maxsz

instance (mp : MemphyStruct) (addr : Addr) : Decidable (mp.HasAddr addr) :=
  inferInstanceAs (Decidable (_ < _))

instance (mp : MemphyStruct) (fpn : Addr) : Decidable (mp.HasWholeFrame fpn) :=
  inferInstanceAs (Decidable (_ ≤ _))

section Devices

variable {mp : MemphyStruct} {addr : Addr}

/-- A random access device that is accessed at all is accessed inside. -/
theorem inside_of_random (hrandom : mp.rdmflg = true)
    (hinside : mp.HasAddr addr ∨ mp.rdmflg = false) :
    DeviceAccess.Inside { maxsz := mp.maxsz, addr := addr } := by
  rcases hinside with haddr | hsequential
  · exact haddr
  · exact absurd (hrandom.symm.trans hsequential) (by decide)

/-- Inside the device the access is inside, and a sequential device makes none. -/
theorem confined_tracedRead_of (hinside : mp.HasAddr addr ∨ mp.rdmflg = false) :
    (mp.tracedRead addr).Confined DeviceAccess.Inside := by
  unfold MemphyStruct.tracedRead MemphyStruct.tracedSeqRead
  cases hrandom : mp.rdmflg with
  | false => exact Traced.confined_pure _
  | true =>
      have haddr := inside_of_random hrandom hinside
      exact (Traced.confined_touch haddr _).bind fun _ _ => Traced.confined_pure _

theorem confined_tracedWrite_of (hinside : mp.HasAddr addr ∨ mp.rdmflg = false) (data : Byte) :
    (mp.tracedWrite addr data).Confined DeviceAccess.Inside := by
  unfold MemphyStruct.tracedWrite MemphyStruct.tracedSeqWrite
  cases hrandom : mp.rdmflg with
  | false => exact Traced.confined_pure _
  | true =>
      have haddr := inside_of_random hrandom hinside
      exact (Traced.confined_touch haddr _).bind fun _ _ => Traced.confined_pure _

/-- A random access device accesses the address whatever it is. -/
theorem mem_accesses_tracedRead (hrandom : mp.rdmflg = true) (addr : Addr) :
    { maxsz := mp.maxsz, addr := addr } ∈ (mp.tracedRead addr).accesses := by
  unfold MemphyStruct.tracedRead
  rw [hrandom]
  exact Traced.mem_accesses_bind.mpr (Or.inl List.mem_cons_self)

theorem mem_accesses_tracedWrite (hrandom : mp.rdmflg = true) (addr : Addr) (data : Byte) :
    { maxsz := mp.maxsz, addr := addr } ∈ (mp.tracedWrite addr data).accesses := by
  unfold MemphyStruct.tracedWrite
  rw [hrandom]
  exact Traced.mem_accesses_bind.mpr (Or.inl List.mem_cons_self)

/-- What `MEMPHY_read` owes for an address: no access outside, and a refusal without a change
when the address is outside. -/
structure ReadSafe (mp : MemphyStruct) (addr : Addr) : Prop where
  inside : (mp.tracedRead addr).Confined DeviceAccess.Inside
  refused : ¬ mp.HasAddr addr → (mp.tracedRead addr).outcome = .ok (none, mp)

/-- What `MEMPHY_write` owes for an address. -/
structure WriteSafe (mp : MemphyStruct) (addr : Addr) (data : Byte) : Prop where
  inside : (mp.tracedWrite addr data).Confined DeviceAccess.Inside
  refused : ¬ mp.HasAddr addr → (mp.tracedWrite addr data).outcome = .ok (-1, mp)

theorem readSafe_iff : ReadSafe mp addr ↔ mp.HasAddr addr ∨ mp.rdmflg = false := by
  constructor
  · intro hsafe
    cases hrandom : mp.rdmflg with
    | false => exact Or.inr rfl
    | true => exact Or.inl (hsafe.inside _ (mem_accesses_tracedRead hrandom addr))
  · intro hinside
    refine { inside := confined_tracedRead_of hinside, refused := fun houtside => ?_ }
    unfold MemphyStruct.tracedRead MemphyStruct.tracedSeqRead
    rw [hinside.resolve_left houtside]
    rfl

theorem writeSafe_iff {data : Byte} :
    WriteSafe mp addr data ↔ mp.HasAddr addr ∨ mp.rdmflg = false := by
  constructor
  · intro hsafe
    cases hrandom : mp.rdmflg with
    | false => exact Or.inr rfl
    | true => exact Or.inl (hsafe.inside _ (mem_accesses_tracedWrite hrandom addr data))
  · intro hinside
    refine { inside := confined_tracedWrite_of hinside data, refused := fun houtside => ?_ }
    unfold MemphyStruct.tracedWrite MemphyStruct.tracedSeqWrite
    rw [hinside.resolve_left houtside]
    rfl

end Devices

/-! ## The copying loop -/

/-- A cell of a frame inside the device is inside, also where the multiplication wraps. -/
theorem hasAddr_of_hasWholeFrame {mp : MemphyStruct} {fpn : Addr} (hframe : mp.HasWholeFrame fpn)
    {cellidx : Nat} (hcell : cellidx < pagingPagesz) :
    mp.HasAddr (fpn * BitVec.ofNat 64 pagingPagesz + BitVec.ofNat 64 cellidx) := by
  have hle : (fpn * BitVec.ofNat 64 pagingPagesz + BitVec.ofNat 64 cellidx).toNat ≤
      fpn.toNat * pagingPagesz + cellidx := by
    rw [BitVec.toNat_add, BitVec.toNat_mul, BitVec.toNat_ofNat, BitVec.toNat_ofNat]
    unfold pagingPagesz at hcell ⊢
    omega
  unfold MemphyStruct.HasWholeFrame at hframe
  unfold MemphyStruct.HasAddr
  unfold pagingPagesz at *
  omega

theorem confined_tracedSwapCpPage {junk : Byte} {mpsrc mpdst : MemphyStruct}
    {srcfpn dstfpn : Addr} (hsrc : mpsrc.HasWholeFrame srcfpn)
    (hdst : mpdst.HasWholeFrame dstfpn) :
    (tracedSwapCpPage junk mpsrc srcfpn mpdst dstfpn).Confined DeviceAccess.Inside := by
  unfold tracedSwapCpPage
  refine Traced.confined_foldlM (fun devices : MemphyStruct × MemphyStruct =>
    devices.1.HasWholeFrame srcfpn ∧ devices.2.HasWholeFrame dstfpn) ⟨hsrc, hdst⟩ ?_ ?_
  · rintro devices cellidx hcell ⟨hfirst, hsecond⟩
    have hlt := List.mem_range.mp hcell
    unfold tracedSwapCpCell
    refine (confined_tracedRead_of (Or.inl (hasAddr_of_hasWholeFrame hfirst hlt))).bind ?_
    rintro ⟨data, mpsrc⟩ -
    refine (confined_tracedWrite_of (Or.inl (hasAddr_of_hasWholeFrame hsecond hlt)) _).bind ?_
    rintro ⟨status, mpdst⟩ -
    exact Traced.confined_pure _
  · rintro devices cellidx next ⟨hfirst, hsecond⟩ hround
    rw [outcome_tracedSwapCpCell] at hround
    obtain ⟨hsame, hother⟩ := sameFrames_swapCpCell hround
    unfold MemphyStruct.HasWholeFrame at hfirst hsecond ⊢
    rw [hsame.maxsz, hother.maxsz]
    exact ⟨hfirst, hsecond⟩

/-- The storage has every address below the size of the device. -/
def MemphyStruct.Backed (mp : MemphyStruct) : Prop := mp.maxsz ≤ mp.storage.length

instance (mp : MemphyStruct) : Decidable mp.Backed := inferInstanceAs (Decidable (_ ≤ _))

/-- `init_memphy` allocates no less than it says, whatever the size. -/
theorem backed_initMemphy (mp : MemphyStruct) (maxSize : Addr) (randomflg : Int)
    (garbage : ListEnd) : (initMemphy mp maxSize randomflg garbage).Backed := by
  unfold MemphyStruct.Backed
  rw [maxsz_initMemphy, storage_initMemphy, List.length_replicate]
  exact toCInt_le maxSize

/-- Inside, a device is read without a fault. -/
theorem exists_read {mp : MemphyStruct} {addr : Addr} (hbacked : mp.Backed)
    (haddr : mp.HasAddr addr) : ∃ value, mp.read addr = .ok (value, mp) := by
  unfold MemphyStruct.Backed at hbacked
  unfold MemphyStruct.HasAddr at haddr
  cases hrandom : mp.rdmflg with
  | true => exact ⟨_, read_of_lt hrandom (by omega)⟩
  | false =>
      refine ⟨none, ?_⟩
      unfold MemphyStruct.read MemphyStruct.seqRead
      rw [hrandom]
      rfl

/-- Inside, a device is written without a fault, and stays as large. -/
theorem exists_write {mp : MemphyStruct} {addr : Addr} (hbacked : mp.Backed)
    (haddr : mp.HasAddr addr) (data : Byte) :
    ∃ status written, mp.write addr data = .ok (status, written) ∧ written.Backed ∧
      written.maxsz = mp.maxsz := by
  obtain ⟨status, written, hwrite⟩ : ∃ status written,
      mp.write addr data = .ok (status, written) := by
    unfold MemphyStruct.Backed at hbacked
    unfold MemphyStruct.HasAddr at haddr
    cases hrandom : mp.rdmflg with
    | true => exact ⟨0, _, write_of_lt hrandom (by omega) data⟩
    | false =>
        refine ⟨-1, mp, ?_⟩
        unfold MemphyStruct.write MemphyStruct.seqWrite
        rw [hrandom]
        rfl
  obtain ⟨hsame, hlength, -⟩ := MemphyStruct.write_eq_ok hwrite
  refine ⟨status, written, hwrite, ?_, hsame.maxsz⟩
  unfold MemphyStruct.Backed
  rw [hsame.maxsz, hlength]
  exact hbacked

/-- Between frames inside the devices a cell is copied, and both devices stay as large. -/
theorem exists_swapCpCell (junk : Byte) {devices : MemphyStruct × MemphyStruct}
    {srcfpn dstfpn : Addr} (hsrc : devices.1.Backed ∧ devices.1.HasWholeFrame srcfpn)
    (hdst : devices.2.Backed ∧ devices.2.HasWholeFrame dstfpn) {cellidx : Nat}
    (hcell : cellidx < pagingPagesz) :
    ∃ next, swapCpCell junk srcfpn dstfpn devices cellidx = .ok next ∧
      (next.1.Backed ∧ next.1.HasWholeFrame srcfpn) ∧
        (next.2.Backed ∧ next.2.HasWholeFrame dstfpn) := by
  obtain ⟨value, hread⟩ := exists_read hsrc.1 (hasAddr_of_hasWholeFrame hsrc.2 hcell)
  obtain ⟨status, written, hwrite, hbacked, hmaxsz⟩ :=
    exists_write hdst.1 (hasAddr_of_hasWholeFrame hdst.2 hcell) (value.getD junk)
  refine ⟨(devices.1, written), ?_, hsrc, hbacked, ?_⟩
  · unfold swapCpCell
    simp only [hread, hwrite, ok_bind]
    rfl
  · unfold MemphyStruct.HasWholeFrame
    rw [hmaxsz]
    exact hdst.2

/-- Between frames inside the devices the copy completes. -/
theorem exists_swapCpPage (junk : Byte) {mpsrc mpdst : MemphyStruct} {srcfpn dstfpn : Addr}
    (hsrc : mpsrc.Backed ∧ mpsrc.HasWholeFrame srcfpn)
    (hdst : mpdst.Backed ∧ mpdst.HasWholeFrame dstfpn) :
    ∃ result, swapCpPage junk mpsrc srcfpn mpdst dstfpn = .ok result := by
  obtain ⟨result, hcopy, -⟩ : ∃ result, swapCpPage junk mpsrc srcfpn mpdst dstfpn = .ok result ∧
      (result.1.Backed ∧ result.1.HasWholeFrame srcfpn) ∧
        (result.2.Backed ∧ result.2.HasWholeFrame dstfpn) := by
    unfold swapCpPage
    refine exists_foldlM (fun devices : MemphyStruct × MemphyStruct =>
      (devices.1.Backed ∧ devices.1.HasWholeFrame srcfpn) ∧
        (devices.2.Backed ∧ devices.2.HasWholeFrame dstfpn)) ⟨hsrc, hdst⟩ ?_
    rintro devices cellidx hcellidx ⟨hfirst, hsecond⟩
    exact exists_swapCpCell junk hfirst hsecond (List.mem_range.mp hcellidx)
  exact ⟨result, hcopy⟩

/-! ## The system call -/

namespace ScRegs

/-- The address, or both frames, that the operation names are inside their devices. -/
def Inside (krnl : Krnl Proc) (regs : ScRegs) : Prop :=
  match toCInt regs.a1 with
  | 3 => krnl.mram.HasWholeFrame regs.a2 ∧ krnl.activeMswp.HasWholeFrame regs.a3
  | 4 => krnl.mram.HasAddr regs.a2
  | 5 => krnl.mram.HasAddr regs.a2
  | _ => True

/-- The operation is one of those on the devices. -/
def OnDevices (regs : ScRegs) : Prop :=
  toCInt regs.a1 = 3 ∨ toCInt regs.a1 = 4 ∨ toCInt regs.a1 = 5

/-- All accesses are inside the devices, the call comes back, and an operation that is not inside
is refused and changes no device. -/
structure AccessSafe (pidOf : Proc → Except Fault Word32) (junk : Byte) (krnl : Krnl Proc)
    (pid : Word32) (regs : ScRegs) : Prop where
  inside : (tracedSysMemmap pidOf junk krnl pid regs).Confined DeviceAccess.Inside
  returns : ∃ result, (tracedSysMemmap pidOf junk krnl pid regs).outcome = .ok result
  refused : ¬ regs.Inside krnl → ∃ next after,
    (tracedSysMemmap pidOf junk krnl pid regs).outcome = .ok (-1, next, after) ∧
      next.mram = krnl.mram ∧ next.activeMswp = krnl.activeMswp

variable {pidOf : Proc → Except Fault Word32} {junk : Byte} {krnl : Krnl Proc} {pid : Word32}
  {regs : ScRegs}

/-- What is inside a device stays there when its number is narrowed. -/
theorem hasWholeFrame_toAddr32 {mp : MemphyStruct} {fpn : Addr} (hframe : mp.HasWholeFrame fpn) :
    mp.HasWholeFrame (toAddr32 fpn) := by
  have hle := toAddr32_toNat_le fpn
  unfold MemphyStruct.HasWholeFrame at hframe ⊢
  unfold pagingPagesz at *
  omega

theorem confined_tracedMemop (hinside : regs.Inside krnl) :
    (tracedMemop junk krnl regs).Confined DeviceAccess.Inside := by
  unfold tracedMemop
  split
  next hop =>
    simp only [Inside, hop] at hinside
    refine (confined_tracedSwapCpPage (hasWholeFrame_toAddr32 hinside.1)
      (hasWholeFrame_toAddr32 hinside.2)).bind ?_
    rintro ⟨mram, activeMswp⟩ -
    exact Traced.confined_pure _
  next => exact Traced.confined_lift _

/-- The operations on single bytes never return. -/
theorem copies_of_memop {result : Krnl Proc × ScRegs} (hop : regs.OnDevices)
    (hmemop : memop junk krnl regs = .ok result) : toCInt regs.a1 = 3 := by
  rcases hop with hcopy | hread | hwrite
  · exact hcopy
  · unfold memop at hmemop
    simp only [hread] at hmemop
    cases hmemop
  · unfold memop at hmemop
    simp only [hwrite] at hmemop
    cases hmemop

theorem exists_memop (hcopy : toCInt regs.a1 = 3) (hmram : krnl.mram.Backed)
    (hmswp : krnl.activeMswp.Backed) (hinside : regs.Inside krnl) :
    ∃ result, memop junk krnl regs = .ok result := by
  simp only [Inside, hcopy] at hinside
  obtain ⟨devices, hcompletes⟩ := exists_swapCpPage junk
    ⟨hmram, hasWholeFrame_toAddr32 hinside.1⟩ ⟨hmswp, hasWholeFrame_toAddr32 hinside.2⟩
  refine ⟨({ krnl with mram := devices.1, activeMswp := devices.2 }, regs), ?_⟩
  unfold memop
  simp only [hcopy, hcompletes, ok_bind]
  rfl

/-- The system call refuses only a caller that it does not find. -/
theorem notFound_of_refused {after : ScRegs} {next : Krnl Proc}
    (hcall : sysMemmap pidOf junk krnl pid regs = .ok (-1, next, after)) :
    findCaller pidOf krnl pid = .ok (none, next) := by
  obtain ⟨⟨caller, found⟩, hfind, hcall⟩ := bind_eq_ok.mp hcall
  cases caller with
  | none =>
      cases hcall
      exact hfind
  | some proc =>
      obtain ⟨_, _, hcall⟩ := bind_eq_ok.mp hcall
      cases hcall

/-- A copy inside the devices makes no other access, and comes back. -/
theorem accessSafe_of_inside {proc : Proc} {found : Krnl Proc}
    (hfind : findCaller pidOf krnl pid = .ok (some proc, found)) (hcopy : toCInt regs.a1 = 3)
    (hmram : krnl.mram.Backed) (hmswp : krnl.activeMswp.Backed) (hinside : regs.Inside krnl) :
    regs.AccessSafe pidOf junk krnl pid := by
  -- the search for the caller leaves the devices alone
  have hfound : found = { krnl with runningList := found.runningList } := findCaller_eq_ok hfind
  have hfoundInside : regs.Inside found := by
    rw [hfound]
    exact hinside
  have htraced : tracedSysMemmap pidOf junk krnl pid regs =
      tracedMemop junk found regs >>= fun result => pure (0, result.1, result.2) := by
    unfold tracedSysMemmap
    rw [hfind]
    rfl
  refine { inside := ?_, returns := ?_, refused := fun houtside => absurd hinside houtside }
  · rw [htraced]
    exact (confined_tracedMemop hfoundInside).bind fun _ _ => Traced.confined_pure _
  · have hbacked : found.mram.Backed ∧ found.activeMswp.Backed := by
      rw [hfound]
      exact ⟨hmram, hmswp⟩
    obtain ⟨result, hmemop⟩ : ∃ result, memop junk found regs = .ok result :=
      exists_memop hcopy hbacked.1 hbacked.2 hfoundInside
    refine ⟨(0, result.1, result.2), ?_⟩
    rw [htraced, Traced.outcome_bind, outcome_tracedMemop, hmemop]
    rfl

/-- A caller that is not found accesses nothing. -/
theorem accessSafe_of_notFound {next : Krnl Proc}
    (hfind : findCaller pidOf krnl pid = .ok (none, next)) :
    regs.AccessSafe pidOf junk krnl pid := by
  have htraced : tracedSysMemmap pidOf junk krnl pid regs = pure (-1, next, regs) := by
    unfold tracedSysMemmap
    rw [hfind]
    rfl
  have hnext : next = { krnl with runningList := next.runningList } := findCaller_eq_ok hfind
  constructor
  · rw [htraced]
    exact Traced.confined_pure _
  · rw [htraced]
    exact ⟨_, rfl⟩
  · intro _
    refine ⟨next, regs, ?_, ?_, ?_⟩
    · rw [htraced]
      rfl
    · rw [hnext]
    · rw [hnext]

/-- A system call on the devices is safe exactly when its caller is not found, or it copies
between two frames inside them. The device functions themselves are safe inside the device, and
where it is sequential. -/
theorem accessSafe_iff (pidOf : Proc → Except Fault Word32) (junk : Byte) (krnl : Krnl Proc)
    (pid : Word32) (regs : ScRegs) (hop : regs.OnDevices) (hmram : krnl.mram.Backed)
    (hmswp : krnl.activeMswp.Backed) :
    (regs.AccessSafe pidOf junk krnl pid ↔
        ∃ caller next, findCaller pidOf krnl pid = .ok (caller, next) ∧
          (caller = none ∨ toCInt regs.a1 = 3 ∧ regs.Inside krnl)) ∧
      ∀ mp addr data,
        (ReadSafe mp addr ↔ mp.HasAddr addr ∨ mp.rdmflg = false) ∧
        (WriteSafe mp addr data ↔ mp.HasAddr addr ∨ mp.rdmflg = false) := by
  refine ⟨⟨fun hsafe => ?_, ?_⟩, fun mp addr data => ⟨readSafe_iff, writeSafe_iff⟩⟩
  · obtain ⟨result, hreturns⟩ := hsafe.returns
    rw [outcome_tracedSysMemmap] at hreturns
    obtain ⟨⟨caller, found⟩, hfind, hrest⟩ := bind_eq_ok.mp hreturns
    refine ⟨caller, found, hfind, ?_⟩
    cases caller with
    | none => exact Or.inl rfl
    | some proc =>
        obtain ⟨done, hmemop, -⟩ := bind_eq_ok.mp hrest
        refine Or.inr ⟨copies_of_memop hop hmemop, ?_⟩
        by_contra houtside
        obtain ⟨next, after, hrefused, -⟩ := hsafe.refused houtside
        rw [outcome_tracedSysMemmap] at hrefused
        cases hfind.symm.trans (notFound_of_refused hrefused)
  · rintro ⟨caller, next, hfind, hcond⟩
    cases caller with
    | none => exact accessSafe_of_notFound hfind
    | some proc =>
        obtain ⟨hcopy, hinside⟩ := hcond.resolve_left (Option.some_ne_none proc)
        exact accessSafe_of_inside hfind hcopy hmram hmswp hinside

/-- With a RAM of 1024 bytes, a process may copy the last frame. -/
theorem accessSafe_lastFrame :
    AccessSafe (fun _ => .ok 1) 0 singleProcess 1 { a1 := 3, a2 := 3, a3 := 0 } :=
  (accessSafe_iff (fun _ => .ok 1) 0 singleProcess 1 { a1 := 3, a2 := 3, a3 := 0 }
    (Or.inl (by decide)) (by decide +kernel) (by decide +kernel)).1.mpr
      ⟨some (), singleProcess, by rfl, Or.inr ⟨by decide, by decide +kernel, by decide +kernel⟩⟩

/-- A copy of the frame after it reads past the end of RAM. -/
theorem not_accessSafe_pastEnd :
    ¬ AccessSafe (fun _ => .ok 1) 0 singleProcess 1 { a1 := 3, a2 := 4, a3 := 0 } := by
  intro hsafe
  have haccess := hsafe.inside { maxsz := 1024, addr := 1024 } (by decide +kernel)
  exact absurd haccess (by decide)

end ScRegs

end SimpleOs
