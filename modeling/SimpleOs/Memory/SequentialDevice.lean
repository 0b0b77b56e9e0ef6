import SimpleOs.Foundation.Replies
import SimpleOs.Memory.SwapCopy

/-! # Sequential and random access devices

Reads and writes of a device as calls that it answers with a status and, for a read, a byte.
A random access device answers calls inside its storage as a flat memory does. The functions
for a sequential device begin with a test for the other mode, so it refuses every call, and
the two kinds of device agree on the empty sequence only.
-/

namespace SimpleOs

/-- `MEMPHY_read` and `MEMPHY_write` as calls. -/
inductive DeviceCall where
  | read (addr : Addr)
  | write (addr : Addr) (data : Byte)
  deriving DecidableEq

def DeviceCall.addr : DeviceCall → Addr
  | .read addr => addr
  | .write addr _ => addr

/-- The status of a call, with the byte that a read delivers. -/
structure DeviceReply where
  status : Int
  value : Option Byte
  deriving DecidableEq

namespace MemphyStruct

/-- The device under one call. -/
def answer (mp : MemphyStruct) : DeviceCall → Except Fault (DeviceReply × MemphyStruct)
  | .read addr =>
      (mp.read addr).map fun (value, mp) =>
        ({ status := if value.isSome then 0 else -1, value := value }, mp)
  | .write addr data =>
      (mp.write addr data).map fun (status, mp) => ({ status := status, value := none }, mp)

/-- The replies of the device to a sequence of calls. -/
def replies (mp : MemphyStruct) (calls : List DeviceCall) : Except Fault (List DeviceReply) :=
  Replies.attempt answer mp calls

end MemphyStruct

/-! ## The components behind the devices -/

/-- A flat memory: a read delivers what was written last. -/
def flatMemory (memory : Addr → Byte) : DeviceCall → DeviceReply × (Addr → Byte)
  | .read addr => ({ status := 0, value := some (memory addr) }, memory)
  | .write addr data => ({ status := 0, value := none }, Function.update memory addr data)

/-- A component that refuses every call. -/
def refusal (state : Unit) (_ : DeviceCall) : DeviceReply × Unit :=
  ({ status := -1, value := none }, state)

/-- A random access device of the given size whose storage is the start of the memory. -/
structure MemphyStruct.Holds (size : Nat) (mp : MemphyStruct) (memory : Addr → Byte) : Prop where
  random : mp.rdmflg = true
  storage : ∀ addr : Addr, addr.toNat < size → mp.storage[addr.toNat]? = some (memory addr)

theorem MemphyStruct.Holds.getElem_eq {size : Nat} {mp : MemphyStruct} {memory : Addr → Byte}
    (hholds : mp.Holds size memory) {addr : Addr} (hinside : addr.toNat < size) :
    ∃ hlt : addr.toNat < mp.storage.length, mp.storage[addr.toNat] = memory addr :=
  List.getElem?_eq_some_iff.mp (hholds.storage addr hinside)

/-- A random access device answers calls inside its storage as a flat memory. -/
theorem simulates_flatMemory (size : Nat) :
    Replies.Simulates MemphyStruct.answer flatMemory (MemphyStruct.Holds size)
      fun call => call.addr.toNat < size := by
  intro mp memory call hholds hinside
  cases call with
  | read addr =>
      change addr.toNat < size at hinside
      obtain ⟨hlt, hvalue⟩ := hholds.getElem_eq hinside
      refine ⟨mp, ?_, hholds⟩
      simp only [MemphyStruct.answer, read_of_lt hholds.random hlt, hvalue]
      rfl
  | write addr data =>
      change addr.toNat < size at hinside
      obtain ⟨hlt, -⟩ := hholds.getElem_eq hinside
      refine ⟨{ mp with storage := mp.storage.set addr.toNat data }, ?_, hholds.random, ?_⟩
      · simp only [MemphyStruct.answer, write_of_lt hholds.random hlt]
        rfl
      · intro other hother
        change (mp.storage.set addr.toNat data)[other.toNat]? =
          some (Function.update memory addr data other)
        by_cases hsame : other = addr
        · subst hsame
          rw [Function.update_self]
          exact List.getElem?_set_self hlt
        · have hne : addr.toNat ≠ other.toNat := fun h => hsame (BitVec.eq_of_toNat_eq h.symm)
          rw [Function.update_of_ne hsame, List.getElem?_set_ne hne, hholds.storage other hother]

/-- A sequential device refuses every call, wherever it goes. -/
theorem simulates_refusal :
    Replies.Simulates MemphyStruct.answer refusal (fun mp _ => mp.rdmflg = false)
      fun _ => True := by
  intro mp state call hsequential _
  refine ⟨mp, ?_, hsequential⟩
  cases call with
  | read addr =>
      unfold MemphyStruct.answer MemphyStruct.read MemphyStruct.seqRead
      rw [hsequential]
      rfl
  | write addr data =>
      unfold MemphyStruct.answer MemphyStruct.write MemphyStruct.seqWrite
      rw [hsequential]
      rfl

/-! ## The two kinds of device -/

theorem rdmflg_initMemphy (mp : MemphyStruct) (maxSize : Addr) (randomflg : Int)
    (garbage : ListEnd) :
    (initMemphy mp maxSize randomflg garbage).rdmflg = (randomflg != 0) := by
  unfold initMemphy
  simp only
  split <;> rfl

theorem storage_initMemphy (mp : MemphyStruct) (maxSize : Addr) (randomflg : Int)
    (garbage : ListEnd) :
    (initMemphy mp maxSize randomflg garbage).storage = List.replicate maxSize.toNat 0 := by
  unfold initMemphy MemphyStruct.format
  simp only
  split <;> split <;> rfl

theorem maxsz_initMemphy (mp : MemphyStruct) (maxSize : Addr) (randomflg : Int)
    (garbage : ListEnd) : (initMemphy mp maxSize randomflg garbage).maxsz = toCInt maxSize := by
  unfold initMemphy MemphyStruct.format
  simp only
  split <;> split <;> rfl

/-- A new random access device holds zeros. -/
theorem holds_initMemphy (mp : MemphyStruct) (maxSize : Addr) (garbage : ListEnd) :
    (initMemphy mp maxSize 1 garbage).Holds maxSize.toNat fun _ => 0 where
  random := rdmflg_initMemphy mp maxSize 1 garbage
  storage addr hinside := by
    rw [storage_initMemphy, List.getElem?_replicate, if_pos hinside]

variable {maxSize : Addr} {calls : List DeviceCall}

/-- A new random access device answers as a memory of zeros. -/
theorem replies_of_random (mp : MemphyStruct) (garbage : ListEnd)
    (hbelow : ∀ call ∈ calls, call.addr < maxSize) :
    (initMemphy mp maxSize 1 garbage).replies calls =
      .ok (Replies.replies flatMemory (fun _ => 0) calls) :=
  (simulates_flatMemory maxSize.toNat).attempt_eq (holds_initMemphy mp maxSize garbage)
    fun call hcall => BitVec.lt_def.mp (hbelow call hcall)

/-- A new sequential device refuses every call. -/
theorem replies_of_sequential (mp : MemphyStruct) (garbage : ListEnd)
    (calls : List DeviceCall) :
    (initMemphy mp maxSize 0 garbage).replies calls =
      .ok (Replies.replies refusal () calls) :=
  simulates_refusal.attempt_eq (rdmflg_initMemphy mp maxSize 0 garbage) fun _ _ => trivial

/-- A flat memory accepts every call, so its first reply is not a refusal. -/
theorem flatMemory_status (memory : Addr → Byte) (call : DeviceCall) :
    (flatMemory memory call).1.status = 0 := by
  cases call with
  | read addr => rfl
  | write addr data => rfl

/-- The two kinds of device agree on a sequence of calls exactly when it is empty. -/
theorem replies_agree_iff (sequential random : MemphyStruct) (garbage stale : ListEnd)
    (hbelow : ∀ call ∈ calls, call.addr < maxSize) :
    (initMemphy sequential maxSize 0 garbage).replies calls =
        (initMemphy random maxSize 1 stale).replies calls ↔
      calls = [] := by
  rw [replies_of_sequential, replies_of_random random stale hbelow]
  constructor
  · intro hagree
    cases calls with
    | nil => rfl
    | cons call rest =>
        have hfirst := (List.cons.inj (Except.ok.inj hagree)).1
        have hstatus := flatMemory_status (fun _ => 0) call
        rw [← hfirst] at hstatus
        cases hstatus
  · rintro rfl
    rfl

/-- A device before its initialization. -/
def unformatted : MemphyStruct where
  storage := []
  maxsz := 0
  rdmflg := false
  cursor := 0
  freeFpList := { nodes := [], stop := .null }

/-- On a single read the two kinds differ. -/
theorem replies_agree_iff_read :
    (initMemphy unformatted 1024 0 .null).replies [.read 5] ≠
      (initMemphy unformatted 1024 1 .null).replies [.read 5] :=
  mt (replies_agree_iff unformatted unformatted .null .null (by decide)).mp (List.cons_ne_nil _ _)

/-- A write that a random access device accepts is refused by a sequential one. -/
theorem not_replies_agree :
    ¬ ∀ calls : List DeviceCall, (∀ call ∈ calls, call.addr < 1024) →
      (initMemphy unformatted 1024 0 .null).replies calls =
        (initMemphy unformatted 1024 1 .null).replies calls := by
  intro hagree
  have hbelow : ∀ call ∈ [DeviceCall.write 0 7], call.addr < 1024 := by decide
  have hreplies := hagree [.write 0 7] hbelow
  rw [replies_of_sequential, replies_of_random unformatted .null hbelow] at hreplies
  exact absurd hreplies (by decide)

end SimpleOs
