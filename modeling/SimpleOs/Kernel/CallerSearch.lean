import Mathlib.Data.List.Perm.Basic
import SimpleOs.Kernel.LibCall

/-! # The search for the caller

The search of a system call rotates `running_list`: each process it looks at goes from the
front to the end. So it neither loses nor adds an entry, and nothing else in the memory
library or in a system call touches the list.
-/

namespace SimpleOs

variable {Proc : Type} {pidOf : Proc → Except Fault Word32} {junk : Byte}
  {krnl next : Krnl Proc} {pid : Word32}

/-- Taking the front and putting it back at the end. -/
theorem items_rotate {list : ProcQueue Proc} {proc : Proc} {rest : List Proc}
    (hitems : list.items = proc :: rest) :
    (list.dequeue.2.enqueue proc).items = rest ++ [proc] := by
  have hlength := list.items_length_le
  have htail : list.dequeue.2.items = rest := by
    rw [ProcQueue.items_dequeue, hitems, List.tail_cons]
  rw [hitems, List.length_cons] at hlength
  -- the slot that the front leaves is the room it needs at the end
  rw [ProcQueue.items_enqueue_of_lt (by rw [htail]; omega), htail]

theorem searchPid_succ_of_cons {list : ProcQueue Proc} {proc : Proc} {rest : List Proc}
    (hitems : list.items = proc :: rest) (count : Nat) :
    searchPid pidOf pid (count + 1) list = (do
      let procPid ← pidOf proc
      if procPid = pid then return (some proc, list.dequeue.2.enqueue proc)
      else searchPid pidOf pid count (list.dequeue.2.enqueue proc)) := by
  have hfront : list.dequeue = (some proc, list.dequeue.2) := by
    refine Prod.ext ?_ rfl
    rw [ProcQueue.dequeue_fst, hitems]
    rfl
  rw [searchPid, hfront]

theorem searchPid_succ_of_nil {list : ProcQueue Proc} (hitems : list.items = []) (count : Nat) :
    searchPid pidOf pid (count + 1) list = searchPid pidOf pid count list.dequeue.2 := by
  have hfront : list.dequeue = (none, list.dequeue.2) := by
    refine Prod.ext ?_ rfl
    rw [ProcQueue.dequeue_fst, hitems]
    rfl
  rw [searchPid, hfront]

/-- The search permutes the list. -/
theorem searchPid_perm {count : Nat} {list after : ProcQueue Proc} {caller : Option Proc}
    (hsearch : searchPid pidOf pid count list = .ok (caller, after)) :
    after.items.Perm list.items := by
  induction count generalizing list with
  | zero =>
      cases hsearch
      exact List.Perm.refl _
  | succ count ih =>
      cases hitems : list.items with
      | nil =>
          rw [searchPid_succ_of_nil hitems] at hsearch
          have hperm := ih hsearch
          rwa [ProcQueue.items_dequeue, hitems] at hperm
      | cons proc rest =>
          rw [searchPid_succ_of_cons hitems] at hsearch
          obtain ⟨procPid, hpid, hrest⟩ := bind_eq_ok.mp hsearch
          have hrotate : (list.dequeue.2.enqueue proc).items.Perm (proc :: rest) := by
            rw [items_rotate hitems]
            exact List.perm_append_singleton proc rest
          split at hrest
          next =>
            cases hrest
            exact hrotate
          next => exact (ih hrest).trans hrotate

/-- When every process in front of a match can be asked for its pid, the match is found. -/
theorem searchPid_finds {list : ProcQueue Proc} {before after : List Proc} {proc : Proc}
    (hitems : list.items = before ++ proc :: after) (hproc : pidOf proc = .ok pid)
    (hbefore : ∀ other ∈ before, ∃ otherPid, pidOf other = .ok otherPid ∧ otherPid ≠ pid)
    {count : Nat} (hcount : before.length < count) :
    ∃ found, searchPid pidOf pid count list = .ok (some proc, found) := by
  induction before generalizing list count after with
  | nil =>
      obtain ⟨count, rfl⟩ := Nat.exists_eq_succ_of_ne_zero (Nat.ne_of_gt hcount)
      rw [searchPid_succ_of_cons hitems, hproc, ok_bind, if_pos rfl]
      exact ⟨_, rfl⟩
  | cons other rest ih =>
      obtain ⟨count, rfl⟩ := Nat.exists_eq_succ_of_ne_zero (Nat.ne_of_gt (Nat.zero_lt_of_lt hcount))
      obtain ⟨otherPid, hotherPid, hne⟩ := hbefore other List.mem_cons_self
      rw [List.cons_append] at hitems
      rw [searchPid_succ_of_cons hitems, hotherPid, ok_bind, if_neg hne]
      have hrotated : (list.dequeue.2.enqueue other).items =
          rest ++ proc :: (after ++ [other]) := by
        rw [items_rotate hitems, List.append_assoc, List.cons_append]
      exact ih hrotated (fun later hlater => hbefore later (List.mem_cons_of_mem _ hlater))
        (Nat.lt_of_succ_lt_succ hcount)

/-- A process of the list is found by its pid, if all pids can be read and no other process
of the list has it. -/
theorem findCaller_finds {proc : Proc} (hmem : proc ∈ krnl.runningList.items)
    (hproc : pidOf proc = .ok pid)
    (hothers : ∀ other ∈ krnl.runningList.items, ∃ otherPid,
      pidOf other = .ok otherPid ∧ (otherPid = pid → other = proc)) :
    ∃ found, findCaller pidOf krnl pid = .ok (some proc, found) := by
  -- the search stops at the first entry of the process
  obtain ⟨before, after, hitems, hnotMem⟩ := List.eq_append_cons_of_mem hmem
  have hbefore : ∀ other ∈ before, ∃ otherPid, pidOf other = .ok otherPid ∧ otherPid ≠ pid := by
    intro other hother
    obtain ⟨otherPid, hotherPid, hsame⟩ :=
      hothers other (hitems ▸ List.mem_append_left _ hother)
    exact ⟨otherPid, hotherPid, fun heq => hnotMem (hsame heq ▸ hother)⟩
  have hcount : before.length < krnl.runningList.size := by
    rw [ProcQueue.size_eq, hitems, List.length_append, List.length_cons]
    omega
  obtain ⟨list, hlist⟩ := searchPid_finds hitems hproc hbefore hcount
  exact ⟨_, map_eq_ok.mpr ⟨_, hlist, rfl⟩⟩

/-! ## Nothing else touches the list -/

theorem findCaller_perm {caller : Option Proc}
    (hfind : findCaller pidOf krnl pid = .ok (caller, next)) :
    next.runningList.items.Perm krnl.runningList.items := by
  obtain ⟨⟨found, list⟩, hsearch, hresult⟩ := map_eq_ok.mp hfind
  cases hresult
  exact searchPid_perm hsearch

theorem memop_runningList {regs after : ScRegs} (hop : memop junk krnl regs = .ok (next, after)) :
    next.runningList = krnl.runningList := by
  have hdone : ∀ {Value : Type} {first : Except Fault Value} {result : Value → Krnl Proc × ScRegs},
      (∀ value, (result value).1.runningList = krnl.runningList) →
      (first >>= fun value => Except.ok (result value)) = .ok (next, after) →
      next.runningList = krnl.runningList := by
    intro Value first result hresult hcompletes
    obtain ⟨value, -, hpair⟩ := bind_eq_ok.mp hcompletes
    rw [← hresult value, Except.ok.inj hpair]
  unfold memop at hop
  split at hop
  next => exact hdone (fun _ => rfl) hop
  next => exact hdone (fun _ => rfl) hop
  next => exact hdone (fun _ => rfl) hop
  next => cases hop
  next => cases hop
  next =>
    cases hop
    rfl

theorem syscall_perm {nr : Word32} {regs after : ScRegs} {status : Int}
    (hcall : syscall pidOf junk krnl pid nr regs = .ok (status, next, after)) :
    next.runningList.items.Perm krnl.runningList.items := by
  have hmemmap : ∀ {regs after : ScRegs} {status : Int},
      sysMemmap pidOf junk krnl pid regs = .ok (status, next, after) →
        next.runningList.items.Perm krnl.runningList.items := by
    intro regs after status hcall
    obtain ⟨⟨caller, found⟩, hfind, hrest⟩ := bind_eq_ok.mp hcall
    cases caller with
    | none =>
        cases hrest
        exact findCaller_perm hfind
    | some proc =>
        obtain ⟨⟨moved, left⟩, hop, hdone⟩ := bind_eq_ok.mp hrest
        cases hdone
        rw [memop_runningList hop]
        exact findCaller_perm hfind
  unfold syscall at hcall
  split at hcall
  next => exact hmemmap hcall
  next => exact hmemmap hcall
  next =>
    obtain ⟨⟨value, found⟩, hxxx, hdone⟩ := bind_eq_ok.mp hcall
    cases hdone
    obtain ⟨⟨caller, searched⟩, hfind, hrest⟩ := bind_eq_ok.mp hxxx
    cases caller <;> cases hrest <;> exact findCaller_perm hfind
  next =>
    cases hcall
    exact List.Perm.refl _

theorem alloc_perm {vmaid rgid status : Int} {size : Addr} {addr : Option Addr}
    (halloc : alloc pidOf junk krnl pid vmaid rgid size = .ok (status, addr, next)) :
    next.runningList.items.Perm krnl.runningList.items := by
  obtain ⟨found, mm, -, hends⟩ := alloc_ends halloc
  cases hends with
  | taken hset => exact List.Perm.refl _
  | noArea hlookup => exact List.Perm.refl _
  | grown hlookup hvma hregs hcall hset =>
      have hperm := syscall_perm hcall
      exact hperm

theorem dumpPgtbl_runningList (hdump : dumpPgtbl krnl = .ok next) :
    next.runningList = krnl.runningList := by
  obtain ⟨mm, -, hdone⟩ := map_eq_ok.mp hdump
  cases hdone
  rfl

theorem pgGetpage_runningList {pgn : Addr} {fpn : Option Word32}
    (hget : pgGetpage krnl pgn = .ok (fpn, next)) : next.runningList = krnl.runningList := by
  unfold pgGetpage at hget
  simp only at hget
  split at hget
  next =>
    cases hget
    rfl
  next =>
    obtain ⟨⟨vicpgn, mm⟩, -, hrest⟩ := bind_eq_ok.mp hget
    cases vicpgn with
    | none =>
        cases hrest
        rfl
    | some victim =>
        obtain ⟨⟨swpfpn, activeMswp⟩, -, hrest⟩ := bind_eq_ok.mp hrest
        cases swpfpn <;> cases hrest <;> rfl

theorem pgGetval_runningList {addr : Word32} {data : Option Byte}
    (hget : pgGetval krnl addr = .ok (data, next)) : next.runningList = krnl.runningList := by
  obtain ⟨⟨fpn, paged⟩, hpage, hrest⟩ := bind_eq_ok.mp hget
  have hsame := pgGetpage_runningList hpage
  cases fpn with
  | none =>
      cases hrest
      exact hsame
  | some fpn =>
      obtain ⟨⟨value, mram⟩, -, hdone⟩ := bind_eq_ok.mp hrest
      cases hdone
      exact hsame

theorem pgSetval_runningList {addr : Word32} {value : Byte} {status : Int}
    (hset : pgSetval krnl addr value = .ok (status, next)) :
    next.runningList = krnl.runningList := by
  obtain ⟨⟨fpn, paged⟩, hpage, hrest⟩ := bind_eq_ok.mp hset
  have hsame := pgGetpage_runningList hpage
  cases fpn with
  | none =>
      cases hrest
      exact hsame
  | some fpn =>
      obtain ⟨⟨written, mram⟩, -, hdone⟩ := bind_eq_ok.mp hrest
      cases hdone
      exact hsame

theorem readByte_runningList {rgid status : Int} {offset : Addr} {data : Option Byte}
    (hread : readByte krnl rgid offset = .ok (status, data, next)) :
    next.runningList = krnl.runningList := by
  unfold readByte at hread
  split at hread
  next =>
    cases hread
    rfl
  next =>
    obtain ⟨currg, -, hrest⟩ := bind_eq_ok.mp hread
    split at hrest
    next =>
      cases hrest
      rfl
    next =>
      split at hrest
      next =>
        cases hrest
        rfl
      next =>
        obtain ⟨⟨found, after⟩, hget, hdone⟩ := bind_eq_ok.mp hrest
        cases hdone
        exact pgGetval_runningList hget

theorem writeByte_runningList {vmaid rgid status : Int} {offset : Addr} {value : Byte}
    (hwrite : writeByte krnl vmaid rgid offset value = .ok (status, next)) :
    next.runningList = krnl.runningList := by
  obtain ⟨curVma, -, hrest⟩ := bind_eq_ok.mp hwrite
  split at hrest
  next =>
    obtain ⟨currg, -, hrest⟩ := bind_eq_ok.mp hrest
    obtain ⟨⟨result, after⟩, hset, hdone⟩ := bind_eq_ok.mp hrest
    cases hdone
    exact pgSetval_runningList hset
  next =>
    cases hrest
    rfl

/-- A library call permutes the list at most. -/
theorem LibCall.call_perm {operation : LibCall} {status : Int}
    (hcall : operation.call pidOf junk krnl pid = .ok (status, next)) :
    next.runningList.items.Perm krnl.runningList.items := by
  cases operation with
  | alloc size regIndex =>
      obtain ⟨⟨val, addr, middle⟩, halloc, hrest⟩ := bind_eq_ok.mp hcall
      have hperm := alloc_perm halloc
      simp only at hrest
      split at hrest
      next =>
        cases hrest
        exact hperm
      next =>
        obtain ⟨after, hdump, hdone⟩ := bind_eq_ok.mp hrest
        cases hdone
        rw [dumpPgtbl_runningList hdump]
        exact hperm
  | free regIndex =>
      obtain ⟨⟨val, mm⟩, -, hrest⟩ := bind_eq_ok.mp hcall
      simp only at hrest
      split at hrest
      next =>
        cases hrest
        exact List.Perm.refl _
      next =>
        obtain ⟨after, hdump, hdone⟩ := bind_eq_ok.mp hrest
        cases hdone
        rw [dumpPgtbl_runningList hdump]
  | read source offset =>
      obtain ⟨⟨val, destination, after⟩, hread, hdone⟩ := bind_eq_ok.mp hcall
      cases hdone
      obtain ⟨⟨found, data, middle⟩, hbyte, hrest⟩ := bind_eq_ok.mp hread
      obtain ⟨left, hdump, hdone⟩ := bind_eq_ok.mp hrest
      cases hdone
      rw [dumpPgtbl_runningList hdump, readByte_runningList hbyte]
  | write data destination offset =>
      obtain ⟨⟨val, middle⟩, hbyte, hrest⟩ := bind_eq_ok.mp hcall
      simp only at hrest
      split at hrest
      next =>
        cases hrest
        rw [writeByte_runningList hbyte]
      next =>
        obtain ⟨after, hdump, hdone⟩ := bind_eq_ok.mp hrest
        cases hdone
        rw [dumpPgtbl_runningList hdump, writeByte_runningList hbyte]

end SimpleOs
