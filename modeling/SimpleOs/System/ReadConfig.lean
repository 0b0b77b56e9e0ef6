import SimpleOs.System.ProgramText

/-! # The configuration file

`read_config` of `os.c`, as it is built with `MM_PAGING` and without `MM_FIXED_MEMSZ`: the
numbers of the machine, and a line for each process. A number that does not match leaves a
static variable at zero and an entry of an array as `malloc` left it.
-/

namespace SimpleOs

open Scan

/-- `PAGING_MAX_MMSWP` -/
def pagingMaxMmswp : Nat := 4

/-- The entries of the arrays in `ld_processes` for one process. -/
structure LdProcess where
  startTime : BitVec 64
  path : List Char
  prio : BitVec 64
  deriving DecidableEq

/-- The static variables that `read_config` sets. -/
structure ConfigArgs where
  timeSlot : Word32
  numCpus : Word32
  numProcesses : Word32
  memramsz : Word32
  memswpsz : List Word32
  ldProcesses : List LdProcess
  deriving DecidableEq

/-- `%d`. A number outside of the range of an `int` cannot be stored. -/
def scanInt (text : List Char) : Except LoadFailure (Option Word32 × List Char) :=
  match integer text with
  | (none, rest) => .ok (none, rest)
  | (some value, rest) =>
      if -2 ^ 31 ≤ value ∧ value < 2 ^ 31 then .ok (some (BitVec.ofInt 32 value), rest)
      else .error .undefined

/-- Some `%d` with white space after each, up to the first one that does not match. -/
def scanInts : Nat → List Char → Except LoadFailure (List Word32 × List Char)
  | 0, text => .ok ([], text)
  | count + 1, text => do
      match ← scanInt text with
      | (none, rest) => return ([], rest)
      | (some value, rest) =>
          let (values, rest) ← scanInts count (skipSpace rest)
          return (value :: values, rest)

/-- The loop over `memswpsz`, whose calls of `fscanf` do not depend on each other. -/
def scanMemswpsz : Nat → List Char → Except LoadFailure (List Word32 × List Char)
  | 0, text => .ok ([], text)
  | count + 1, text => do
      let (value, rest) ← scanInt text
      let (values, rest) ← scanMemswpsz count rest
      return (value.getD 0 :: values, rest)

/-- `input/proc/` -/
def procDirectory : List Char := ['i', 'n', 'p', 'u', 't', '/', 'p', 'r', 'o', 'c', '/']

/-- One pass of the loop over the processes. The name is read into an array of 100 characters
and appended to the directory in another one, which has no string to append while nothing was
read. -/
def scanLdProcess (unwritten : BitVec 64) (text : List Char) :
    Except LoadFailure (LdProcess × List Char) :=
  match unsigned text with
  | (none, _) => .error .undefined
  | (some startTime, rest) =>
      match token (skipSpace rest) with
      | (none, _) => .error .undefined
      | (some proc, rest) =>
          if proc.length < 100 ∧ (procDirectory ++ cString proc).length < 100 then
            let (prio, rest) := unsigned (skipSpace rest)
            .ok ({ startTime := startTime
                   path := procDirectory ++ cString proc
                   prio := prio.getD unwritten },
              if prio.isSome then skipSpace rest else rest)
          else .error .undefined

def scanLdProcesses (unwritten : Nat → BitVec 64) (index : Nat) :
    Nat → List Char → Except LoadFailure (List LdProcess)
  | 0, _ => .ok []
  | count + 1, text => do
      let (process, rest) ← scanLdProcess (unwritten index) text
      let processes ← scanLdProcesses unwritten (index + 1) count rest
      return process :: processes

/-- `read_config`, for the contents of the file. The loop over the processes makes no pass when
their number is negative. -/
def readConfig (unwritten : Nat → BitVec 64) (file : List Char) :
    Except LoadFailure ConfigArgs := do
  let (header, text) ← scanInts 3 file
  let (memory, text) ← scanInts 1 text
  let (memswpsz, text) ← scanMemswpsz pagingMaxMmswp text
  let numProcesses := header[2]?.getD 0
  let ldProcesses ← scanLdProcesses unwritten 0 numProcesses.toInt.toNat (skipSpace text)
  return {
    timeSlot := header[0]?.getD 0
    numCpus := header[1]?.getD 0
    numProcesses := numProcesses
    memramsz := memory[0]?.getD 0
    memswpsz := memswpsz
    ldProcesses := ldProcesses }

/-! ## What a file writes -/

/-- A process in the configuration, by the name of its file. -/
structure Job where
  startTime : BitVec 64
  name : List Char
  prio : BitVec 64
  deriving DecidableEq

def Job.ldProcess (job : Job) : LdProcess where
  startTime := job.startTime
  path := procDirectory ++ job.name
  prio := job.prio

/-- The name is one word, and fits the arrays. -/
structure Job.Named (job : Job) : Prop where
  name_ne_nil : job.name ≠ []
  name_word : ∀ char ∈ job.name, isSpace char = false ∧ char.toNat ≠ 0
  name_length : job.name.length < 89

def Job.words (job : Job) : List (List Char) :=
  [decimal job.startTime.toNat, job.name, decimal job.prio.toNat]

/-- The words of a configuration file. -/
def configWords (timeSlot numCpus memramsz : Word32) (memswpsz : List Word32)
    (jobs : List Job) : List (List Char) :=
  [timeSlot, numCpus, BitVec.ofNat 32 jobs.length, memramsz].map
      (fun value => decimalInt value.toInt) ++
    (memswpsz.map (fun value => decimalInt value.toInt) ++ jobs.flatMap Job.words)

variable {words : List (List Char)} {rest text : List Char}

theorem scanInt_of_begins {value : Word32}
    (hbegins : Begins (decimalInt value.toInt :: words) rest text) :
    ∃ left, scanInt text = .ok (some value, left) ∧ Begins words rest left := by
  obtain ⟨left, hread, hleft⟩ := hbegins.integer
  refine ⟨left, ?_, hleft⟩
  have hrange : -2 ^ 31 ≤ value.toInt ∧ value.toInt < 2 ^ 31 :=
    ⟨BitVec.le_toInt value, BitVec.toInt_lt⟩
  unfold scanInt
  simp only [hread, if_pos hrange, BitVec.ofInt_toInt]

theorem scanInts_of_begins {values : List Word32}
    (hbegins : Begins (values.map (fun value => decimalInt value.toInt) ++ words) rest text) :
    ∃ left, scanInts values.length text = .ok (values, left) ∧ Begins words rest left := by
  induction values generalizing text with
  | nil => exact ⟨text, rfl, hbegins⟩
  | cons value values ih =>
      obtain ⟨middle, hvalue, hmiddle⟩ := scanInt_of_begins hbegins
      obtain ⟨left, hvalues, hleft⟩ := ih hmiddle.skipSpace
      refine ⟨left, ?_, hleft⟩
      simp only [List.length_cons, scanInts, hvalue, bind, Except.bind, hvalues]
      rfl

theorem scanMemswpsz_of_begins {values : List Word32}
    (hbegins : Begins (values.map (fun value => decimalInt value.toInt) ++ words) rest text) :
    ∃ left, scanMemswpsz values.length text = .ok (values, left) ∧ Begins words rest left := by
  induction values generalizing text with
  | nil => exact ⟨text, rfl, hbegins⟩
  | cons value values ih =>
      obtain ⟨middle, hvalue, hmiddle⟩ := scanInt_of_begins hbegins
      obtain ⟨left, hvalues, hleft⟩ := ih hmiddle
      refine ⟨left, ?_, hleft⟩
      simp only [List.length_cons, scanMemswpsz, hvalue, bind, Except.bind, hvalues]
      rfl

theorem scanLdProcess_of_begins {job : Job} (hnamed : job.Named)
    (hbegins : Begins (job.words ++ words) rest text) (unwritten : BitVec 64) :
    ∃ left, scanLdProcess unwritten text = .ok (job.ldProcess, left) ∧
      Begins words rest left := by
  obtain ⟨first, hstart, hfirst⟩ := hbegins.unsigned
  obtain ⟨second, hname, hsecond⟩ :=
    hfirst.skipSpace.token hnamed.name_ne_nil fun char hchar => (hnamed.name_word char hchar).1
  obtain ⟨left, hprio, hleft⟩ := hsecond.skipSpace.unsigned
  have hstring : cString job.name = job.name :=
    cString_eq fun char hchar => (hnamed.name_word char hchar).2
  have hfits : job.name.length < 100 ∧ (procDirectory ++ job.name).length < 100 := by
    have hlength := hnamed.name_length
    have hdirectory : procDirectory.length = 11 := rfl
    rw [List.length_append, hdirectory]
    omega
  refine ⟨skipSpace left, ?_, hleft.skipSpace⟩
  unfold scanLdProcess
  simp only [hstart, hname, hstring, if_pos hfits, hprio]
  rfl

theorem scanLdProcesses_of_begins {jobs : List Job} (hnamed : ∀ job ∈ jobs, job.Named)
    (hbegins : Begins (jobs.flatMap Job.words ++ words) rest text)
    (unwritten : Nat → BitVec 64) (index : Nat) :
    scanLdProcesses unwritten index jobs.length text = .ok (jobs.map Job.ldProcess) := by
  induction jobs generalizing index text with
  | nil => rfl
  | cons job jobs ih =>
      rw [List.flatMap_cons, List.append_assoc] at hbegins
      obtain ⟨left, hjob, hleft⟩ :=
        scanLdProcess_of_begins (hnamed job List.mem_cons_self) hbegins (unwritten index)
      have hrest := ih (fun other hother => hnamed other (List.mem_cons_of_mem _ hother)) hleft
        (index + 1)
      simp only [List.length_cons, scanLdProcesses, hjob, bind, Except.bind, hrest]
      rfl

/-- `read_config` reads a configuration back from every file that consists of its words,
whatever stands between them and after them. -/
theorem readConfig_of_begins (unwritten : Nat → BitVec 64)
    (timeSlot numCpus memramsz : Word32) (memswpsz : List Word32) (jobs : List Job)
    (rest file : List Char) (hswaps : memswpsz.length = pagingMaxMmswp)
    (hjobs : jobs.length < 2 ^ 31) (hnamed : ∀ job ∈ jobs, job.Named)
    (hfile : Begins (configWords timeSlot numCpus memramsz memswpsz jobs) rest file) :
    readConfig unwritten file = .ok
      { timeSlot := timeSlot
        numCpus := numCpus
        numProcesses := BitVec.ofNat 32 jobs.length
        memramsz := memramsz
        memswpsz := memswpsz
        ldProcesses := jobs.map Job.ldProcess } := by
  have hcount : (BitVec.ofNat 32 jobs.length).toInt.toNat = jobs.length := by
    rw [BitVec.toInt_ofNat', Int.bmod_eq_of_le (by omega) (by omega)]
    rfl
  obtain ⟨first, hheader, hfirst⟩ := @scanInts_of_begins _ _ _
    [timeSlot, numCpus, BitVec.ofNat 32 jobs.length] hfile
  obtain ⟨second, hmemory, hsecond⟩ := @scanInts_of_begins _ _ _ [memramsz] hfirst
  obtain ⟨third, hswap, hthird⟩ := scanMemswpsz_of_begins hsecond
  have hprocesses := @scanLdProcesses_of_begins [] rest (skipSpace third) jobs hnamed
    (by rw [List.append_nil]; exact hthird.skipSpace) unwritten 0
  rw [hswaps] at hswap
  change scanInts 3 file = _ at hheader
  change scanInts 1 first = _ at hmemory
  unfold readConfig
  simp only [hheader, hmemory, hswap, bind, Except.bind, List.getElem?_cons_succ,
    List.getElem?_cons_zero, Option.getD_some, hcount, hprocesses]
  rfl

end SimpleOs
