import Mathlib.Data.List.DropRight
import SimpleOs.Foundation.Laps
import SimpleOs.Sched.Queue
import SimpleOs.Sched.Sched

/-! # The scheduling policy

What the multilevel queue is for: each level is served in the order of arrival, and the most
urgent level with something to do goes first, except that it is passed over once for the next
one each time it has been served as often in a row as it has slots. The policy looks at what
was served so far, and needs no variables of its own.
-/

namespace SimpleOs

variable {Proc : Type}

/-- The critical sections of `queue_lock`. `put_proc` and `add_proc` take the lock for each of
their two insertions. A system call changes the running list under a lock of its own. -/
inductive LockedCall (Proc : Type) where
  | enqueueRunning (proc : Proc)
  | enqueueReady (proc : Proc)
  | getProc
  | searchRunning (left : ProcQueue Proc)

def LockedCall.selects : LockedCall Proc → Bool
  | .getProc => true
  | _ => false

/-- The queues of the levels, with all processes that they took in and that were served, in
this order. -/
structure Mlq (Proc : Type) where
  waiting : Fin maxPrio → List Proc
  taken : List Proc
  served : List Proc

namespace Mlq

def start : Mlq Proc where
  waiting _ := []
  taken := []
  served := []

/-- How many processes in a row were served at the level, up to now. -/
def streak (prio : Proc → Nat) (served : List Proc) (level : Fin maxPrio) : Nat :=
  (served.rtakeWhile fun proc => prio proc = level).length

/-- The slots of a level. -/
def quota (level : Fin maxPrio) : Nat := maxPrio - level

/-- The level has just had all its slots, once or several times. -/
def Sated (prio : Proc → Nat) (mlq : Mlq Proc) (level : Fin maxPrio) : Prop :=
  0 < streak prio mlq.served level ∧ quota level ∣ streak prio mlq.served level

/-- The first level with a process. -/
def Urgent (mlq : Mlq Proc) (level : Fin maxPrio) : Prop :=
  mlq.waiting level ≠ [] ∧ ∀ above < level, mlq.waiting above = []

/-- The next level with a process. -/
def Follows (mlq : Mlq Proc) (urgent level : Fin maxPrio) : Prop :=
  urgent < level ∧ mlq.waiting level ≠ [] ∧
    ∀ between, urgent < between → between < level → mlq.waiting between = []

/-- Whose turn it is. -/
inductive Selected (prio : Proc → Nat) (mlq : Mlq Proc) : Fin maxPrio → Prop where
  | urgent {level} (hurgent : mlq.Urgent level) (hquota : ¬ mlq.Sated prio level) :
      Selected prio mlq level
  | next {urgent level} (hurgent : mlq.Urgent urgent) (hsated : mlq.Sated prio urgent)
      (hfollows : mlq.Follows urgent level) : Selected prio mlq level
  | alone {level} (hurgent : mlq.Urgent level)
      (hothers : ∀ other, other ≠ level → mlq.waiting other = []) : Selected prio mlq level

/-- What a critical section does. A level that is full takes nothing in. -/
inductive Step (prio : Proc → Nat) (mlq : Mlq Proc) : LockedCall Proc → Mlq Proc → Prop where
  | list {proc} : Step prio mlq (.enqueueRunning proc) mlq
  | search {left} : Step prio mlq (.searchRunning left) mlq
  | take {proc level} (hprio : prio proc = level.val)
      (hroom : (mlq.waiting level).length < maxQueueSize) :
      Step prio mlq (.enqueueReady proc)
        { mlq with
          waiting := Function.update mlq.waiting level (mlq.waiting level ++ [proc])
          taken := mlq.taken ++ [proc] }
  | refuse {proc level} (hprio : prio proc = level.val)
      (hfull : maxQueueSize ≤ (mlq.waiting level).length) :
      Step prio mlq (.enqueueReady proc) mlq
  | idle (hempty : ∀ level, mlq.waiting level = []) : Step prio mlq .getProc mlq
  | serve {level proc rest} (hselected : mlq.Selected prio level)
      (hready : mlq.waiting level = proc :: rest) :
      Step prio mlq .getProc
        { mlq with
          waiting := Function.update mlq.waiting level rest
          served := mlq.served ++ [proc] }

/-- A run of the policy. -/
inductive Run (prio : Proc → Nat) : Mlq Proc → List (LockedCall Proc) → Mlq Proc → Prop where
  | nil {mlq} : Run prio mlq [] mlq
  | cons {mlq call next calls final} (hstep : Step prio mlq call next)
      (hrest : Run prio next calls final) : Run prio mlq (call :: calls) final

variable {prio : Proc → Nat} {mlq next final : Mlq Proc} {call : LockedCall Proc}
  {calls : List (LockedCall Proc)}

theorem quota_pos (level : Fin maxPrio) : 0 < quota level := Nat.sub_pos_of_lt level.isLt

theorem Urgent.unique {level other : Fin maxPrio} (hlevel : mlq.Urgent level)
    (hother : mlq.Urgent other) : level = other := by
  rcases lt_trichotomy level other with hlt | heq | hgt
  · exact absurd (hother.2 level hlt) hlevel.1
  · exact heq
  · exact absurd (hlevel.2 other hgt) hother.1

theorem Follows.unique {urgent level other : Fin maxPrio} (hlevel : mlq.Follows urgent level)
    (hother : mlq.Follows urgent other) : level = other := by
  rcases lt_trichotomy level other with hlt | heq | hgt
  · exact absurd (hother.2.2 level hlevel.1 hlt) hlevel.2.1
  · exact heq
  · exact absurd (hlevel.2.2 other hother.1 hgt) hother.2.1

/-- The policy leaves no choice. -/
theorem Selected.unique {level other : Fin maxPrio} (hlevel : mlq.Selected prio level)
    (hother : mlq.Selected prio other) : level = other := by
  cases hlevel with
  | urgent hurgent hquota =>
      cases hother with
      | urgent hagain => exact hurgent.unique hagain
      | next hagain hsated => exact absurd (hurgent.unique hagain ▸ hsated) hquota
      | alone hagain => exact hurgent.unique hagain
  | next hurgent hsated hfollows =>
      cases hother with
      | urgent hagain hquota => exact absurd (hurgent.unique hagain ▸ hsated) hquota
      | next hagain _ hagainFollows =>
          exact hfollows.unique (hurgent.unique hagain ▸ hagainFollows)
      | alone hagain hothers =>
          have hne := (hurgent.unique hagain ▸ hfollows.1).ne'
          exact absurd (hothers _ hne) hfollows.2.1
  | alone hurgent hothers =>
      cases hother with
      | urgent hagain => exact hurgent.unique hagain
      | next hagain _ hfollows =>
          have hne := (hagain.unique hurgent ▸ hfollows.1).ne'
          exact absurd (hothers _ hne) hfollows.2.1
      | alone hagain => exact hurgent.unique hagain

theorem Selected.nonempty {level : Fin maxPrio} (hselected : mlq.Selected prio level) :
    mlq.waiting level ≠ [] := by
  cases hselected with
  | urgent hurgent => exact hurgent.1
  | next _ _ hfollows => exact hfollows.2.1
  | alone hurgent => exact hurgent.1

theorem Step.unique {other : Mlq Proc} (hstep : Step prio mlq call next)
    (hother : Step prio mlq call other) : next = other := by
  cases hstep with
  | list =>
      cases hother with
      | list => rfl
  | search =>
      cases hother with
      | search => rfl
  | take hprio hroom =>
      cases hother with
      | take hagain =>
          obtain rfl := Fin.ext (hprio.symm.trans hagain)
          rfl
      | refuse hagain hfull =>
          obtain rfl := Fin.ext (hprio.symm.trans hagain)
          exact absurd hroom (Nat.not_lt.mpr hfull)
  | refuse hprio hfull =>
      cases hother with
      | take hagain hroom =>
          obtain rfl := Fin.ext (hprio.symm.trans hagain)
          exact absurd hroom (Nat.not_lt.mpr hfull)
      | refuse => rfl
  | idle hempty =>
      cases hother with
      | idle => rfl
      | serve hselected => exact absurd (hempty _) hselected.nonempty
  | serve hselected hready =>
      cases hother with
      | idle hempty => exact absurd (hempty _) hselected.nonempty
      | serve hagain hfront =>
          obtain rfl := hselected.unique hagain
          obtain ⟨rfl, rfl⟩ := List.cons.inj (hready.symm.trans hfront)
          rfl

theorem Run.unique {other : Mlq Proc} (hrun : Run prio mlq calls final)
    (hother : Run prio mlq calls other) : final = other := by
  induction hrun with
  | nil =>
      cases hother with
      | nil => rfl
  | cons hstep hrest ih =>
      cases hother with
      | cons hagain hlater => exact ih (hstep.unique hagain ▸ hlater)

/-- At most one level is passed over: the one that has just had all its slots. -/
theorem Selected.empty_above {level : Fin maxPrio} (hselected : mlq.Selected prio level)
    {first second : Fin maxPrio} (hfirst : first < second) (hsecond : second < level) :
    mlq.waiting first = [] ∨ mlq.waiting second = [] := by
  cases hselected with
  | urgent hurgent => exact Or.inr (hurgent.2 second hsecond)
  | @next urgent _ hurgent hsated hfollows =>
      rcases lt_or_ge urgent second with hbelow | habove
      · exact Or.inr (hfollows.2.2 second hbelow hsecond)
      · exact Or.inl (hurgent.2 first (hfirst.trans_le habove))
  | alone hurgent => exact Or.inr (hurgent.2 second hsecond)

theorem Step.served_prefix (hstep : Step prio mlq call next) : mlq.served <+: next.served := by
  cases hstep with
  | serve => exact List.prefix_append _ _
  | _ => exact List.prefix_rfl

theorem Run.served_prefix (hrun : Run prio mlq calls final) : mlq.served <+: final.served := by
  induction hrun with
  | nil => exact List.prefix_rfl
  | cons hstep hrest ih => exact hstep.served_prefix.trans ih

/-! ## Order of service -/

/-- A level serves what it took in, in this order, and the rest is waiting. -/
def Ordered (prio : Proc → Nat) (mlq : Mlq Proc) : Prop :=
  ∀ level : Fin maxPrio, (mlq.taken.filter fun proc => prio proc = level) =
    (mlq.served.filter fun proc => prio proc = level) ++ mlq.waiting level

theorem Ordered.prio_eq (hordered : mlq.Ordered prio) {level : Fin maxPrio} {proc : Proc}
    (hproc : proc ∈ mlq.waiting level) : prio proc = level := by
  have htaken : proc ∈ mlq.taken.filter fun proc => prio proc = level := by
    rw [hordered level]
    exact List.mem_append_right _ hproc
  simpa using (List.mem_filter.mp htaken).2

theorem Ordered.step (hordered : mlq.Ordered prio) (hstep : Step prio mlq call next) :
    next.Ordered prio := by
  intro other
  cases hstep with
  | list => exact hordered other
  | search => exact hordered other
  | @take proc level hprio hroom =>
      change (mlq.taken ++ [proc]).filter _ =
        _ ++ Function.update mlq.waiting level (mlq.waiting level ++ [proc]) other
      rw [List.filter_append, hordered other, List.append_assoc]
      by_cases hsame : other = level
      · subst hsame
        simp [hprio]
      · have hne : prio proc ≠ other := fun heq => hsame (Fin.ext (heq.symm.trans hprio))
        simp [hne, hsame]
  | refuse => exact hordered other
  | idle => exact hordered other
  | @serve level proc rest hselected hready =>
      have hprio := hordered.prio_eq (hready ▸ List.mem_cons_self)
      change _ = (mlq.served ++ [proc]).filter _ ++ Function.update mlq.waiting level rest other
      rw [List.filter_append, hordered other, List.append_assoc]
      by_cases hsame : other = level
      · subst hsame
        simp [hprio, hready]
      · have hne : prio proc ≠ other := fun heq => hsame (Fin.ext (heq.symm.trans hprio))
        simp [hne, hsame]

/-- Below two levels with processes nothing is served. -/
theorem Step.served_filter (hstep : Step prio mlq call next) (hordered : mlq.Ordered prio)
    {level : Fin maxPrio}
    (habove : call.selects = true → ∃ first second, first < second ∧ second < level ∧
      mlq.waiting first ≠ [] ∧ mlq.waiting second ≠ []) :
    (next.served.filter fun proc => prio proc = level) =
      mlq.served.filter fun proc => prio proc = level := by
  cases hstep with
  | @serve other proc rest hselected hready =>
      obtain ⟨first, second, hfirst, hsecond, hbusy, halso⟩ := habove rfl
      have hprio := hordered.prio_eq (hready ▸ List.mem_cons_self)
      have hne : prio proc ≠ level := by
        intro heq
        obtain rfl : other = level := Fin.ext (hprio.symm.trans heq)
        exact (hselected.empty_above hfirst hsecond).elim hbusy halso
      simp [hne]
  | _ => rfl

/-! ## How long a process waits -/

/-- The slots that the level has used up. -/
def slotsUsed (prio : Proc → Nat) (mlq : Mlq Proc) (level : Fin maxPrio) : Nat :=
  Laps.lap (quota level) (streak prio mlq.served level)

/-- The process waits at the level, with so many before it. -/
def Waits (mlq : Mlq Proc) (level : Fin maxPrio) (proc : Proc) (position : Nat) : Prop :=
  ∃ before after, mlq.waiting level = before ++ proc :: after ∧ before.length = position

/-- The selections until a process of the most urgent level is served. -/
def turnsLeft (prio : Proc → Nat) (mlq : Mlq Proc) (level : Fin maxPrio) (position : Nat) : Nat :=
  Laps.turnsUntil (quota level) (mlq.slotsUsed prio level) position

theorem sated_iff {level : Fin maxPrio} :
    mlq.Sated prio level ↔ mlq.slotsUsed prio level = quota level :=
  (Laps.lap_eq_iff (quota_pos level) _).symm

theorem streak_append (served : List Proc) (proc : Proc) (level : Fin maxPrio) :
    streak prio (served ++ [proc]) level =
      if prio proc = level then streak prio served level + 1 else 0 := by
  unfold streak
  rw [List.rtakeWhile_concat]
  by_cases hlevel : prio proc = level <;> simp [hlevel]

theorem slotsUsed_served {level : Fin maxPrio} {proc : Proc} {waiting : Fin maxPrio → List Proc}
    (hprio : prio proc = level) :
    ({ mlq with waiting := waiting, served := mlq.served ++ [proc] } : Mlq Proc).slotsUsed prio
        level =
      if mlq.slotsUsed prio level = quota level then 1 else mlq.slotsUsed prio level + 1 := by
  unfold slotsUsed
  rw [streak_append, if_pos hprio]
  exact Laps.lap_succ (quota_pos level) _

theorem slotsUsed_other {level : Fin maxPrio} {proc : Proc} {waiting : Fin maxPrio → List Proc}
    (hprio : prio proc ≠ level) :
    ({ mlq with waiting := waiting, served := mlq.served ++ [proc] } : Mlq Proc).slotsUsed prio
        level = 0 := by
  unfold slotsUsed
  rw [streak_append, if_neg hprio]
  rfl

variable {level : Fin maxPrio} {proc : Proc} {position : Nat}

theorem turnsLeft_congr (hserved : next.served = mlq.served) :
    next.turnsLeft prio level position = mlq.turnsLeft prio level position := by
  unfold turnsLeft slotsUsed
  rw [hserved]

/-- A selection serves the process, or brings it nearer to being served. -/
def Nearer (prio : Proc → Nat) (mlq next : Mlq Proc) (level : Fin maxPrio) (proc : Proc)
    (position : Nat) : Prop :=
  next.served = mlq.served ++ [proc] ∨
    ∃ other left, next.served = mlq.served ++ [other] ∧ next.Waits level proc left ∧
      next.turnsLeft prio level left + 1 ≤ mlq.turnsLeft prio level position

/-- Its own level is served. -/
theorem Waits.served (hwaits : mlq.Waits level proc position) {front : Proc} {rest : List Proc}
    (hready : mlq.waiting level = front :: rest) (hprio : prio front = level) :
    Nearer prio mlq
      { mlq with
        waiting := Function.update mlq.waiting level rest
        served := mlq.served ++ [front] } level proc position := by
  obtain ⟨before, after, hsplit, rfl⟩ := hwaits
  rw [hready] at hsplit
  cases before with
  | nil =>
      obtain ⟨rfl, -⟩ := List.cons.inj hsplit
      exact Or.inl rfl
  | cons head before =>
      obtain ⟨rfl, hrest⟩ := List.cons.inj hsplit
      refine Or.inr ⟨front, before.length, rfl, ⟨before, after, ?_, rfl⟩, ?_⟩
      · change Function.update mlq.waiting level rest level = _
        rw [Function.update_self]
        exact hrest
      · unfold turnsLeft
        rw [slotsUsed_served hprio, List.length_cons]
        split
        next hsated =>
          rw [hsated]
          exact Laps.turnsUntil_again (quota_pos level) _
        next => exact (Laps.turnsUntil_served _ _ _).le

/-- Its level has had all its slots, and is passed over. -/
theorem Waits.passed (hwaits : mlq.Waits level proc position) {other : Fin maxPrio}
    {front : Proc} {rest : List Proc} (hother : other ≠ level) (hprio : prio front = other)
    (hsated : mlq.Sated prio level) :
    Nearer prio mlq
      { mlq with
        waiting := Function.update mlq.waiting other rest
        served := mlq.served ++ [front] } level proc position := by
  obtain ⟨before, after, hsplit, hlength⟩ := hwaits
  have hlevel : prio front ≠ level := fun heq => hother (Fin.ext (hprio.symm.trans heq))
  refine Or.inr ⟨front, position, rfl, ⟨before, after, ?_, hlength⟩, ?_⟩
  · change Function.update mlq.waiting other rest level = _
    rw [Function.update_of_ne hother.symm, hsplit]
  · unfold turnsLeft
    rw [slotsUsed_other hlevel, sated_iff.mp hsated]
    exact (Laps.turnsUntil_passed (quota_pos level) _).le

/-- A selection while no level above holds a process. -/
theorem Waits.getProc (hwaits : mlq.Waits level proc position) (hordered : mlq.Ordered prio)
    (habove : ∀ above < level, mlq.waiting above = []) (hstep : Step prio mlq .getProc next) :
    Nearer prio mlq next level proc position := by
  have hnonempty : mlq.waiting level ≠ [] := by
    obtain ⟨before, after, hsplit, -⟩ := hwaits
    simp [hsplit]
  have hurgent : mlq.Urgent level := ⟨hnonempty, habove⟩
  cases hstep with
  | idle hempty => exact absurd (hempty level) hnonempty
  | @serve other front rest hselected hready =>
      have hprio := hordered.prio_eq (hready ▸ List.mem_cons_self)
      by_cases hsame : other = level
      · subst hsame
        exact hwaits.served hready hprio
      · cases hselected with
        | urgent hagain => exact absurd (hagain.unique hurgent) hsame
        | next hagain hsated =>
            exact hwaits.passed hsame hprio (hagain.unique hurgent ▸ hsated)
        | alone hagain => exact absurd (hagain.unique hurgent) hsame

/-- Only a selection makes a process move up. -/
theorem Waits.keep (hwaits : mlq.Waits level proc position) (hstep : Step prio mlq call next)
    (hcall : call.selects = false) : next.served = mlq.served ∧ next.Waits level proc position := by
  cases hstep with
  | list => exact ⟨rfl, hwaits⟩
  | search => exact ⟨rfl, hwaits⟩
  | @take newcomer other hprio hroom =>
      obtain ⟨before, after, hsplit, hlength⟩ := hwaits
      refine ⟨rfl, ?_⟩
      by_cases hsame : level = other
      · subst hsame
        refine ⟨before, after ++ [newcomer], ?_, hlength⟩
        change Function.update mlq.waiting level (mlq.waiting level ++ [newcomer]) level = _
        rw [Function.update_self, hsplit, List.append_assoc]
        rfl
      · refine ⟨before, after, ?_, hlength⟩
        change Function.update mlq.waiting other (mlq.waiting other ++ [newcomer]) level = _
        rw [Function.update_of_ne hsame, hsplit]
  | refuse => exact ⟨rfl, hwaits⟩
  | idle => cases hcall
  | serve => cases hcall

end Mlq

end SimpleOs
