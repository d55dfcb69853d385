/-
JobPool.Proofs.Pool.Account — where the jobs of a pool are.

Jobs are counted as they come and go: what loops held before a change, with what was
taken in it, is what they hold after it, with what was finished and lost
(`Pool.Accounts`). A crashed loop has lost its job and stays busy, so the number of
busy loops counts jobs that were taken and not finished, lost ones included.
-/
import Mathlib.Algebra.Order.Group.Multiset
import JobPool.Proofs.Pool.Sound

namespace JobPool
namespace Pool

/-- The jobs that loops hold. -/
def inHand (p : Pool) : Multiset Job := (p.loops.filterMap (·.job?) : List Job)

/-- How many loops are busy. -/
def busyCount (p : Pool) : Nat := p.loops.countP (·.isBusy)

/-- The books from `p` to `q`, with the deeds `ds` between them. -/
structure Accounts (p : Pool) (ds : List Deed) (q : Pool) : Prop where
  jobs : p.inHand + ↑(Deed.takenIn ds) =
    q.inHand + ↑((Deed.finishedIn ds).map Prod.fst) + ↑(Deed.lostIn ds)
  busy : p.busyCount + (Deed.takenIn ds).length = q.busyCount + (Deed.finishedIn ds).length

namespace Accounts

theorem of_loops {p q : Pool} {ds : List Deed}
    (jobs : q.loops.filterMap (·.job?) = p.loops.filterMap (·.job?))
    (busy : q.loops.countP (·.isBusy) = p.loops.countP (·.isBusy)) (jobless : Deed.Jobless ds) :
    Accounts p ds q := by
  obtain ⟨taken, finished, lost⟩ := jobless
  constructor
  · simp [inHand, jobs, taken, finished, lost]
  · simp [busyCount, busy, taken, finished]

theorem trans {p q r : Pool} {ds es : List Deed} (first : Accounts p ds q)
    (second : Accounts q es r) : Accounts p (ds ++ es) r where
  jobs := by
    have split : ∀ xs ys : List Job, ((xs ++ ys : List Job) : Multiset Job) = ↑xs + ↑ys :=
      fun xs ys => (Multiset.coe_add xs ys).symm
    simp only [Deed.takenIn, Deed.finishedIn, Deed.lostIn, List.filterMap_append, List.map_append,
      split]
    calc p.inHand + (↑(Deed.takenIn ds) + ↑(Deed.takenIn es))
        = q.inHand + ↑((Deed.finishedIn ds).map Prod.fst) + ↑(Deed.lostIn ds) +
            ↑(Deed.takenIn es) := by rw [← add_assoc, first.jobs]
      _ = q.inHand + ↑(Deed.takenIn es) + ↑((Deed.finishedIn ds).map Prod.fst) +
            ↑(Deed.lostIn ds) := by ac_rfl
      _ = _ := by
        rw [second.jobs]
        simp only [Deed.finishedIn, Deed.lostIn]
        ac_rfl
  busy := by
    have busy := first.busy
    have busy' := second.busy
    simp only [Deed.takenIn, Deed.finishedIn, List.filterMap_append,
      List.length_append] at busy busy' ⊢
    omega

/-- A loop changes its phase: what it held and what it holds have to agree with the
deed, and so does whether it is busy. -/
theorem of_setPhase {p q : Pool} {i : LoopId} {l : Loop} {phase : Loop.Phase} {ds : List Deed}
    (found : p.loops[i]? = some l)
    (loops : q.loops = p.loops.modify i fun l => { l with phase })
    (jobs : (l.job?.toList : Multiset Job) + ↑(Deed.takenIn ds) =
      ({ l with phase } : Loop).job?.toList + ↑((Deed.finishedIn ds).map Prod.fst) +
        ↑(Deed.lostIn ds))
    (busy : l.isBusy.toNat + (Deed.takenIn ds).length =
      ({ l with phase } : Loop).isBusy.toNat + (Deed.finishedIn ds).length) :
    Accounts p ds q := by
  obtain ⟨rest, perm, perm'⟩ := exists_perm_modify found
  have perm' := perm' fun l => { l with phase }
  rw [← loops] at perm'
  have hands : ∀ (r : Pool) (a : Loop), r.loops.Perm (a :: rest) →
      r.inHand = ↑a.job?.toList + ↑(rest.filterMap (·.job?)) := by
    intro r a perm
    rw [inHand, Multiset.coe_eq_coe.2 (perm.filterMap _), Multiset.coe_add, Multiset.coe_eq_coe]
    cases h : a.job? <;> simp [h]
  have counts : ∀ (r : Pool) (a : Loop), r.loops.Perm (a :: rest) →
      r.busyCount = a.isBusy.toNat + rest.countP (·.isBusy) := by
    intro r a perm
    rw [busyCount, perm.countP_eq, List.countP_cons]
    cases a.isBusy <;> simp [Nat.add_comm]
  constructor
  · rw [hands p l perm, hands q _ perm']
    calc _ = ((l.job?.toList : Multiset Job) + ↑(Deed.takenIn ds)) +
            ↑(rest.filterMap (·.job?)) := by ac_rfl
      _ = _ := by
        rw [jobs]
        ac_rfl
  · rw [counts p l perm, counts q _ perm']
    omega

end Accounts

theorem job?_of_free {l : Loop} (h : l.isBusy = false) : l.job? = none := by
  cases phase : l.phase <;> simp [Loop.isBusy, Loop.job?, phase] at h ⊢

theorem job?_of_running {l : Loop} {r : Run} (h : l.phase = .running r) :
    l.job? = some r.job ∧ l.isBusy = true := by
  simp [Loop.job?, Loop.isBusy, h]

/-- A loop that is not busy, before or after, changes nothing in the books. -/
theorem accounts_of_free {p q : Pool} {i : LoopId} {l : Loop} {phase : Loop.Phase}
    (found : p.loops[i]? = some l)
    (loops : q.loops = p.loops.modify i fun l => { l with phase })
    (free : l.isBusy = false) (stays : ({ l with phase } : Loop).isBusy = false)
    {ds : List Deed} (jobless : Deed.Jobless ds) : Accounts p ds q := by
  obtain ⟨taken, finished, lost⟩ := jobless
  refine .of_setPhase found loops ?_ ?_
  · rw [job?_of_free free, job?_of_free stays, taken, finished, lost]
    rfl
  · rw [free, stays, taken, finished]
    rfl

/-- A run goes on in its loop. -/
theorem accounts_of_running {p q : Pool} {i : LoopId} {l : Loop} {r r' : Run} {ds : List Deed}
    (found : p.loops[i]? = some l) (running : l.phase = .running r)
    (loops : q.loops = p.loops.modify i fun l => { l with phase := .running r' })
    (job : r'.job = r.job) (jobless : Deed.Jobless ds) : Accounts p ds q := by
  obtain ⟨taken, finished, lost⟩ := jobless
  refine .of_setPhase found loops ?_ ?_
  · rw [(job?_of_running running).1, (job?_of_running (r := r') rfl).1, taken, finished, lost, job]
    rfl
  · rw [(job?_of_running running).2, taken, finished]
    rfl

theorem accounts_of_finish {p q : Pool} {i : LoopId} {l : Loop} {r : Run} {success : Bool}
    {phase : Loop.Phase} (found : p.loops[i]? = some l) (running : l.phase = .running r)
    (loops : q.loops = p.loops.modify i fun l => { l with phase })
    (stays : ({ l with phase } : Loop).isBusy = false) :
    Accounts p [.finished i r.job success] q := by
  refine .of_setPhase found loops ?_ ?_
  · rw [(job?_of_running running).1, job?_of_free stays]
    rfl
  · rw [(job?_of_running running).2, stays]
    rfl

theorem accounts_of_change {p q : Pool} {d : Option Deed} (h : Change p d q) :
    Accounts p d.toList q := by
  cases h with
  | aside aside =>
    exact .of_loops (by rw [aside.beside.loops]) (by rw [aside.beside.loops]) aside.jobless
  | add wall _ _ =>
    exact .of_loops (by simp [addWorker, Loop.job?]) (by simp [addWorker, Loop.isBusy])
      Deed.jobless_nil
  | restart wall _ _ _ _ _ =>
    exact .of_loops (by simp [Loop.job?]) (by simp [Loop.isBusy]) Deed.jobless_nil
  | stop wall w =>
    have same := (congrArg Pool.loops (p.asked_stopWorker wall w).rest :)
    exact .of_loops (by rw [same]) (by rw [same]) Deed.jobless_nil
  | leave _ => exact .of_loops rfl rfl Deed.jobless_nil
  | halt wall _ _ asked =>
    have same := (congrArg Pool.loops asked.rest :)
    exact .of_loops (congrArg (List.filterMap _) same) (congrArg (List.countP _) same)
      ⟨rfl, rfl, rfl⟩
  | drain wall _ _ asked _ =>
    have same := (congrArg Pool.loops asked.rest :)
    exact .of_loops (congrArg (List.filterMap _) same) (congrArg (List.countP _) same)
      ⟨rfl, rfl, rfl⟩
  | notify =>
    have busy : ∀ l : Loop, l.notify.isBusy = l.isBusy := fun l => (alike_notify l).busy
    have job : ∀ l : Loop, l.notify.job? = l.job? := by
      intro l
      cases phase : l.phase <;> simp [Loop.notify, Loop.job?, phase]
    refine .of_loops ?_ ?_ Deed.jobless_nil
    · simp [notifyAll, List.filterMap_map, job]
    · simp [notifyAll, List.countP_map, Function.comp_def, busy]
  | park wake found looking =>
    exact accounts_of_free found rfl (Loop.free_of_looking looking) rfl ⟨rfl, rfl, rfl⟩
  | wake found parked =>
    exact accounts_of_free found rfl (Loop.free_of_parked parked) rfl Deed.jobless_nil
  | endLoop wall found free _ => exact accounts_of_free found rfl free rfl Deed.jobless_nil
  | @take i l job now found looking _ =>
    have free := Loop.free_of_looking looking
    refine .of_setPhase found rfl ?_ ?_
    · rw [job?_of_free free]
      rfl
    · rw [free]
      rfl
  | run found running turn =>
    exact accounts_of_running found running rfl (Run.turned_of_turn turn).next.1 ⟨rfl, rfl, rfl⟩
  | cutShort found running turn =>
    exact accounts_of_running found running rfl (Run.turned_of_turn turn).next.1 ⟨rfl, rfl, rfl⟩
  | crash found running _ =>
    refine .of_setPhase found rfl ?_ ?_
    · rw [(job?_of_running running).1]
      rfl
    · rw [(job?_of_running running).2]
      rfl
  | finish wall found running _ _ =>
    refine accounts_of_finish found running rfl ?_
    split <;> rfl
  | finishLate wall found running _ _ => exact accounts_of_finish found running rfl rfl

theorem accounts_of_changes {p q : Pool} {ds : List Deed} (h : Changes p ds q) :
    Accounts p ds q := by
  induction h with
  | refl p => exact .of_loops rfl rfl Deed.jobless_nil
  | head first _ ih => exact (accounts_of_change first).trans ih

end Pool
end JobPool
