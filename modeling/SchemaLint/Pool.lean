namespace SchemaLint

/-!
# Pools of workers

A pool takes a list of work and gives the list of results.  Work is an action of some
monad, which may do more than give a result.  Workers may interleave what they do, so all
that is known of a pool is the order of its results: it is the order of the work.
-/

section Gives

variable {m : Type → Type} [Monad m] {α β : Type}

/-- Whatever else the action does, its result is `answer`: nobody can tell the action from
the one that puts `answer` in the place of its result. -/
def Gives (action : m α) (answer : α) : Prop := (action >>= fun _ => pure answer) = action

theorem gives_id_iff {action : Id α} {answer : α} : Gives action answer ↔ action.run = answer :=
  eq_comm

variable [LawfulMonad m]

theorem gives_pure (answer : α) : Gives (pure answer : m α) answer := by
  rw [Gives, pure_bind]

/-- What follows an action can rely on its answer. -/
theorem Gives.bind_eq {action : m α} {answer : α} (h : Gives action answer) (next : α → m β) :
    action >>= next = action >>= fun _ => next answer := by
  rw [← h, bind_assoc, bind_assoc]
  simp only [pure_bind]

theorem Gives.bind {action : m α} {answer : α} {next : α → m β} {last : β}
    (h : Gives action answer) (hnext : Gives (next answer) last) :
    Gives (action >>= next) last := by
  rw [h.bind_eq, Gives, bind_assoc, hnext]

theorem Gives.map {action : m α} {answer : α} (h : Gives action answer) (f : α → β) :
    Gives (f <$> action) (f answer) := by
  rw [map_eq_pure_bind]
  exact h.bind (gives_pure _)

/-- Work done in order gives its results in order. -/
theorem gives_mapM {work : α → m β} {result : α → β} {list : List α}
    (h : ∀ item ∈ list, Gives (work item) (result item)) :
    Gives (list.mapM work) (list.map result) := by
  induction list with
  | nil => exact gives_pure []
  | cons item rest ih =>
      obtain ⟨hitem, hrest⟩ := List.forall_mem_cons.1 h
      rw [List.mapM_cons, List.map_cons]
      exact hitem.bind ((ih hrest).bind (gives_pure _))

end Gives

/-- A pool of workers for actions of a monad. -/
structure Pool (m : Type → Type) [Monad m] where
  collect : {α β : Type} → (α → m β) → List α → m (List β)
  ordered : ∀ {α β : Type} {work : α → m β} {result : α → β} {list : List α},
    (∀ item ∈ list, Gives (work item) (result item)) → Gives (collect work list) (list.map result)

namespace Pool

/-- A single worker who takes the work in order. -/
def single (m : Type → Type) [Monad m] [LawfulMonad m] : Pool m where
  collect work list := list.mapM work
  ordered := gives_mapM

/-- One task for each piece of work.  All tasks are started before the first result is
waited for. -/
def tasks : Pool Id where
  collect work list := (list.map fun item => Task.spawn fun _ => (work item).run).map Task.get
  ordered := by
    intro α β work result list h
    rw [gives_id_iff, Id.run, List.map_map]
    exact List.map_congr_left fun item hitem => gives_id_iff.1 (h item hitem)

/-- Pure work is done as if by `map`. -/
theorem collect_eq_map {α β : Type} (pool : Pool Id) (work : α → Id β) (list : List α) :
    (pool.collect work list).run = list.map fun item => (work item).run :=
  gives_id_iff.1 (pool.ordered fun _ _ => gives_id_iff.2 rfl)

end Pool

end SchemaLint
